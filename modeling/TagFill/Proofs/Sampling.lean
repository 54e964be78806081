import Mathlib.Algebra.Ring.Nat
import TagFill.Proofs.Reading

/-! # Uniform numbers

A number between two bounds never leaves them, whatever words are drawn, and each number between the
bounds comes from some word.
-/

namespace TagFill

/-- `n` bytes of the charset. -/
def IsText (n : Nat) (charset b : Bytes) : Prop := b.length = n ∧ ∀ x ∈ b, x ∈ charset

instance (n : Nat) (charset b : Bytes) : Decidable (IsText n charset b) :=
  have := List.decidableBAll (· ∈ charset) b
  inferInstanceAs (Decidable (b.length = n ∧ ∀ x ∈ b, x ∈ charset))

namespace Stream

/-! ## Words -/

theorem littleEndian_lt (b : Bytes) : littleEndian b < 256 ^ b.length := by
  induction b with
  | nil => decide
  | cons x b ih =>
    have hx := x.toNat_lt
    rw [littleEndian, List.length_cons, Nat.pow_succ]
    omega

theorem Width.modulus_eq (w : Width) : w.modulus = 256 ^ w.bytes := by
  cases w <;> rfl

theorem Width.modulus_pos (w : Width) : 0 < w.modulus := by
  cases w <;> decide

theorem number_lt (w : Width) (s : Stream) : (number w s).1 < w.modulus := by
  have h := littleEndian_lt ((List.range w.bytes).map fun i => s.byte (s.position + i))
  rw [List.length_map, List.length_range, ← Width.modulus_eq] at h
  exact h

/-! ## Scaling -/

/-- What `x` scales to in `0 ..< size`, out of `m` values. Where the part that is cut off is large,
`y` may bring a carry. -/
def scale (m size x y : Nat) : Nat :=
  x * size / m +
    if x * size % m ≤ m - size then 0 else (x * size % m + y * size / m) / m

variable {m size x y t : Nat}

theorem scale_lt (hx : x < m) (hy : y < m) (hpos : 0 < size) (hsize : size ≤ m) :
    scale m size x y < size := by
  have hm : 0 < m := by omega
  have hdiv := Nat.div_add_mod (x * size) m
  have hcut := Nat.mod_lt (x * size) hm
  unfold scale
  generalize x * size / m = q at *
  generalize x * size % m = r at *
  split
  · have hlt : m * q < m * size := by
      have := Nat.mul_lt_mul_of_pos_right hx hpos
      omega
    exact Nat.lt_of_mul_lt_mul_left hlt
  · rename_i hr
    -- The next word would scale past `q + 1`, so `q + 1` is still below `size`.
    have hnext : m * (q + 1) < m * size := by
      have : (x + 1) * size ≤ m * size := Nat.mul_le_mul_right size hx
      rw [Nat.add_mul, Nat.one_mul] at this
      rw [Nat.mul_add, Nat.mul_one]
      omega
    have hq := Nat.lt_of_mul_lt_mul_left hnext
    have hyscaled : y * size / m < size := by
      rw [Nat.div_lt_iff_lt_mul hm, Nat.mul_comm size]
      exact Nat.mul_lt_mul_of_pos_right hy hpos
    have hcarry : (r + y * size / m) / m < 2 := by
      rw [Nat.div_lt_iff_lt_mul hm]
      omega
    omega

theorem scale_ceil (ht : t < size) (hsize : size ≤ m) :
    ∃ x < m, scale m size x 0 = t := by
  have hpos : 0 < size := by omega
  have hm : 0 < m := by omega
  have hceil := Nat.div_add_mod (t * m + (size - 1)) size
  have hrest := Nat.mod_lt (t * m + (size - 1)) hpos
  generalize hx : (t * m + (size - 1)) / size = x at *
  have hlow : t * m ≤ x * size := by
    rw [Nat.mul_comm x]
    omega
  have hhigh : x * size < t * m + size := by
    rw [Nat.mul_comm x]
    omega
  have hdiv : x * size / m = t := by
    rw [Nat.div_eq_iff hm]
    constructor
    · omega
    · omega
  have hmod : x * size % m < m := Nat.mod_lt _ hm
  refine ⟨x, ?_, ?_⟩
  · have hlast : t * m + m ≤ m * size := by
      have : (t + 1) * m ≤ size * m := Nat.mul_le_mul_right m ht
      rw [Nat.add_mul, Nat.one_mul, Nat.mul_comm size] at this
      exact this
    have : x * size < m * size := by omega
    exact Nat.lt_of_mul_lt_mul_right this
  · unfold scale
    rw [hdiv, Nat.zero_mul, Nat.zero_div, Nat.add_zero, Nat.div_eq_of_lt hmod]
    split <;> rfl

/-! ## Numbers between bounds -/

variable {w : Width} {low high n : Nat}

/-- How many numbers there are between the bounds, where a width that holds no more than these
counts as none. -/
def count (w : Width) (low high : Nat) : Nat := (high - low + 1) % w.modulus

theorem uniform_eq (w : Width) (low high : Nat) (s : Stream) :
    let size := count w low high
    let x := (number w s).1
    let s₁ := (number w s).2
    let y := (number w s₁).1
    uniform w low high s =
      if size = 0 then (x, s₁)
      else (low + scale w.modulus size x y,
        if x * size % w.modulus ≤ w.modulus - size then s₁ else (number w s₁).2) := by
  intro size x s₁ y
  have hread : uniform w low high s =
      (if size = 0 then pure x
      else if x * size % w.modulus ≤ w.modulus - size then pure (low + x * size / w.modulus)
      else number w >>= fun y => pure (low + x * size / w.modulus +
        (x * size % w.modulus + y * size / w.modulus) / w.modulus) : StateM Stream Nat) s₁ := rfl
  rw [hread]
  unfold scale
  split
  · rfl
  · split
    · rfl
    · rw [← Nat.add_assoc]
      rfl

theorem uniform_mem (hbound : low ≤ high) (hfit : high < w.modulus ∨ low = 0) (s : Stream) :
    low ≤ (uniform w low high s).1 ∧ (uniform w low high s).1 ≤ high := by
  have hx := number_lt w s
  have hy := number_lt w (number w s).2
  rw [uniform_eq]
  split
  · -- Only the range of every number of the width counts as none.
    rename_i hzero
    have hle : w.modulus ≤ high - low + 1 :=
      Nat.le_of_dvd (by omega) (Nat.dvd_of_mod_eq_zero hzero)
    dsimp only
    omega
  · rename_i hsize
    have hlt : count w low high < w.modulus := Nat.mod_lt _ w.modulus_pos
    have hle : count w low high ≤ high - low + 1 := Nat.mod_le _ _
    have hscale := scale_lt hx hy (Nat.pos_of_ne_zero hsize) (Nat.le_of_lt hlt)
    dsimp only
    omega

theorem Width.lt_modulus_ofBound (hfit : high < UInt64.size) : high < (ofBound high).modulus := by
  unfold ofBound
  split
  · assumption
  · exact hfit

theorem between_mem (hbound : low ≤ high) (hfit : high < UInt64.size ∨ low = 0) (s : Stream) :
    low ≤ (between low high s).1 ∧ (between low high s).1 ≤ high :=
  uniform_mem hbound (hfit.imp_left Width.lt_modulus_ofBound) s

theorem below_lt (hn : 0 < n) (s : Stream) : (below n s).1 < n := by
  have hle := (uniform_mem (w := .ofBound n) (Nat.zero_le (n - 1)) (.inr rfl) s).2
  exact Nat.lt_of_le_of_lt hle (Nat.sub_one_lt_of_lt hn)

/-! ## Texts -/

theorem repeated_mem {α : Type} {read : StateM Stream α} {P : α → Prop} (h : ∀ s, P (read s).1)
    (n : Nat) (s : Stream) :
    (repeated read n s).1.length = n ∧ ∀ x ∈ (repeated read n s).1, P x := by
  induction n generalizing s with
  | zero =>
    have hread : (repeated read 0 s).1 = [] := rfl
    simp [hread]
  | succ n ih =>
    have hread : (repeated read (n + 1) s).1 = (read s).1 :: (repeated read n (read s).2).1 := rfl
    obtain ⟨hlength, hmem⟩ := ih (read s).2
    rw [hread, List.length_cons, hlength, List.forall_mem_cons]
    exact ⟨rfl, h s, hmem⟩

theorem isText_text {charset : Bytes} (h : charset ≠ []) (n : Nat) (s : Stream) :
    IsText n charset (text n charset s).1 := by
  apply repeated_mem
  intro s
  have hindex := below_lt (List.length_pos_iff.mpr h) s
  change charset.getD (below charset.length s).1 0 ∈ charset
  rw [List.getD_eq_getElem?_getD, List.getElem?_eq_getElem hindex, Option.getD_some]
  exact List.getElem_mem _

end Stream

/-! ## Plans -/

namespace Draw

variable {α : Type} {low high : Nat}

theorem index_eq (n : Nat) : index n = between 0 (n - 1) := by
  unfold index
  split
  · rename_i h
    unfold between
    rw [if_pos (by omega)]
  · rfl

theorem choose_eq {items : List α} (h : items ≠ []) :
    choose items = (fun i => items[i]?) <$> between 0 (items.length - 1) := by
  unfold choose
  rw [if_neg (by simpa using h), index_eq]
  rfl

theorem read_between (hbound : low ≤ high) (hfit : high < UInt64.size ∨ low = 0) (s : Stream) :
    low ≤ ((between low high).read s).1 ∧ ((between low high).read s).1 ≤ high := by
  unfold between
  split
  · exact ⟨Nat.le_refl low, hbound⟩
  · exact Stream.between_mem hbound hfit s

theorem read_choose {items : List α} (h : items ≠ []) (s : Stream) :
    ∃ item ∈ items, ((choose items).read s).1 = some item := by
  have hpos := List.length_pos_iff.mpr h
  have hindex := (read_between (Nat.zero_le (items.length - 1)) (.inr rfl) s).2
  rw [choose_eq h, read_map]
  have hlt : ((between 0 (items.length - 1)).read s).1 < items.length := by omega
  exact ⟨_, List.getElem_mem hlt, List.getElem?_eq_getElem hlt⟩

theorem read_text {charset : Bytes} (h : charset ≠ []) (n : Nat) (s : Stream) :
    IsText n charset ((text n charset).read s).1 := by
  unfold text
  split
  · rename_i hnone
    have hn : n = 0 := by simpa [h] using hnone
    rw [hn]
    exact ⟨rfl, by simp⟩
  · exact Stream.isText_text h n s

theorem length_read_bytes (n : Nat) (s : Stream) : ((bytes n).read s).1.length = n := by
  change ((List.range n).map _).length = n
  rw [List.length_map, List.length_range]

theorem read_map_bytes (render : Bytes → Bytes) (n : Nat) (s : Stream) :
    ∃ drawn : Bytes, drawn.length = n ∧ ((render <$> bytes n).read s).1 = render drawn := by
  rw [read_map]
  exact ⟨_, length_read_bytes n s, rfl⟩

end Draw

end TagFill
