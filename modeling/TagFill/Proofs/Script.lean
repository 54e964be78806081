import TagFill.Proofs.Sampling

/-! # Scripts for wanted results

A reading finds only the next bytes of its stream, so a script of them settles what it comes to. For
a reading that goes on with another one, the script of the first is followed by that of the second.
-/

namespace TagFill

namespace Stream

variable {α β : Type} {s : Stream} {w v : Bytes}

/-! ## The next bytes of a stream -/

/-- A stream of single bytes that goes on with these. -/
def StartsWith (s : Stream) (w : Bytes) : Prop :=
  s.stride = 1 ∧ ∀ i b, w[i]? = some b → s.byte (s.position + i) = b

def skip (s : Stream) (n : Nat) : Stream := { s with position := s.position + n }

theorem StartsWith.left (h : s.StartsWith (w ++ v)) : s.StartsWith w := by
  refine ⟨h.1, ?_⟩
  intro i b hb
  apply h.2 i b
  obtain ⟨hi, -⟩ := List.getElem?_eq_some_iff.mp hb
  rw [List.getElem?_append_left hi, hb]

theorem StartsWith.right (h : s.StartsWith (w ++ v)) : (s.skip w.length).StartsWith v := by
  refine ⟨h.1, ?_⟩
  intro i b hb
  have hbyte := h.2 (w.length + i) b
  rw [List.getElem?_append_right (Nat.le_add_right _ _), Nat.add_sub_cancel_left] at hbyte
  have hread := hbyte hb
  rwa [← Nat.add_assoc] at hread

theorem bytes_of_startsWith (h : s.StartsWith w) : bytes w.length s = (w, s.skip w.length) := by
  have hround : roundUp s.stride (s.position + w.length) = s.position + w.length := by
    rw [h.1, roundUp, Nat.div_one, Nat.mul_one, Nat.add_sub_cancel]
  have hread : (List.range w.length).map (fun i => s.byte (s.position + i)) = w := by
    apply List.ext_getElem
    · simp
    · intro i _ hi
      rw [List.getElem_map, List.getElem_range]
      exact h.2 i _ (List.getElem?_eq_getElem hi)
  unfold bytes skip
  rw [hround, hread]

/-! ## What a script settles -/

/-- On a stream that goes on with the script, the reading takes all of it and comes to `a`. -/
def Settles (m : StateM Stream α) (script : Bytes) (a : α) : Prop :=
  ∀ s, s.StartsWith script → m s = (a, s.skip script.length)

/-- Some script makes the reading come to `a`. -/
def Reaches (m : StateM Stream α) (a : α) : Prop := ∃ script, Settles m script a

theorem Reaches.pure (a : α) : Reaches (pure a) a := ⟨[], fun _ _ => rfl⟩

theorem Reaches.bind {m : StateM Stream α} {f : α → StateM Stream β} {a : α} {b : β}
    (h : Reaches m a) (hf : Reaches (f a) b) : Reaches (m >>= f) b := by
  obtain ⟨w, hw⟩ := h
  obtain ⟨v, hv⟩ := hf
  refine ⟨w ++ v, ?_⟩
  intro s hs
  have hbind : (m >>= f) s = f (m s).1 (m s).2 := rfl
  rw [hbind, hw s hs.left]
  dsimp only
  rw [hv _ hs.right, List.length_append, skip, skip, skip, Nat.add_assoc]

/-! ## Numbers -/

def toLittleEndian : Nat → Nat → Bytes
  | 0, _ => []
  | n + 1, x => UInt8.ofNat x :: toLittleEndian n (x / 256)

theorem length_toLittleEndian (n x : Nat) : (toLittleEndian n x).length = n := by
  induction n generalizing x with
  | zero => rfl
  | succ n ih => rw [toLittleEndian, List.length_cons, ih]

theorem littleEndian_toLittleEndian {n x : Nat} (h : x < 256 ^ n) :
    littleEndian (toLittleEndian n x) = x := by
  induction n generalizing x with
  | zero =>
    rw [Nat.pow_zero] at h
    rw [toLittleEndian, littleEndian]
    omega
  | succ n ih =>
    have hhigh : x / 256 < 256 ^ n := by
      rw [Nat.pow_succ] at h
      exact Nat.div_lt_of_lt_mul (by omega)
    rw [toLittleEndian, littleEndian, ih hhigh, UInt8.toNat_ofNat']
    omega

theorem reaches_number {width : Width} {x : Nat} (h : x < width.modulus) :
    Reaches (number width) x := by
  rw [Width.modulus_eq] at h
  have hlength := length_toLittleEndian width.bytes x
  refine ⟨toLittleEndian width.bytes x, ?_⟩
  intro s hs
  have hread := bytes_of_startsWith hs
  rw [hlength] at hread
  have hnumber : number width s =
      (littleEndian (bytes width.bytes s).1, (bytes width.bytes s).2) := rfl
  rw [hnumber, hread, littleEndian_toLittleEndian h, hlength]

theorem uniform_eq_bind (width : Width) (low high : Nat) :
    let size := count width low high
    uniform width low high = number width >>= fun x =>
      if size = 0 then pure x
      else (if x * size % width.modulus ≤ width.modulus - size then pure 0 else number width) >>=
        fun y => pure (low + scale width.modulus size x y) := by
  intro size
  funext s
  rw [uniform_eq]
  have hbind : ∀ f : Nat → StateM Stream Nat,
      (number width >>= f) s = f (number width s).1 (number width s).2 := fun _ => rfl
  rw [hbind]
  split
  · rfl
  · split
    · rename_i hcarry
      have hscale : ∀ y, scale width.modulus size (number width s).1 y =
          scale width.modulus size (number width s).1 0 := by
        intro y
        rw [scale, scale, if_pos hcarry, if_pos hcarry]
      rw [hscale]
      rfl
    · rfl

theorem reaches_uniform {width : Width} {low high t : Nat} (hlow : low ≤ t) (hhigh : t ≤ high)
    (hfit : high < width.modulus) : Reaches (uniform width low high) t := by
  rw [uniform_eq_bind]
  by_cases hsize : count width low high = 0
  · -- Every word of the width is in the range and taken as it is.
    apply (reaches_number (by omega : t < width.modulus)).bind
    rw [if_pos hsize]
    exact .pure t
  · have hcount : count width low high = high - low + 1 := by
      apply Nat.mod_eq_of_lt
      unfold count at hsize
      have hfull : high - low + 1 ≠ width.modulus := by
        intro heq
        rw [heq, Nat.mod_self] at hsize
        contradiction
      omega
    have ht : t - low < count width low high := by omega
    -- A zero behind the least word that scales to `t` brings no carry, if it is read at all.
    obtain ⟨x, hx, hscale⟩ := scale_ceil ht (by omega : _ ≤ width.modulus)
    apply (reaches_number hx).bind
    rw [if_neg hsize]
    have hzero : Reaches (if x * count width low high % width.modulus ≤
        width.modulus - count width low high then pure 0 else number width) 0 := by
      split
      · exact .pure 0
      · exact reaches_number width.modulus_pos
    apply hzero.bind
    rw [hscale, Nat.add_sub_cancel' hlow]
    exact .pure t

theorem reaches_between {low high t : Nat} (hlow : low ≤ t) (hhigh : t ≤ high)
    (hfit : high < UInt64.size) : Reaches (between low high) t :=
  reaches_uniform hlow hhigh (Width.lt_modulus_ofBound hfit)

theorem reaches_below {n i : Nat} (hi : i < n) (hfit : n ≤ UInt64.size) : Reaches (below n) i := by
  apply reaches_uniform (Nat.zero_le i) (by omega)
  unfold Width.ofBound
  split
  · rename_i hword
    exact Nat.lt_of_le_of_lt (Nat.sub_le n 1) hword
  · change n - 1 < UInt64.size
    omega

/-! ## Texts -/

theorem reaches_repeated {read : StateM Stream α} {items : List α}
    (h : ∀ item ∈ items, Reaches read item) : Reaches (repeated read items.length) items := by
  induction items with
  | nil => exact .pure []
  | cons item items ih =>
    rw [List.forall_mem_cons] at h
    exact h.1.bind ((ih h.2).bind (.pure _))

theorem reaches_text {charset b : Bytes} (h : ∀ x ∈ b, x ∈ charset)
    (hfit : charset.length ≤ UInt64.size) : Reaches (text b.length charset) b := by
  apply reaches_repeated
  intro x hx
  obtain ⟨i, hi, hget⟩ := List.mem_iff_getElem.mp (h x hx)
  apply (reaches_below hi hfit).bind
  rw [List.getD_eq_getElem?_getD, List.getElem?_eq_getElem hi, hget]
  exact .pure x

end Stream

/-! ## Plans -/

namespace Draw

open TagFill.Stream (Reaches)

variable {α β : Type} {charset b : Bytes}

theorem reaches_done (a : α) : Reaches (done a).read a := .pure a

theorem reaches_bind {d : Draw α} {f : α → Draw β} {a : α} {b : β} (h : Reaches d.read a)
    (hf : Reaches (f a).read b) : Reaches (d >>= f).read b := by
  have hread : (d >>= f).read = d.read >>= fun a => (f a).read := funext (read_bind d f)
  rw [hread]
  exact h.bind hf

theorem reaches_map (f : α → β) {d : Draw α} {a : α} (h : Reaches d.read a) :
    Reaches (f <$> d).read (f a) := by
  rw [← bind_pure_comp]
  exact reaches_bind h (reaches_done _)

theorem reaches_between {low high t : Nat} (hlow : low ≤ t) (hhigh : t ≤ high)
    (hfit : high < UInt64.size) : Reaches (between low high).read t := by
  unfold between
  split
  · have ht : t = low := by omega
    rw [ht]
    exact reaches_done low
  · exact Stream.reaches_between hlow hhigh hfit

theorem reaches_choose {items : List α} {item : α} (h : item ∈ items)
    (hfit : items.length ≤ UInt64.size) : Reaches (choose items).read (some item) := by
  obtain ⟨i, hi, hget⟩ := List.mem_iff_getElem.mp h
  have hindex : Reaches (between 0 (items.length - 1)).read i :=
    reaches_between (Nat.zero_le i) (by omega) (by omega)
  rw [choose_eq (List.ne_nil_of_mem h), ← hget, ← List.getElem?_eq_getElem hi]
  exact reaches_map _ hindex

theorem reaches_text (h : ∀ x ∈ b, x ∈ charset) (hfit : charset.length ≤ UInt64.size) :
    Reaches (text b.length charset).read b := by
  unfold text
  split
  · -- Nothing is asked, so the text has to be empty.
    rename_i hnone
    have hb : b = [] := by
      rcases hnone with hlength | hcharset
      · exact List.eq_nil_of_length_eq_zero hlength
      · apply List.eq_nil_iff_forall_not_mem.mpr
        intro x hx
        have hmem := h x hx
        rw [hcharset] at hmem
        contradiction
    rw [hb]
    exact reaches_done []
  · exact Stream.reaches_text h hfit

/-! ## Sources -/

theorem startsWith_scripted (w v : Bytes) (allowance : Option Allowance) :
    (Source.scripted (w ++ v) allowance).stream.StartsWith w := by
  refine ⟨rfl, ?_⟩
  intro i b hb
  obtain ⟨hi, -⟩ := List.getElem?_eq_some_iff.mp hb
  have hlt : i < (w ++ v).length := by
    rw [List.length_append]
    omega
  change (w ++ v).toArray.getD ((0 + i) % (w ++ v).toArray.size) 0 = b
  rw [Nat.zero_add, List.size_toArray, Nat.mod_eq_of_lt hlt, Array.getD_eq_getD_getElem?,
    List.getElem?_toArray, List.getElem?_append_left hi, hb]
  rfl

theorem exists_script {d : Draw α} {a : α} (h : Reaches d.read a) :
    ∃ script, script ≠ [] ∧ (d.run (.scripted script none)).1 = .ok a := by
  obtain ⟨w, hw⟩ := h
  have hread := hw _ (startsWith_scripted w [0] none)
  refine ⟨w ++ [0], by simp, ?_⟩
  have hrun := run_unlimited d (Source.scripted (w ++ [0]) none).stream 0
  rw [hread] at hrun
  exact congrArg Prod.fst hrun

end Draw

end TagFill
