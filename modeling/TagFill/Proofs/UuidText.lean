import Mathlib.Algebra.Ring.Nat
import Mathlib.Data.List.Nodup
import TagFill.Proofs.LengthGrammar
import TagFill.Proofs.Validity

/-! # The text of a UUID keeps what was drawn

Six of the 128 bits that are drawn for a UUID are written over, and the others can be read off its
text. So two draws have the same text only where they agree on all of these.
-/

namespace TagFill

/-! ## Text with separators -/

namespace Bytes

variable {sep : UInt8} {front after : Bytes} {pieces : List Bytes} {i : Nat}

theorem getElem?_eq_sep_iff (h : sep ∉ front) :
    (front ++ sep :: after)[i]? = some sep ↔
      i = front.length ∨ ∃ j, i = front.length + 1 + j ∧ after[j]? = some sep := by
  obtain hlt | rfl | hgt := Nat.lt_trichotomy i front.length
  · rw [List.getElem?_append_left hlt, List.getElem?_eq_getElem hlt]
    constructor
    · intro hsep
      rw [Option.some.injEq] at hsep
      exact absurd (hsep ▸ List.getElem_mem hlt) h
    · rintro (rfl | ⟨j, rfl, -⟩) <;> omega
  · simp
  · obtain ⟨j, rfl⟩ : ∃ j, i = front.length + 1 + j := ⟨i - front.length - 1, by omega⟩
    rw [List.getElem?_append_right (by omega),
      show front.length + 1 + j - front.length = j + 1 by omega, List.getElem?_cons_succ]
    constructor
    · intro hj
      exact .inr ⟨j, rfl, hj⟩
    · rintro (hlast | ⟨k, hk, hget⟩)
      · omega
      · rwa [show j = k by omega]

theorem filter_joined (h : ∀ piece ∈ pieces, sep ∉ piece) :
    (joined [sep] pieces).filter (· != sep) = pieces.flatten := by
  have hfilter {piece : Bytes} (hpiece : sep ∉ piece) : piece.filter (· != sep) = piece := by
    rw [List.filter_eq_self]
    rintro x hx
    simpa using ne_of_mem_of_not_mem hx hpiece
  induction pieces with
  | nil => rfl
  | cons piece pieces ih =>
    rw [List.forall_mem_cons] at h
    by_cases hlast : pieces = []
    · simp [hlast, joined, hfilter h.1]
    · rw [joined_cons hlast, List.filter_append, hfilter h.1, List.filter_cons_of_neg (by simp),
        ih h.2, List.flatten_cons]

end Bytes

namespace Hex

theorem value?_digit {n : Nat} (h : n < 16) : value? (digit n) = some n := by
  have hall : ∀ m < 16, value? (digit m) = some m := by decide
  exact hall n h

theorem decode?_encode (b : Bytes) : decode? (encode b) = some b := by
  induction b with
  | nil => rfl
  | cons x b ih =>
    have hcons : encode (x :: b) = digit (high x) :: digit (low x) :: encode b := rfl
    have hbyte : high x * 16 + low x = x.toNat := by
      unfold high low
      omega
    rw [hcons, decode?, value?_digit (high_lt x), value?_digit (low_lt x), ih]
    change some (UInt8.ofNat (high x * 16 + low x) :: b) = some (x :: b)
    rw [hbyte, UInt8.ofNat_toNat]

theorem length_encode (b : Bytes) : (encode b).length = 2 * b.length := (encode_isText b).1

theorem encode_flatten (groups : List Bytes) :
    encode groups.flatten = (groups.map encode).flatten := by
  induction groups with
  | nil => rfl
  | cons group groups ih =>
    rw [List.map_cons, List.flatten_cons, List.flatten_cons, ← ih]
    exact List.flatMap_append

end Hex

namespace Uuid

def hyphen : UInt8 := '-'.toUInt8

theorem hyphen_not_mem_encode (b : Bytes) : hyphen ∉ Hex.encode b := by
  intro h
  have hdigit := (Hex.encode_isText b).2 hyphen h
  revert hdigit
  decide

/-! ## The bytes of a text -/

theorem versioned_eq (x : UInt8) : versioned x = 0x40 + x % 0x10 :=
  Bytes.forall_byte (P := fun x => versioned x = 0x40 + x % 0x10) (by decide +kernel) x

theorem varied_eq (x : UInt8) : varied x = 0x80 + x % 0x40 :=
  Bytes.forall_byte (P := fun x => varied x = 0x80 + x % 0x40) (by decide +kernel) x

theorem length_marked (b : Bytes) : (marked b).length = b.length := by
  simp [marked]

theorem flatten_groups (b : Bytes) : (groups b).flatten = b := by
  have hsplit (m n : Nat) : (b.drop m).take n ++ b.drop (m + n) = b.drop m := by
    rw [← List.drop_drop, List.take_append_drop]
  calc
    _ = b.take 4 ++ ((b.drop 4).take 2 ++ ((b.drop 6).take 2 ++
          ((b.drop 8).take 2 ++ b.drop 10))) := by simp [groups]
    _ = b := by rw [hsplit 8 2, hsplit 6 2, hsplit 4 2, List.take_append_drop]

theorem filter_hyphenated (b : Bytes) : (hyphenated b).filter (· != hyphen) = Hex.encode b := by
  have hpieces : ∀ piece ∈ (groups b).map Hex.encode, hyphen ∉ piece := by
    rw [List.forall_mem_map]
    exact fun group _ => hyphen_not_mem_encode group
  have hjoined : hyphenated b = Bytes.joined [hyphen] ((groups b).map Hex.encode) := rfl
  rw [hjoined, Bytes.filter_joined hpieces, ← Hex.encode_flatten, flatten_groups]

theorem render_eq_iff {drawn other : Bytes} :
    render drawn = render other ↔ marked drawn = marked other := by
  constructor
  · intro h
    have hdecode := congrArg (fun text : Bytes => Hex.decode? (text.filter (· != hyphen))) h
    simpa [render, filter_hyphenated, Hex.decode?_encode] using hdecode
  · intro h
    rw [render, h, ← render]

/-! ## Bits -/

def bit (b : Bytes) (place : Nat × Nat) : Bool := (b.getD place.1 0).toNat.testBit place.2

/-- How many of the low bits of a byte are kept. -/
def keptBits : Nat → Nat
  | 6 => 4
  | 8 => 6
  | _ => 8

/-- The bits that are kept, by their byte and their place in it. -/
def kept : List (Nat × Nat) :=
  (List.range 16).flatMap fun i => (List.range (keptBits i)).map fun j => (i, j)

theorem mem_kept {i j : Nat} : (i, j) ∈ kept ↔ i < 16 ∧ j < keptBits i := by
  simp [kept]

theorem nodup_kept : kept.Nodup := by
  unfold kept
  rw [List.nodup_flatMap]
  constructor
  · intro i _
    exact List.nodup_range.map fun _ _ h => (Prod.mk.inj h).2
  · refine List.nodup_range.imp ?_
    intro i i' hne place h h'
    obtain ⟨j, -, rfl⟩ := List.mem_map.mp h
    obtain ⟨j', -, hplace⟩ := List.mem_map.mp h'
    exact hne (Prod.mk.inj hplace).1.symm

theorem mod_eq_mod_iff {m n k : Nat} :
    m % 2 ^ k = n % 2 ^ k ↔ ∀ j < k, m.testBit j = n.testBit j := by
  constructor
  · intro h j hj
    have hbit := congrArg (fun x => x.testBit j) h
    simpa [Nat.testBit_mod_two_pow, hj] using hbit
  · intro h
    apply Nat.eq_of_testBit_eq
    intro j
    by_cases hj : j < k <;> simp [Nat.testBit_mod_two_pow, hj, h]

/-- What is written over the high bits of a byte. -/
def mark : Nat → Nat
  | 6 => 0x40
  | 8 => 0x80
  | _ => 0

variable {drawn other : Bytes}

theorem toNat_marked (h : drawn.length = 16) {i : Nat} (hi : i < 16) :
    ((marked drawn).getD i 0).toNat = mark i + (drawn.getD i 0).toNat % 2 ^ keptBits i := by
  have hlt : i < drawn.length := by omega
  have hx := (drawn[i]).toNat_lt
  simp only [marked, List.getD_eq_getElem?_getD, List.getElem?_modify, List.getElem?_eq_getElem hlt]
  by_cases h6 : i = 6
  · subst h6
    simp [versioned_eq, mark, keptBits]
    omega
  · by_cases h8 : i = 8
    · subst h8
      simp [varied_eq, mark, keptBits]
      omega
    · have hplain : mark i = 0 ∧ keptBits i = 8 := by
        unfold mark keptBits
        grind
      simp [hplain, Ne.symm h6, Ne.symm h8]

theorem eq_iff_getD {a b : Bytes} {n : Nat} (ha : a.length = n) (hb : b.length = n) :
    a = b ↔ ∀ i < n, (a.getD i 0).toNat = (b.getD i 0).toNat := by
  constructor
  · rintro rfl _ _
    rfl
  · intro h
    apply List.ext_getElem (ha.trans hb.symm)
    intro i hia hib
    have hget := h i (by omega)
    simpa [hia, hib, UInt8.toNat_inj] using hget

/-- The marked bytes are the same where the kept bits are. -/
theorem marked_eq_iff (h : drawn.length = 16) (h' : other.length = 16) :
    marked drawn = marked other ↔ ∀ place ∈ kept, bit drawn place = bit other place := by
  have hkept : (∀ place ∈ kept, bit drawn place = bit other place) ↔
      ∀ i < 16, ∀ j < keptBits i, bit drawn (i, j) = bit other (i, j) := by
    simp only [Prod.forall, mem_kept, and_imp]
    exact forall_congr' fun i => forall_comm
  rw [hkept, eq_iff_getD ((length_marked drawn).trans h) ((length_marked other).trans h')]
  apply forall₂_congr
  intro i hi
  rw [toNat_marked h hi, toNat_marked h' hi, Nat.add_left_cancel_iff, mod_eq_mod_iff]
  rfl

/-! ## The text -/

/-- The text of a UUID, which has the drawn bytes in it but for the version and the variant. -/
structure Keeps (drawn text : Bytes) : Prop where
  length : text.length = 36
  digits : ∀ x ∈ text, x = hyphen ∨ x ∈ hexDigits
  hyphens : ∀ i, text[i]? = some hyphen ↔ i ∈ [8, 13, 18, 23]
  version : text[14]? = some '4'.toUInt8
  variant : ∃ x ∈ Bytes.ofText "89ab", text[19]? = some x
  decoded : Hex.decode? (text.filter (· != hyphen)) =
    some ((drawn.modify 6 (0x40 + · % 0x10)).modify 8 (0x80 + · % 0x40))

theorem marked_eq (drawn : Bytes) :
    marked drawn = (drawn.modify 6 (0x40 + · % 0x10)).modify 8 (0x80 + · % 0x40) := by
  rw [marked, funext versioned_eq, funext varied_eq]

theorem hyphenated_eq (b : Bytes) :
    hyphenated b = Hex.encode (b.take 4) ++ hyphen :: (Hex.encode ((b.drop 4).take 2) ++
      hyphen :: (Hex.encode ((b.drop 6).take 2) ++ hyphen :: (Hex.encode ((b.drop 8).take 2) ++
        hyphen :: Hex.encode (b.drop 10)))) := by
  have hjoined : hyphenated b = Bytes.joined [hyphen] ((groups b).map Hex.encode) := rfl
  rw [hjoined]
  simp [groups, Bytes.joined]

theorem getElem?_hyphenated {b : Bytes} (h : b.length = 16) (i : Nat) :
    (hyphenated b)[i]? = some hyphen ↔ i ∈ [8, 13, 18, 23] := by
  have hlast (j : Nat) : ¬ (Hex.encode (b.drop 10))[j]? = some hyphen :=
    fun hget => hyphen_not_mem_encode _ (List.mem_of_getElem? hget)
  rw [hyphenated_eq]
  simp only [Bytes.getElem?_eq_sep_iff (hyphen_not_mem_encode _), Hex.length_encode, hlast,
    List.length_take, List.length_drop, h]
  grind

theorem hyphenated_digits {b : Bytes} (h : b.length = 16) :
    (hyphenated b)[14]? = b[6]?.map (fun x => Hex.digit (Hex.high x)) ∧
      (hyphenated b)[19]? = b[8]?.map (fun x => Hex.digit (Hex.high x)) := by
  match b, h with
  | [_, _, _, _, _, _, _, _, _, _, _, _, _, _, _, _], _ => exact ⟨rfl, rfl⟩

theorem mem_hyphenated {b : Bytes} {x : UInt8} (h : x ∈ hyphenated b) :
    x = hyphen ∨ x ∈ hexDigits := by
  by_cases hx : x = hyphen
  · exact .inl hx
  · have hmem : x ∈ (hyphenated b).filter (· != hyphen) :=
      List.mem_filter.mpr ⟨h, by simpa using hx⟩
    rw [filter_hyphenated] at hmem
    exact .inr ((Hex.encode_isText b).2 x hmem)

theorem digit_versioned (x : UInt8) : Hex.digit (Hex.high (versioned x)) = '4'.toUInt8 := by
  have hhigh : Hex.high (versioned x) = 4 := by
    rw [versioned_eq, Hex.high, UInt8.toNat_add, UInt8.toNat_mod]
    simp only [UInt8.reduceToNat]
    omega
  rw [hhigh]
  rfl

theorem digit_varied (x : UInt8) : Hex.digit (Hex.high (varied x)) ∈ Bytes.ofText "89ab" := by
  have hall : ∀ n < 4, Hex.digit (8 + n) ∈ Bytes.ofText "89ab" := by decide
  have hhigh : Hex.high (varied x) = 8 + x.toNat % 64 / 16 := by
    rw [varied_eq, Hex.high, UInt8.toNat_add, UInt8.toNat_mod]
    simp only [UInt8.reduceToNat]
    omega
  rw [hhigh]
  exact hall _ (by omega)

theorem keeps_render (h : drawn.length = 16) : Keeps drawn (render drawn) := by
  have hlength : (marked drawn).length = 16 := (length_marked drawn).trans h
  obtain ⟨hthird, hfourth⟩ := hyphenated_digits hlength
  constructor
  case length =>
    rw [render, hyphenated_eq]
    simp only [List.length_append, List.length_cons, Hex.length_encode, List.length_take,
      List.length_drop, hlength]
    rfl
  case digits => exact fun x => mem_hyphenated
  case hyphens => exact getElem?_hyphenated hlength
  case version =>
    rw [render, hthird]
    simp [marked, h, digit_versioned]
  case variant =>
    refine ⟨_, digit_varied drawn[8], ?_⟩
    rw [render, hfourth]
    simp [marked, h]
  case decoded =>
    rw [render, filter_hyphenated, Hex.decode?_encode, marked_eq]

theorem encode_render (e : Encoding) (drawn : Bytes) : e.encode (render drawn) = render drawn := by
  have hplain : (hyphen :: hexDigits).all (fun x => Percent.encodeByte x == [x] &&
      Entity.encodeByte x == [x]) = true := by decide
  have hbyte : ∀ x ∈ render drawn, Percent.encodeByte x = [x] ∧ Entity.encodeByte x = [x] := by
    intro x hx
    simpa using List.all_eq_true.mp hplain x (by simpa using mem_hyphenated hx)
  have hsame {f : UInt8 → Bytes} (hf : ∀ x ∈ render drawn, f x = [x]) :
      (render drawn).flatMap f = render drawn := by
    rw [List.flatMap_congr hf, List.flatMap_singleton']
  cases e with
  | plain => rfl
  | url => exact hsame fun x hx => (hbyte x hx).1
  | html => exact hsame fun x hx => (hbyte x hx).2

/-- Whatever sixteen bytes a source gives for a UUID, the text keeps them but for the version and
the variant. So other bytes have the same text just where they agree on the other 122 bits. -/
theorem draw_keeps (c : Config) (length : Option Nat) {s s' : Source} {drawn : Bytes}
    (hdraw : s.answer (.bytes 16) = (.ok drawn, s')) :
    (c.output.encode <$> (Filler.builtin .uuid).draw c length).run s = (.ok (render drawn), s') ∧
      Keeps drawn (render drawn) ∧ kept.Nodup ∧ kept.length = 122 ∧
      ∀ other : Bytes, other.length = 16 →
        (render drawn = render other ↔ ∀ place ∈ kept, bit drawn place = bit other place) := by
  have hlength : drawn.length = 16 := by
    unfold Source.answer at hdraw
    split at hdraw
    · cases hdraw
    · cases hdraw
      exact Draw.length_read_bytes 16 s.stream
  refine ⟨?_, keeps_render hlength, nodup_kept, by decide, ?_⟩
  · change (c.output.encode <$> render <$> Draw.bytes 16).run s = _
    rw [Draw.run_map, Draw.run_map, Draw.bytes, Draw.run_ask, hdraw]
    change (Except.ok (c.output.encode (render drawn)), s') = _
    rw [encode_render]
  · intro other hother
    rw [render_eq_iff, marked_eq_iff hlength hother]

/-- Another version and another variant make no difference, and any other bit does. -/
theorem draw_keeps_counted :
    let drawn : Bytes := (List.range 16).map UInt8.ofNat
    let plan := Encoding.url.encode <$> (Filler.builtin .uuid).draw { output := .url } none
    (∃ s', (plan.run (.scripted drawn none)) =
        (.ok (Bytes.ofText "00010203-0405-4607-8809-0a0b0c0d0e0f"), s')) ∧
      render drawn = render ((drawn.set 6 0xF6).set 8 0xC8) ∧
      render drawn ≠ render (drawn.set 8 0x28) := by
  intro drawn plan
  let source := Source.scripted drawn none
  have hdraw : source.answer (.bytes 16) = (.ok drawn, (source.answer (.bytes 16)).2) :=
    Prod.ext rfl rfl
  obtain ⟨hrun, -, -, -, hsame⟩ := draw_keeps { output := .url } none hdraw
  have htext : render drawn = Bytes.ofText "00010203-0405-4607-8809-0a0b0c0d0e0f" := by decide
  rw [htext] at hrun
  refine ⟨⟨_, hrun⟩, ?_, ?_⟩
  · rw [hsame ((drawn.set 6 0xF6).set 8 0xC8) rfl]
    decide +kernel
  · rw [ne_eq, hsame (drawn.set 8 0x28) rfl]
    decide +kernel

end Uuid

end TagFill
