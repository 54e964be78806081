import TagFill.Proofs.Validity

/-! # Encoded output can be read back

Bytes are encoded one by one, and a decoder that goes from left to right always stands where one of
them was written. So it gives back what was encoded, also where that looks encoded itself.
-/

namespace TagFill

namespace Bytes

variable {first : Char} {count : Nat} {x : UInt8}

theorem mem_span (h : first.toNat + count ≤ 256) :
    x ∈ span first count ↔ first.toNat ≤ x.toNat ∧ x.toNat < first.toNat + count := by
  simp only [span, List.mem_map, List.mem_range]
  constructor
  · rintro ⟨i, hi, rfl⟩
    rw [UInt8.toNat_ofNat']
    omega
  · rintro ⟨hlow, hhigh⟩
    refine ⟨x.toNat - first.toNat, by omega, ?_⟩
    rw [Nat.add_sub_cancel' hlow, UInt8.ofNat_toNat]

theorem isLetter_iff : isLetter x = true ↔ x ∈ Charset.letters := by
  have hlower := mem_span (x := x) (by decide : 'a'.toNat + 26 ≤ 256)
  have hupper := mem_span (x := x) (by decide : 'A'.toNat + 26 ≤ 256)
  rw [Charset.letters, List.mem_append, Charset.lower, Charset.upper, hlower, hupper]
  simp only [isLetter, Bool.or_eq_true, Bool.and_eq_true, decide_eq_true_eq, UInt8.le_iff_toNat_le,
    UInt8.reduceToNat, Char.reduceToNat]
  omega

theorem isDigit_iff : isDigit x = true ↔ x ∈ Charset.digits := by
  have hdigit := mem_span (x := x) (by decide : '0'.toNat + 10 ≤ 256)
  rw [Charset.digits, hdigit]
  simp only [isDigit, Bool.and_eq_true, decide_eq_true_eq, UInt8.le_iff_toNat_le,
    UInt8.reduceToNat, Char.reduceToNat]
  omega

end Bytes

namespace Hex

def upperDigits : Bytes := Bytes.ofText "0123456789ABCDEF"

theorem upperDigit_mem {n : Nat} (h : n < 16) : upperDigit n ∈ upperDigits := by
  have hall : ∀ m < 16, upperDigit m ∈ upperDigits := by decide
  exact hall n h

theorem value?_upperDigit {n : Nat} (h : n < 16) : value? (upperDigit n) = some n := by
  have hall : ∀ m < 16, value? (upperDigit m) = some m := by decide
  exact hall n h

theorem decode?_upperDigits (b : UInt8) :
    decode? [upperDigit (high b), upperDigit (low b)] = some [b] := by
  have hb : high b * 16 + low b = b.toNat := Nat.div_add_mod' b.toNat 16
  simp only [decode?, value?_upperDigit (high_lt b), value?_upperDigit (low_lt b),
    Option.bind_eq_bind, Option.bind_some, hb, UInt8.ofNat_toNat, Option.pure_def]

end Hex

namespace Percent

def unreserved : Bytes := Charset.letters ++ Charset.digits ++ Bytes.ofText "-._~"

/-- Unreserved bytes and triples of `%` and two uppercase hex digits. -/
inductive Encoded : Bytes → Prop
  | nil : Encoded []
  | byte {x : UInt8} {text : Bytes} (hx : x ∈ unreserved) (rest : Encoded text) :
      Encoded (x :: text)
  | triple {h l : UInt8} {text : Bytes} (hh : h ∈ Hex.upperDigits) (hl : l ∈ Hex.upperDigits)
      (rest : Encoded text) : Encoded (percent :: h :: l :: text)

variable {x : UInt8} {b rest : Bytes}

theorem isUnreserved_iff : isUnreserved x = true ↔ x ∈ unreserved := by
  rw [isUnreserved, unreserved, Bool.or_eq_true, Bool.or_eq_true, Bytes.isLetter_iff,
    Bytes.isDigit_iff, List.contains_iff_mem, List.mem_append, List.mem_append]

theorem encoded_encode (b : Bytes) : Encoded (encode b) := by
  induction b with
  | nil => exact .nil
  | cons x b ih =>
    rw [encode, List.flatMap_cons, encodeByte]
    split
    · rename_i hx
      exact .byte (isUnreserved_iff.mp hx) ih
    · exact .triple (Hex.upperDigit_mem (Hex.high_lt x)) (Hex.upperDigit_mem (Hex.low_lt x)) ih

theorem decode_cons_of_ne (h : x ≠ percent) : decode (x :: rest) = x :: decode rest := by
  match rest with
  | [] => rfl
  | [_] => rfl
  | _ :: _ :: _ => rw [decode, if_neg h]

theorem decode_encodeByte_append (x : UInt8) (rest : Bytes) :
    decode (encodeByte x ++ rest) = x :: decode rest := by
  rw [encodeByte]
  split
  · rename_i hx
    apply decode_cons_of_ne
    rintro rfl
    contradiction
  · simp only [List.cons_append, List.nil_append]
    rw [decode, if_pos rfl, Hex.decode?_upperDigits]
    rfl

theorem decode_encode (b : Bytes) : decode (encode b) = b := by
  induction b with
  | nil => rfl
  | cons x b ih => rw [encode, List.flatMap_cons, decode_encodeByte_append, ← encode, ih]

end Percent

namespace Entity

def ampersand : UInt8 := '&'.toUInt8

def markup : Bytes := ['<'.toUInt8, '>'.toUInt8, '"'.toUInt8, '\''.toUInt8]

def names : List Bytes := ["&amp;", "&lt;", "&gt;", "&quot;", "&#39;"].map Bytes.ofText

/-- No byte of markup is left, and every `&` begins an entity. -/
structure Escaped (text : Bytes) : Prop where
  markup : ∀ x ∈ Entity.markup, x ∉ text
  ampersands : ∀ i < text.length, text[i]? = some ampersand → ∃ name ∈ names, name <+: text.drop i

variable {x : UInt8} {a b text rest name : Bytes}

theorem Escaped.append (ha : Escaped a) (hb : Escaped b) : Escaped (a ++ b) where
  markup x hx := by
    rw [List.mem_append, not_or]
    exact ⟨ha.markup x hx, hb.markup x hx⟩
  ampersands i hi hget := by
    by_cases hia : i < a.length
    · rw [List.getElem?_append_left hia] at hget
      obtain ⟨name, hname, hpre⟩ := ha.ampersands i hia hget
      refine ⟨name, hname, ?_⟩
      rw [List.drop_append_of_le_length (by omega)]
      exact hpre.trans (List.prefix_append _ _)
    · obtain ⟨j, rfl⟩ : ∃ j, i = a.length + j := ⟨i - a.length, by omega⟩
      rw [List.length_append] at hi
      rw [List.getElem?_append_right (by omega), Nat.add_sub_cancel_left] at hget
      obtain ⟨name, hname, hpre⟩ := hb.ampersands j (by omega) hget
      refine ⟨name, hname, ?_⟩
      rwa [List.drop_length_add_append]

theorem encodeByte_cases (x : UInt8) :
    (x, encodeByte x) ∈ entities ∨ encodeByte x = [x] ∧ x ≠ ampersand ∧ x ∉ markup :=
  Bytes.forall_byte (P := fun x => (x, encodeByte x) ∈ entities ∨
    encodeByte x = [x] ∧ x ≠ ampersand ∧ x ∉ markup) (by decide +kernel) x

/-! ## The entities -/

theorem entities_names : ∀ p ∈ entities, p.2 ∈ names := by decide

theorem entities_markup : ∀ p ∈ entities, markup.all (fun x => !p.2.contains x) = true := by decide

theorem entities_head : ∀ p ∈ entities, p.2.head? = some ampersand := by decide

theorem entities_tail : ∀ p ∈ entities, p.2.tail.contains ampersand = false := by decide

theorem entities_start : ∀ p ∈ entities, ∀ q ∈ entities, p.2 <+: q.2 → p = q := by decide

theorem escaped_entity (h : (x, name) ∈ entities) : Escaped name where
  markup y hy := by
    have hall := List.all_eq_true.mp (entities_markup _ h) y hy
    simpa using hall
  ampersands i hi hget := by
    -- There is no `&` in it but the first byte, where it begins itself.
    cases i with
    | zero => exact ⟨name, entities_names _ h, List.prefix_refl name⟩
    | succ i =>
      have hnone := entities_tail _ h
      rw [← List.getElem?_tail] at hget
      have hmem := List.mem_of_getElem? hget
      simp [hmem] at hnone

theorem escaped_byte (hx : x ≠ ampersand) (hmarkup : x ∉ markup) : Escaped [x] where
  markup y hy hmem := by
    rw [List.mem_singleton] at hmem
    rw [hmem] at hy
    exact hmarkup hy
  ampersands i _ hget := by
    have hmem := List.mem_of_getElem? hget
    rw [List.mem_singleton] at hmem
    exact absurd hmem.symm hx

theorem escaped_encode (b : Bytes) : Escaped (encode b) := by
  induction b with
  | nil => exact ⟨by simp [encode], by simp [encode]⟩
  | cons x b ih =>
    rw [encode, List.flatMap_cons]
    refine Escaped.append ?_ ih
    rcases encodeByte_cases x with hentity | ⟨hsame, hx, hmarkup⟩
    · exact escaped_entity hentity
    · rw [hsame]
      exact escaped_byte hx hmarkup

/-! ## Reading back -/

theorem entityAt?_entity (h : (x, name) ∈ entities) : entityAt? (name ++ rest) = some (x, rest) :=
  findSome?_start_append entities_start h

theorem entityAt?_cons_of_ne (h : x ≠ ampersand) : entityAt? (x :: rest) = none := by
  refine findSome?_start_eq_none_iff.mpr ?_
  rintro ⟨y, name⟩ hmem ⟨after, happ⟩
  obtain ⟨t, rfl⟩ := List.head?_eq_some_iff.mp (entities_head _ hmem)
  exact h (List.cons.inj happ).1.symm

theorem decode_entity (h : (x, name) ∈ entities) : decode (name ++ rest) = x :: decode rest := by
  have hat : entityAt? (name ++ rest) = some (x, rest) := entityAt?_entity h
  rw [decode]
  split
  · rename_i found
    rw [hat] at found
    cases found
    rfl
  · rename_i hnone
    rw [hat] at hnone
    contradiction

theorem decode_cons_of_ne (h : x ≠ ampersand) : decode (x :: rest) = x :: decode rest := by
  have hat : entityAt? (x :: rest) = none := entityAt?_cons_of_ne h
  rw [decode]
  split
  · rename_i hsome
    rw [hat] at hsome
    contradiction
  · rfl

theorem decode_encode (b : Bytes) : decode (encode b) = b := by
  induction b with
  | nil => decide +kernel
  | cons x b ih =>
    rw [encode, List.flatMap_cons, ← encode]
    rcases encodeByte_cases x with hentity | ⟨hsame, hx, -⟩
    · rw [decode_entity hentity, ih]
    · rw [hsame, List.singleton_append, decode_cons_of_ne hx, ih]

end Entity

namespace Encoding

/-- How text under an encoding is written. -/
def Admits : Encoding → Bytes → Prop
  | .plain, _ => True
  | .url, text => Percent.Encoded text
  | .html, text => Entity.Escaped text

def decode : Encoding → Bytes → Bytes
  | .plain, text => text
  | .url, text => Percent.decode text
  | .html, text => Entity.decode text

theorem admits_encode (e : Encoding) (b : Bytes) : e.Admits (e.encode b) := by
  cases e with
  | plain => trivial
  | url => exact Percent.encoded_encode b
  | html => exact Entity.escaped_encode b

theorem decode_encode (e : Encoding) (b : Bytes) : e.decode (e.encode b) = b := by
  cases e with
  | plain => rfl
  | url => exact Percent.decode_encode b
  | html => exact Entity.decode_encode b

theorem encode_append (e : Encoding) (a b : Bytes) :
    e.encode (a ++ b) = e.encode a ++ e.encode b := by
  cases e with
  | plain => rfl
  | url | html => exact List.flatMap_append

/-- What is written behind a buffer follows the rules of the encoding and is read back as the bytes
that were to be written, whatever they are. Bytes may be written in one go or one part after the
other. -/
theorem append_lossless (e : Encoding) :
    (∀ b, ∃ text, e.Admits text ∧ e.decode text = b ∧
      ∀ buffer, e.append b buffer = buffer ++ text) ∧
    (∀ buffer, Function.Injective fun b => e.append b buffer) ∧
    ∀ a b buffer, e.append (a ++ b) buffer = e.append b (e.append a buffer) := by
  refine ⟨?_, ?_, ?_⟩
  · intro b
    exact ⟨e.encode b, e.admits_encode b, e.decode_encode b, fun _ => rfl⟩
  · intro buffer a b heq
    have hencode : e.encode a = e.encode b := List.append_cancel_left heq
    rw [← e.decode_encode a, hencode, e.decode_encode]
  · intro a b buffer
    rw [append, append, append, encode_append, List.append_assoc]

end Encoding

end TagFill
