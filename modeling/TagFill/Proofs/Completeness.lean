import TagFill.Proofs.Respelling
import TagFill.Proofs.Script
import TagFill.Proofs.TwoFields

/-! # All that is declared is generated

A tag admits lengths and types, and a type that is filled from a charset admits all its texts. Each
of them comes out of the tag for some script.
-/

namespace TagFill

/-- A text that memory holds: its positions are numbers of 64 bits. -/
def Addressable (b : Bytes) : Prop := b.length < UInt64.size

open TagFill.Stream (Reaches)

/-! ## Lengths and types -/

theorem Bytes.length_entries_le (sep : UInt8) (b : Bytes) :
    (entries sep b).length ≤ b.length + 1 := by
  rw [length_entries]
  exact Nat.succ_le_succ List.count_le_length

namespace LengthSpec

variable {rules : FieldRules} {field : Bytes} {n : Nat}

theorem length_le_of_parse {ns : List Nat} (h : parse rules field = .choice ns) :
    ns.length ≤ field.length + 1 := by
  obtain ⟨-, -, -, -, entries, hentries, hvalues⟩ := parse_eq_choice_iff.mp h
  rw [← Bytes.entries_eq_iff] at hentries
  rw [values_iff] at hvalues
  rw [← hvalues, ← hentries]
  exact Nat.le_trans (List.length_filterMap_le _ _) (Bytes.length_entries_le choiceMark field)

theorem reaches_draw {spec : LengthSpec} (h : spec.Proper) (hn : spec.Admits (some n))
    (hfit : ∀ ns, spec = .choice ns → ns.length ≤ UInt64.size) :
    Reaches spec.draw.read (some n) := by
  cases spec with
  | absent => contradiction
  | fixed m =>
    cases hn
    exact Draw.reaches_done _
  | range low high =>
    obtain ⟨_, ⟨⟩, hlow, hhigh⟩ := hn
    have hbound : high < UInt64.size := Nat.lt_of_le_of_lt h.2 (by decide)
    rw [draw_range h.1]
    exact Draw.reaches_map some (Draw.reaches_between hlow hhigh hbound)
  | choice ns =>
    obtain ⟨_, hmem, ⟨⟩⟩ := hn
    exact Draw.reaches_choose hmem (hfit ns rfl)

theorem Declares.reaches (h : Declares rules field n) (hmemory : Addressable field) :
    Reaches (parse rules field).draw.read (some n) := by
  apply reaches_draw (parse_proper rules field) (admits_parse_some_iff.mpr h)
  intro ns hns
  exact Nat.le_trans (length_le_of_parse hns) hmemory

end LengthSpec

namespace TypeSpec

variable {rules : FieldRules} {field : Bytes} {entry : Option Bytes}

theorem length_le_of_parse {names : List Bytes} (h : parse rules field = .choice names) :
    names.length ≤ field.length + 1 := by
  unfold parse at h
  split at h
  · contradiction
  · split at h
    · cases h
      exact Bytes.length_entries_le LengthSpec.choiceMark field
    · contradiction

theorem reaches_draw {spec : TypeSpec} (hentry : spec.Admits entry)
    (hfit : ∀ names, spec = .choice names → names.length ≤ UInt64.size) :
    Reaches spec.draw.read entry := by
  cases spec with
  | absent | single =>
    cases hentry
    exact Draw.reaches_done _
  | choice names =>
    obtain ⟨name, hmem, rfl⟩ := hentry
    exact Draw.reaches_choose hmem (hfit names rfl)

theorem Names.reaches (h : Names rules field entry) (hmemory : Addressable field) :
    Reaches (parse rules field).draw.read entry := by
  apply reaches_draw (admits_parse_iff.mpr h)
  intro names hnames
  exact Nat.le_trans (length_le_of_parse hnames) hmemory

end TypeSpec

/-! ## Contents -/

/-- The charset that the content is drawn from, where it is text of one. -/
def Keyword.charset? : Keyword → Option Bytes
  | .lower => some Charset.lower
  | .upper => some Charset.upper
  | .letters => some Charset.letters
  | .digit => some Charset.digits
  | .control => some Charset.control
  | _ => none

def Filler.charset? : Filler → Option Bytes
  | .standard => some Charset.all
  | .charset chars => some chars
  | .custom _ => none
  | .builtin keyword => keyword.charset?

theorem Filler.draw_of_charset? {filler : Filler} {chars : Bytes}
    (h : filler.charset? = some chars) (c : Config) (length : Option Nat) :
    filler.draw c length = Draw.text (length.getD c.defaultLength) chars := by
  cases filler with
  | standard | charset =>
    cases h
    rfl
  | custom => contradiction
  | builtin keyword =>
    cases keyword with
    | lower | upper | letters | digit | control =>
      cases h
      rfl
    | _ => contradiction

namespace Config

variable {c : Config} {tag lengths types b chars : Bytes} {n : Nat} {entry : Option Bytes}

/-! ## Tags -/

theorem plainBody_entries :
    plainBody (lengths :: Bytes.entries TagBody.separator types) = plainBody [lengths, types] := by
  rw [plainBody, List.flatMap_cons, Bytes.flatMap_entries, plainBody, List.flatMap_cons,
    List.flatMap_cons, List.flatMap_nil, List.append_nil]

theorem plainField_entries
    (h : ∀ x ∈ types, x ≠ '}'.toUInt8 ∧ x ≠ '%'.toUInt8 ∧ x ≠ '&'.toUInt8) :
    ∀ field ∈ Bytes.entries TagBody.separator types, PlainField field := by
  intro field hfield x hx
  obtain ⟨hmem, hne⟩ := Bytes.mem_of_mem_entries hfield hx
  obtain ⟨hclose, hpercent, hamp⟩ := h x hmem
  exact ⟨hclose, hne, hpercent, hamp⟩

theorem parse_plainBody (rules : FieldRules) (h : TagBody.separator ∉ lengths) :
    TagBody.parse rules (plainBody [lengths, types]) =
      .fields (.parse rules lengths) (.parse rules types) := by
  have htwo : plainBody [lengths, types] = TagBody.twoFields lengths types := by
    simp [plainBody, TagBody.twoFields]
  rw [htwo, TagBody.parse_twoFields rules h]

theorem tagBody_plainTag (hlengths : PlainField lengths)
    (htypes : ∀ x ∈ types, x ≠ '}'.toUInt8 ∧ x ≠ '%'.toUInt8 ∧ x ≠ '&'.toUInt8) :
    IsTag c.accepted (plainTag [lengths, types]) ∧
      c.tagBody (plainTag [lengths, types]) =
        .fields (.parse c.rules lengths) (.parse c.rules types) := by
  have hfields : ∀ field ∈ lengths :: Bytes.entries TagBody.separator types, PlainField field := by
    rw [List.forall_mem_cons]
    exact ⟨hlengths, plainField_entries htypes⟩
  have hwritten : Written c.accepted (lengths :: Bytes.entries TagBody.separator types)
      (plainTag [lengths, types]) := by
    rw [plainTag, ← plainBody_entries]
    exact written_plainTag
  have hcut : TagBody.separator ∉ lengths := fun hmem => (hlengths _ hmem).2.1 rfl
  refine ⟨hwritten.isTag hfields, ?_⟩
  rw [tagBody_written hwritten hfields, plainBody_entries, parse_plainBody c.rules hcut]

theorem pass_tag (h : IsTag c.accepted tag) : c.pass tag = Revised.rebuilt <$> c.fillTag tag := by
  have hfirst : firstTag? c.accepted tag = some ⟨[], tag, []⟩ :=
    firstTag?_eq_some_iff.mpr ⟨by simp, by simp, h⟩
  have hopens : opensTag c.accepted tag = true := by
    apply Bool.of_not_eq_false
    intro hnot
    rw [firstTag?_of_not_opensTag hnot] at hfirst
    contradiction
  have hsegs : segments c.accepted tag = [.tag tag] := by
    rw [segments_of_firstTag?_some hfirst, segments_of_firstTag?_none rfl]
    rfl
  unfold pass
  rw [if_pos hopens, hsegs, ← bind_pure_comp]
  simp [fillSegment]

theorem reaches_fillTag (hplain : c.output = .plain)
    (hbody : c.tagBody tag = .fields (.parse c.rules lengths) (.parse c.rules types))
    (hn : LengthSpec.Declares c.rules lengths n) (hentry : TypeSpec.Names c.rules types entry)
    (hchars : (c.filler entry).charset? = some chars) (hb : IsText n chars b)
    (hmemory : ∀ field ∈ [lengths, types, chars], Addressable field) :
    Reaches (c.fillTag tag).read b := by
  simp only [List.forall_mem_cons] at hmemory
  obtain ⟨hlengths, htypes, hfit, -⟩ := hmemory
  have hencode : c.output.encode b = b := by
    rw [hplain]
    rfl
  unfold fillTag
  rw [hbody]
  apply Draw.reaches_bind (hn.reaches hlengths)
  apply Draw.reaches_bind (TypeSpec.Names.reaches hentry htypes)
  have htext := Draw.reaches_map c.output.encode (Draw.reaches_text hb.2 (Nat.le_of_lt hfit))
  rw [hencode, hb.1] at htext
  rwa [Filler.draw_of_charset? hchars, Option.getD_some]

end Config

end TagFill
