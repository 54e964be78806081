import TagFill.Proofs.Cutting
import TagFill.Proofs.Pass
import TagFill.Proofs.Reading
import TagFill.Proofs.Sampling

/-! # Text comes out of text

All generated values but `BYTES` are texts, and the encodings keep texts. So a pass over a text
gives a text wherever nothing else is brought in by a registration, and with percent-encoding it
always does.
-/

namespace TagFill

open Bytes (IsAscii isAscii_append isAscii_flatMap isAscii_joined)
open Utf8 (Valid valid_of_isAscii)

/-! ## Encodings -/

theorem Bytes.forall_byte {P : UInt8 → Prop} (h : ∀ n < 256, P (UInt8.ofNat n)) (x : UInt8) :
    P x := by
  have hx := h x.toNat x.toNat_lt
  rwa [UInt8.ofNat_toNat] at hx

theorem Percent.isAscii_encode (b : Bytes) : IsAscii (encode b) := by
  apply isAscii_flatMap
  intro x _
  exact Bytes.forall_byte (P := fun x => IsAscii (encodeByte x)) (by decide +kernel) x

theorem Entity.valid_encode {b : Bytes} (h : Valid b) : Valid (encode b) := by
  refine h.flatMap ?_ ?_
  · exact Bytes.forall_byte (P := fun x => x < 0x80 → IsAscii (encodeByte x)) (by decide +kernel)
  · exact Bytes.forall_byte (P := fun x => 0x80 ≤ x → encodeByte x = [x]) (by decide +kernel)

theorem Encoding.valid_encode {b : Bytes} (h : Valid b) (e : Encoding) : Valid (e.encode b) := by
  cases e with
  | plain => exact h
  | url => exact valid_of_isAscii (Percent.isAscii_encode b)
  | html => exact Entity.valid_encode h

/-! ## Values -/

theorem Hex.digit_lt {n : Nat} (h : n < 16) : digit n < 0x80 := by
  have hall : ∀ m < 16, digit m < 0x80 := by decide
  exact hall n h

theorem Hex.isAscii_encode (b : Bytes) : IsAscii (encode b) := by
  apply isAscii_flatMap
  intro x _
  rw [IsAscii, List.forall_mem_cons, List.forall_mem_singleton]
  exact ⟨digit_lt (high_lt x), digit_lt (low_lt x)⟩

theorem Uuid.isAscii_render (drawn : Bytes) : IsAscii (render drawn) := by
  refine isAscii_joined (by decide) ?_
  rw [List.forall_mem_map]
  exact fun group _ => Hex.isAscii_encode group

namespace Address

theorem significant_subset (digits : List Nat) : significant digits ⊆ digits := by
  induction digits using significant.induct with
  | case1 => simp [significant]
  | case2 d => simp [significant]
  | case3 rest hne ih =>
    rw [significant]
    · exact List.subset_cons_of_subset 0 ih
    · exact hne
  | case4 digits hempty hsingle hzero =>
    rw [significant]
    · exact List.Subset.refl digits
    · exact hempty
    · exact hsingle
    · exact hzero

theorem isAscii_digits {digits : List Nat} (h : ∀ d ∈ digits, d < 16) :
    IsAscii ((significant digits).map Hex.digit) := by
  rw [IsAscii, List.forall_mem_map]
  intro d hd
  exact Hex.digit_lt (h d (significant_subset digits hd))

theorem isAscii_decimal (b : UInt8) : IsAscii (decimal b) := by
  have hb := b.toNat_lt
  apply isAscii_digits
  simp only [List.mem_cons, List.not_mem_nil, or_false, forall_eq_or_imp, forall_eq]
  omega

theorem isAscii_dotted (b : Bytes) : IsAscii (dotted b) := by
  refine isAscii_joined (by decide) ?_
  rw [List.forall_mem_map]
  exact fun x _ => isAscii_decimal x

theorem isAscii_hexadecimal {group : Nat} (h : group < 0x10000) : IsAscii (hexadecimal group) := by
  apply isAscii_digits
  simp only [List.mem_cons, List.not_mem_nil, or_false, forall_eq_or_imp, forall_eq]
  omega

theorem groups_lt (b : Bytes) : ∀ group ∈ groups b, group < 0x10000 := by
  induction b using groups.induct with
  | case1 high low rest ih =>
    have hhigh := high.toNat_lt
    have hlow := low.toNat_lt
    rw [groups, List.forall_mem_cons]
    exact ⟨by omega, ih⟩
  | case2 b h =>
    rw [groups]
    · simp
    · exact h

theorem isAscii_colons {gs : List Nat} (h : ∀ group ∈ gs, group < 0x10000) :
    IsAscii (colons gs) := by
  refine isAscii_joined (by decide) ?_
  rw [List.forall_mem_map]
  exact fun group hmem => isAscii_hexadecimal (h group hmem)

theorem isAscii_compressed {gs : List Nat} (h : ∀ group ∈ gs, group < 0x10000) :
    IsAscii (compressed gs) := by
  unfold compressed
  dsimp only
  split
  · exact isAscii_colons h
  · rw [isAscii_append, isAscii_append]
    refine ⟨⟨isAscii_colons ?_, by decide⟩, isAscii_colons ?_⟩
    · exact fun group hmem => h group (List.mem_of_mem_take hmem)
    · exact fun group hmem => h group (List.mem_of_mem_drop hmem)

theorem isAscii_render6 (b : Bytes) : IsAscii (render6 b) := by
  unfold render6
  split
  · exact isAscii_append.mpr ⟨by decide, isAscii_dotted _⟩
  · exact isAscii_compressed (groups_lt b)

end Address

namespace Draw

theorem isAscii_text {charset : Bytes} (h : IsAscii charset) (n : Nat) (s : Stream) :
    IsAscii ((text n charset).read s).1 := by
  by_cases hempty : charset = []
  · rw [text, if_pos (.inr hempty)]
    simp [IsAscii]
  · exact fun x hx => h x ((read_text hempty n s).2 x hx)

theorem isAscii_map {render : Bytes → Bytes} (h : ∀ b, IsAscii (render b)) (d : Draw Bytes)
    (s : Stream) : IsAscii ((render <$> d).read s).1 := by
  rw [read_map]
  exact h _

end Draw

/-! ## Fillers -/

/-- All that the filler can be asked for is text. -/
def Filler.GivesText : Filler → Prop
  | .standard => True
  | .builtin keyword => keyword ≠ .bytes
  | .custom generator => ∀ n, Valid (generator n)
  | .charset chars => IsAscii chars

section

variable {c : Config} {length : Option Nat} {filler : Filler}

theorem Value.valid_email (providers : List String) (length : Option Nat) (s : Stream) :
    Valid ((email providers length).read s).1 := by
  unfold email
  rw [Draw.read_bind, Draw.read_bind]
  have hlower : IsAscii Charset.lower := by decide
  have hlocal := valid_of_isAscii (Draw.isAscii_text hlower (length.getD localLength) s)
  have hat : Valid (Bytes.ofText "@") := ⟨_, rfl⟩
  exact (hlocal.append hat).append ⟨_, rfl⟩

theorem Keyword.valid_draw {keyword : Keyword} (h : keyword ≠ .bytes) (n : Nat) (s : Stream) :
    Valid ((Filler.ofKeyword c length n keyword).read s).1 := by
  cases keyword with
  | bytes => contradiction
  | email => exact Value.valid_email c.providers length s
  | lower | upper | letters | digit | control =>
    exact valid_of_isAscii (Draw.isAscii_text (by decide) n s)
  | hex => exact valid_of_isAscii (Draw.isAscii_map Hex.isAscii_encode _ s)
  | uuid => exact valid_of_isAscii (Draw.isAscii_map Uuid.isAscii_render _ s)
  | ipv4 => exact valid_of_isAscii (Draw.isAscii_map Address.isAscii_dotted _ s)
  | ipv6 => exact valid_of_isAscii (Draw.isAscii_map Address.isAscii_render6 _ s)
  | space =>
    refine valid_of_isAscii fun x hx => ?_
    obtain ⟨copy, hcopy, hx⟩ := List.mem_flatten.mp hx
    rw [List.eq_of_mem_replicate hcopy] at hx
    exact (by decide : IsAscii (Bytes.ofText " ")) x hx

theorem Filler.GivesText.valid_draw (h : filler.GivesText) (s : Stream) :
    Valid ((filler.draw c length).read s).1 := by
  cases filler with
  | standard => exact valid_of_isAscii (Draw.isAscii_text (by decide) _ s)
  | charset chars => exact valid_of_isAscii (Draw.isAscii_text h _ s)
  | custom generator => exact h _
  | builtin keyword => exact Keyword.valid_draw h _ s

end

namespace Config

/-- Nothing but text is registered: the custom charsets are ASCII, and the custom generators give
valid bytes for every length. -/
structure RegistersText (c : Config) : Prop where
  charsets : ∀ name chars, c.charset? name = some chars → IsAscii chars
  generators : ∀ name generator, c.generator? name = some generator → ∀ n, Valid (generator n)

/-- The type that a tag that can be read gives, drawn from the stream if the tag leaves a choice. -/
def tagType? (c : Config) (tag : Bytes) (s : Stream) : Option (Option Bytes) :=
  match c.tagBody tag with
  | .malformed => none
  | .bare => some none
  | .fields length type => some (type.draw.read (length.draw.read s).2).1

/-- The types of the tags one after the other, each on the stream as the segments in front leave
it. -/
def types (c : Config) : List Segment → Stream → List (Option Bytes)
  | [], _ => []
  | .literal _ :: rest, s => c.types rest s
  | .tag tag :: rest, s => (c.tagType? tag s).toList ++ c.types rest ((c.fillTag tag).read s).2

variable {c : Config} {tag : Bytes} {segs : List Segment}

theorem RegistersText.givesText {entry : Option Bytes} (h : c.RegistersText)
    (hbytes : c.filler entry ≠ .builtin .bytes) : (c.filler entry).GivesText := by
  cases entry with
  | none => trivial
  | some entry =>
    simp only [filler, fillerOfName] at hbytes ⊢
    split
    · trivial
    · rename_i henabled
      rw [if_neg henabled] at hbytes
      split
      · rename_i keyword hkeyword
        rw [hkeyword] at hbytes
        rintro rfl
        exact hbytes rfl
      · split
        · rename_i generator hgenerator
          exact h.generators _ generator hgenerator
        · split
          · rename_i chars hchars
            exact h.charsets _ chars hchars
          · trivial

theorem read_fillTag (c : Config) (tag : Bytes) (s : Stream) :
    match c.tagType? tag s with
    | none => ((c.fillTag tag).read s).1 = tag
    | some entry => ∃ length s', ((c.fillTag tag).read s).1 =
        c.output.encode (((c.filler entry).draw c length).read s').1 := by
  cases hbody : c.tagBody tag with
  | malformed =>
    simp only [tagType?, hbody, fillTag_malformed hbody]
    rfl
  | bare =>
    simp only [tagType?, hbody, fillTag_bare hbody, Draw.read_map]
    exact ⟨none, s, rfl⟩
  | fields length type =>
    simp only [tagType?, hbody, fillTag_fields hbody, Draw.read_bind, Draw.read_map]
    exact ⟨_, _, rfl⟩

/-- What is filled in for the type is text, whatever length it is drawn for and from which
stream. -/
def FillsText (c : Config) (entry : Option Bytes) : Prop :=
  ∀ length s, Valid (c.output.encode (((c.filler entry).draw c length).read s).1)

theorem valid_fillTag {s : Stream} (htag : Valid tag)
    (h : ∀ entry ∈ c.tagType? tag s, c.FillsText entry) : Valid ((c.fillTag tag).read s).1 := by
  have hread := read_fillTag c tag s
  split at hread
  · rw [hread]
    exact htag
  · rename_i entry hentry
    obtain ⟨length, s', hread⟩ := hread
    rw [hread]
    exact h entry hentry length s'

theorem valid_fill {s : Stream} (hsegs : ∀ seg ∈ segs, Valid seg.bytes)
    (h : ∀ entry ∈ c.types segs s, c.FillsText entry) : Valid ((c.fill segs).read s).1 := by
  induction segs generalizing s with
  | nil => exact Utf8.valid_nil
  | cons seg segs ih =>
    rw [List.forall_mem_cons] at hsegs
    obtain ⟨hseg, hsegs⟩ := hsegs
    cases seg with
    | literal b =>
      rw [fill_literal_cons, Draw.read_map]
      exact hseg.append (ih hsegs h)
    | tag tag =>
      simp only [types, List.forall_mem_append, Option.mem_toList] at h
      rw [fill_tag_cons, Draw.read_bind, Draw.read_map]
      exact (valid_fillTag hseg h.1).append (ih hsegs h.2)

/-- The result is a text. So as a text it is the same, and no replacement character is put in. -/
theorem pass_valid {c : Config} {payload : String} {s s' : Source} {r : Revised}
    (hrun : (c.pass (Bytes.ofText payload)).run s = (.ok r, s'))
    (hcontent : c.output = .url ∨ c.RegistersText ∧
      ∀ entry ∈ c.types (segments c.accepted (Bytes.ofText payload)) s.stream,
        c.filler entry ≠ .builtin .bytes) :
    Valid r.bytes ∧
      ∃ text, (c.passText payload).run s = (.ok text, s') ∧ Bytes.ofText text = r.bytes := by
  have hvalid : Valid r.bytes := by
    have hbytes : (c.passBytes (Bytes.ofText payload)).run s = (.ok r.bytes, s') := by
      rw [passBytes, Draw.run_map, hrun]
    rw [← Draw.read_of_run hbytes, passBytes_eq_fill]
    refine valid_fill (valid_segments ⟨payload, rfl⟩) ?_
    intro entry hentry length stream
    rcases hcontent with hurl | ⟨hregisters, hbytes⟩
    · rw [hurl]
      exact valid_of_isAscii (Percent.isAscii_encode _)
    · have hgives := hregisters.givesText (hbytes entry hentry)
      exact Encoding.valid_encode (hgives.valid_draw stream) c.output
  refine ⟨hvalid, ?_⟩
  obtain ⟨text, htext⟩ := hvalid
  have hdecode : String.ofList (Utf8.decodeLossy r.bytes) = text := by
    rw [htext, Utf8.decodeLossy_ofText, String.ofList_toList]
  refine ⟨text, ?_, htext.symm⟩
  rw [passText, Draw.run_map, hrun, ← hdecode]

/-- A tag that cannot be read and one that is filled, between characters of two bytes. -/
theorem pass_valid_html :
    let c : Config := { output := .html }
    let payload := "ß\x7bRANDü\x7d\x7bRAND;2\x7dé"
    let filled := Bytes.ofText "ß\x7bRANDü\x7d&lt;=é"
    let source := Source.scripted [0, 0, 0, 224, 0, 0, 0, 228] none
    ∃ s', (c.pass (Bytes.ofText payload)).run source = (.ok (.rebuilt filled), s') ∧
      Valid filled ∧ ∃ text, (c.passText payload).run source = (.ok text, s') ∧
        Bytes.ofText text = filled := by
  intro c payload filled source
  have hfirst : firstTag? .both (Bytes.ofText "ß\x7bRANDü\x7d\x7bRAND;2\x7dé") = some
      ⟨Bytes.ofText "ß", Bytes.ofText "\x7bRANDü\x7d", Bytes.ofText "\x7bRAND;2\x7dé"⟩ := rfl
  have hsecond : firstTag? .both (Bytes.ofText "\x7bRAND;2\x7dé") =
      some ⟨[], Bytes.ofText "\x7bRAND;2\x7d", Bytes.ofText "é"⟩ := rfl
  have hsegs : segments c.accepted (Bytes.ofText payload) =
      [.literal (Bytes.ofText "ß"), .tag (Bytes.ofText "\x7bRANDü\x7d"),
        .tag (Bytes.ofText "\x7bRAND;2\x7d"), .literal (Bytes.ofText "é")] := by
    change segments .both (Bytes.ofText "ß\x7bRANDü\x7d\x7bRAND;2\x7dé") = _
    rw [segments_of_firstTag?_some hfirst, segments_of_firstTag?_some hsecond,
      segments_of_firstTag?_none rfl]
    rfl
  have hresult : ((c.pass (Bytes.ofText payload)).run source).1 = .ok (.rebuilt filled) := by
    unfold pass
    rw [hsegs]
    decide +kernel
  obtain ⟨s', hrun⟩ : ∃ s', (c.pass (Bytes.ofText payload)).run source =
      (.ok (.rebuilt filled), s') := ⟨_, Prod.ext hresult rfl⟩
  have hregisters : c.RegistersText := ⟨by rintro _ _ ⟨⟩, by rintro _ _ ⟨⟩⟩
  have hmalformed : c.tagBody (Bytes.ofText "\x7bRANDü\x7d") = .malformed := by decide +kernel
  have hfields : c.tagBody (Bytes.ofText "\x7bRAND;2\x7d") = .fields (.fixed 2) .absent := by
    decide +kernel
  have htypes : c.types (segments c.accepted (Bytes.ofText payload)) source.stream = [none] := by
    simp only [hsegs, types, tagType?, hmalformed, hfields]
    rfl
  have hcontent : ∀ entry ∈ c.types (segments c.accepted (Bytes.ofText payload)) source.stream,
      c.filler entry ≠ .builtin .bytes := by
    rw [htypes]
    simp [filler]
  exact ⟨s', hrun, pass_valid hrun (.inr ⟨hregisters, hcontent⟩)⟩

end Config

end TagFill
