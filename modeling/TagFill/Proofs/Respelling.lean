import TagFill.Proofs.CanonicalForm
import TagFill.Proofs.Pass

/-! # Spellings and literals make no difference

What a pass generates for its tags hangs on their fields alone: not on the spelling of any
delimiter, not on the long name, and not on the literals between the tags.
-/

namespace TagFill

/-! ## Ways to write a tag -/

/-- No byte of the field is a delimiter or the start of an encoded one. -/
def PlainField (field : Bytes) : Prop :=
  ∀ x ∈ field, x ≠ '}'.toUInt8 ∧ x ≠ ';'.toUInt8 ∧ x ≠ '%'.toUInt8 ∧ x ≠ '&'.toUInt8

instance (field : Bytes) : Decidable (PlainField field) :=
  List.decidableBAll
    (fun x => x ≠ '}'.toUInt8 ∧ x ≠ ';'.toUInt8 ∧ x ≠ '%'.toUInt8 ∧ x ≠ '&'.toUInt8) field

/-- The fields, each behind a separator in an accepted spelling of its own. -/
inductive WrittenFields (accepted : Dialects) : List Bytes → Bytes → Prop
  | nil : WrittenFields accepted [] []
  | cons {s field written : Bytes} {fields : List Bytes}
      (hs : s ∈ Delimiter.separator.spellings accepted)
      (rest : WrittenFields accepted fields written) :
      WrittenFields accepted (field :: fields) (s ++ field ++ written)

/-- One of the ways to write a tag with these fields, with or without the long name. -/
def Written (accepted : Dialects) (fields : List Bytes) (tag : Bytes) : Prop :=
  ∃ o ∈ Delimiter.tagOpen.spellings accepted, ∃ long : Bool, ∃ written,
    WrittenFields accepted fields written ∧ ∃ c ∈ Delimiter.tagClose.spellings accepted,
      tag = o ++ ((if long then TagBody.longName else []) ++ written) ++ c

def plainBody (fields : List Bytes) : Bytes := fields.flatMap (TagBody.separator :: ·)

/-- The tag with these fields in raw spellings and without the long name. -/
def plainTag (fields : List Bytes) : Bytes :=
  Delimiter.raw .tagOpen ++ plainBody fields ++ Delimiter.raw .tagClose

/-- A literal, and then tags with a literal behind each. -/
def woven (first : Bytes) : List (Bytes × Bytes) → Bytes
  | [] => first
  | (tag, literal) :: rest => first ++ tag ++ woven literal rest

section

variable {accepted : Dialects} {fields : List Bytes} {field written tag b : Bytes}

theorem plainBody_cons :
    plainBody (field :: fields) = TagBody.separator :: (field ++ plainBody fields) := rfl

theorem writtenFields_plainBody : WrittenFields accepted fields (plainBody fields) := by
  induction fields with
  | nil => exact .nil
  | cons field fields ih => exact .cons Delimiter.raw_mem_spellings ih

theorem written_plainTag : Written accepted fields (plainTag fields) :=
  ⟨_, Delimiter.raw_mem_spellings, false, _, writtenFields_plainBody, _,
    Delimiter.raw_mem_spellings, rfl⟩

/-! ## A written tag is a tag -/

theorem find?_tagClose_append (h : ∀ x ∈ b, x ≠ '}'.toUInt8 ∧ Canonical.isEscape x = false)
    (hw : Delimiter.tagClose.find? accepted written = none) :
    Delimiter.tagClose.find? accepted (b ++ written) = none := by
  have hhead : ∀ s ∈ Delimiter.tagClose.spellings accepted, ∀ x ∈ s.head?, x ∉ b := by
    intro s hs x hx hmem
    obtain ⟨hclose, hescape⟩ := h x hmem
    rcases Delimiter.mem_spellings_iff.mp hs with rfl | ⟨dialect, -, rfl⟩
    · exact hclose (Option.some.inj hx).symm
    · obtain ⟨y, t, hy, hyescape⟩ := Canonical.head_encoded dialect .tagClose
      rw [hy] at hx
      rw [Option.some.inj hx, hescape] at hyescape
      contradiction
  rw [Delimiter.find?_append_of_head hhead, hw]
  rfl

theorem find?_tagClose_separator {s : Bytes} (hs : s ∈ Delimiter.separator.spellings accepted)
    (hw : Delimiter.tagClose.find? accepted written = none) :
    Delimiter.tagClose.find? accepted (s ++ written) = none := by
  -- It is no closing delimiter, and behind its first byte it has no lead byte to start one.
  have hfront : ¬ Delimiter.tagClose.BeginsAt accepted (s ++ written) 0 := by
    rintro ⟨s', hs', hpre⟩
    have := (Delimiter.eq_of_start hs' hs hpre (List.prefix_append s written)).1
    contradiction
  obtain ⟨x, t, rfl⟩ := List.exists_cons_of_ne_nil (Delimiter.ne_nil_of_mem_spellings hs)
  have hhead : ∀ s ∈ Delimiter.tagClose.spellings accepted, ∀ y ∈ s.head?, y ∉ t := by
    intro s' hs' y hy hmem
    have hlead : isLead y = true := Delimiter.leadFirst_of_mem (by decide) hs' y hy
    rw [Delimiter.isLead_tail hs y hmem] at hlead
    contradiction
  rw [List.cons_append] at hfront ⊢
  rw [Delimiter.find?_cons_of_not_beginsAt hfront, Delimiter.find?_append_of_head hhead, hw]
  rfl

theorem PlainField.not_isEscape (h : PlainField field) :
    ∀ x ∈ field, Canonical.isEscape x = false := by
  intro x hx
  obtain ⟨-, -, hpercent, hamp⟩ := h x hx
  simp [Canonical.isEscape, hpercent, hamp]

theorem find?_tagClose_written (h : WrittenFields accepted fields written)
    (hplain : ∀ field ∈ fields, PlainField field) :
    Delimiter.tagClose.find? accepted written = none := by
  induction h with
  | nil => rfl
  | cons hs rest ih =>
    rw [List.forall_mem_cons] at hplain
    obtain ⟨hfield, hfields⟩ := hplain
    rw [List.append_assoc]
    apply find?_tagClose_separator hs
    apply find?_tagClose_append _ (ih hfields)
    intro x hx
    exact ⟨(hfield x hx).1, hfield.not_isEscape x hx⟩

theorem longName_plain (long : Bool) : ∀ x ∈ (if long then TagBody.longName else []),
    x ≠ '}'.toUInt8 ∧ Canonical.isEscape x = false := by
  have h : TagBody.longName.all (fun x => x != '}'.toUInt8 && !Canonical.isEscape x) = true := by
    decide
  cases long with
  | false => simp
  | true => simpa using h

theorem Written.isTag (h : Written accepted fields tag)
    (hplain : ∀ field ∈ fields, PlainField field) : IsTag accepted tag := by
  obtain ⟨o, ho, long, written, hw, c, hc, rfl⟩ := h
  exact ⟨o, ho, _, c, hc, rfl,
    find?_tagClose_append (longName_plain long) (find?_tagClose_written hw hplain)⟩

/-! ## A written tag is read as its fields -/

theorem revise_written (h : WrittenFields accepted fields written)
    (hplain : ∀ field ∈ fields, PlainField field) :
    Canonical.revise accepted written = plainBody fields := by
  induction h with
  | nil => exact Canonical.revise_nil
  | cons hs rest ih =>
    rw [List.forall_mem_cons] at hplain
    obtain ⟨hfield, hfields⟩ := hplain
    rw [List.append_assoc, Canonical.revise_spelling hs,
      Canonical.revise_append_of_not_isEscape hfield.not_isEscape, ih hfields]
    rfl

theorem isSuffixOf?_append (a c : Bytes) : c.isSuffixOf? (a ++ c) = some a := by
  have h : c.reverse.isPrefixOf? (c.reverse ++ a.reverse) = some a.reverse :=
    Bytes.isPrefixOf?_eq_some_iff.mpr rfl
  rw [List.isSuffixOf?, List.reverse_append, h, Option.map_some, List.reverse_reverse]

theorem interior?_append :
    interior? (Delimiter.raw .tagOpen ++ b ++ Delimiter.raw .tagClose) = some b := by
  have h : (Delimiter.raw .tagOpen).isPrefixOf?
      (Delimiter.raw .tagOpen ++ (b ++ Delimiter.raw .tagClose)) =
        some (b ++ Delimiter.raw .tagClose) :=
    Bytes.isPrefixOf?_eq_some_iff.mpr rfl
  rw [interior?, List.append_assoc, h]
  exact isSuffixOf?_append b _

theorem withoutLongName_longName : TagBody.withoutLongName (TagBody.longName ++ b) = b := by
  rw [TagBody.withoutLongName, Bytes.isPrefixOf?_eq_some_iff.mpr rfl, Option.getD_some]

theorem withoutLongName_plainBody :
    TagBody.withoutLongName (plainBody fields) = plainBody fields := by
  cases fields <;> rfl

theorem parse_longName (rules : FieldRules) (long : Bool) :
    TagBody.parse rules ((if long then TagBody.longName else []) ++ plainBody fields) =
      TagBody.parse rules (plainBody fields) := by
  cases long with
  | false => rfl
  | true =>
    rw [if_pos rfl]
    unfold TagBody.parse
    rw [withoutLongName_longName, withoutLongName_plainBody]

theorem parseFields_ne_malformed (rules : FieldRules) (b : Bytes) :
    TagBody.parseFields rules b ≠ .malformed := by
  unfold TagBody.parseFields
  split
  · simp
  · split <;> simp

theorem parse_plainBody_ne_malformed (rules : FieldRules) (fields : List Bytes) :
    TagBody.parse rules (plainBody fields) ≠ .malformed := by
  unfold TagBody.parse
  rw [withoutLongName_plainBody]
  cases fields with
  | nil => simp [plainBody]
  | cons field fields =>
    rw [plainBody_cons]
    simp only [if_true]
    exact parseFields_ne_malformed rules _

end

namespace Config

variable {c : Config} {fields : List Bytes} {tag tag' : Bytes}

theorem tagBody_eq_parse {o interior cl : Bytes} (ho : o ∈ Delimiter.tagOpen.spellings c.accepted)
    (hcl : cl ∈ Delimiter.tagClose.spellings c.accepted) :
    c.tagBody (o ++ interior ++ cl) = .parse c.rules (Canonical.revise c.accepted interior) := by
  rw [tagBody, canonical_eq_revise, Canonical.revise_tag ho hcl, interior?_append]

theorem tagBody_written (h : Written c.accepted fields tag)
    (hplain : ∀ field ∈ fields, PlainField field) :
    c.tagBody tag = .parse c.rules (plainBody fields) := by
  obtain ⟨o, ho, long, written, hw, cl, hcl, rfl⟩ := h
  have hlong : ∀ x ∈ (if long then TagBody.longName else []), Canonical.isEscape x = false :=
    fun x hx => (longName_plain long x hx).2
  rw [tagBody_eq_parse ho hcl, Canonical.revise_append_of_not_isEscape hlong,
    revise_written hw hplain]
  exact parse_longName c.rules long

theorem fillTag_congr (h : c.tagBody tag = c.tagBody tag') (hread : c.tagBody tag' ≠ .malformed) :
    c.fillTag tag = c.fillTag tag' := by
  unfold fillTag
  rw [h]
  split
  · contradiction
  · rfl
  · rfl

theorem fillTag_written (h : Written c.accepted fields tag)
    (hplain : ∀ field ∈ fields, PlainField field) :
    c.fillTag tag = c.fillTag (plainTag fields) := by
  have hbody := tagBody_written h hplain
  have hplainBody := tagBody_written (c := c) written_plainTag hplain
  apply fillTag_congr
  · rw [hbody, hplainBody]
  · rw [hplainBody]
    exact parse_plainBody_ne_malformed c.rules fields

/-! ## The pass -/

def substitutes (c : Config) (contents : List (List Bytes)) : Draw (List Bytes) :=
  contents.mapM fun fields => c.fillTag (plainTag fields)

theorem fill_woven {contents : List (List Bytes)} {tags literals : List Bytes} {first : Bytes}
    (htags : List.Forall₂ (Written c.accepted) contents tags)
    (hplain : ∀ fields ∈ contents, ∀ field ∈ fields, PlainField field)
    (hcount : literals.length = tags.length)
    (hliterals : ∀ literal ∈ first :: literals, opensTag c.accepted literal = false) :
    c.fill (segments c.accepted (woven first (tags.zip literals))) =
      (fun subs => woven first (subs.zip literals)) <$> c.substitutes contents := by
  induction htags generalizing first literals with
  | nil =>
    have hnone := firstTag?_of_not_opensTag (hliterals first List.mem_cons_self)
    rw [List.zip_nil_left, woven, segments_of_firstTag?_none hnone, fill_literals]
    rfl
  | @cons fields tag contents tags htag htags ih =>
    obtain ⟨literal, literals, rfl⟩ : ∃ l ls, literals = l :: ls :=
      List.exists_cons_of_length_eq_add_one hcount
    rw [List.forall_mem_cons] at hplain hliterals
    obtain ⟨hfirst, hliterals⟩ := hliterals
    rw [opensTag_eq_false_iff] at hfirst
    have hf : firstTag? c.accepted (woven first ((tag, literal) :: tags.zip literals)) =
        some ⟨first, tag, woven literal (tags.zip literals)⟩ :=
      firstTag?_eq_some_iff.mpr ⟨rfl, hfirst, htag.isTag hplain.1⟩
    have hrest := ih hplain.2 (by simpa using hcount) hliterals
    rw [List.zip_cons_cons, segments_of_firstTag?_some hf, fill_literals_append, fill_tag_cons,
      fillTag_written htag hplain.1, hrest]
    simp only [substitutes, List.mapM_cons, map_bind, Functor.map_map, List.zip_cons_cons, woven,
      bind_pure_comp, List.append_assoc]

/-- For every way to write the tags and all literals between them that open nothing, the pass asks
what filling the fields asks, is refused where that is refused, and otherwise writes the literals
with the same substitutes between them, one for each tag. -/
theorem pass_written (c : Config) {contents : List (List Bytes)} {tags literals : List Bytes}
    {first : Bytes} (hplain : ∀ fields ∈ contents, ∀ field ∈ fields, PlainField field)
    (htags : List.Forall₂ (Written c.accepted) contents tags)
    (hcount : literals.length = tags.length)
    (hliterals : ∀ literal ∈ first :: literals, opensTag c.accepted literal = false) :
    c.passBytes (woven first (tags.zip literals)) =
        (fun subs => woven first (subs.zip literals)) <$> c.substitutes contents ∧
      ∀ s : Source, match (c.substitutes contents).run s with
        | (.error e, s') =>
          (c.passBytes (woven first (tags.zip literals))).run s = (.error e, s')
        | (.ok subs, s') => subs.length = tags.length ∧
          (c.passBytes (woven first (tags.zip literals))).run s =
            (.ok (woven first (subs.zip literals)), s') := by
  have hplan := fill_woven htags hplain hcount hliterals
  rw [← passBytes_eq_fill] at hplan
  refine ⟨hplan, ?_⟩
  intro s
  have hrun := Draw.run_map (fun subs => woven first (subs.zip literals)) (c.substitutes contents) s
  rw [← hplan] at hrun
  rcases hsubs : (c.substitutes contents).run s with ⟨e | subs, s'⟩
  · rw [hsubs] at hrun
    exact hrun
  · rw [hsubs] at hrun
    refine ⟨?_, hrun⟩
    rw [Draw.length_of_run_mapM hsubs]
    exact htags.length_eq

/-- Two tags in mixed spellings, one of them with the long name, between literals that hold parts of
delimiters and a whole closing one. -/
theorem pass_written_mixed :
    List.Forall₂ (Written .both) [[Bytes.ofText "2", Bytes.ofText "SPACE"], []]
        [Bytes.ofText "%7BRANDOM&semi;2;SPACE&rbrace;", Bytes.ofText "\x7bRAND%7D"] ∧
      ({} : Config).passBytes
          (Bytes.ofText "%7BRA%7BRANDOM&semi;2;SPACE&rbrace;&rbrace;\x7bRAND%7D") =
        (fun subs => woven (Bytes.ofText "%7BRA") (subs.zip [Bytes.ofText "&rbrace;", []])) <$>
          ({} : Config).substitutes [[Bytes.ofText "2", Bytes.ofText "SPACE"], []] := by
  have hplain : ∀ fields ∈ [[Bytes.ofText "2", Bytes.ofText "SPACE"], []], ∀ field ∈ fields,
      PlainField field := by decide
  have hfields : WrittenFields .both [Bytes.ofText "2", Bytes.ofText "SPACE"]
      (Bytes.ofText "&semi;2;SPACE") :=
    .cons (s := Bytes.ofText "&semi;") (by decide)
      (.cons (s := Bytes.ofText ";") (by decide) .nil)
  have hlong : Written .both [Bytes.ofText "2", Bytes.ofText "SPACE"]
      (Bytes.ofText "%7BRANDOM&semi;2;SPACE&rbrace;") :=
    ⟨Bytes.ofText "%7BRAND", by decide, true, _, hfields, Bytes.ofText "&rbrace;", by decide, rfl⟩
  have hshort : Written .both [] (Bytes.ofText "\x7bRAND%7D") :=
    ⟨Bytes.ofText "\x7bRAND", by decide, false, _, .nil, Bytes.ofText "%7D", by decide, rfl⟩
  have htags : List.Forall₂ (Written .both) [[Bytes.ofText "2", Bytes.ofText "SPACE"], []]
      [Bytes.ofText "%7BRANDOM&semi;2;SPACE&rbrace;", Bytes.ofText "\x7bRAND%7D"] :=
    .cons hlong (.cons hshort .nil)
  have hliterals : ∀ literal ∈ Bytes.ofText "%7BRA" :: [Bytes.ofText "&rbrace;", []],
      opensTag .both literal = false := by decide
  have hcount : [Bytes.ofText "&rbrace;", []].length =
      [Bytes.ofText "%7BRANDOM&semi;2;SPACE&rbrace;", Bytes.ofText "\x7bRAND%7D"].length := rfl
  exact ⟨htags, (pass_written {} hplain htags hcount hliterals).1⟩

end Config

end TagFill
