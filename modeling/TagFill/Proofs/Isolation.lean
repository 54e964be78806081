import TagFill.Proofs.Respelling
import TagFill.Proofs.TwoFields

/-! # Registrations do not reach other names

A registration counts for the type entries that have its name. To a payload in which no tag gives
that name, configurations with and without it are the same: a pass is the same plan.
-/

namespace TagFill

variable {α β : Type}

/-! ## What a tag says -/

namespace TagBody

variable {rules : FieldRules} {body : Bytes} {n : Option Nat} {entry : Option Bytes}

theorem withoutLongName_of_says (h : Says rules body n entry) (long : Bool) :
    withoutLongName ((if long then longName else []) ++ body) = body := by
  cases long with
  | true => exact withoutLongName_longName
  | false => cases h <;> rfl

theorem Says.admits (h : Says rules body n entry) (long : Bool) :
    (parse rules ((if long then longName else []) ++ body)).Admits n entry := by
  have hlong := withoutLongName_of_says h long
  unfold parse
  rw [hlong]
  cases h with
  | bare => exact ⟨rfl, rfl⟩
  | both hcut hn hentry =>
    simp only [if_true, parseFields, Bytes.cut_append hcut]
    exact ⟨LengthSpec.admits_parse_iff.mpr hn, TypeSpec.admits_parse_iff.mpr hentry⟩
  | @lengthOnly field n hcut hn =>
    have hadmits := LengthSpec.admits_parse_some_iff.mpr hn
    simp only [if_true, parseFields, Bytes.cut_eq_none hcut]
    cases hparse : LengthSpec.parse rules field with
    | absent =>
      rw [hparse] at hadmits
      contradiction
    | fixed | range | choice =>
      rw [hparse] at hadmits
      exact ⟨hadmits, rfl⟩
  | typeOnly hcut hno hentry =>
    simp only [if_true, parseFields, Bytes.cut_eq_none hcut, LengthSpec.parse_eq_absent_iff.mpr hno]
    exact ⟨rfl, TypeSpec.admits_parse_iff.mpr hentry⟩

end TagBody

namespace Config

theorem says_iff {c : Config} {tag : Bytes} {n : Option Nat} {entry : Option Bytes} :
    c.Says tag n entry ↔ (c.tagBody tag).Admits n entry := by
  constructor
  · rintro ⟨long, body, htag, hsaid⟩
    rw [tagBody, htag, interior?_append]
    exact hsaid.admits long
  · exact says_of_admits

end Config

/-! ## Plans that agree where they go -/

theorem Draw.choose_bind_congr {items : List α} {f g : Option α → Draw β} (hnone : f none = g none)
    (h : ∀ item ∈ items, f (some item) = g (some item)) :
    choose items >>= f = choose items >>= g := by
  unfold choose
  split
  · exact hnone
  · rw [bind_assoc, bind_assoc]
    congr 1
    funext i
    -- Only an item comes out, whatever the index is.
    cases hitem : items[i]? with
    | none => exact hnone
    | some item => exact h item (List.mem_of_getElem? hitem)

theorem TypeSpec.draw_bind_congr {spec : TypeSpec} {f g : Option Bytes → Draw β}
    (hnone : f none = g none)
    (h : ∀ entry, spec.Admits (some entry) → f (some entry) = g (some entry)) :
    spec.draw >>= f = spec.draw >>= g := by
  cases spec with
  | absent => exact hnone
  | single name => exact h name rfl
  | choice names =>
    apply Draw.choose_bind_congr hnone
    intro name hname
    exact h name ⟨name, hname, rfl⟩

theorem LengthSpec.Proper.exists_admitted {spec : LengthSpec} (h : spec.Proper) :
    ∃ n, spec.Admits n := by
  by_cases habsent : spec = .absent
  · exact ⟨none, by rw [habsent]; rfl⟩
  · obtain ⟨n, hn⟩ := h.exists_admits habsent
    exact ⟨some n, hn⟩

/-! ## Registrations of one name -/

/-- The change enables, disables or registers something for this name only, in any ASCII case. -/
def Change.Concerns (name : String) : Change → Prop
  | .enabled _ names => ∀ other ∈ names, Name.upper other = Name.upper name
  | .charset other _ | .generator other _ => Name.upper other = Name.upper name
  | _ => False

theorem Registry.find?_insert_upper_of_ne {r : Registry α} {name other registered : String}
    {value : α} (h : Name.upper registered = Name.upper name)
    (hne : Name.upper other ≠ Name.upper name) :
    (r.insert (Name.upper registered) value).find? (Name.upper other) =
      r.find? (Name.upper other) := by
  rw [find?_insert, h, if_neg hne]

namespace Config

/-- `c'` is `c` but for what is registered under the name. -/
structure SameBut (name : String) (c c' : Config) : Prop where
  rest : c' =
    { c with enabled := c'.enabled, charsets := c'.charsets, generators := c'.generators }
  isEnabled : ∀ other, Name.upper other ≠ Name.upper name → c'.isEnabled other = c.isEnabled other
  charset? : ∀ other, Name.upper other ≠ Name.upper name → c'.charset? other = c.charset? other
  generator? : ∀ other, Name.upper other ≠ Name.upper name →
    c'.generator? other = c.generator? other

namespace SameBut

variable {c c' c'' : Config} {name : String} {change : Change}

theorem refl (name : String) (c : Config) : SameBut name c c :=
  ⟨rfl, fun _ _ => rfl, fun _ _ => rfl, fun _ _ => rfl⟩

theorem trans (h : SameBut name c c') (h' : SameBut name c' c'') : SameBut name c c'' where
  rest := by
    rw [h'.rest, h.rest]
  isEnabled other hne := (h'.isEnabled other hne).trans (h.isEnabled other hne)
  charset? other hne := (h'.charset? other hne).trans (h.charset? other hne)
  generator? other hne := (h'.generator? other hne).trans (h.generator? other hne)

theorem setEnabled {names : List String} (h : ∀ other ∈ names, Name.upper other = Name.upper name)
    (c : Config) (on : Bool) : SameBut name c (c.setEnabled on names) := by
  refine ⟨rfl, ?_, fun _ _ => rfl, fun _ _ => rfl⟩
  intro other hne
  have hnone : lastFor other (names.map (·, on)) = none := by
    rw [lastFor_eq_none_iff, List.forall_mem_map]
    intro listed hlisted hname
    exact hne (hname.symm.trans (h listed hlisted))
  have hnamed := congrArg Prod.fst (named_setEnabled c on names)
  unfold Config.isEnabled
  rw [show (c.setEnabled on names).enabled = _ from hnamed, Registry.find?_insertAll, hnone]
  rfl

theorem addCharset {registered : String} (h : Name.upper registered = Name.upper name)
    (c : Config) (chars : Bytes) : SameBut name c (c.addCharset registered chars) := by
  unfold Config.addCharset
  split
  · exact refl name c
  · refine ⟨rfl, fun _ _ => rfl, ?_, fun _ _ => rfl⟩
    intro other hne
    exact Registry.find?_insert_upper_of_ne h hne

theorem addGenerator {registered : String} (h : Name.upper registered = Name.upper name)
    (c : Config) (value : Generator) : SameBut name c (c.addGenerator registered value) :=
  ⟨rfl, fun _ _ => rfl, fun _ _ => rfl, fun _ hne => Registry.find?_insert_upper_of_ne h hne⟩

theorem apply (h : change.Concerns name) (c : Config) : SameBut name c (c.apply change) := by
  cases change with
  | enabled on names => exact setEnabled h c on
  | charset other chars => exact addCharset h c chars
  | generator other value => exact addGenerator h c value
  | _ => exact h.elim

theorem applyAll {changes : List Change} (h : ∀ change ∈ changes, change.Concerns name)
    (c : Config) : SameBut name c (c.applyAll changes) := by
  induction changes generalizing c with
  | nil => exact refl name c
  | cons change changes ih =>
    rw [List.forall_mem_cons] at h
    exact (apply h.1 c).trans (ih h.2 (c.apply change))

/-! ## What such configurations fill in -/

theorem filler (h : SameBut name c c') {entry : Bytes}
    (hne : Name.ofEntry entry ≠ Name.upper name) :
    c'.filler (some entry) = c.filler (some entry) := by
  have hother : Name.upper (Name.ofEntry entry) ≠ Name.upper name := by
    rwa [Name.upper_ofEntry]
  change c'.fillerOfName (Name.ofEntry entry) = c.fillerOfName (Name.ofEntry entry)
  unfold fillerOfName
  rw [h.isEnabled _ hother, h.charset? _ hother, h.generator? _ hother]

theorem draw (h : SameBut name c c') (length : Option Nat) (filler : Filler) :
    filler.draw c' length = filler.draw c length := by
  rw [h.rest]
  rfl

theorem fillTag (h : SameBut name c c') {tag : Bytes}
    (hne : ∀ length entry, c.Says tag length (some entry) → Name.ofEntry entry ≠ Name.upper name) :
    c'.fillTag tag = c.fillTag tag := by
  have hbody : c'.tagBody tag = c.tagBody tag := by
    rw [h.rest]
    rfl
  have houtput : c'.output = c.output := by
    rw [h.rest]
  unfold Config.fillTag
  rw [hbody, houtput]
  cases hread : c.tagBody tag with
  | malformed => rfl
  | bare => simp only [h.draw]
  | fields lengths types =>
    have hproper := tagBody_proper c tag
    rw [hread] at hproper
    obtain ⟨length, hlength⟩ := hproper.1.exists_admitted
    simp only [h.draw]
    congr 1
    funext n
    refine TypeSpec.draw_bind_congr rfl ?_
    intro entry hentry
    have hsaid : c.Says tag length (some entry) := by
      rw [says_iff, hread]
      exact ⟨hlength, hentry⟩
    rw [h.filler (hne length entry hsaid)]

end SameBut

theorem fill_congr {c c' : Config} {segs : List Segment}
    (h : ∀ tag, .tag tag ∈ segs → c'.fillTag tag = c.fillTag tag) : c'.fill segs = c.fill segs := by
  induction segs with
  | nil => rfl
  | cons seg segs ih =>
    have hseg : c'.fillSegment seg = c.fillSegment seg := by
      cases seg with
      | literal b => rfl
      | tag tag => exact h tag List.mem_cons_self
    rw [fill_cons, fill_cons, hseg, ih fun tag htag => h tag (List.mem_cons_of_mem seg htag)]

/-- Some tag of the payload gives an entry of that name. -/
def Mentions (c : Config) (payload : Bytes) (name : String) : Prop :=
  ∃ tag, .tag tag ∈ segments c.accepted payload ∧
    ∃ length entry, c.Says tag length (some entry) ∧ Name.ofEntry entry = Name.upper name

/-- Whatever is registered for a name that no tag gives, in whatever order, a pass asks for the same
draws and makes the same of them. -/
theorem pass_isolated {c : Config} {payload : Bytes} {name : String} {changes : List Change}
    (hchanges : ∀ change ∈ changes, change.Concerns name) (hname : ¬ c.Mentions payload name) :
    (c.applyAll changes).pass payload = c.pass payload ∧
      ∀ s : Source, ((c.applyAll changes).pass payload).run s = (c.pass payload).run s := by
  have hsame := SameBut.applyAll hchanges c
  have haccepted : (c.applyAll changes).accepted = c.accepted := by
    rw [hsame.rest]
  have hpass : (c.applyAll changes).pass payload = c.pass payload := by
    rw [pass_eq_fill, pass_eq_fill, haccepted]
    congr 1
    apply fill_congr
    intro tag htag
    apply hsame.fillTag
    intro length entry hsaid hentry
    exact hname ⟨tag, htag, length, entry, hsaid, hentry⟩
  exact ⟨hpass, fun s => by rw [hpass]⟩

/-- One entry has a byte that is no text in it, one a separator, and one field is a length. -/
theorem pass_isolated_near :
    let first := Bytes.ofText "\x7bRAND;2;HEX,ke" ++ 0xFF :: Bytes.ofText "y\x7d"
    let payload := first ++ Bytes.ofText "\x7bRAND;9\x7d\x7bRAND;x;;key\x7d"
    let changes : List Change := [.enabled false ["KEY"], .charset "Key" [0x61],
      .generator "keY" (Generator.constant [0x62]), .enabled true ["key", "kEy"]]
    ¬ ({} : Config).Mentions payload "key" ∧
      (({} : Config).applyAll changes).pass payload = ({} : Config).pass payload := by
  intro first payload changes
  let second := Bytes.ofText "\x7bRAND;9\x7d"
  let third := Bytes.ofText "\x7bRAND;x;;key\x7d"
  let lossy := Bytes.ofText "ke" ++ 0xFF :: Bytes.ofText "y"
  have hsegs : segments ({} : Config).accepted payload = [.tag first, .tag second, .tag third] := by
    have hfirst : firstTag? .both payload = some ⟨[], first, second ++ third⟩ := rfl
    have hsecond : firstTag? .both (second ++ third) = some ⟨[], second, third⟩ := rfl
    have hthird : firstTag? .both third = some ⟨[], third, []⟩ := rfl
    change segments .both payload = _
    rw [segments_of_firstTag?_some hfirst, segments_of_firstTag?_some hsecond,
      segments_of_firstTag?_some hthird, segments_of_firstTag?_none rfl]
    rfl
  have hchoice : ({} : Config).tagBody first =
      .fields (.fixed 2) (.choice [Bytes.ofText "HEX", lossy]) := by decide
  have hlength : ({} : Config).tagBody second = .fields (.fixed 9) .absent := by decide
  have hsingle : ({} : Config).tagBody third =
      .fields .absent (.single (Bytes.ofText ";key")) := by decide
  have hhex : Name.ofEntry (Bytes.ofText "HEX") ≠ Name.upper "key" := by
    rw [Name.ofEntry_ofText]
    simp [Name.upper, ← String.toList_inj]
  have hlossy : Name.ofEntry lossy ≠ Name.upper "key" := by
    have hdecode : Utf8.decodeLossy lossy = ['k', 'e', Utf8.replacement, 'y'] := by decide +kernel
    rw [Name.ofEntry, hdecode]
    simp [Name.upper, ← String.toList_inj, Utf8.replacement]
  have hlong : Name.ofEntry (Bytes.ofText ";key") ≠ Name.upper "key" := by
    rw [Name.ofEntry_ofText]
    simp [Name.upper, ← String.toList_inj]
  have hname : ¬ ({} : Config).Mentions payload "key" := by
    rintro ⟨tag, htag, length, entry, hsaid, hname⟩
    rw [says_iff] at hsaid
    rw [hsegs] at htag
    simp only [List.mem_cons, Segment.tag.injEq, List.not_mem_nil, or_false] at htag
    obtain rfl | rfl | rfl := htag
    · rw [hchoice] at hsaid
      obtain ⟨-, name, hmem, ⟨⟩⟩ := hsaid
      simp only [List.mem_cons, List.not_mem_nil, or_false] at hmem
      obtain rfl | rfl := hmem
      · exact hhex hname
      · exact hlossy hname
    · rw [hlength] at hsaid
      obtain ⟨-, ⟨⟩⟩ := hsaid
    · rw [hsingle] at hsaid
      obtain ⟨-, ⟨⟩⟩ := hsaid
      exact hlong hname
  have hchanges : ∀ change ∈ changes, change.Concerns "key" := by
    simp only [changes, Change.Concerns, List.forall_mem_cons, List.not_mem_nil, false_implies,
      implies_true, and_true]
    simp [Name.upper, ← String.toList_inj]
  exact ⟨hname, (pass_isolated hchanges hname).1⟩

end Config

end TagFill
