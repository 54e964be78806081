import TagFill.Pass
import TagFill.Proofs.Draw
import TagFill.Proofs.Splitting

/-! # Passes in a row

A pass writes the segments of its payload one after the other. Where nothing that opens in the first
payload is left open at its end, a pass over two payloads in a row is a pass over the first and then
a pass over the second: what is generated for the first is not read again.
-/

namespace TagFill

/-! ## One tag -/

/-- The length and the type entry that a tag is filled for. A malformed tag has none. -/
def TagBody.resolve : TagBody → Draw (Option (Option Nat × Option Bytes))
  | .malformed => return none
  | .bare => return some (none, none)
  | .fields length type => do
    let n ← length.draw
    let entry ← type.draw
    return some (n, entry)

namespace Config

variable {c : Config} {b p q tag : Bytes} {segs segs' : List Segment}

theorem fillTag_eq (c : Config) (tag : Bytes) :
    c.fillTag tag = (c.tagBody tag).resolve >>= fun
      | some (length, entry) => c.output.encode <$> (c.filler entry).draw c length
      | none => return tag := by
  unfold fillTag
  cases c.tagBody tag with
  | malformed | bare => rfl
  | fields length type => simp [TagBody.resolve]

theorem fillTag_malformed (h : c.tagBody tag = .malformed) : c.fillTag tag = .done tag := by
  rw [fillTag, h]
  rfl

theorem fillTag_bare (h : c.tagBody tag = .bare) :
    c.fillTag tag = c.output.encode <$> Filler.standard.draw c none := by
  rw [fillTag, h]

theorem fillTag_fields {length : LengthSpec} {type : TypeSpec}
    (h : c.tagBody tag = .fields length type) :
    c.fillTag tag = length.draw >>= fun n => type.draw >>= fun entry =>
      c.output.encode <$> (c.filler entry).draw c n := by
  rw [fillTag, h]

/-! ## One segment after another -/

/-- What a pass writes, whether or not it had anything to fill. -/
def passBytes (c : Config) (payload : Bytes) : Draw Bytes := Revised.bytes <$> c.pass payload

def fill (c : Config) (segs : List Segment) : Draw Bytes :=
  List.flatten <$> segs.mapM c.fillSegment

@[simp] theorem fill_nil : c.fill [] = .done [] := rfl

theorem fill_cons (seg : Segment) :
    c.fill (seg :: segs) = do
      let x ← c.fillSegment seg
      let y ← c.fill segs
      return x ++ y := by
  simp only [fill, List.mapM_cons, map_bind, map_pure, List.flatten_cons, bind_map_left]

theorem fill_literal_cons : c.fill (.literal b :: segs) = (b ++ ·) <$> c.fill segs := by
  rw [fill_cons, ← bind_pure_comp]
  rfl

theorem fill_literals_append :
    c.fill (Segment.literals b ++ segs) = (b ++ ·) <$> c.fill segs := by
  by_cases hb : b = []
  · subst hb
    simp
  · rw [Segment.literals_of_ne_nil hb, List.singleton_append, fill_literal_cons]

theorem fill_literals : c.fill (Segment.literals b) = .done b := by
  have happend : c.fill (Segment.literals b ++ []) = (b ++ ·) <$> c.fill [] := fill_literals_append
  rw [List.append_nil] at happend
  rw [happend, fill_nil, Draw.map_done, List.append_nil]

theorem fill_tag_cons :
    c.fill (.tag tag :: segs) = c.fillTag tag >>= fun x => (x ++ ·) <$> c.fill segs := by
  rw [fill_cons]
  simp only [bind_pure_comp]
  rfl

theorem pass_eq_fill (c : Config) (payload : Bytes) :
    c.pass payload = (if opensTag c.accepted payload then Revised.rebuilt else .untouched) <$>
      c.fill (segments c.accepted payload) := by
  unfold pass
  split
  · rw [bind_pure_comp, fill, Functor.map_map]
  · rename_i hopens
    rw [Bool.not_eq_true] at hopens
    rw [segments_of_firstTag?_none (firstTag?_of_not_opensTag hopens), fill_literals]
    rfl

theorem passBytes_eq_fill (c : Config) (payload : Bytes) :
    c.passBytes payload = c.fill (segments c.accepted payload) := by
  rw [passBytes, pass_eq_fill]
  split <;> rw [Functor.map_map] <;> exact id_map _

end Config

/-! ## One payload behind another -/

namespace Segment

@[simp] theorem joined_append (segs segs' : List Segment) :
    joined (segs ++ segs') = joined segs ++ joined segs' := List.flatMap_append

@[simp] theorem joined_literals (b : Bytes) : joined (literals b) = b := by
  by_cases hb : b = []
  · simp [hb]
  · simp [literals_of_ne_nil hb, bytes]

end Segment

/-- No opening delimiter of `p ++ q` starts in the literal at the end of `p`, if there is one. -/
def EndsClosed (accepted : Dialects) (p q : Bytes) : Prop :=
  ∀ front b, segments accepted p = front ++ [.literal b] → ∀ i < b.length,
    ¬ Delimiter.tagOpen.BeginsAt accepted (p ++ q) ((Segment.joined front).length + i)

section

variable {accepted : Dialects} {p q : Bytes} {f : Found}

theorem EndsClosed.not_beginsAt (h : EndsClosed accepted p q) (hp : firstTag? accepted p = none) :
    ∀ i < p.length, ¬ Delimiter.tagOpen.BeginsAt accepted (p ++ q) i := by
  intro i hi
  have hne : p ≠ [] := by
    rintro rfl
    simp at hi
  rw [EndsClosed, segments_of_firstTag?_none hp, Segment.literals_of_ne_nil hne] at h
  simpa using h [] p rfl i hi

theorem EndsClosed.of_segments {front : List Segment} {b : Bytes}
    (hsegs : segments accepted p = front ++ [.literal b])
    (h : ∀ i < b.length, ¬ Delimiter.tagOpen.BeginsAt accepted (p ++ q)
      ((Segment.joined front).length + i)) :
    EndsClosed accepted p q := by
  intro front' b' hsegs'
  obtain ⟨rfl, hb⟩ := List.append_inj' (hsegs.symm.trans hsegs') rfl
  cases hb
  exact h

theorem EndsClosed.after (hf : firstTag? accepted (f.before ++ f.spelling ++ f.after) = some f)
    (h : EndsClosed accepted (f.before ++ f.spelling ++ f.after) q) :
    EndsClosed accepted f.after q := by
  intro front b hsegs i hi
  have hall := h (Segment.literals f.before ++ .tag f.spelling :: front) b
    (by rw [segments_of_firstTag?_some hf, hsegs]; simp) i hi
  have hplace : (Segment.joined (Segment.literals f.before ++ .tag f.spelling :: front)).length =
      (f.before ++ f.spelling).length + (Segment.joined front).length := by
    simp [Segment.bytes, Nat.add_assoc]
  rw [hplace, Nat.add_assoc, List.append_assoc (f.before ++ f.spelling),
    Delimiter.beginsAt_append_right] at hall
  exact hall

theorem firstTag?_append_left (h : firstTag? accepted p = some f) :
    firstTag? accepted (p ++ q) = some { f with after := f.after ++ q } := by
  rw [firstTag?_eq_some_iff] at h ⊢
  obtain ⟨happ, hbefore, htag⟩ := h
  refine ⟨?_, hbefore, htag⟩
  rw [happ, List.append_assoc]

end

namespace Config

variable {c : Config} {p q : Bytes}

theorem fill_segments_append (h : EndsClosed c.accepted p q) :
    c.fill (segments c.accepted (p ++ q)) =
      c.fill (segments c.accepted p) >>= fun x => (x ++ ·) <$> c.fill (segments c.accepted q) := by
  induction p using firstTag?_induction c.accepted with
  | whole p hp =>
    -- The literal `p` and the literal at the front of `q` become one.
    have hfirst := firstTag?_append_of_not_beginsAt (h.not_beginsAt hp)
    rw [segments_of_firstTag?_none hp, fill_literals, Draw.done_bind]
    cases hq : firstTag? c.accepted q with
    | none =>
      rw [hq] at hfirst
      rw [segments_of_firstTag?_none hfirst, segments_of_firstTag?_none hq, fill_literals,
        fill_literals, Draw.map_done]
    | some f =>
      rw [hq] at hfirst
      rw [segments_of_firstTag?_some hfirst, segments_of_firstTag?_some hq, fill_literals_append,
        fill_literals_append, Functor.map_map]
      simp [Found.behind]
  | step f hbefore htag ih =>
    have hf := firstTag?_eq_some_iff.mpr ⟨rfl, hbefore, htag⟩
    rw [segments_of_firstTag?_some (firstTag?_append_left hf), segments_of_firstTag?_some hf,
      fill_literals_append, fill_literals_append, fill_tag_cons, fill_tag_cons, ih (h.after hf)]
    simp only [map_bind, bind_assoc, bind_map_left, Functor.map_map, List.append_assoc]

/-- A pass over two payloads in a row asks what the pass over the first asks, and then what the pass
over the second asks of the source as it is left. It writes what both write, and is refused where
one of them is. -/
theorem pass_append (c : Config) (p q : Bytes) (h : EndsClosed c.accepted p q) :
    (c.passBytes (p ++ q) = do
      let x ← c.passBytes p
      let y ← c.passBytes q
      return x ++ y) ∧
    ∀ s : Source, (c.passBytes (p ++ q)).run s =
      match (c.passBytes p).run s with
      | (.error e, s₁) => (.error e, s₁)
      | (.ok x, s₁) =>
        match (c.passBytes q).run s₁ with
        | (.error e, s₂) => (.error e, s₂)
        | (.ok y, s₂) => (.ok (x ++ y), s₂) := by
  have hplan : c.passBytes (p ++ q) = c.passBytes p >>= fun x => (x ++ ·) <$> c.passBytes q := by
    simp only [passBytes_eq_fill]
    exact fill_segments_append h
  refine ⟨?_, ?_⟩
  · rw [hplan]
    simp only [bind_pure_comp]
  · intro s
    rw [hplan, Draw.run_bind]
    rcases (c.passBytes p).run s with ⟨e | x, s₁⟩
    · rfl
    · simp only [Draw.run_map]
      rcases (c.passBytes q).run s₁ with ⟨e | y, s₂⟩ <;> rfl

/-- What the first payload ends with is almost an opening delimiter, and the second does not make it
one. -/
theorem pass_append_almost_open :
    EndsClosed .both (Bytes.ofText "\x7bRAND;4\x7d%7BRA") (Bytes.ofText "x%7BRAND;2%7D") ∧
      ({} : Config).passBytes (Bytes.ofText "\x7bRAND;4\x7d%7BRAx%7BRAND;2%7D") = do
        let x ← ({} : Config).passBytes (Bytes.ofText "\x7bRAND;4\x7d%7BRA")
        let y ← ({} : Config).passBytes (Bytes.ofText "x%7BRAND;2%7D")
        return x ++ y := by
  have hfirst : firstTag? .both (Bytes.ofText "\x7bRAND;4\x7d%7BRA") =
      some ⟨[], Bytes.ofText "\x7bRAND;4\x7d", Bytes.ofText "%7BRA"⟩ := rfl
  have hsegs : segments .both (Bytes.ofText "\x7bRAND;4\x7d%7BRA") =
      [.tag (Bytes.ofText "\x7bRAND;4\x7d")] ++ [.literal (Bytes.ofText "%7BRA")] := by
    rw [segments_of_firstTag?_some hfirst, segments_of_firstTag?_none rfl]
    rfl
  have hclosed : EndsClosed .both (Bytes.ofText "\x7bRAND;4\x7d%7BRA")
      (Bytes.ofText "x%7BRAND;2%7D") := .of_segments hsegs (by decide)
  exact ⟨hclosed, (pass_append {} _ _ hclosed).1⟩

end Config

end TagFill
