import TagFill.Proofs.Randomize
import TagFill.Proofs.Reading

/-! # Output encodings

With an output encoding a pass draws what it would draw without one. Of what it writes, each piece
that is filled in is encoded, once, and each piece that is copied stays as it is.
-/

namespace TagFill

namespace Draw

variable {α β γ : Type}

theorem trail_map (f : α → β) (d : Draw α) (s : Stream) : (f <$> d).trail s = d.trail s := by
  induction d generalizing s with
  | done a => rfl
  | ask r next ih => exact congrArg (_ :: ·) (ih (r.read s).1 (r.read s).2)

theorem mapM_map (g : α → β → γ) (f : α → Draw β) (items : List α) :
    items.mapM (fun item => g item <$> f item) = List.zipWith g items <$> items.mapM f := by
  induction items with
  | nil => rfl
  | cons item items ih =>
    rw [List.mapM_cons, List.mapM_cons, ih]
    simp only [bind_map_left, map_bind, map_pure, List.zipWith_cons_cons]

end Draw

namespace Config

variable {c : Config} {e : Encoding}

/-- A segment is copied unless it is a tag that can be read. -/
def isCopied (c : Config) : Segment → Bool
  | .literal _ => true
  | .tag tag => c.tagBody tag == .malformed

/-- What becomes of the piece that is written for a segment. -/
def recode (c : Config) (e : Encoding) (seg : Segment) (piece : Bytes) : Bytes :=
  if c.isCopied seg then piece else e.encode piece

theorem recode_copied {seg : Segment} (h : c.isCopied seg = true) : c.recode e seg = id := by
  funext piece
  exact if_pos h

theorem recode_filled {seg : Segment} (h : c.isCopied seg = false) :
    c.recode e seg = e.encode := by
  funext piece
  rw [recode, h]
  rfl

theorem isCopied_tag {tag : Bytes} : c.isCopied (.tag tag) = true ↔ c.tagBody tag = .malformed :=
  beq_iff_eq

theorem fillTag_setOutput (c : Config) (e : Encoding) (tag : Bytes) :
    (c.setOutput e).fillTag tag = c.recode e (.tag tag) <$> (c.setOutput .plain).fillTag tag := by
  by_cases hmalformed : c.tagBody tag = .malformed
  · rw [recode_copied (isCopied_tag.mpr hmalformed), id_map,
      fillTag_malformed (c := c.setOutput e) hmalformed,
      fillTag_malformed (c := c.setOutput .plain) hmalformed]
  · have hfilled : c.isCopied (.tag tag) = false := by
      rwa [← Bool.not_eq_true, isCopied_tag]
    rw [recode_filled hfilled]
    cases hread : c.tagBody tag with
    | malformed => contradiction
    | bare =>
      rw [fillTag_bare (c := c.setOutput e) hread, fillTag_bare (c := c.setOutput .plain) hread,
        Functor.map_map]
      rfl
    | fields length type =>
      rw [fillTag_fields (c := c.setOutput e) hread,
        fillTag_fields (c := c.setOutput .plain) hread]
      simp only [map_bind, Functor.map_map]
      rfl

theorem fillSegment_setOutput (c : Config) (e : Encoding) (seg : Segment) :
    (c.setOutput e).fillSegment seg = c.recode e seg <$> (c.setOutput .plain).fillSegment seg := by
  cases seg with
  | literal b => rfl
  | tag tag => exact fillTag_setOutput c e tag

theorem read_fillSegment_copied {seg : Segment} (h : c.isCopied seg = true) (s : Stream) :
    ((c.fillSegment seg).read s).1 = seg.bytes := by
  cases seg with
  | literal b => rfl
  | tag tag =>
    rw [fillSegment, fillTag_malformed (isCopied_tag.mp h)]
    rfl

/-! ## Pieces -/

/-- What is written for the segments one by one, and the source that it leads to. -/
inductive Fills (c : Config) : Source → List Segment → List Bytes → Source → Prop
  | nil (s : Source) : Fills c s [] [] s
  | cons {s s₁ s₂ : Source} {seg : Segment} {segs : List Segment} {piece : Bytes}
      {pieces : List Bytes} (h : c.writeSegment seg s [] = (.ok (), piece, s₁))
      (hrest : Fills c s₁ segs pieces s₂) : Fills c s (seg :: segs) (piece :: pieces) s₂

theorem fills_of_run {segs : List Segment} {pieces : List Bytes} {s s' : Source}
    (h : (segs.mapM c.fillSegment).run s = (.ok pieces, s')) : c.Fills s segs pieces s' := by
  induction segs generalizing pieces s with
  | nil =>
    cases h
    exact .nil _
  | cons seg segs ih =>
    obtain ⟨piece, s₁, others, hpiece, hothers, rfl⟩ := Draw.run_mapM_cons h
    exact .cons ((writes_segment seg).ok hpiece []) (ih hothers)

/-- Where the pieces are put: only a payload with an opening delimiter gets a result of its own. -/
def wrap (c : Config) (payload : Bytes) : Bytes → Revised :=
  if opensTag c.accepted payload then .rebuilt else .untouched

theorem bytes_wrap (c : Config) (payload b : Bytes) : (c.wrap payload b).bytes = b := by
  unfold wrap
  split <;> rfl

theorem pass_plain (c : Config) (payload : Bytes) :
    (c.setOutput .plain).pass payload = (fun ps => c.wrap payload ps.flatten) <$>
      (segments c.accepted payload).mapM (c.setOutput .plain).fillSegment := by
  rw [pass_eq_fill, fill, Functor.map_map]
  rfl

/-- With an encoding a pass takes the pieces that it would take without one. -/
theorem pass_setOutput (c : Config) (e : Encoding) (payload : Bytes) :
    let segs := segments c.accepted payload
    (c.setOutput e).pass payload =
      (fun ps => c.wrap payload (List.zipWith (c.recode e) segs ps).flatten) <$>
        segs.mapM (c.setOutput .plain).fillSegment := by
  intro segs
  have hfill : (c.setOutput e).fillSegment =
      fun seg => c.recode e seg <$> (c.setOutput .plain).fillSegment seg :=
    funext (fillSegment_setOutput c e)
  rw [pass_eq_fill, fill, hfill, Draw.mapM_map, Functor.map_map, Functor.map_map]
  rfl

/-! ## Contents -/

/-- A content that goes straight into the buffer and one that is encoded from a buffer of its own
are the same content, behind whatever is there. -/
theorem writeContent_setOutput (c : Config) (e : Encoding) (length : Option Nat) (filler : Filler)
    (s : Source) (out : Bytes) :
    let plain := c.setOutput .plain
    let encoded := c.setOutput e
    match filler.generate c length s [] with
    | (.ok (), content, s') =>
        plain.writeContent length filler s out = (.ok (), out ++ content, s') ∧
          encoded.writeContent length filler s out = (.ok (), out ++ e.encode content, s')
    | (.error err, _, s') =>
        (∃ rest, plain.writeContent length filler s out = (.error err, out ++ rest, s')) ∧
          ∃ rest, encoded.writeContent length filler s out = (.error err, out ++ rest, s') := by
  intro plain encoded
  have hplain : Writes (plain.writeContent length filler) (id <$> filler.draw c length) :=
    writes_content length filler
  have hencoded : Writes (encoded.writeContent length filler)
      (e.encode <$> filler.draw c length) := writes_content length filler
  have hgenerate : Writes (filler.generate c length) (filler.draw c length) :=
    filler.writes_generate
  rw [id_map] at hplain
  rcases hrun : (filler.draw c length).run s with ⟨err | b, s'⟩
  · obtain ⟨rest, hrest⟩ := hgenerate.error hrun []
    have hmap : (e.encode <$> filler.draw c length).run s = (.error err, s') := by
      rw [Draw.run_map, hrun]
    rw [hrest]
    exact ⟨hplain.error hrun out, hencoded.error hmap out⟩
  · have hmap : (e.encode <$> filler.draw c length).run s = (.ok (e.encode b), s') := by
      rw [Draw.run_map, hrun]
    rw [hgenerate.ok hrun]
    exact ⟨hplain.ok hrun out, hencoded.ok hmap out⟩

/-- With an encoding and without one, a pass takes the same calls for the same pieces, and is
refused at the same call. Then it writes the pieces as they are or the filled ones encoded, and the
copied ones are their segments. Each content is drawn alike on the way into the result and on the
way to the encoder. -/
theorem randomize_encoded (c : Config) (e : Encoding) (payload : Bytes) (s : Source) :
    let plain := c.setOutput .plain
    let encoded := c.setOutput e
    let segs := segments c.accepted payload
    (∀ stream, (encoded.pass payload).trail stream = (plain.pass payload).trail stream) ∧
    (∀ length (filler : Filler) s out, match filler.generate c length s [] with
      | (.ok (), content, s') =>
          plain.writeContent length filler s out = (.ok (), out ++ content, s') ∧
            encoded.writeContent length filler s out = (.ok (), out ++ e.encode content, s')
      | (.error err, _, s') =>
          (∃ rest, plain.writeContent length filler s out = (.error err, out ++ rest, s')) ∧
            ∃ rest, encoded.writeContent length filler s out = (.error err, out ++ rest, s')) ∧
    match plain.randomize payload s with
    | (.error err, s') => encoded.randomize payload s = (.error err, s')
    | (.ok r, s') => ∃ pieces r', plain.Fills s segs pieces s' ∧
        List.Forall₂ (fun seg piece => c.isCopied seg = true → piece = seg.bytes) segs pieces ∧
        r.bytes = pieces.flatten ∧
        encoded.randomize payload s = (.ok r', s') ∧ r'.isUntouched = r.isUntouched ∧
        r'.bytes = (List.zipWith (c.recode e) segs pieces).flatten := by
  intro plain encoded segs
  have hplain := pass_plain c payload
  have hencoded := pass_setOutput c e payload
  refine ⟨?_, writeContent_setOutput c e, ?_⟩
  · intro stream
    rw [hplain, hencoded, Draw.trail_map, Draw.trail_map]
  · rw [randomize_eq, randomize_eq, hplain, hencoded, Draw.run_map, Draw.run_map]
    rcases hrun : (segs.mapM plain.fillSegment).run s with ⟨err | ps, s'⟩
    · rfl
    · refine ⟨ps, _, fills_of_run hrun, ?_, bytes_wrap .., rfl, ?_, bytes_wrap ..⟩
      · rw [← Draw.read_of_run hrun]
        exact Draw.forall₂_read_mapM
          (fun seg _ s hcopied => read_fillSegment_copied (c := plain) hcopied s) _
      · unfold wrap
        split <;> rfl

end Config

end TagFill
