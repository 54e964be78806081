import TagFill.Proofs.Fields
import TagFill.Proofs.Pass
import TagFill.Proofs.Reading
import TagFill.Proofs.Sampling
import TagFill.Proofs.Sound

/-! # The shape of what is generated

Whatever a source draws, what a pass writes for a tag has the class of a type that the tag gives and
the size of a length that it declares.
-/

namespace TagFill

/-! ## Lengths and types -/

theorem LengthSpec.draw_range {low high : Nat} (h : low ≤ high) :
    (range low high).draw = some <$> Draw.between low high := by
  rw [draw, Draw.ordered, Nat.min_eq_left h, Nat.max_eq_right h]

theorem LengthSpec.admits_draw {spec : LengthSpec} (h : spec.Proper) (s : Stream) :
    spec.Admits (spec.draw.read s).1 := by
  cases spec with
  | absent | fixed => rfl
  | range low high =>
    have hfit : high < UInt64.size := Nat.lt_of_le_of_lt h.2 (by decide)
    have hbounds := Draw.read_between h.1 (.inl hfit) s
    rw [draw_range h.1, Draw.read_map]
    exact ⟨_, rfl, hbounds⟩
  | choice ns =>
    obtain ⟨n, hmem, hn⟩ := Draw.read_choose h s
    exact ⟨n, hmem, hn⟩

theorem TypeSpec.admits_draw {spec : TypeSpec} (h : spec.Proper) (s : Stream) :
    spec.Admits (spec.draw.read s).1 := by
  cases spec with
  | absent | single => rfl
  | choice names =>
    have hne : names ≠ [] := by
      rintro rfl
      contradiction
    obtain ⟨name, hmem, hname⟩ := Draw.read_choose hne s
    exact ⟨name, hmem, hname⟩

/-! ## Contents -/

def hexDigits : Bytes := Bytes.ofText "0123456789abcdef"

theorem Hex.digit_mem {n : Nat} (h : n < 16) : digit n ∈ hexDigits := by
  have hall : ∀ m < 16, digit m ∈ hexDigits := by decide
  exact hall n h

theorem Hex.encode_isText (b : Bytes) : IsText (2 * b.length) hexDigits (encode b) := by
  induction b with
  | nil => exact ⟨rfl, by simp [encode]⟩
  | cons x b ih =>
    obtain ⟨hlength, hmem⟩ := ih
    have hcons : encode (x :: b) = digit (high x) :: digit (low x) :: encode b := rfl
    rw [hcons]
    constructor
    · simp only [List.length_cons, hlength]
      omega
    · rw [List.forall_mem_cons, List.forall_mem_cons]
      exact ⟨digit_mem (high_lt x), digit_mem (low_lt x), hmem⟩

theorem Charset.lower_ne_nil : lower ≠ [] := by decide

/-- What a keyword is filled with for a declared length, on the stream as it stands by then. -/
def Keyword.Shape (c : Config) (length : Option Nat) (s : Stream) (b : Bytes)
    (keyword : Keyword) : Prop :=
  let n := length.getD c.defaultLength
  match keyword with
  | .lower => IsText n Charset.lower b
  | .upper => IsText n Charset.upper b
  | .letters => IsText n Charset.letters b
  | .digit => IsText n Charset.digits b
  | .control => IsText n Charset.control b
  | .hex => IsText (2 * n) hexDigits b
  | .bytes => b.length = n
  | .space => b = List.replicate n 0x20
  | .uuid => b = Uuid.render (Stream.bytes 16 s).1
  | .ipv4 => b = Address.render4 (Stream.bytes 4 s).1
  | .ipv6 => b = Address.render6 (Stream.bytes 16 s).1
  | .email => ∃ localPart provider, IsText (length.getD 8) Charset.lower localPart ∧
      provider ∈ c.providers ∧ b = localPart ++ Bytes.ofText "@" ++ Bytes.ofText provider

def Filler.Shape (c : Config) (length : Option Nat) (s : Stream) (b : Bytes)
    (filler : Filler) : Prop :=
  let n := length.getD c.defaultLength
  match filler with
  | .standard => IsText n Charset.all b
  | .charset chars => IsText n chars b
  | .custom generator => b = generator n
  | .builtin keyword => keyword.Shape c length s b

section

variable {c : Config} {length : Option Nat}

theorem Value.shape_email (hproviders : c.providers ≠ []) (s : Stream) :
    Keyword.Shape c length s ((email c.providers length).read s).1 .email := by
  have hlocal := Draw.read_text Charset.lower_ne_nil (length.getD localLength) s
  obtain ⟨provider, hmem, hprovider⟩ := Draw.read_choose hproviders
    ((Draw.text (length.getD localLength) Charset.lower).read s).2
  refine ⟨_, provider, hlocal, hmem, ?_⟩
  unfold email
  rw [Draw.read_bind, Draw.read_bind, hprovider]
  rfl

theorem Keyword.shape_draw (hproviders : c.providers ≠ []) (keyword : Keyword) (s : Stream) :
    keyword.Shape c length s
      ((Filler.ofKeyword c length (length.getD c.defaultLength) keyword).read s).1 := by
  cases keyword with
  | lower | upper | letters | digit | control => exact Draw.read_text (by decide) _ s
  | bytes => exact Draw.length_read_bytes _ s
  | space => exact List.flatten_replicate_singleton
  | hex =>
    obtain ⟨drawn, hlength, hread⟩ :=
      Draw.read_map_bytes Hex.encode (length.getD c.defaultLength) s
    change IsText _ _ ((Hex.encode <$> Draw.bytes _).read s).1
    rw [hread, ← hlength]
    exact Hex.encode_isText drawn
  | uuid | ipv4 | ipv6 => rfl
  | email => exact Value.shape_email hproviders s

theorem Filler.shape_draw (hproviders : c.providers ≠ []) {filler : Filler}
    (hcharset : ∀ chars, filler = .charset chars → chars ≠ []) (s : Stream) :
    filler.Shape c length s ((filler.draw c length).read s).1 := by
  cases filler with
  | standard => exact Draw.read_text (by decide) _ s
  | charset chars => exact Draw.read_text (hcharset chars rfl) _ s
  | custom generator => rfl
  | builtin keyword => exact Keyword.shape_draw hproviders keyword s

end

/-! ## Tags -/

namespace TagBody

variable {body : TagBody} {s drawn : Stream} {length : Option Nat} {entry : Option Bytes}

theorem eq_malformed_of_resolve (h : body.resolve.read s = (none, drawn)) :
    body = .malformed ∧ s = drawn := by
  cases body with
  | malformed => exact ⟨rfl, congrArg Prod.snd h⟩
  | bare => cases h
  | fields length type =>
    rw [resolve, Draw.read_bind, Draw.read_bind] at h
    cases h

theorem admits_of_resolve (hproper : body.Proper)
    (h : body.resolve.read s = (some (length, entry), drawn)) : body.Admits length entry := by
  cases body with
  | malformed => cases h
  | bare =>
    cases h
    exact ⟨rfl, rfl⟩
  | fields spec type =>
    rw [resolve, Draw.read_bind, Draw.read_bind] at h
    cases h
    exact ⟨spec.admits_draw hproper.1 s, type.admits_draw hproper.2 _⟩

end TagBody

theorem isSuffixOf?_eq_some {c x a : Bytes} (h : c.isSuffixOf? x = some a) : x = a ++ c := by
  obtain ⟨r, hr, rfl⟩ := Option.map_eq_some_iff.mp h
  have happ := congrArg List.reverse (Bytes.isPrefixOf?_eq_some_iff.mp hr)
  rwa [List.reverse_reverse, List.reverse_append, List.reverse_reverse] at happ

theorem eq_of_interior? {tag body : Bytes} (h : interior? tag = some body) :
    tag = Delimiter.raw .tagOpen ++ body ++ Delimiter.raw .tagClose := by
  obtain ⟨rest, hopen, hclose⟩ := Option.bind_eq_some_iff.mp h
  rw [Bytes.isPrefixOf?_eq_some_iff.mp hopen, isSuffixOf?_eq_some hclose, List.append_assoc]

namespace Config

/-- The length and the type that a tag gives in its canonical form. -/
def Says (c : Config) (tag : Bytes) (length : Option Nat) (entry : Option Bytes) : Prop :=
  ∃ (long : Bool) (body : Bytes),
    canonical c.accepted tag = Delimiter.raw .tagOpen ++
      ((if long then TagBody.longName else []) ++ body) ++ Delimiter.raw .tagClose ∧
    TagBody.Says c.rules body length entry

theorem says_of_admits {c : Config} {tag : Bytes} {length : Option Nat} {entry : Option Bytes}
    (h : (c.tagBody tag).Admits length entry) : c.Says tag length entry := by
  unfold tagBody at h
  split at h
  · rename_i body hbody
    obtain ⟨long, rest, rfl, hsaid⟩ := TagBody.says_of_admits h
    exact ⟨long, rest, eq_of_interior? hbody, hsaid⟩
  · exact h.elim

theorem tagBody_proper (c : Config) (tag : Bytes) : (c.tagBody tag).Proper := by
  unfold tagBody
  split
  · exact TagBody.parse_proper ..
  · trivial

/-- What a segment puts into the result of a pass, and how it leaves the stream. -/
inductive Contributes (changes : List Change) : Stream → Segment → Bytes → Stream → Prop
  | literal {s : Stream} (b : Bytes) : Contributes changes s (.literal b) b s
  | malformed {s : Stream} {tag : Bytes} (h : (ofChanges changes).tagBody tag = .malformed) :
      Contributes changes s (.tag tag) tag s
  | filled {s drawn : Stream} {tag out : Bytes} {length : Option Nat} {entry : Option Bytes}
      {filler : Filler}
      (hdrawn : ((ofChanges changes).tagBody tag).resolve.read s = (some (length, entry), drawn))
      (hsaid : (ofChanges changes).Says tag length entry)
      (hresolves : Resolves changes entry filler)
      (hshape : filler.Shape (ofChanges changes) length drawn out) :
      Contributes changes s (.tag tag) out ((filler.draw (ofChanges changes) length).read drawn).2

/-- Each segment goes on with the stream as the one before leaves it. -/
inductive Contributions (changes : List Change) :
    Stream → List Segment → List Bytes → Stream → Prop
  | nil {s : Stream} : Contributions changes s [] [] s
  | cons {s middle s' : Stream} {seg : Segment} {segs : List Segment} {piece : Bytes}
      {pieces : List Bytes} (hfirst : Contributes changes s seg piece middle)
      (hrest : Contributions changes middle segs pieces s') :
      Contributions changes s (seg :: segs) (piece :: pieces) s'

variable {changes : List Change}

theorem shape_filler (entry : Option Bytes) (length : Option Nat) (s : Stream) :
    ((ofChanges changes).filler entry).Shape (ofChanges changes) length s
      ((((ofChanges changes).filler entry).draw (ofChanges changes) length).read s).1 := by
  have hsound := sound_ofChanges changes
  apply Filler.shape_draw hsound.providers
  intro chars hchars
  exact hsound.ne_nil_of_filler hchars

theorem contributes_fillTag (hplain : (ofChanges changes).output = .plain) (tag : Bytes)
    (s : Stream) :
    Contributes changes s (.tag tag) (((ofChanges changes).fillTag tag).read s).1
      (((ofChanges changes).fillTag tag).read s).2 := by
  have hencode : (ofChanges changes).output.encode = id := by
    rw [hplain]
    rfl
  rw [fillTag_eq, hencode, Draw.read_bind]
  rcases hdrawn : ((ofChanges changes).tagBody tag).resolve.read s with
    ⟨_ | ⟨length, entry⟩, drawn⟩
  · obtain ⟨hmalformed, rfl⟩ := TagBody.eq_malformed_of_resolve hdrawn
    exact .malformed hmalformed
  · have hsaid : (ofChanges changes).Says tag length entry :=
      says_of_admits (TagBody.admits_of_resolve (tagBody_proper _ tag) hdrawn)
    dsimp only
    rw [id_map]
    exact .filled hdrawn hsaid (resolves_filler changes entry) (shape_filler entry length drawn)

theorem contributes_fillSegment (hplain : (ofChanges changes).output = .plain) (segment : Segment)
    (s : Stream) :
    Contributes changes s segment (((ofChanges changes).fillSegment segment).read s).1
      (((ofChanges changes).fillSegment segment).read s).2 := by
  cases segment with
  | literal b => exact .literal b
  | tag tag => exact contributes_fillTag hplain tag s

theorem contributions_mapM (hplain : (ofChanges changes).output = .plain) (segs : List Segment)
    (s : Stream) :
    Contributions changes s segs ((segs.mapM (ofChanges changes).fillSegment).read s).1
      ((segs.mapM (ofChanges changes).fillSegment).read s).2 := by
  induction segs generalizing s with
  | nil => exact .nil
  | cons seg segs ih =>
    rw [List.mapM_cons, Draw.read_bind, Draw.read_bind]
    exact .cons (contributes_fillSegment hplain seg s) (ih _)

/-- A pass that comes through is one contribution of each segment after the other, and the source is
left where they leave its stream. -/
theorem pass_shape {changes : List Change} (hplain : (ofChanges changes).output = .plain)
    {payload : Bytes} {s s' : Source} {r : Revised}
    (hrun : ((ofChanges changes).pass payload).run s = (.ok r, s')) :
    ∃ pieces, r.bytes = pieces.flatten ∧ Contributions changes s.stream
      (segments (ofChanges changes).accepted payload) pieces s'.stream := by
  have hbytes : ((ofChanges changes).passBytes payload).run s = (.ok r.bytes, s') := by
    rw [passBytes, Draw.run_map, hrun]
  have hread := Draw.read_eq_of_run hbytes
  rw [passBytes_eq_fill, fill, Draw.read_map, Prod.mk.injEq] at hread
  refine ⟨_, hread.1.symm, ?_⟩
  rw [← hread.2]
  exact contributions_mapM hplain _ s.stream

/-- A tag with a range is filled, and a malformed one is kept. -/
theorem pass_shape_range :
    let payload := Bytes.ofText "<\x7bRAND;2-3\x7d\x7bRANDx\x7d"
    let source := Source.scripted [0, 0, 0, 200, 0, 0, 0, 10, 0, 0, 0, 90, 0, 0, 0, 250] none
    let left := (((ofChanges []).pass payload).run source).2
    (((ofChanges []).pass payload).run source).1 =
        .ok (.rebuilt (Bytes.ofText "<dE_\x7bRANDx\x7d")) ∧
      ∃ pieces, Bytes.ofText "<dE_\x7bRANDx\x7d" = pieces.flatten ∧
        Contributions [] source.stream (segments .both payload) pieces left.stream := by
  intro payload source left
  have hfirst : firstTag? .both payload =
      some ⟨Bytes.ofText "<", Bytes.ofText "\x7bRAND;2-3\x7d", Bytes.ofText "\x7bRANDx\x7d"⟩ := rfl
  have hsecond : firstTag? .both (Bytes.ofText "\x7bRANDx\x7d") =
      some ⟨[], Bytes.ofText "\x7bRANDx\x7d", []⟩ := rfl
  have hsegs : segments (ofChanges []).accepted payload =
      [.literal (Bytes.ofText "<"), .tag (Bytes.ofText "\x7bRAND;2-3\x7d"),
        .tag (Bytes.ofText "\x7bRANDx\x7d")] := by
    change segments .both payload = _
    rw [segments_of_firstTag?_some hfirst, segments_of_firstTag?_some hsecond,
      segments_of_firstTag?_none rfl]
    rfl
  have hresult : (((ofChanges []).pass payload).run source).1 =
      .ok (.rebuilt (Bytes.ofText "<dE_\x7bRANDx\x7d")) := by
    unfold pass
    rw [hsegs]
    decide +kernel
  exact ⟨hresult, pass_shape rfl (Prod.ext hresult rfl)⟩

end Config

end TagFill
