import TagFill.Proofs.Shape

/-! # How many calls a pass takes

The calls of a tag follow from what it declares and from what it comes to: a form without a choice
takes none, and content of length zero may take none either.
-/

namespace TagFill

namespace Draw

variable {α : Type}

theorem calls_between (low high : Nat) (s : Stream) :
    (between low high).calls s = if low < high then 1 else 0 := by
  unfold between
  by_cases h : high ≤ low
  · rw [if_pos h, if_neg (by omega)]
    rfl
  · rw [if_neg h, if_pos (by omega)]
    rfl

theorem calls_choose (items : List α) (s : Stream) :
    (choose items).calls s = if 2 ≤ items.length then 1 else 0 := by
  by_cases h : items = []
  · rw [h]
    rfl
  · rw [choose_eq h, calls_map, calls_between]
    have hiff : 0 < items.length - 1 ↔ 2 ≤ items.length := by omega
    simp only [hiff]

theorem calls_text {charset : Bytes} (h : charset ≠ []) (n : Nat) (s : Stream) :
    (text n charset).calls s = if 0 < n then 1 else 0 := by
  unfold text
  by_cases hn : n = 0
  · rw [if_pos (.inl hn), if_neg (by omega)]
    rfl
  · rw [if_neg (by simp [hn, h]), if_pos (by omega)]
    rfl

end Draw

/-! ## Lengths and types -/

/-- Only a length that leaves a choice is drawn. -/
def LengthSpec.calls : LengthSpec → Nat
  | .absent | .fixed _ => 0
  | .range low high => if low < high then 1 else 0
  | .choice ns => if 2 ≤ ns.length then 1 else 0

theorem LengthSpec.calls_draw {spec : LengthSpec} (h : spec.Proper) (s : Stream) :
    spec.draw.calls s = spec.calls := by
  cases spec with
  | absent | fixed => rfl
  | range low high =>
    rw [draw_range h.1, Draw.calls_map, Draw.calls_between]
    rfl
  | choice ns => exact Draw.calls_choose ns s

/-- A single entry that may be declared leaves no choice. -/
example : (LengthSpec.parse {} (Bytes.ofText "4,0,x")).calls = 0 := by decide

def TypeSpec.calls : TypeSpec → Nat
  | .absent | .single _ => 0
  | .choice _ => 1

theorem TypeSpec.calls_draw {spec : TypeSpec} (h : spec.Proper) (s : Stream) :
    spec.draw.calls s = spec.calls := by
  cases spec with
  | absent | single => rfl
  | choice names =>
    have hlength : 2 ≤ names.length := h
    rw [draw, Draw.calls_choose, if_pos hlength]
    rfl

/-! ## Contents -/

/-- Text of length zero is not asked for. -/
def textCalls (n : Nat) : Nat := if 0 < n then 1 else 0

def Keyword.calls (c : Config) (length : Option Nat) (keyword : Keyword) : Nat :=
  let n := length.getD c.defaultLength
  match keyword with
  | .lower | .upper | .letters | .digit | .control => textCalls n
  | .hex | .bytes | .uuid | .ipv4 | .ipv6 => 1
  | .space => 0
  | .email => textCalls (length.getD 8) + if 2 ≤ c.providers.length then 1 else 0

def Filler.calls (c : Config) (length : Option Nat) (filler : Filler) : Nat :=
  let n := length.getD c.defaultLength
  match filler with
  | .standard | .charset _ => textCalls n
  | .custom _ => 0
  | .builtin keyword => keyword.calls c length

variable {c : Config} {length : Option Nat}

theorem Value.calls_email (providers : List String) (length : Option Nat) (s : Stream) :
    (email providers length).calls s =
      textCalls (length.getD 8) + if 2 ≤ providers.length then 1 else 0 := by
  unfold email
  rw [Draw.calls_bind, Draw.calls_bind, Draw.calls_text Charset.lower_ne_nil, Draw.calls_choose]
  rfl

theorem Keyword.calls_draw (keyword : Keyword) (s : Stream) :
    (Filler.ofKeyword c length (length.getD c.defaultLength) keyword).calls s =
      keyword.calls c length := by
  cases keyword with
  | lower | upper | letters | digit | control => exact Draw.calls_text (by decide) _ s
  | hex | bytes | uuid | ipv4 | ipv6 | space => rfl
  | email => exact Value.calls_email c.providers length s

theorem Filler.calls_draw {filler : Filler} (h : ∀ chars, filler = .charset chars → chars ≠ [])
    (s : Stream) : (filler.draw c length).calls s = filler.calls c length := by
  cases filler with
  | standard => exact Draw.calls_text (by decide) _ s
  | charset chars => exact Draw.calls_text (h chars rfl) _ s
  | custom => rfl
  | builtin keyword => exact Keyword.calls_draw keyword s

/-! ## Passes -/

namespace Config

/-- The calls of a tag: for its length, for its type, and for content of the length and the type
that these came to. -/
def tagCalls (c : Config) (tag : Bytes) (s : Stream) : Nat :=
  match c.tagBody tag with
  | .malformed => 0
  | .bare => Filler.standard.calls c none
  | .fields length type =>
    let drawn := length.draw.read s
    let entry := (type.draw.read drawn.2).1
    length.calls + type.calls + (c.filler entry).calls c drawn.1

/-- The calls of each segment, on the stream as the segments in front leave it. -/
def segmentCalls (c : Config) : List Segment → Stream → List Nat
  | [], _ => []
  | .literal _ :: rest, s => 0 :: c.segmentCalls rest s
  | .tag tag :: rest, s => c.tagCalls tag s :: c.segmentCalls rest ((c.fillTag tag).read s).2

variable {changes : List Change}

theorem calls_filler (entry : Option Bytes) (length : Option Nat) (s : Stream) :
    (((ofChanges changes).filler entry).draw (ofChanges changes) length).calls s =
      ((ofChanges changes).filler entry).calls (ofChanges changes) length := by
  apply Filler.calls_draw
  intro chars hchars
  exact (sound_ofChanges changes).ne_nil_of_filler hchars

theorem calls_fillTag (tag : Bytes) (s : Stream) :
    ((ofChanges changes).fillTag tag).calls s = (ofChanges changes).tagCalls tag s := by
  have hproper := tagBody_proper (ofChanges changes) tag
  unfold fillTag tagCalls
  cases hbody : (ofChanges changes).tagBody tag with
  | malformed => rfl
  | bare =>
    rw [Draw.calls_map]
    exact calls_filler none none s
  | fields length type =>
    rw [hbody] at hproper
    rw [Draw.calls_bind, Draw.calls_bind, Draw.calls_map, calls_filler,
      LengthSpec.calls_draw hproper.1, TypeSpec.calls_draw hproper.2, ← Nat.add_assoc]

theorem calls_fill (segs : List Segment) (s : Stream) :
    ((ofChanges changes).fill segs).calls s = ((ofChanges changes).segmentCalls segs s).sum := by
  induction segs generalizing s with
  | nil => rfl
  | cons seg segs ih =>
    cases seg with
    | literal b =>
      rw [fill_literal_cons, Draw.calls_map, ih, segmentCalls, List.sum_cons, Nat.zero_add]
    | tag tag =>
      rw [fill_tag_cons, Draw.calls_bind, Draw.calls_map, ih, calls_fillTag, segmentCalls,
        List.sum_cons]

/-- A pass that nothing refuses takes the calls of its tags, and none besides. -/
theorem pass_calls (changes : List Change) (payload : Bytes) (s : Stream) (n : Nat) :
    let c := ofChanges changes
    ∃ r after, (c.pass payload).run ⟨s, n, none⟩ =
      (.ok r, ⟨after, n + (c.segmentCalls (segments c.accepted payload) s).sum, none⟩) := by
  intro c
  have hcalls : (c.pass payload).calls s =
      (c.segmentCalls (segments c.accepted payload) s).sum := by
    rw [← calls_fill, ← passBytes_eq_fill, passBytes, Draw.calls_map]
  rw [← hcalls]
  exact ⟨_, _, Draw.run_unlimited ..⟩

end Config

end TagFill
