import TagFill.Proofs.Pass
import TagFill.Randomize

/-! # What is planned is what is carried out

Call by call, a pass draws what its plan asks for and writes what its plan comes to. It is refused
where the plan is, and then the buffer still has all that it held, with a part of a content behind
it at most.
-/

namespace TagFill

variable {α : Type} {s s' : Source}

/-! ## What is drawn -/

namespace Source

theorem between_eq (s : Source) (low high : Nat) :
    s.between low high = (Draw.between low high).run s := by
  unfold between Draw.between
  split
  · rfl
  · rw [Draw.run_ask]
    rcases s.answer (.between low high) with ⟨e | x, s'⟩ <;> rfl

theorem ordered_eq (s : Source) (a b : Nat) : s.ordered a b = (Draw.ordered a b).run s := by
  unfold ordered Draw.ordered
  split
  · rename_i h
    rw [between_eq, Nat.min_eq_right (Nat.le_of_lt h), Nat.max_eq_left (Nat.le_of_lt h)]
  · rename_i h
    rw [between_eq, Nat.min_eq_left (Nat.le_of_not_lt h), Nat.max_eq_right (Nat.le_of_not_lt h)]

theorem index_eq (s : Source) (n : Nat) : s.index n = (Draw.index n).run s := by
  unfold index Draw.index
  split
  · rfl
  · exact between_eq s 0 (n - 1)

theorem choose_eq (s : Source) (items : List α) : s.choose items = (Draw.choose items).run s := by
  unfold choose Draw.choose
  split
  · rfl
  · rw [Draw.run_bind, index_eq]
    rcases (Draw.index items.length).run s with ⟨e | i, s'⟩ <;> rfl

end Source

theorem LengthSpec.resolve_eq (spec : LengthSpec) (s : Source) :
    spec.resolve s = spec.draw.run s := by
  cases spec with
  | absent | fixed => rfl
  | range low high =>
    rw [resolve, draw, Draw.run_map, Source.ordered_eq]
    rcases (Draw.ordered low high).run s with ⟨e | n, s'⟩ <;> rfl
  | choice ns => exact s.choose_eq ns

theorem TypeSpec.resolve_eq (spec : TypeSpec) (s : Source) :
    spec.resolve s = spec.draw.run s := by
  cases spec with
  | absent | single => rfl
  | choice names => exact s.choose_eq names

/-! ## What is written -/

/-- On every source, `write` adds what the plan comes to. Where the plan is refused, `write` is, and
it has not taken anything out of the buffer. -/
structure Writes (write : Source → Bytes → Appended) (d : Draw Bytes) : Prop where
  ok : ∀ {s s' b}, d.run s = (.ok b, s') → ∀ out, write s out = (.ok (), out ++ b, s')
  error : ∀ {s s' e}, d.run s = (.error e, s') →
    ∀ out, ∃ rest, write s out = (.error e, out ++ rest, s')

namespace Writes

variable {write write' both : Source → Bytes → Appended} {d d' : Draw Bytes}

theorem done (b : Bytes) : Writes (fun s out => (.ok (), out ++ b, s)) (.done b) where
  ok h out := by
    cases h
    rfl
  error h := by cases h

theorem append (h : Writes write d) (h' : Writes write' d')
    (hok : ∀ {s s' out out'}, write s out = (.ok (), out', s') → both s out = write' s' out')
    (herror : ∀ {s s' out out' e}, write s out = (.error e, out', s') →
      both s out = (.error e, out', s')) :
    Writes both (do return (← d) ++ (← d')) where
  ok := by
    intro s s' b hrun out
    obtain ⟨x, s₁, hfirst, hrun⟩ := Draw.run_bind_ok hrun
    obtain ⟨y, s₂, hsecond, hrun⟩ := Draw.run_bind_ok hrun
    cases hrun
    rw [hok (h.ok hfirst out), h'.ok hsecond, List.append_assoc]
  error := by
    intro s s' e hrun out
    obtain hfirst | ⟨x, s₁, hfirst, hrun⟩ := Draw.run_bind_error hrun
    · obtain ⟨rest, hrest⟩ := h.error hfirst out
      exact ⟨rest, herror hrest⟩
    · obtain hsecond | ⟨y, s₂, -, hrun⟩ := Draw.run_bind_error hrun
      · obtain ⟨rest, hrest⟩ := h'.error hsecond (out ++ x)
        exact ⟨x ++ rest, by rw [hok (h.ok hfirst out), hrest, List.append_assoc]⟩
      · cases hrun

theorem after {draw : Source → Drawn α} {d : Draw α} {writes : α → Source → Bytes → Appended}
    {f : α → Draw Bytes} (hdraw : ∀ s, draw s = d.run s) (h : ∀ a, Writes (writes a) (f a))
    (hok : ∀ {s s' a}, draw s = (.ok a, s') → ∀ out, both s out = writes a s' out)
    (herror : ∀ {s s' e}, draw s = (.error e, s') → ∀ out, both s out = (.error e, out, s')) :
    Writes both (d >>= f) where
  ok := by
    intro s s' b hrun out
    obtain ⟨a, s₁, hfirst, hrun⟩ := Draw.run_bind_ok hrun
    rw [hok ((hdraw s).trans hfirst)]
    exact (h a).ok hrun out
  error := by
    intro s s' e hrun out
    obtain hfirst | ⟨a, s₁, hfirst, hrun⟩ := Draw.run_bind_error hrun
    · exact ⟨[], by rw [herror ((hdraw s).trans hfirst), List.append_nil]⟩
    · rw [hok ((hdraw s).trans hfirst)]
      exact (h a).error hrun out

end Writes

/-! ## Contents -/

/-- Adds drawn bytes behind what a buffer holds. -/
def Draw.appendText (buffer : Bytes) (n : Nat) (charset : Bytes) : Draw Bytes :=
  (buffer ++ ·) <$> text n charset

theorem Source.writeText_eq (s : Source) (n : Nat) (charset buffer : Bytes) :
    s.writeText n charset buffer =
      match (Draw.appendText buffer n charset).run s with
      | (.ok after, s') => (.ok (), after, s')
      | (.error e, s') => (.error e, buffer, s') := by
  unfold writeText Draw.appendText Draw.text
  rw [Draw.run_map]
  split
  · simp only [Draw.run_done, List.append_nil]
  · rw [Draw.run_ask]
    rcases s.answer (.text n charset) with ⟨e | t, s'⟩ <;> rfl

theorem Source.writes_text (n : Nat) (charset : Bytes) :
    Writes (fun s out => s.writeText n charset out) (Draw.text n charset) where
  ok h out := by rw [writeText_eq, Draw.appendText, Draw.run_map, h]
  error h out := ⟨[], by rw [writeText_eq, Draw.appendText, Draw.run_map, h, List.append_nil]⟩

theorem Source.answer_eq (s : Source) (r : Request) : s.answer r = (Draw.ask r .done).run s := by
  rw [Draw.run_ask]
  rcases s.answer r with ⟨e | a, s'⟩ <;> rfl

theorem Source.writes_bytes (n : Nat) (render : Bytes → Bytes) :
    Writes (fun s out => s.writeBytes n render out) (render <$> Draw.bytes n) :=
  .after (fun s => s.answer_eq (.bytes n)) (fun drawn => .done (render drawn))
    (fun h out => by rw [writeBytes, h]) (fun h out => by rw [writeBytes, h])

namespace Filler

variable {c : Config} {length : Option Nat}

theorem writes_domain (provider : Option String) :
    Writes
      (fun s out =>
        (.ok (), out ++ Bytes.ofText "@" ++ Bytes.ofText (provider.getD Provider.fallback), s))
      (.done (Bytes.ofText "@" ++ Bytes.ofText (provider.getD Provider.fallback))) := by
  simp only [List.append_assoc]
  exact .done _

theorem writes_email (providers : List String) (length : Option Nat) :
    Writes (generateEmail providers length) (Value.email providers length) := by
  have hplan : Value.email providers length = do
      return (← Draw.text (length.getD Value.localLength) Charset.lower) ++
        (← Draw.choose providers >>= fun provider =>
          Draw.done (Bytes.ofText "@" ++ Bytes.ofText (provider.getD Provider.fallback))) := by
    simp [Value.email]
  rw [hplan]
  have hprovider : Writes (writeProvider providers) _ :=
    .after (fun s => s.choose_eq providers) writes_domain (fun h out => by rw [writeProvider, h])
      (fun h out => by rw [writeProvider, h])
  exact (Source.writes_text _ _).append hprovider (fun h => by rw [generateEmail, h])
    (fun h => by rw [generateEmail, h])

theorem writes_keyword (keyword : Keyword) (n : Nat) :
    Writes (generateKeyword c length n keyword) (ofKeyword c length n keyword) := by
  cases keyword with
  | lower | upper | letters | digit | control => exact Source.writes_text _ _
  | space =>
    have hcopies : Generator.copies (Bytes.ofText " ") n = List.replicate n 0x20 :=
      List.flatten_replicate_singleton
    change Writes _ (.done (Generator.copies (Bytes.ofText " ") n))
    rw [hcopies]
    exact .done _
  | bytes =>
    change Writes _ (Draw.bytes n)
    rw [← id_map (Draw.bytes n)]
    exact Source.writes_bytes n id
  | hex | uuid | ipv4 | ipv6 => exact Source.writes_bytes _ _
  | email => exact writes_email c.providers length

theorem writes_generate (filler : Filler) :
    Writes (filler.generate c length) (filler.draw c length) := by
  cases filler with
  | standard | charset => exact Source.writes_text _ _
  | custom generator => exact .done _
  | builtin keyword => exact writes_keyword keyword _

end Filler

namespace Config

variable {c : Config}

theorem writes_content (length : Option Nat) (filler : Filler) :
    Writes (c.writeContent length filler) (c.output.encode <$> filler.draw c length) := by
  have hgenerate : Writes (filler.generate c length) (filler.draw c length) :=
    filler.writes_generate
  by_cases hplain : c.output = .plain
  · have hencode : c.output.encode = id := by
      rw [hplain]
      rfl
    have hdirect : c.writeContent length filler = filler.generate c length := by
      funext s out
      exact if_pos hplain
    rw [hencode, id_map, hdirect]
    exact hgenerate
  · rw [← bind_pure_comp]
    constructor
    · intro s s' b hrun out
      obtain ⟨x, s₁, hdraw, hrun⟩ := Draw.run_bind_ok hrun
      cases hrun
      rw [writeContent, if_neg hplain, hgenerate.ok hdraw]
      rfl
    · intro s s' e hrun out
      obtain hdraw | ⟨x, s₁, -, hrun⟩ := Draw.run_bind_error hrun
      · obtain ⟨rest, hrest⟩ := hgenerate.error hdraw []
        refine ⟨[], ?_⟩
        rw [writeContent, if_neg hplain, hrest, List.append_nil]
      · cases hrun

theorem writes_typed (length : Option Nat) (type : TypeSpec) :
    Writes (c.writeTyped length type)
      (type.draw >>= fun entry => c.output.encode <$> (c.filler entry).draw c length) :=
  .after type.resolve_eq (fun entry => writes_content length (c.filler entry))
    (fun h out => by rw [writeTyped, h]) (fun h out => by rw [writeTyped, h])

theorem writes_substitute (tag : Bytes) : Writes (c.substitute tag) (c.fillTag tag) := by
  cases hbody : c.tagBody tag with
  | malformed =>
    have hwrite : c.substitute tag = fun s out => (.ok (), out ++ tag, s) := by
      funext s out
      rw [substitute, hbody]
    rw [hwrite, fillTag_malformed hbody]
    exact .done tag
  | bare =>
    have hwrite : c.substitute tag = c.writeContent none .standard := by
      funext s out
      rw [substitute, hbody]
    rw [hwrite, fillTag_bare hbody]
    exact writes_content none .standard
  | fields length type =>
    rw [fillTag_fields hbody]
    exact .after length.resolve_eq (fun n => writes_typed n type)
      (fun h out => by simp only [substitute, hbody, h])
      (fun h out => by simp only [substitute, hbody, h])

theorem writes_segment (seg : Segment) : Writes (c.writeSegment seg) (c.fillSegment seg) := by
  cases seg with
  | literal b => exact .done b
  | tag tag => exact writes_substitute tag

theorem writes_segments (segs : List Segment) : Writes (c.writeSegments segs) (c.fill segs) := by
  induction segs with
  | nil =>
    have hwrite : c.writeSegments [] = fun s out => (.ok (), out ++ [], s) := by
      funext s out
      rw [writeSegments, List.append_nil]
    rw [hwrite, fill_nil]
    exact .done []
  | cons seg segs ih =>
    rw [fill_cons]
    exact (writes_segment seg).append ih (fun h => by rw [writeSegments, h])
      (fun h => by rw [writeSegments, h])

/-- A pass comes to what is planned, on every source. -/
theorem randomize_eq (c : Config) (payload : Bytes) (s : Source) :
    c.randomize payload s = (c.pass payload).run s := by
  have hwrites := writes_segments (c := c) (segments c.accepted payload)
  unfold randomize
  split
  · rename_i hopens
    rw [pass_eq_fill, if_pos hopens, Draw.run_map]
    rcases hrun : (c.fill (segments c.accepted payload)).run s with ⟨e | b, s'⟩
    · obtain ⟨rest, hrest⟩ := hwrites.error hrun []
      rw [hrest]
    · rw [hwrites.ok hrun, List.nil_append]
  · rename_i hopens
    rw [pass, if_neg hopens]
    rfl

theorem randomizeText_eq (c : Config) (text : String) (s : Source) :
    c.randomizeText text s = (c.passText text).run s := by
  rw [randomizeText, passText, Draw.run_map, randomize_eq]
  rcases (c.pass (Bytes.ofText text)).run s with ⟨e | r, s'⟩ <;> rfl

end Config

end TagFill
