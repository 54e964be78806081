import TagFill.Proofs.ByteOrder
import TagFill.Proofs.Reachable
import TagFill.Proofs.ValidSettings
import TagFill.Settings.Load

/-! # Charsets of settings as text

Settings hold a charset as text, and tags draw it byte by byte. Where its characters are ASCII, a
tag is filled with that many of them. Any other character leaves a byte that can come alone, and
then the content is no text.
-/

namespace TagFill

/-! ## Drawn bytes as characters -/

namespace Utf8

variable {x : Char} {y : UInt8} {b : Bytes} {chars : String} {n : Nat}

/-- The UTF-8 form of `n` characters of the text. -/
def IsChars (n : Nat) (chars : String) (b : Bytes) : Prop :=
  ∃ t : String, b = Bytes.ofText t ∧ t.length = n ∧ ∀ x ∈ t.toList, x ∈ chars.toList

theorem IsChars.valid (h : IsChars n chars b) : Valid b := by
  obtain ⟨t, ht, -⟩ := h
  exact ⟨t, ht⟩

theorem lt_of_mem_encodeChar (h : y ∈ String.utf8EncodeChar x) (hx : x.toNat < 0x80) :
    y < 0x80 := by
  have hbyte : (UInt8.ofNat x.toNat).toNat = x.toNat :=
    UInt8.toNat_ofNat_of_lt' (Nat.lt_trans hx (by decide))
  have hlt : UInt8.ofNat x.toNat < 0x80 := by
    rw [UInt8.lt_iff_toNat_lt, hbyte]
    exact hx
  have hencode := encodeChar_of_ascii hlt
  rw [hbyte, Char.ofNat_toNat] at hencode
  rw [hencode, List.mem_singleton] at h
  rwa [h]

theorem exists_continuation (hx : 0x80 ≤ x.toNat) :
    ∃ y ∈ String.utf8EncodeChar x, isContinuation y = true := by
  obtain ⟨lead, t, hencode, hsequence, hscalar⟩ := exists_isSequence x
  cases t with
  | nil =>
    rw [scalar_one] at hscalar
    omega
  | cons y t =>
    rw [hencode]
    exact ⟨y, by simp, hsequence.continues List.mem_cons_self⟩

theorem not_valid_of_continuation (hy : isContinuation y = true) : ¬ Valid (y :: b) := by
  intro hvalid
  obtain ⟨cs, hcs⟩ := valid_iff.mp hvalid
  cases cs with
  | nil => contradiction
  | cons c cs =>
    obtain ⟨lead, t, hencode, hsequence, -⟩ := exists_isSequence c
    rw [List.flatMap_cons, hencode, List.cons_append, List.cons.injEq] at hcs
    obtain ⟨rfl, -⟩ := hcs
    have hwidth := hsequence.width
    rw [isContinuation_iff] at hy
    rw [width_eq, if_neg (by omega), if_pos (by omega)] at hwidth
    contradiction

theorem isChars_of_isText (hchars : ∀ x ∈ chars.toList, x.toNat < 0x80)
    (h : IsText n (Bytes.ofText chars) b) : IsChars n chars b := by
  obtain ⟨hlength, hmem⟩ := h
  have hascii : ∀ y ∈ b, y < 0x80 := by
    intro y hy
    obtain ⟨x, hx, hencode⟩ := List.mem_flatMap.mp (hmem y hy)
    exact lt_of_mem_encodeChar hencode (hchars x hx)
  refine ⟨String.ofList (b.map fun y => Char.ofNat y.toNat), ?_, ?_, ?_⟩
  · rw [Bytes.ofText, String.toList_ofList, List.flatMap_map,
      List.flatMap_congr (g := fun y => [y]), List.flatMap_singleton']
    intro y hy
    exact encodeChar_of_ascii (hascii y hy)
  · rw [String.length_ofList, List.length_map, hlength]
  · rw [String.toList_ofList, List.forall_mem_map]
    intro y hy
    have hencode := encodeChar_of_ascii (hascii y hy)
    have hself : y ∈ String.utf8EncodeChar (Char.ofNat y.toNat) := by simp [hencode]
    exact mem_of_mem_ofText (hmem y hy) (hascii y hy)
      (toNat_of_mem_encodeChar hself (hascii y hy))

theorem exists_isText_not_valid (hx : x ∈ chars.toList) (hhigh : 0x80 ≤ x.toNat) (hn : 0 < n) :
    ∃ b, IsText n (Bytes.ofText chars) b ∧ ¬ Valid b := by
  obtain ⟨y, hy, hcontinuation⟩ := exists_continuation hhigh
  refine ⟨List.replicate n y, ⟨List.length_replicate, ?_⟩, ?_⟩
  · intro z hz
    rw [List.eq_of_mem_replicate hz]
    exact List.mem_flatMap.mpr ⟨x, hx, hy⟩
  · obtain ⟨m, rfl⟩ := Nat.exists_eq_succ_of_ne_zero (Nat.ne_of_gt hn)
    exact not_valid_of_continuation hcontinuation

end Utf8

/-! ## The tag of a charset -/

/-- A charset that a tag calls by its name. -/
structure Settings.Callable (s : Settings) (name chars : String) : Prop where
  mem : (name, chars) ∈ s.charsets.entries
  /-- No other name differs from it in ASCII case only. -/
  alone : ∀ entry ∈ s.charsets.entries, Name.upper entry.1 = Name.upper name →
    entry = (name, chars)
  free : IsFree [.settings s] (Name.upper name)
  writable : (Config.ofChanges [.settings s]).rules.Writable name

namespace Settings

open Config (ofChanges)

variable {s : Settings} {name chars : String} {lengths : Bytes} {n : Nat}

theorem Callable.lastFor (h : s.Callable name chars) (hne : chars ≠ "") :
    lastFor name (Change.settings s).charsets = some (Bytes.ofText chars) := by
  have hmem : (name, Bytes.ofText chars) ∈ (Change.settings s).charsets := by
    rw [Change.charsets, usable, List.mem_filter]
    exact ⟨List.mem_map_of_mem h.mem, by simpa [Utf8.ofText_eq_nil_iff] using hne⟩
  cases hlast : TagFill.lastFor name (Change.settings s).charsets with
  | none => exact absurd rfl (lastFor_eq_none_iff.mp hlast _ hmem)
  | some value =>
    obtain ⟨reg, hreg, hname, rfl⟩ := exists_mem_of_lastFor hlast
    obtain ⟨entry, hentry, rfl⟩ := List.mem_map.mp (List.mem_filter.mp hreg).1
    rw [h.alone entry hentry hname]

theorem Callable.pass_eq (h : s.Callable name chars) (hvalid : s.validate = .ok s)
    (hplain : (ofChanges [.settings s]).output = .plain)
    (hn : LengthSpec.Valid (ofChanges [.settings s]).rules lengths n) :
    (ofChanges [.settings s]).pass (plainTag [lengths, Bytes.ofText name]) =
      Revised.rebuilt <$> Draw.text n (Bytes.ofText chars) := by
  have hne : chars ≠ "" := (validate_eq_ok_iff.mp hvalid).charsets _ h.mem
  have hname : Name.ofEntry (Bytes.ofText name) = Name.upper name := Name.ofEntry_ofText name
  obtain ⟨htag, hbody⟩ :=
    Config.tagBody_plainTag (c := ofChanges [.settings s]) hn.1.plainField h.writable.plain
  rw [LengthSpec.parse_eq_fixed_iff.mpr hn, h.writable.parse] at hbody
  have hresolves : Resolves [.settings s] (some (Bytes.ofText name))
      (.charset (Bytes.ofText chars)) := by
    apply Resolves.charset
    · rw [hname]
      exact h.free
    · rfl
    · have hlast := h.lastFor hne
      unfold TagFill.lastFor at hlast ⊢
      rw [hname, Name.upper_upper]
      simpa using hlast
  rw [Config.pass_tag htag, Config.fillTag_fields hbody]
  simp only [LengthSpec.draw, TypeSpec.draw, Draw.pure_eq, Draw.done_bind,
    Config.filler_of_resolves hresolves, hplain, Functor.map_map]
  rfl

theorem Callable.exists_run_iff (h : s.Callable name chars) (hvalid : s.validate = .ok s)
    (hplain : (ofChanges [.settings s]).output = .plain)
    (hn : LengthSpec.Valid (ofChanges [.settings s]).rules lengths n)
    (hmemory : Addressable (Bytes.ofText chars)) (r : Revised) :
    (∃ source source', ((ofChanges [.settings s]).pass
        (plainTag [lengths, Bytes.ofText name])).run source = (.ok r, source')) ↔
      ∃ b, r = .rebuilt b ∧ IsText n (Bytes.ofText chars) b := by
  have hne : Bytes.ofText chars ≠ [] :=
    mt Utf8.ofText_eq_nil_iff.mp ((validate_eq_ok_iff.mp hvalid).charsets _ h.mem)
  rw [h.pass_eq hvalid hplain hn]
  constructor
  · rintro ⟨source, source', hrun⟩
    have hread := Draw.read_of_run hrun
    rw [Draw.read_map] at hread
    exact ⟨_, hread.symm, Draw.read_text hne n source.stream⟩
  · rintro ⟨b, rfl, rfl, hb⟩
    obtain ⟨script, -, hrun⟩ :=
      Draw.exists_script (Draw.reaches_map Revised.rebuilt
        (Draw.reaches_text hb (Nat.le_of_lt hmemory)))
    exact ⟨_, _, Prod.ext hrun rfl⟩

/-- What a tag of the charset can be filled with is each text of its bytes. For every source this is
text, and as many characters of the charset as the tag declares, just where all of these are
ASCII. -/
theorem charset_text_iff (h : s.Callable name chars) (hvalid : s.validate = .ok s)
    (hplain : (ofChanges [.settings s]).output = .plain)
    (hn : LengthSpec.Valid (ofChanges [.settings s]).rules lengths n)
    (hmemory : Addressable (Bytes.ofText chars)) :
    let pass := (ofChanges [.settings s]).pass (plainTag [lengths, Bytes.ofText name])
    (∀ r, (∃ source source', pass.run source = (.ok r, source')) ↔
        ∃ b, r = .rebuilt b ∧ IsText n (Bytes.ofText chars) b) ∧
      ((∀ source source' r, pass.run source = (.ok r, source') → Utf8.IsChars n chars r.bytes) ↔
        ∀ x ∈ chars.toList, x.toNat < 0x80) ∧
      ((∀ source source' r, pass.run source = (.ok r, source') → Utf8.Valid r.bytes) ↔
        ∀ x ∈ chars.toList, x.toNat < 0x80) := by
  intro pass
  have hruns := h.exists_run_iff hvalid hplain hn hmemory
  have hpos : 0 < n := Nat.lt_of_lt_of_le Nat.one_pos (Nat.le_trans (Nat.le_max_right _ _) hn.2.1)
  have hchars (hascii : ∀ x ∈ chars.toList, x.toNat < 0x80) (source source' : Source)
      (r : Revised) (hrun : pass.run source = (.ok r, source')) :
      Utf8.IsChars n chars r.bytes := by
    obtain ⟨b, rfl, hb⟩ := (hruns r).mp ⟨source, source', hrun⟩
    exact Utf8.isChars_of_isText hascii hb
  have hascii (hall : ∀ source source' r, pass.run source = (.ok r, source') →
      Utf8.Valid r.bytes) (x : Char) (hx : x ∈ chars.toList) : x.toNat < 0x80 := by
    by_contra hhigh
    obtain ⟨b, hb, hnot⟩ := Utf8.exists_isText_not_valid hx (Nat.le_of_not_lt hhigh) hpos
    obtain ⟨source, source', hrun⟩ := (hruns (.rebuilt b)).mpr ⟨b, rfl, hb⟩
    exact hnot (hall source source' _ hrun)
  refine ⟨hruns, ⟨?_, hchars⟩, ⟨hascii, ?_⟩⟩
  · intro hall
    apply hascii
    intro source source' r hrun
    exact (hall source source' r hrun).valid
  · intro hall source source' r hrun
    exact (hchars hall source source' r hrun).valid

/-- The charset stands beside one that is not ASCII, and its name has a separator at the end. -/
theorem charset_text_ascii :
    let document : SettingsDocument := .json (.object [("charsets",
      .object [("kéy;", .string "ab~"), ("é", .string "éü")])]) true
    ∃ s, load document = .ok s ∧ ∀ source source' r,
      ((ofChanges [.settings s]).pass (Bytes.ofText "\x7bRAND;02;kéy;\x7d")).run source =
        (.ok r, source') → Utf8.IsChars 2 "ab~" r.bytes := by
  intro document
  let s : Settings := { charsets := .ofList [("kéy;", "ab~"), ("é", "éü")] }
  have hload : load document = .ok s := rfl
  have hentries : s.charsets.entries = [("kéy;", "ab~"), ("é", "éü")] := rfl
  have hcallable : s.Callable "kéy;" "ab~" := by
    refine ⟨by simp [hentries], ?_, ⟨?_, ?_⟩, ?_⟩
    · simp [hentries, Name.upper, ← String.toList_inj]
    · simp [Disabled, Change.switches, lastFor_nil, s]
    · intro keyword
      cases keyword <;> simp [Name.upper, ← String.toList_inj, Keyword.name]
    · exact ⟨by decide, by decide, by decide, by decide, by decide⟩
  have hn : LengthSpec.Valid (ofChanges [.settings s]).rules (Bytes.ofText "02") 2 :=
    ⟨LengthSpec.digits?_eq_some_iff.mp (by decide), by decide, by decide⟩
  have hmemory : Addressable (Bytes.ofText "ab~") := by
    unfold Addressable
    decide
  have hpayload : plainTag [Bytes.ofText "02", Bytes.ofText "kéy;"] =
      Bytes.ofText "\x7bRAND;02;kéy;\x7d" := by decide
  have hiff := charset_text_iff hcallable rfl rfl hn hmemory
  rw [hpayload] at hiff
  exact ⟨s, hload, hiff.2.1.mpr (by simp)⟩

/-- The charset is one character, and the tag is filled with the second byte of it. -/
theorem charset_text_accent :
    let document : SettingsDocument := .json (.object [("charsets",
      .object [("accent", .string "é")])]) true
    let source := Source.scripted [0xFF] none
    (∃ s, load document = .ok s ∧ s.validate = .ok s ∧ s.Callable "accent" "é" ∧
      (((ofChanges [.settings s]).pass (Bytes.ofText "\x7bRAND;1;accent\x7d")).run source).1 =
        .ok (.rebuilt [0xA9]) ∧ ¬ Utf8.Valid [0xA9]) ∧
      ¬ ∀ (s : Settings) (name chars : String) (lengths : Bytes) (n : Nat) (source source' : Source)
        (r : Revised), s.validate = .ok s → s.Callable name chars →
        (ofChanges [.settings s]).output = .plain →
        LengthSpec.Valid (ofChanges [.settings s]).rules lengths n →
        ((ofChanges [.settings s]).pass (plainTag [lengths, Bytes.ofText name])).run source =
          (.ok r, source') → Utf8.IsChars n chars r.bytes := by
  intro document source
  let s : Settings := { charsets := .ofList [("accent", "é")] }
  have hload : load document = .ok s := rfl
  have hentries : s.charsets.entries = [("accent", "é")] := rfl
  have hvalid : s.validate = .ok s := rfl
  have hcallable : s.Callable "accent" "é" := by
    refine ⟨by simp [hentries], ?_, ⟨?_, ?_⟩, ?_⟩
    · simp [hentries]
    · simp [Disabled, Change.switches, lastFor_nil, s]
    · intro keyword
      cases keyword <;> simp [Name.upper, ← String.toList_inj, Keyword.name]
    · exact ⟨by decide, by decide, by decide, by decide, by decide⟩
  have hn : LengthSpec.Valid (ofChanges [.settings s]).rules (Bytes.ofText "1") 1 :=
    ⟨LengthSpec.digits?_eq_some_iff.mp (by decide), by decide, by decide⟩
  have hpayload : plainTag [Bytes.ofText "1", Bytes.ofText "accent"] =
      Bytes.ofText "\x7bRAND;1;accent\x7d" := by decide
  have hplan := hcallable.pass_eq hvalid rfl hn
  have hrun : (((ofChanges [.settings s]).pass
      (plainTag [Bytes.ofText "1", Bytes.ofText "accent"])).run source).1 =
        .ok (.rebuilt [0xA9]) := by
    rw [hplan]
    decide +kernel
  have hnot : ¬ Utf8.Valid [0xA9] := Utf8.not_valid_of_continuation (by decide)
  refine ⟨⟨s, hload, hvalid, hcallable, by rw [← hpayload]; exact hrun, hnot⟩, ?_⟩
  intro hall
  exact hnot (hall s "accent" "é" _ 1 source _ _ hvalid hcallable rfl hn
    (Prod.ext hrun rfl)).valid

end Settings

end TagFill
