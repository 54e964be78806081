import TagFill.Proofs.Lossless
import TagFill.Proofs.UuidText

/-! # The text of an address reads back

An address is read in all the forms that texts of addresses have. Writing uses one of them for each
address, and reading that gives the bytes that were written.
-/

namespace TagFill

namespace Address

/-! ## Reading -/

def dot : UInt8 := '.'.toUInt8

def colon : UInt8 := ':'.toUInt8

/-- The value of digits in the base, the high digit first. Letters may have either case. -/
def number? (base : Nat) (text : Bytes) : Option Nat := do
  let digits ← text.mapM Hex.value?
  if digits.all (· < base) then some (digits.foldl (fun n d => n * base + d) 0) else none

/-- A decimal number for one byte. No zero stands in front of other digits. -/
def octet? (text : Bytes) : Option UInt8 := do
  let n ← number? 10 text
  if text ≠ [] ∧ (text.head? = some '0'.toUInt8 → text.length = 1) ∧ n < 256 then
    some (UInt8.ofNat n)
  else none

/-- Four numbers with dots between them. -/
def parse4? (text : Bytes) : Option Bytes :=
  ((Bytes.entries dot text).mapM octet?).filter fun octets => octets.length = 4

/-- The two bytes of a group, the high one first. -/
def halves (group : Nat) : Bytes := [UInt8.ofNat (group / 256), UInt8.ofNat (group % 256)]

/-- One to four hex digits. -/
def group? (text : Bytes) : Option Bytes :=
  if 1 ≤ text.length ∧ text.length ≤ 4 then (number? 16 text).map halves else none

/-- The bytes of groups. The last piece may give four bytes with dots if the text ends there. -/
def pieces? (ends : Bool) : List Bytes → Option Bytes
  | [] => some []
  | [last] => group? last <|> if ends then parse4? last else none
  | piece :: next :: rest => do return (← group? piece) ++ (← pieces? ends (next :: rest))

/-- Groups with colons between them, or nothing. -/
def side? (ends : Bool) (text : Bytes) : Option Bytes :=
  if text = [] then some [] else pieces? ends (Bytes.entries colon text)

/-- What stands before and after the first `::`. -/
def gap? : Bytes → Option (Bytes × Bytes)
  | x :: y :: rest =>
    if x = colon ∧ y = colon then some ([], rest)
    else (gap? (y :: rest)).map fun (before, after) => (x :: before, after)
  | _ => none

/-- Eight groups, where `::` stands for all the zero groups that are missing, one at least. -/
def parse6? (text : Bytes) : Option Bytes :=
  match gap? text with
  | none => (side? true text).filter fun b => b.length = 16
  | some (before, after) => do
    let first ← side? false before
    let last ← side? true after
    if first.length + last.length ≤ 14 then
      some (first ++ List.replicate (16 - first.length - last.length) 0 ++ last)
    else none

example : parse6? (Bytes.ofText "1::F0:1.2.3.4") =
    some [0, 1, 0, 0, 0, 0, 0, 0, 0, 0, 0, 0xF0, 1, 2, 3, 4] := by decide +kernel

example : [":::", "1::2::3", "1:2:3:4:5:6:7", "1:2:3:4:5:6:7:8::", "1.2.3.4::", "::01.2.3.4"].all
    (fun text => parse6? (Bytes.ofText text) = none) = true := by decide +kernel

/-! ## Numbers -/

theorem mapM_map_eq_some {α β : Type} {write : α → β} {read : β → Option α} {items : List α}
    (h : ∀ a ∈ items, read (write a) = some a) : (items.map write).mapM read = some items := by
  induction items with
  | nil => rfl
  | cons a items ih =>
    rw [List.forall_mem_cons] at h
    rw [List.map_cons, List.mapM_cons, h.1, ih h.2]
    rfl

theorem exists_significant {digits : List Nat} (h : digits ≠ []) :
    ∃ n, digits = List.replicate n 0 ++ significant digits ∧ significant digits ≠ [] := by
  induction digits using significant.induct with
  | case1 => contradiction
  | case2 d => exact ⟨0, rfl, List.cons_ne_nil d []⟩
  | case3 rest hrest ih =>
    obtain ⟨n, hn, hne⟩ := ih hrest
    rw [significant]
    · exact ⟨n + 1, congrArg (List.cons 0) hn, hne⟩
    · exact hrest
  | case4 digits hempty hsingle hzero =>
    rw [significant]
    · exact ⟨0, rfl, h⟩
    · exact hempty
    · exact hsingle
    · exact hzero

theorem foldl_zeros (base n : Nat) :
    (List.replicate n 0).foldl (fun v d => v * base + d) 0 = 0 := by
  induction n with
  | zero => rfl
  | succ n ih => simpa [List.replicate_succ] using ih

theorem number?_significant {base : Nat} {digits : List Nat} (hbase : base ≤ 16)
    (hne : digits ≠ []) (h : ∀ d ∈ digits, d < base) :
    number? base ((significant digits).map Hex.digit) =
      some (digits.foldl (fun v d => v * base + d) 0) := by
  have hlt : ∀ d ∈ significant digits, d < base := fun d hd => h d (significant_subset digits hd)
  have hread : ((significant digits).map Hex.digit).mapM Hex.value? = some (significant digits) :=
    mapM_map_eq_some fun d hd => Hex.value?_digit (Nat.lt_of_lt_of_le (hlt d hd) hbase)
  have hvalue : digits.foldl (fun v d => v * base + d) 0 =
      (significant digits).foldl (fun v d => v * base + d) 0 := by
    obtain ⟨n, hn, -⟩ := exists_significant hne
    conv_lhs => rw [hn]
    rw [List.foldl_append, foldl_zeros]
  rw [number?, hread, hvalue]
  exact if_pos (by simpa using hlt)

theorem octet?_decimal (x : UInt8) : octet? (decimal x) = some x :=
  Bytes.forall_byte (P := fun x => octet? (decimal x) = some x) (by decide +kernel) x

variable {group : Nat} {gs : List Nat} {b text after : Bytes} {pieces : List Bytes} {ends : Bool}

theorem hexadecimal_digits (h : group < 0x10000) :
    ∀ d ∈ [group / 4096, group / 256 % 16, group / 16 % 16, group % 16], d < 16 := by
  simp only [List.mem_cons, List.not_mem_nil, or_false, forall_eq_or_imp, forall_eq]
  omega

theorem length_hexadecimal (group : Nat) :
    1 ≤ (hexadecimal group).length ∧ (hexadecimal group).length ≤ 4 := by
  obtain ⟨n, hn, hne⟩ := exists_significant (List.cons_ne_nil (group / 4096)
    [group / 256 % 16, group / 16 % 16, group % 16])
  have hlength := congrArg List.length hn
  have hpos := List.length_pos_iff.mpr hne
  simp only [List.length_append, List.length_replicate, List.length_cons, List.length_nil]
    at hlength
  rw [hexadecimal, List.length_map]
  omega

theorem group?_hexadecimal (h : group < 0x10000) :
    group? (hexadecimal group) = some (halves group) := by
  have hvalue : [group / 4096, group / 256 % 16, group / 16 % 16, group % 16].foldl
      (fun v d => v * 16 + d) 0 = group := by
    simp only [List.foldl_cons, List.foldl_nil]
    omega
  rw [group?, if_pos (length_hexadecimal group), hexadecimal,
    number?_significant (Nat.le_refl 16) (List.cons_ne_nil _ _) (hexadecimal_digits h), hvalue]
  rfl

/-! ## Four bytes -/

theorem dot_not_mem_decimal (x : UInt8) : dot ∉ decimal x :=
  Bytes.forall_byte (P := fun x => dot ∉ decimal x) (by decide +kernel) x

theorem dotted_eq (b : Bytes) : dotted b = Bytes.joined [dot] (b.map decimal) := rfl

theorem parse4?_dotted (h : b.length = 4) : parse4? (dotted b) = some b := by
  have hne : b.map decimal ≠ [] := by
    rw [ne_eq, List.map_eq_nil_iff, ← List.length_eq_zero_iff, h]
    decide
  have hdots : ∀ piece ∈ b.map decimal, dot ∉ piece :=
    List.forall_mem_map.mpr fun x _ => dot_not_mem_decimal x
  rw [parse4?, dotted_eq, Bytes.entries_joined hne hdots,
    mapM_map_eq_some fun x _ => octet?_decimal x]
  simp [h]

/-! ## Groups -/

theorem halves_eq (high low : UInt8) : halves (high.toNat * 256 + low.toNat) = [high, low] := by
  have hhigh : (high.toNat * 256 + low.toNat) / 256 = high.toNat := by
    have := low.toNat_lt
    omega
  have hlow : (high.toNat * 256 + low.toNat) % 256 = low.toNat := by
    have := low.toNat_lt
    omega
  rw [halves, hhigh, hlow, UInt8.ofNat_toNat, UInt8.ofNat_toNat]

theorem flatMap_halves_groups (h : b.length % 2 = 0) : (groups b).flatMap halves = b := by
  induction b using groups.induct with
  | case1 high low rest ih =>
    rw [List.length_cons, List.length_cons] at h
    rw [groups, List.flatMap_cons, halves_eq, ih (by omega)]
    rfl
  | case2 b hne =>
    rcases b with _ | ⟨high, _ | ⟨low, rest⟩⟩
    · rfl
    · simp at h
    · exact absurd rfl (hne high low rest)

theorem length_flatMap_halves (gs : List Nat) : (gs.flatMap halves).length = 2 * gs.length := by
  induction gs with
  | nil => rfl
  | cons group gs ih =>
    rw [List.flatMap_cons, List.length_append, ih, List.length_cons]
    simp only [halves, List.length_cons, List.length_nil]
    omega

theorem flatMap_halves_zeros (n : Nat) :
    (List.replicate n 0).flatMap halves = List.replicate (2 * n) 0 := by
  induction n with
  | zero => rfl
  | succ n ih =>
    rw [List.replicate_succ, List.flatMap_cons, ih]
    rfl

theorem colon_not_mem_hexadecimal (h : group < 0x10000) : colon ∉ hexadecimal group := by
  intro hmem
  obtain ⟨d, hd, hcolon⟩ := List.mem_map.mp hmem
  have hdigit := Hex.digit_mem (hexadecimal_digits h d (significant_subset _ hd))
  rw [hcolon] at hdigit
  exact absurd hdigit (by decide)

/-- A piece of a text with colons. -/
def IsPiece (piece : Bytes) : Prop := piece ≠ [] ∧ colon ∉ piece

theorem isPiece_hexadecimal (h : group < 0x10000) : IsPiece (hexadecimal group) :=
  ⟨List.ne_nil_of_length_pos (length_hexadecimal group).1, colon_not_mem_hexadecimal h⟩

theorem isPiece_of_mem (h : ∀ group ∈ gs, group < 0x10000) :
    ∀ piece ∈ gs.map hexadecimal, IsPiece piece :=
  List.forall_mem_map.mpr fun group hmem => isPiece_hexadecimal (h group hmem)

theorem colons_eq (gs : List Nat) : colons gs = Bytes.joined [colon] (gs.map hexadecimal) := rfl

theorem pieces?_hexadecimal (h : ∀ group ∈ gs, group < 0x10000) :
    pieces? ends (gs.map hexadecimal) = some (gs.flatMap halves) := by
  induction gs with
  | nil => rfl
  | cons group gs ih =>
    rw [List.forall_mem_cons] at h
    have hgroup := group?_hexadecimal h.1
    cases gs with
    | nil => simp [pieces?, hgroup]
    | cons next gs =>
      rw [List.map_cons, List.map_cons, pieces?, hgroup, ← List.map_cons, ih h.2]
      rfl

theorem side?_colons (h : ∀ group ∈ gs, group < 0x10000) :
    side? ends (colons gs) = some (gs.flatMap halves) := by
  cases gs with
  | nil => rfl
  | cons group gs =>
    have hpieces := isPiece_of_mem h
    have hne : (group :: gs).map hexadecimal ≠ [] := List.cons_ne_nil _ _
    have hentries := Bytes.entries_joined hne fun piece hmem => (hpieces piece hmem).2
    have htext : colons (group :: gs) ≠ [] := by
      intro hnil
      rw [← colons_eq, hnil] at hentries
      have hlast := hpieces [] (by rw [← hentries]; exact List.mem_singleton_self _)
      exact hlast.1 rfl
    rw [side?, if_neg htext, colons_eq, hentries, pieces?_hexadecimal h]

/-! ## The gap -/

theorem gap?_cons_of_ne {x : UInt8} (h : x ≠ colon) :
    gap? (x :: text) = (gap? text).map fun gap => (x :: gap.1, gap.2) := by
  cases text with
  | nil => rfl
  | cons y rest =>
    rw [gap?, if_neg (by simp [h])]

theorem gap?_append (h : colon ∉ text) :
    gap? (text ++ after) = (gap? after).map fun gap => (text ++ gap.1, gap.2) := by
  induction text with
  | nil => simp
  | cons x text ih =>
    rw [List.mem_cons, not_or] at h
    rw [List.cons_append, gap?_cons_of_ne (Ne.symm h.1), ih h.2, Option.map_map]
    rfl

theorem gap?_colon_cons {piece : Bytes} (h : IsPiece piece) :
    gap? (colon :: (piece ++ after)) =
      (gap? (piece ++ after)).map fun gap => (colon :: gap.1, gap.2) := by
  obtain ⟨x, piece, rfl⟩ := List.exists_cons_of_ne_nil h.1
  have hx : x ≠ colon := by
    rintro rfl
    exact h.2 List.mem_cons_self
  rw [List.cons_append, gap?, if_neg (by simp [hx])]

theorem gap?_joined_append (h : ∀ piece ∈ pieces, IsPiece piece) :
    gap? (Bytes.joined [colon] pieces ++ after) =
      (gap? after).map fun gap => (Bytes.joined [colon] pieces ++ gap.1, gap.2) := by
  induction pieces with
  | nil => simp [Bytes.joined]
  | cons piece pieces ih =>
    rw [List.forall_mem_cons] at h
    cases pieces with
    | nil => exact gap?_append h.1.2
    | cons next pieces =>
      obtain ⟨rest, hrest⟩ : ∃ rest,
          Bytes.joined [colon] (next :: pieces) ++ after = next ++ rest := by
        by_cases hlast : pieces = []
        · exact ⟨after, by simp [hlast, Bytes.joined]⟩
        · exact ⟨_, by rw [Bytes.joined_cons hlast, List.append_assoc]⟩
      rw [Bytes.joined_cons (List.cons_ne_nil _ _), List.append_assoc, gap?_append h.1.2,
        List.cons_append, hrest, gap?_colon_cons (List.forall_mem_cons.mp h.2).1, ← hrest, ih h.2,
        Option.map_map, Option.map_map]
      simp [Function.comp_def]

/-! ## Runs of zeros -/

/-- No other run is longer, and each one before it is shorter. -/
structure IsFirstLongest (gs : List Nat) (run : Run) : Prop where
  zeros : zeros (gs.drop run.start) = run.length
  longest : ∀ start, Address.zeros (gs.drop start) ≤ run.length
  first : ∀ start < run.start, Address.zeros (gs.drop start) < run.length

theorem isFirstLongest_longestRun (gs : List Nat) : IsFirstLongest gs (longestRun gs) := by
  induction gs with
  | nil => exact ⟨rfl, fun start => by simp [zeros, longestRun], by simp [longestRun]⟩
  | cons group gs ih =>
    rw [longestRun]
    split
    · rename_i hle
      refine ⟨rfl, ?_, by simp⟩
      rintro (_ | start)
      · exact Nat.le_refl _
      · exact Nat.le_trans (ih.longest start) hle
    · rename_i hlt
      rw [Nat.not_le] at hlt
      refine ⟨ih.zeros, ?_, ?_⟩
      · rintro (_ | start)
        · exact Nat.le_of_lt hlt
        · exact ih.longest start
      · rintro (_ | start) hstart
        · exact hlt
        · exact ih.first start (Nat.lt_of_succ_lt_succ hstart)

theorem replicate_zeros_append (gs : List Nat) :
    List.replicate (zeros gs) 0 ++ gs.drop (zeros gs) = gs := by
  induction gs with
  | nil => rfl
  | cons group gs ih =>
    by_cases h : group = 0
    · have hzeros : zeros (group :: gs) = zeros gs + 1 := by simp [zeros, h]
      rw [hzeros, List.replicate_succ, List.drop_succ_cons, List.cons_append, ih, h]
    · have hzeros : zeros (group :: gs) = 0 := by simp [zeros, h]
      rw [hzeros]
      rfl

theorem IsFirstLongest.split {run : Run} (h : IsFirstLongest gs run) :
    gs.take run.start ++ (List.replicate run.length 0 ++ gs.drop (run.start + run.length)) =
      gs := by
  have hrun := replicate_zeros_append (gs.drop run.start)
  rw [h.zeros, List.drop_drop] at hrun
  rw [hrun, List.take_append_drop]

/-! ## Sixteen bytes -/

theorem gap?_colons_append (h : ∀ group ∈ gs, group < 0x10000) (after : Bytes) :
    gap? (colons gs ++ after) = (gap? after).map fun gap => (colons gs ++ gap.1, gap.2) :=
  gap?_joined_append (isPiece_of_mem h)

theorem parse6?_colons (h : ∀ group ∈ gs, group < 0x10000) (hlength : gs.length = 8) :
    parse6? (colons gs) = some (gs.flatMap halves) := by
  have hgap : gap? (colons gs) = none := by
    have happend := gap?_colons_append h []
    rwa [List.append_nil] at happend
  have hsixteen : (gs.flatMap halves).length = 16 := by rw [length_flatMap_halves, hlength]
  rw [parse6?, hgap]
  dsimp only
  rw [side?_colons h, Option.filter_some, if_pos (by simpa using hsixteen)]

theorem parse6?_gap {first last : List Nat} {n : Nat} (hfirst : ∀ group ∈ first, group < 0x10000)
    (hlast : ∀ group ∈ last, group < 0x10000) (hn : 1 ≤ n)
    (hlength : first.length + n + last.length = 8) :
    parse6? (colons first ++ Bytes.ofText "::" ++ colons last) =
      some ((first ++ (List.replicate n 0 ++ last)).flatMap halves) := by
  have hgap : gap? (colons first ++ Bytes.ofText "::" ++ colons last) =
      some (colons first, colons last) := by
    have happend := gap?_colons_append hfirst (Bytes.ofText "::" ++ colons last)
    rw [← List.append_assoc] at happend
    rw [happend]
    change some (colons first ++ [], colons last) = _
    rw [List.append_nil]
  have hfits : (first.flatMap halves).length + (last.flatMap halves).length ≤ 14 := by
    rw [length_flatMap_halves, length_flatMap_halves]
    omega
  have hmissing : 16 - (first.flatMap halves).length - (last.flatMap halves).length = 2 * n := by
    rw [length_flatMap_halves, length_flatMap_halves]
    omega
  simp only [parse6?, hgap, side?_colons hfirst, side?_colons hlast, Option.bind_eq_bind,
    Option.bind_some, if_pos hfits, hmissing]
  rw [List.flatMap_append, List.flatMap_append, flatMap_halves_zeros, List.append_assoc]

theorem parse6?_compressed (h : b.length = 16) : parse6? (compressed (groups b)) = some b := by
  have hlt := groups_lt b
  have hbytes : (groups b).flatMap halves = b := flatMap_halves_groups (by omega)
  have hlength : (groups b).length = 8 := by
    have htwice := length_flatMap_halves (groups b)
    rw [hbytes, h] at htwice
    omega
  unfold compressed
  dsimp only
  split
  · rw [parse6?_colons hlt hlength, hbytes]
  · rename_i hlong
    have hsplit := (isFirstLongest_longestRun (groups b)).split
    have hcount := congrArg List.length hsplit
    rw [List.length_append, List.length_append, List.length_replicate, hlength] at hcount
    rw [parse6?_gap (n := (longestRun (groups b)).length)
      (fun _ hmem => hlt _ (List.mem_of_mem_take hmem))
      (fun _ hmem => hlt _ (List.mem_of_mem_drop hmem)) (by omega) (by omega), hsplit, hbytes]

theorem length_dotted (h : b.length = 4) : 4 < (dotted b).length := by
  have hpos (x : UInt8) : 0 < (decimal x).length :=
    Bytes.forall_byte (P := fun x => 0 < (decimal x).length) (by decide +kernel) x
  match b, h with
  | [w, x, y, z], _ =>
    have hw := hpos w
    have hx := hpos x
    simp only [dotted_eq, Bytes.joined, List.map_cons, List.map_nil, List.length_append,
      List.length_cons, List.length_nil]
    omega

theorem colon_not_mem_dotted (h : b.length = 4) : colon ∉ dotted b := by
  have hdecimal (x : UInt8) : colon ∉ decimal x :=
    Bytes.forall_byte (P := fun x => colon ∉ decimal x) (by decide +kernel) x
  have hdot : colon ≠ dot := by decide
  match b, h with
  | [w, x, y, z], _ => simp [dotted_eq, Bytes.joined, hdecimal, hdot]

theorem parse6?_mapped (h : b.length = 4) :
    parse6? (Bytes.ofText "::ffff:" ++ dotted b) = some (mappedStart ++ b) := by
  have hgap : gap? (Bytes.ofText "::ffff:" ++ dotted b) =
      some ([], Bytes.ofText "ffff" ++ colon :: dotted b) := rfl
  have hentries : Bytes.entries colon (Bytes.ofText "ffff" ++ colon :: dotted b) =
      [Bytes.ofText "ffff", dotted b] := by
    rw [Bytes.entries_append (by decide), Bytes.entries_of_not_mem (colon_not_mem_dotted h)]
  have hgroup : group? (dotted b) = none := by
    have hlength := length_dotted h
    exact if_neg (by omega)
  have hside : side? true (Bytes.ofText "ffff" ++ colon :: dotted b) =
      some (0xFF :: 0xFF :: b) := by
    rw [side?, if_neg (by simp), hentries, pieces?, pieces?, hgroup, if_pos rfl, parse4?_dotted h]
    rfl
  have hlength : (0xFF :: 0xFF :: b : Bytes).length = 6 := by simp [h]
  have hnone : side? false [] = some [] := rfl
  simp only [parse6?, hgap, hnone, hside, Option.bind_eq_bind, Option.bind_some, hlength]
  rfl

theorem parse6?_render6 (h : b.length = 16) : parse6? (render6 b) = some b := by
  unfold render6
  split
  · rename_i inner hinner
    have hb := Bytes.isPrefixOf?_eq_some_iff.mp hinner
    have hlength : inner.length = 4 := by
      have happend := congrArg List.length hb
      rw [List.length_append, h] at happend
      change 16 = 12 + inner.length at happend
      omega
    rw [parse6?_mapped hlength, hb]
  · exact parse6?_compressed h

/-! ## Drawn addresses -/

/-- Addresses of four bytes and of sixteen. -/
inductive Family
  | four
  | six

namespace Family

def size : Family → Nat
  | .four => 4
  | .six => 16

def keyword : Family → Keyword
  | .four => .ipv4
  | .six => .ipv6

def render : Family → Bytes → Bytes
  | .four => render4
  | .six => render6

def parse? : Family → Bytes → Option Bytes
  | .four => parse4?
  | .six => parse6?

variable {f : Family} {drawn other : Bytes}

theorem parse?_render (h : drawn.length = f.size) : f.parse? (f.render drawn) = some drawn := by
  cases f with
  | four => exact parse4?_dotted h
  | six => exact parse6?_render6 h

theorem render_inj (h : drawn.length = f.size) (h' : other.length = f.size) :
    f.render other = f.render drawn ↔ other = drawn := by
  constructor
  · intro heq
    have hparse := congrArg f.parse? heq
    rw [parse?_render h, parse?_render h', Option.some.injEq] at hparse
    exact hparse
  · rintro rfl
    rfl

/-- Whatever bytes a source gives for an address, the text reads back to them, and no other bytes
have that text. It does so under every output encoding. -/
theorem draw_reads_back (f : Family) (c : Config) (length : Option Nat) {s s' : Source}
    (hdraw : s.answer (.bytes f.size) = (.ok drawn, s')) :
    (c.output.encode <$> (Filler.builtin f.keyword).draw c length).run s =
        (.ok (c.output.encode (f.render drawn)), s') ∧
      f.parse? (f.render drawn) = some drawn ∧
      c.output.decode (c.output.encode (f.render drawn)) = f.render drawn ∧
      ∀ other : Bytes, other.length = f.size →
        (c.output.encode (f.render other) = c.output.encode (f.render drawn) ↔ other = drawn) := by
  have hlength : drawn.length = f.size := by
    unfold Source.answer at hdraw
    split at hdraw
    · cases hdraw
    · cases hdraw
      exact Draw.length_read_bytes f.size s.stream
  have hfiller : (Filler.builtin f.keyword).draw c length = f.render <$> Draw.bytes f.size := by
    cases f <;> rfl
  refine ⟨?_, parse?_render hlength, c.output.decode_encode _, ?_⟩
  · rw [hfiller, Draw.run_map, Draw.run_map, Draw.bytes, Draw.run_ask, hdraw]
    rfl
  · intro other hother
    have hinjective := Function.LeftInverse.injective c.output.decode_encode
    rw [hinjective.eq_iff, render_inj hlength hother]

/-- Of two runs of zeros with the same length only the first one is left out. -/
theorem draw_reads_back_tie :
    let drawn : Bytes := [0x20, 1, 0, 0, 0, 0, 0xAB, 0xC, 0, 0, 0, 0, 0, 1, 0xFF, 0xFF]
    let text := Bytes.ofText "2001::ab0c:0:0:1:ffff"
    let plan := Encoding.url.encode <$> (Filler.builtin .ipv6).draw { output := .url } none
    (∃ s', plan.run (.scripted drawn none) = (.ok (Encoding.url.encode text), s')) ∧
      parse6? text = some drawn := by
  intro drawn text plan
  let source := Source.scripted drawn none
  have hdraw : source.answer (.bytes 16) = (.ok drawn, (source.answer (.bytes 16)).2) :=
    Prod.ext rfl rfl
  obtain ⟨hrun, hparse, -, -⟩ := draw_reads_back .six { output := .url } none hdraw
  have htext : render6 drawn = text := by decide +kernel
  change parse6? (render6 drawn) = some drawn at hparse
  change plan.run source = (.ok (Encoding.url.encode (render6 drawn)), _) at hrun
  rw [htext] at hparse hrun
  exact ⟨⟨_, hrun⟩, hparse⟩

end Family

end Address

end TagFill
