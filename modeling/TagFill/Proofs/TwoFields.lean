import TagFill.Proofs.LengthGrammar

/-! # Two fields for every tag

What a tag declares can be printed as a length field and a type field, and a body of these two
fields is read as the same. A lone field is one of the two with the other one empty.
-/

namespace TagFill

/-! ## Printing -/

def decimal (n : Nat) : Bytes := Bytes.ofText (toString n)

/-- Every length of a choice ends with a comma, so a choice of one is not read as that length. -/
def LengthSpec.print : LengthSpec → Bytes
  | .absent => []
  | .fixed n => decimal n
  | .range a b => decimal a ++ rangeMark :: decimal b
  | .choice ns => ns.flatMap fun n => decimal n ++ [choiceMark]

def TypeSpec.print : TypeSpec → Bytes
  | .absent => []
  | .single name => name
  | .choice names => Bytes.joined [LengthSpec.choiceMark] names

def TagBody.twoFields (length type : Bytes) : Bytes := separator :: (length ++ separator :: type)

/-! ## Numbers -/

theorem isDigit_toDigits (n : Nat) :
    ∀ c ∈ Nat.toDigits 10 n, '0'.toNat ≤ c.toNat ∧ c.toNat ≤ '9'.toNat :=
  fun _ hc => Char.isDigit_iff_toNat.mp (Nat.isDigit_of_mem_toDigits (by omega) (by omega) hc)

theorem toNat_digit {c : Char} (h : '0'.toNat ≤ c.toNat ∧ c.toNat ≤ '9'.toNat) :
    (UInt8.ofNat c.toNat).toNat = c.toNat := by
  have hnine : '9'.toNat = 0x39 := rfl
  simp
  omega

theorem decimal_eq (n : Nat) :
    decimal n = (Nat.toDigits 10 n).map fun c => UInt8.ofNat c.toNat := by
  have htext : (toString n).toList = Nat.toDigits 10 n := Nat.toList_repr
  rw [decimal, Bytes.ofText, htext, List.map_eq_flatMap]
  apply List.flatMap_congr
  intro c hc
  have hnine : '9'.toNat = 0x39 := rfl
  have hascii : c.toNat ≤ 0x7F := by
    have := isDigit_toDigits n c hc
    omega
  simp [String.utf8EncodeChar, hascii]

theorem isDigit_decimal (n : Nat) : ∀ d ∈ decimal n, Bytes.isDigit d = true := by
  rw [decimal_eq]
  intro d hd
  obtain ⟨c, hc, rfl⟩ := List.mem_map.mp hd
  have hdigit := isDigit_toDigits n c hc
  simp only [Bytes.isDigit, Bool.and_eq_true, decide_eq_true_eq, UInt8.le_iff_toNat_le,
    toNat_digit hdigit]
  exact hdigit

theorem not_mem_decimal {mark : UInt8} (h : Bytes.isDigit mark = false) (n : Nat) :
    mark ∉ decimal n := by
  intro hmem
  simp [isDigit_decimal n mark hmem] at h

theorem numeral_decimal {n : Nat} (h : n ≤ 99) : LengthSpec.Numeral (decimal n) n := by
  refine ⟨?_, isDigit_decimal n, ?_⟩
  · have hpos := Nat.length_toDigits_pos (b := 10) (n := n)
    have htwo : (Nat.toDigits 10 n).length ≤ 2 := by
      rw [Nat.length_toDigits_le_iff (by omega) (by omega)]
      omega
    rw [decimal_eq, List.length_map]
    omega
  · calc
      _ = Nat.ofDigitChars 10 (Nat.toDigits 10 n) 0 := by
        rw [decimal_eq, List.foldl_map, Nat.ofDigitChars_eq_foldl]
        apply List.foldl_ext
        intro v c hc
        rw [toNat_digit (isDigit_toDigits n c hc)]
      _ = n := Nat.ofDigitChars_toDigits (by omega) (by omega)

/-! ## Length fields -/

namespace LengthSpec

variable {rules : FieldRules} {field : Bytes} {entries : List Bytes} {ns : List Nat} {n a b : Nat}

theorem Numeral.decimal (h : Numeral field n) : Numeral (decimal n) n :=
  numeral_decimal (digits?_le (digits?_eq_some_iff.mpr h))

theorem IsRange.print (h : IsRange rules field a b) : IsRange rules (print (.range a b)) a b := by
  obtain ⟨hon, ⟨low, high, -, hlow, hhigh⟩, hbounds⟩ := h
  exact ⟨hon, ⟨_, _, rfl, hlow.decimal, hhigh.decimal⟩, hbounds⟩

theorem Valid.print (h : Valid rules field n) : Valid rules (print (.fixed n)) n :=
  ⟨h.1.decimal, h.2⟩

theorem not_valid_nil : ¬ Valid rules [] n := by
  rintro ⟨⟨hlength, -, -⟩, -⟩
  simp at hlength

theorem entries_print (ns : List Nat) :
    Bytes.entries choiceMark (print (.choice ns)) = ns.map TagFill.decimal ++ [[]] := by
  induction ns with
  | nil => rfl
  | cons n ns ih =>
    have hcons : print (.choice (n :: ns)) =
        TagFill.decimal n ++ choiceMark :: print (.choice ns) := by
      simp [print]
    rw [hcons, Bytes.entries_append (not_mem_decimal rfl n), ih]
    rfl

theorem Values.print (h : Values rules entries ns) :
    Values rules (ns.map TagFill.decimal ++ [[]]) ns := by
  induction h with
  | nil => exact .invalid (fun _ => not_valid_nil) .nil
  | valid h _ ih => exact .valid h.print ih
  | invalid _ _ ih => exact ih

theorem IsChoice.print (h : IsChoice rules field ns) : IsChoice rules (print (.choice ns)) ns := by
  obtain ⟨-, hon, -, hne, entries, -, hvalues⟩ := h
  obtain ⟨n, others, rfl⟩ := List.exists_cons_of_ne_nil hne
  refine ⟨.inr ?_, hon, ?_, hne, _, Bytes.entries_eq_iff.mp (entries_print _), hvalues.print⟩
  · simp only [LengthSpec.print, List.mem_flatMap, List.mem_append, List.mem_singleton, not_exists,
      not_and, not_or]
    exact fun m _ => ⟨not_mem_decimal rfl m, by decide⟩
  · simp [LengthSpec.print]

theorem parse_nil (rules : FieldRules) : parse rules [] = .absent := by
  rw [parse_eq_absent_iff_no_form]
  refine ⟨?_, ?_, fun n => not_valid_nil⟩
  · rintro a b ⟨-, ⟨low, high, hfield, -⟩, -⟩
    simp at hfield
  · rintro ns ⟨-, -, hmem, -⟩
    contradiction

theorem parse_print (rules : FieldRules) (field : Bytes) :
    parse rules (parse rules field).print = parse rules field := by
  cases h : parse rules field with
  | absent => exact parse_nil rules
  | fixed n =>
    rw [parse_eq_fixed_iff] at h ⊢
    exact h.print
  | range a b =>
    rw [parse_eq_range_iff] at h ⊢
    exact h.print
  | choice ns =>
    rw [parse_eq_choice_iff] at h ⊢
    exact h.print

theorem separator_not_mem_print (spec : LengthSpec) : TagBody.separator ∉ spec.print := by
  have hdecimal : ∀ n, TagBody.separator ∉ TagFill.decimal n := not_mem_decimal rfl
  have hrange : TagBody.separator ≠ rangeMark := by decide
  have hchoice : TagBody.separator ≠ choiceMark := by decide
  cases spec <;> simp [print, hdecimal, hrange, hchoice]

end LengthSpec

/-! ## Type fields -/

namespace TypeSpec

theorem parse_nil (rules : FieldRules) : parse rules [] = .absent := rfl

theorem print_parse (rules : FieldRules) (field : Bytes) : (parse rules field).print = field := by
  unfold parse
  split
  · rename_i hempty
    rw [hempty]
    rfl
  · split
    · exact Bytes.joined_entries LengthSpec.choiceMark field
    · rfl

end TypeSpec

/-! ## Bodies -/

namespace TagBody

variable {rules : FieldRules} {f g body : Bytes} {length : LengthSpec} {type : TypeSpec}

theorem parse_separator (rules : FieldRules) (b : Bytes) :
    parse rules (separator :: b) = parseFields rules b := by
  have hlong : withoutLongName (separator :: b) = separator :: b := rfl
  simp [parse, hlong]

theorem parse_twoFields (rules : FieldRules) (h : separator ∉ f) :
    parse rules (twoFields f g) = .fields (.parse rules f) (.parse rules g) := by
  rw [twoFields, parse_separator, parseFields, Bytes.cut_append h]

theorem parse_lone (h : separator ∉ f) :
    parse rules (separator :: f) =
      parse rules
        (if LengthSpec.parse rules f = .absent then twoFields [] f else twoFields f []) := by
  rw [parse_separator, parseFields, Bytes.cut_eq_none h]
  by_cases habsent : LengthSpec.parse rules f = .absent
  · rw [if_pos habsent, parse_twoFields rules (List.not_mem_nil), LengthSpec.parse_nil, habsent]
  · rw [if_neg habsent, parse_twoFields rules h, TypeSpec.parse_nil]
    cases hparse : LengthSpec.parse rules f <;> simp_all

theorem exists_twoFields (h : parse rules body = .fields length type) :
    ∃ f g, separator ∉ f ∧ parse rules body = parse rules (twoFields f g) := by
  have hbody : ∃ b, withoutLongName body = separator :: b := by
    unfold parse at h
    split at h
    · contradiction
    · split at h
      · rename_i first rest hrest hfirst
        exact ⟨rest, by rw [hrest, hfirst]⟩
      · contradiction
  obtain ⟨b, hb⟩ := hbody
  have hparse : parse rules body = parse rules (separator :: b) := by
    rw [parse_separator]
    simp [parse, hb]
  rw [hparse]
  by_cases hmem : separator ∈ b
  · obtain ⟨f, g, rfl, hf⟩ := Bytes.exists_append_of_mem hmem
    exact ⟨f, g, hf, rfl⟩
  · rw [parse_lone hmem]
    split
    · exact ⟨[], b, List.not_mem_nil, rfl⟩
    · exact ⟨b, [], hmem, rfl⟩

/-- What a body says is said again by the two fields that are printed for it. -/
theorem parse_canonical (rules : FieldRules) :
    (∀ body length type, parse rules body = .fields length type →
      parse rules (twoFields length.print type.print) = .fields length type) ∧
    ∀ f, separator ∉ f → parse rules (separator :: f) =
      parse rules
        (if LengthSpec.parse rules f = .absent then twoFields [] f else twoFields f []) := by
  refine ⟨?_, fun f hf => parse_lone hf⟩
  intro body length type h
  -- Every body says what two fields say, and these are read apart.
  obtain ⟨f, g, hf, htwo⟩ := exists_twoFields h
  rw [htwo, parse_twoFields rules hf, fields.injEq] at h
  obtain ⟨rfl, rfl⟩ := h
  rw [parse_twoFields rules (LengthSpec.separator_not_mem_print _), LengthSpec.parse_print,
    TypeSpec.print_parse]

/-- One entry of two is left, and the type holds a separator. -/
theorem parse_canonical_choice :
    parse {} (Bytes.ofText "OM;07,x;A;B") = .fields (.choice [7]) (.single (Bytes.ofText "A;B")) ∧
      parse {} (Bytes.ofText ";7,;A;B") = .fields (.choice [7]) (.single (Bytes.ofText "A;B")) ∧
      parse {} (Bytes.ofText ";5-9") = parse {} (Bytes.ofText ";5-9;") := by
  have hread : parse {} (Bytes.ofText "OM;07,x;A;B") =
      .fields (.choice [7]) (.single (Bytes.ofText "A;B")) := by decide
  have hlone : separator ∉ Bytes.ofText "5-9" := by decide
  exact ⟨hread, (parse_canonical {}).1 _ _ _ hread, (parse_canonical {}).2 _ hlone⟩

end TagBody

end TagFill
