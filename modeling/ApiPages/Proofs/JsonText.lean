import ApiPages.Json.Parser
import ApiPages.Json.Printer
import Mathlib.Data.List.Basic
import Mathlib.Data.List.TakeWhile

/-!
# Reading printed JSON

The reader gives back what was printed, at every indentation. Each kind of literal is read up to its
end: a number ends where no digit follows, a string at the first quote that is not escaped. Arrays
and objects are read element by element. Every step down takes one from the fuel and leaves at least
one character behind.

Results:

* `Json.parseNumber_digits`: a number, in front of anything that does not go on with it.
* `Json.parseString_quote`: a string, with all its escapes.
* `Json.Plain`: values without literals that are kept as they are written.
* `Json.ReadsAs.prettyAt`: the text of a plain value is read as that value.
* `Json.parse?_pretty`: and so is a whole text, also with blanks after it.
-/

namespace ApiPages.Json

/-! ## Numbers -/

theorem digitValue?_of_isDigit {c : Char} (h : c.isDigit = true) :
    digitValue? c = some (c.toNat - '0'.toNat) := by
  rw [Char.isDigit, Bool.and_eq_true, decide_eq_true_eq, decide_eq_true_eq] at h
  exact if_pos h

theorem isDigitOf_of_isDigit {c : Char} (h : c.isDigit = true) : isDigitOf 10 c = true := by
  rw [isDigitOf, digitValue?_of_isDigit h]
  rw [Char.isDigit, Bool.and_eq_true, decide_eq_true_eq, decide_eq_true_eq] at h
  have hle : c.toNat ≤ '9'.toNat := h.2
  have h9 : '9'.toNat = 57 := rfl
  have h0 : '0'.toNat = 48 := rfl
  simp only [decide_eq_true_eq]
  omega

theorem isDigit_of_mem_digits {n : Nat} {c : Char} (h : c ∈ digits n) : c.isDigit = true :=
  Nat.isDigit_of_mem_toDigits (by decide) (by decide) h

/-- The value of the digits of a number is the number. -/
theorem digitsValue_digits (n : Nat) : digitsValue 10 (digits n) = n := by
  have hfold : ∀ (ds : List Char) (k : Nat), (∀ c ∈ ds, c.isDigit = true) →
      ds.foldl (fun n c => n * 10 + (digitValue? c).getD 0) k = Nat.ofDigitChars 10 ds k := by
    intro ds k h
    apply List.foldl_ext
    intro m c hc
    rw [digitValue?_of_isDigit (h c hc), Option.getD_some, Nat.mul_comm]
  rw [digitsValue, hfold _ _ fun c => isDigit_of_mem_digits]
  exact Nat.ofDigitChars_ten_toDigits

theorem exists_digits_eq_cons (n : Nat) : ∃ c ds, digits n = c :: ds ∧ c.isDigit = true := by
  have hne : digits n ≠ [] := Nat.toDigits_ne_nil
  obtain ⟨c, ds, hds⟩ := List.exists_cons_of_ne_nil hne
  exact ⟨c, ds, hds, isDigit_of_mem_digits (n := n) (hds ▸ List.mem_cons_self)⟩

/-- Only the digits of zero start with the digit zero. -/
theorem exists_digits_eq_cons_ne_zero {n : Nat} (hn : n ≠ 0) :
    ∃ c ds, digits n = c :: ds ∧ c ≠ '0' := by
  induction n using Nat.strongRecOn with
  | ind n ih =>
    rw [digits]
    rcases Nat.lt_or_ge n 10 with hlt | hge
    · have hdigit : ∀ k < 10, k ≠ 0 → Nat.digitChar k ≠ '0' := by decide
      rw [Nat.toDigits_of_lt_base hlt]
      exact ⟨_, _, rfl, hdigit n hlt hn⟩
    · obtain ⟨c, ds, hds, hc⟩ := ih (n / 10) (by omega) (by omega)
      rw [digits] at hds
      rw [Nat.toDigits_of_base_le (by decide) hge, hds]
      exact ⟨c, _, List.cons_append, hc⟩

/-- A number does not go on here. -/
def EndsNumber (rest : List Char) : Prop := ∀ c ∈ rest.head?, c = ',' ∨ c = '\n'

theorem EndsNumber.nil : EndsNumber [] := by
  intro c hc
  cases hc

theorem EndsNumber.comma (s : List Char) : EndsNumber (',' :: s) := by
  intro c hc
  cases hc
  exact Or.inl rfl

theorem EndsNumber.newline (indent level : Nat) (s : List Char) :
    EndsNumber (newline indent level ++ s) := by
  intro c hc
  cases hc
  exact Or.inr rfl

theorem takeDigits_append {ds rest : List Char} (hds : ∀ c ∈ ds, isDigitOf 10 c = true)
    (hrest : EndsNumber rest) : takeDigits (ds ++ rest) = (ds, rest) := by
  have hstop : rest.takeWhile (isDigitOf 10) = [] ∧ rest.dropWhile (isDigitOf 10) = rest := by
    cases rest with
    | nil => exact ⟨rfl, rfl⟩
    | cons c s =>
      have hc : isDigitOf 10 c = false := by
        rcases hrest c rfl with rfl | rfl <;> decide
      simp [hc]
  rw [takeDigits, List.takeWhile_append_of_pos hds, List.dropWhile_append_of_pos hds, hstop.1,
    hstop.2, List.append_nil]

theorem parseInteger_digits (n : Nat) {rest : List Char} (hrest : EndsNumber rest) :
    parseInteger (digits n ++ rest) = some (digits n, rest) := by
  by_cases hn : n = 0
  · subst hn
    rfl
  · have htake := takeDigits_append
      (fun c hc => isDigitOf_of_isDigit (isDigit_of_mem_digits (n := n) hc)) hrest
    obtain ⟨c, ds, hds, hc⟩ := exists_digits_eq_cons_ne_zero hn
    rw [hds] at htake ⊢
    unfold parseInteger
    split
    · next r heq => exact absurd (List.cons.inj heq).1 hc
    · simp only [htake, reduceCtorEq, if_false]

/-- A number of few digits is not too large for double precision. -/
theorem overflows_of_length_le {n : Nat} (h : (digits n).length ≤ 308) :
    Decimal.overflows ⟨n, 0⟩ = false := by
  have hlen : (toString n).length ≤ 308 := by
    rw [Nat.toString_eq_ofList_toDigits, String.length_ofList]
    exact h
  unfold Decimal.overflows
  split
  · rfl
  · rw [if_pos (by simp only; omega)]

/-- A printed number is read back. -/
theorem parseNumber_digits {n : Nat} (hn : (digits n).length ≤ 308) {rest : List Char}
    (hrest : EndsNumber rest) : parseNumber (digits n ++ rest) = some (.nat n, rest) := by
  have hsign : ∀ r, digits n ++ rest ≠ '-' :: r := by
    intro r heq
    obtain ⟨c, ds, hds, hc⟩ := exists_digits_eq_cons n
    rw [hds] at heq
    cases heq
    cases hc
  have hfraction : parseFraction rest = some (none, rest) := by
    unfold parseFraction
    split
    · rcases hrest '.' rfl with h | h <;> cases h
    · rfl
  have hexponent : parseExponent rest = some (none, rest) := by
    cases rest with
    | nil => rfl
    | cons c r =>
      rcases hrest c rfl with rfl | rfl <;> rfl
  unfold parseNumber
  split
  · next r heq => exact absurd heq (hsign r)
  · simp only [parseInteger_digits n hrest, hfraction, hexponent, Option.getD_none, List.append_nil,
      digitsValue_digits, List.length_nil]
    simp [overflows_of_length_le hn]

/-! ## Strings -/

/-- The characters with an escape of one letter. -/
def lettered : List Char := ['"', '\\', '\x08', '\x0c', '\n', '\r', '\t']

/-- The part of a string literal that a printed character is read as. -/
def partOf (c : Char) : StringPart :=
  if c.toNat < 0x20 ∧ c ∉ lettered then .unit c.toNat else .char c

theorem digitValue?_hexDigit : ∀ n < 16, digitValue? (hexDigit n) = some n := by
  decide

theorem isDigitOf_hexDigit {n : Nat} (h : n < 16) : isDigitOf 16 (hexDigit n) = true := by
  rw [isDigitOf, digitValue?_hexDigit n h]
  exact decide_eq_true h

theorem digitsValue_hexDigits {n : Nat} (h : n < 0x20) :
    digitsValue 16 ['0', '0', hexDigit (n / 16), hexDigit (n % 16)] = n := by
  have h1 := digitValue?_hexDigit (n / 16) (by omega)
  have h2 := digitValue?_hexDigit (n % 16) (by omega)
  have h0 : digitValue? '0' = some 0 := by decide
  simp only [digitsValue, List.foldl_cons, List.foldl_nil, h0, h1, h2, Option.getD_some]
  omega

theorem escapeChar_of_not_mem {c : Char} (h : c ∉ lettered) :
    escapeChar c =
      if c.toNat < 0x20 then
        ['\\', 'u', '0', '0', hexDigit (c.toNat / 16), hexDigit (c.toNat % 16)]
      else [c] := by
  simp only [lettered, List.mem_cons, List.not_mem_nil, or_false, not_or] at h
  obtain ⟨h1, h2, h3, h4, h5, h6, h7⟩ := h
  rw [escapeChar, if_neg h1, if_neg h2, if_neg h3, if_neg h4, if_neg h5, if_neg h6, if_neg h7]

/-- A printed character is read as one part of the literal. -/
theorem stringParts_escapeChar (c : Char) (s : List Char) :
    stringParts (escapeChar c ++ s) = (stringParts s).map fun p => (partOf c :: p.1, p.2) := by
  by_cases h : c ∈ lettered
  · simp only [lettered, List.mem_cons, List.not_mem_nil, or_false] at h
    rcases h with rfl | rfl | rfl | rfl | rfl | rfl | rfl <;> rfl
  · rw [escapeChar_of_not_mem h, partOf]
    split
    · next hctl =>
      have hdigits : ['0', '0', hexDigit (c.toNat / 16), hexDigit (c.toNat % 16)].all
          (isDigitOf 16) = true := by
        have h0 : isDigitOf 16 '0' = true := by decide
        have h1 : isDigitOf 16 (hexDigit (c.toNat / 16)) = true := isDigitOf_hexDigit (by omega)
        have h2 : isDigitOf 16 (hexDigit (c.toNat % 16)) = true := isDigitOf_hexDigit (by omega)
        simp only [List.all_cons, List.all_nil, h0, h1, h2, Bool.and_self]
      simp only [List.cons_append, List.nil_append, stringParts, hdigits, if_true,
        digitsValue_hexDigits hctl, hctl, h, not_false_eq_true, and_self]
    · next hctl =>
      have hquote : c ≠ '"' := fun hc => h (hc ▸ List.mem_cons_self)
      have hslash : c ≠ '\\' := fun hc => h (hc ▸ List.mem_cons_of_mem _ List.mem_cons_self)
      rw [List.singleton_append, stringParts, if_neg (by simp [hctl, hslash]),
        if_neg fun hunit => hctl hunit.1]
      all_goals simp [hquote, hslash]

theorem assemble_map_partOf (s : List Char) : assemble (s.map partOf) = some s := by
  induction s with
  | nil => rfl
  | cons c s ih =>
    rw [List.map_cons, partOf]
    split
    · next hctl =>
      have hhigh : isHighSurrogate c.toNat = false := by simp [isHighSurrogate]; omega
      have hlow : isLowSurrogate c.toNat = false := by simp [isLowSurrogate]; omega
      rw [assemble.eq_def]
      simp [hhigh, hlow, ih, Char.ofNat_toNat]
    · rw [assemble, ih]
      rfl

/-- A printed string is read back. -/
theorem parseString_quote (s : String) (rest : List Char) :
    parseString (s.toList.flatMap escapeChar ++ '"' :: rest) = some (some s, rest) := by
  have hparts : ∀ t : List Char, stringParts (t.flatMap escapeChar ++ '"' :: rest) =
      some (t.map partOf, rest) := by
    intro t
    induction t with
    | nil => rfl
    | cons c t ih =>
      rw [List.flatMap_cons, List.append_assoc, stringParts_escapeChar, ih]
      rfl
  rw [parseString, hparts, Option.map_some, assemble_map_partOf, Option.map_some,
    String.ofList_toList]

/-! ## Blanks -/

theorem skipSpace_cons {c : Char} (h : isSpace c = false) (s : List Char) :
    skipSpace (c :: s) = c :: s := by
  rw [skipSpace, List.dropWhile_cons_of_neg (by simp [h])]

theorem skipSpace_append {blanks : List Char} (h : ∀ c ∈ blanks, isSpace c = true)
    (s : List Char) : skipSpace (blanks ++ s) = skipSpace s :=
  List.dropWhile_append_of_pos h

theorem isSpace_of_mem_newline {indent level : Nat} {c : Char} (h : c ∈ newline indent level) :
    isSpace c = true := by
  rw [newline, List.mem_cons] at h
  rcases h with rfl | h
  · rfl
  · rw [List.eq_of_mem_replicate h]
    rfl

/-- Blanks before a value count for nothing. -/
theorem parseValue_append {blanks : List Char} (h : ∀ c ∈ blanks, isSpace c = true) (fuel : Nat)
    (s : List Char) : parseValue fuel (blanks ++ s) = parseValue fuel s := by
  cases fuel with
  | zero => simp only [parseValue]
  | succ fuel => simp only [parseValue, skipSpace_append h]

/-! ## Values -/

/-- No literal of the value is kept as it is written, and its numbers have few digits. -/
inductive Plain : Json → Prop
  | null : Plain .null
  | bool (b : Bool) : Plain (.bool b)
  | nat {n : Nat} (h : (digits n).length ≤ 308) : Plain (.nat n)
  | str (s : String) : Plain (.str s)
  | arr {xs : List Json} (h : ∀ x ∈ xs, Plain x) : Plain (.arr xs)
  | obj {fs : List (String × Json)} (h : ∀ f ∈ fs, Plain f.2) : Plain (.obj fs)

/-- The text is read as the value, whatever comes after it. -/
def ReadsAs (t : List Char) (j : Json) : Prop :=
  ∀ fuel rest, EndsNumber rest → 2 * t.length < fuel → parseValue fuel (t ++ rest) = some (j, rest)

theorem isSpace_of_isDigit {c : Char} (h : c.isDigit = true) : isSpace c = false := by
  cases hspace : isSpace c with
  | false => rfl
  | true =>
    simp only [isSpace, Bool.or_eq_true, decide_eq_true_eq] at hspace
    rcases hspace with ((rfl | rfl) | rfl) | rfl <;> cases h

/-- What starts with a digit is a number. -/
theorem parseValue_of_isDigit {c : Char} (h : c.isDigit = true) (fuel : Nat) (s : List Char) :
    parseValue (fuel + 1) (c :: s) = parseNumber (c :: s) := by
  rw [parseValue, skipSpace_cons (isSpace_of_isDigit h)]
  split
  case h_7 => rfl
  all_goals
    next heq =>
    cases (List.cons.inj heq).1
    cases h

/-- The text of a value starts with no blank and no closing bracket. -/
theorem Plain.exists_prettyAt_eq_cons {j : Json} (hj : j.Plain) (indent level : Nat) :
    ∃ c t, prettyAt indent level j = c :: t ∧ isSpace c = false ∧ c ≠ ']' := by
  cases hj with
  | null => exact ⟨_, _, rfl, by decide⟩
  | bool b => cases b <;> exact ⟨_, _, rfl, by decide⟩
  | @nat n h =>
    obtain ⟨c, ds, hds, hc⟩ := exists_digits_eq_cons n
    refine ⟨c, ds, hds, isSpace_of_isDigit hc, ?_⟩
    rintro rfl
    cases hc
  | str s => exact ⟨_, _, rfl, by decide⟩
  | @arr xs h => cases xs <;> exact ⟨_, _, rfl, by decide⟩
  | @obj fs h => rcases fs with _ | ⟨⟨k, x⟩, fs⟩ <;> exact ⟨_, _, rfl, by decide⟩

/-- The elements of an array are read one after the other. -/
theorem parseElements_pretty {indent level fuel : Nat} {x : Json} {xs : List Json}
    (h : ∀ y ∈ x :: xs, ReadsAs (prettyAt indent (level + 1) y) y) (rest : List Char)
    (hfuel : 2 * (prettyAt indent (level + 1) x
      ++ prettyElements indent level xs).length + 1 < fuel) :
    parseElements fuel (newline indent (level + 1) ++ (prettyAt indent (level + 1) x
      ++ (prettyElements indent level xs ++ rest))) = some (x :: xs, rest) := by
  induction xs generalizing x fuel with
  | nil =>
    obtain ⟨fuel, rfl⟩ : ∃ k, fuel = k + 1 := ⟨fuel - 1, by omega⟩
    rw [List.length_append] at hfuel
    have hx := h x List.mem_cons_self fuel (prettyElements indent level [] ++ rest)
      (by rw [prettyElements, List.append_assoc]; exact .newline _ _ _) (by omega)
    rw [parseElements, parseValue_append fun c => isSpace_of_mem_newline, hx]
    simp only [prettyElements, List.append_assoc, List.singleton_append,
      skipSpace_append fun c => isSpace_of_mem_newline]
    rfl
  | cons y ys ih =>
    obtain ⟨fuel, rfl⟩ : ∃ k, fuel = k + 1 := ⟨fuel - 1, by omega⟩
    have hlen : (prettyElements indent level (y :: ys)).length =
        (newline indent (level + 1)).length
          + (prettyAt indent (level + 1) y ++ prettyElements indent level ys).length + 1 := by
      simp only [prettyElements, List.cons_append, List.length_cons, List.length_append]
      omega
    rw [List.length_append] at hfuel
    have hx := h x List.mem_cons_self fuel (prettyElements indent level (y :: ys) ++ rest)
      (by rw [prettyElements]; exact .comma _) (by omega)
    have hless : 2 * (prettyAt indent (level + 1) y ++ prettyElements indent level ys).length + 1 <
        fuel := by omega
    have hrest := ih (fun z hz => h z (List.mem_cons_of_mem x hz)) hless
    rw [parseElements, parseValue_append fun c => isSpace_of_mem_newline, hx]
    simp only [prettyElements, List.cons_append, List.append_assoc]
    rw [skipSpace_cons (by decide)]
    simp only [hrest, Option.map_some]

/-- The fields from `f` on, given the text after it. -/
def fieldsFrom (fuel : Nat) (f : String × Json) (s : List Char) :
    Option (Option (List (String × Json)) × List Char) :=
  match skipSpace s with
  | ',' :: r => (parseFields fuel r).map fun p => (p.1.map fun fs => f :: fs, p.2)
  | '}' :: r => some (some [f], r)
  | _ => none

/-- A field is read up to what comes after its value. -/
theorem parseFields_cons {indent level fuel : Nat} {k : String} {x : Json} {s t : List Char}
    (hx : parseValue fuel s = some (x, t)) :
    parseFields (fuel + 1) (newline indent level ++ (quote k ++ ':' :: ' ' :: s)) =
      fieldsFrom fuel (k, x) t := by
  have hblank : parseValue fuel (' ' :: s) = some (x, t) := by
    rw [← hx]
    have hspace : ∀ c ∈ [' '], isSpace c = true := by
      intro c hc
      rw [List.mem_singleton.mp hc]
      rfl
    exact parseValue_append hspace fuel s
  rw [parseFields, skipSpace_append fun c => isSpace_of_mem_newline, quote]
  simp only [List.cons_append, List.append_assoc, List.nil_append]
  rw [skipSpace_cons (by decide)]
  simp only [parseString_quote]
  rw [skipSpace_cons (by decide)]
  simp only [hblank, Option.map_some, Option.bind_some]
  rfl

/-- The fields of an object are read one after the other. -/
theorem parseFields_pretty {indent level fuel : Nat} {k : String} {x : Json}
    {fs : List (String × Json)}
    (h : ∀ f ∈ (k, x) :: fs, ReadsAs (prettyAt indent (level + 1) f.2) f.2) (rest : List Char)
    (hfuel : 2 * (prettyAt indent (level + 1) x
      ++ prettyFields indent level fs).length + 1 < fuel) :
    parseFields fuel (newline indent (level + 1) ++ (quote k ++ (':' :: ' ' ::
      (prettyAt indent (level + 1) x ++ (prettyFields indent level fs ++ rest))))) =
        some (some ((k, x) :: fs), rest) := by
  induction fs generalizing k x fuel with
  | nil =>
    obtain ⟨fuel, rfl⟩ : ∃ k, fuel = k + 1 := ⟨fuel - 1, by omega⟩
    rw [List.length_append] at hfuel
    have hread : ReadsAs (prettyAt indent (level + 1) x) x := h (k, x) List.mem_cons_self
    have hx := hread fuel (prettyFields indent level [] ++ rest)
      (by rw [prettyFields, List.append_assoc]; exact .newline _ _ _) (by omega)
    rw [parseFields_cons hx, fieldsFrom]
    simp only [prettyFields, List.append_assoc, List.singleton_append,
      skipSpace_append fun c => isSpace_of_mem_newline]
    rfl
  | cons f fs ih =>
    obtain ⟨l, y⟩ := f
    obtain ⟨fuel, rfl⟩ : ∃ k, fuel = k + 1 := ⟨fuel - 1, by omega⟩
    have hlen : (prettyAt indent (level + 1) y ++ prettyFields indent level fs).length + 1 ≤
        (prettyFields indent level ((l, y) :: fs)).length := by
      simp only [prettyFields, List.cons_append, List.length_cons, List.length_append]
      omega
    rw [List.length_append] at hfuel
    have hread : ReadsAs (prettyAt indent (level + 1) x) x := h (k, x) List.mem_cons_self
    have hx := hread fuel (prettyFields indent level ((l, y) :: fs) ++ rest)
      (by rw [prettyFields]; exact .comma _) (by omega)
    have hless : 2 * (prettyAt indent (level + 1) y ++ prettyFields indent level fs).length + 1 <
        fuel := by omega
    have hrest := ih (k := l) (fun z hz => h z (List.mem_cons_of_mem _ hz)) hless
    rw [parseFields_cons hx, fieldsFrom]
    simp only [prettyFields, List.cons_append, List.append_assoc, List.nil_append]
    rw [skipSpace_cons (by decide)]
    simp only [hrest, Option.map_some]

/-- The text of a plain value is read as that value. -/
theorem ReadsAs.prettyAt {j : Json} (hj : j.Plain) (indent level : Nat) :
    ReadsAs (prettyAt indent level j) j := by
  induction hj generalizing level with
  | null =>
    intro fuel rest _ hfuel
    obtain ⟨fuel, rfl⟩ : ∃ k, fuel = k + 1 := ⟨fuel - 1, by omega⟩
    rfl
  | bool b =>
    intro fuel rest _ hfuel
    obtain ⟨fuel, rfl⟩ : ∃ k, fuel = k + 1 := ⟨fuel - 1, by omega⟩
    cases b <;> rfl
  | @nat n h =>
    intro fuel rest hrest hfuel
    obtain ⟨fuel, rfl⟩ : ∃ k, fuel = k + 1 := ⟨fuel - 1, by omega⟩
    obtain ⟨c, ds, hds, hc⟩ := exists_digits_eq_cons n
    rw [← parseNumber_digits h hrest, Json.prettyAt, scalar, hds]
    exact parseValue_of_isDigit hc fuel (ds ++ rest)
  | str s =>
    intro fuel rest _ hfuel
    obtain ⟨fuel, rfl⟩ : ∃ k, fuel = k + 1 := ⟨fuel - 1, by omega⟩
    simp only [Json.prettyAt, scalar, quote, List.cons_append, List.append_assoc, List.nil_append]
    rw [parseValue, skipSpace_cons (by decide)]
    simp only [parseString_quote, Option.map_some]
  | @arr xs h ih =>
    intro fuel rest hrest hfuel
    obtain ⟨fuel, rfl⟩ : ∃ k, fuel = k + 1 := ⟨fuel - 1, by omega⟩
    cases xs with
    | nil => rfl
    | cons x xs =>
      obtain ⟨c, t, ht, hspace, hclose⟩ :=
        (h x List.mem_cons_self).exists_prettyAt_eq_cons indent (level + 1)
      simp only [Json.prettyAt, List.length_append, List.length_cons] at hfuel
      have hless : 2 * (Json.prettyAt indent (level + 1) x
          ++ prettyElements indent level xs).length + 1 < fuel := by
        rw [List.length_append]
        omega
      have hread := parseElements_pretty (fun y hy => ih y hy (level + 1)) rest hless
      simp only [Json.prettyAt, List.cons_append, List.append_assoc]
      rw [parseValue, skipSpace_cons (by decide)]
      simp only [hread, Option.map_some]
      rw [skipSpace_append fun c => isSpace_of_mem_newline, ht, List.cons_append,
        skipSpace_cons hspace]
      split
      · next r heq => exact absurd (List.cons.inj heq).1 hclose
      · rfl
  | @obj fs h ih =>
    intro fuel rest hrest hfuel
    obtain ⟨fuel, rfl⟩ : ∃ k, fuel = k + 1 := ⟨fuel - 1, by omega⟩
    rcases fs with _ | ⟨⟨k, x⟩, fs⟩
    · rfl
    · simp only [Json.prettyAt, List.length_append, List.length_cons] at hfuel
      have hless : 2 * (Json.prettyAt indent (level + 1) x
          ++ prettyFields indent level fs).length + 1 < fuel := by
        rw [List.length_append]
        omega
      have hread := parseFields_pretty (k := k) (fun y hy => ih y hy (level + 1)) rest hless
      simp only [Json.prettyAt, List.cons_append, List.append_assoc, List.nil_append]
      rw [parseValue, skipSpace_cons (by decide)]
      simp only [hread, Option.map_some]
      rw [skipSpace_append fun c => isSpace_of_mem_newline, quote]
      rfl

/-- A whole text is read as the value it was printed from, also with blanks after it. -/
theorem parse?_pretty {j : Json} (hj : j.Plain) (indent : Nat) :
    parse? (j.pretty indent) = some j ∧ parse? (j.pretty indent ++ "\n") = some j := by
  have hread : ∀ rest, EndsNumber rest → skipSpace rest = [] →
      parse? (String.ofList (prettyAt indent 0 j ++ rest)) = some j := by
    intro rest hrest hblank
    rw [parse?, String.length_ofList, String.toList_ofList,
      ReadsAs.prettyAt hj indent 0 _ rest hrest (by rw [List.length_append]; omega)]
    simp only [hblank, if_true]
  constructor
  · have h := hread [] .nil rfl
    rwa [List.append_nil] at h
  · have h := hread ['\n'] (.newline 0 0 []) rfl
    rwa [String.ofList_append] at h

end ApiPages.Json
