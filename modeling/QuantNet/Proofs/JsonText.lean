import Mathlib.Data.List.DropRight
import QuantNet.Json.Reader
import QuantNet.Proofs.Outcome
import QuantNet.Proofs.Text

/-!
# Data that reads back

The compact and the indented text of a value are read back as the value.

The reader is described by what it makes of characters that stand at the front of a text (`ReadsAs`): it
delivers the value and what follows, as long as a numeral is not continued there, and it has enough fuel
with one unit more than there are characters. Every rule of the format is one lemma about it, with blanks
wherever they may stand. The two printers write by these rules and differ in the blanks only
(`readsAsItems_intercalate`, `readsAsMembers_intercalate`).

What is stored consists of integers, strings, lists and objects (`Plain`), and of such values both texts are
read back.
-/

namespace QuantNet.Json

/-! ### Blanks -/

/-- Nothing but blanks. -/
def IsSpaces (cs : List Char) : Prop := ∀ c ∈ cs, isSpace c = true

theorem IsSpaces.nil : IsSpaces [] := fun _ h => absurd h List.not_mem_nil

theorem skipSpaces_append {spaces : List Char} (h : IsSpaces spaces) (cs : List Char) :
    skipSpaces (spaces ++ cs) = skipSpaces cs := List.dropWhile_append_of_pos h

theorem skipSpaces_cons {c : Char} (h : isSpace c = false) (cs : List Char) : skipSpaces (c :: cs) = c :: cs :=
  List.dropWhile_cons_of_neg (by simp [h])

theorem skipSpaces_idem (cs : List Char) : skipSpaces (skipSpaces cs) = skipSpaces cs := List.dropWhile_idempotent _ cs

theorem isSpaces_lineBreak (depth : Nat) : IsSpaces (lineBreak depth).toList := by
  intro c hc
  rw [lineBreak, String.toList_ofList, List.mem_cons] at hc
  rcases hc with rfl | hc
  · rfl
  · rw [List.eq_of_mem_replicate hc]
    rfl

/-! ### Strings -/

theorem hexValue?_digitChar : ∀ n < 16, hexValue? (Nat.digitChar n) = some n := by decide

/-- The four digits that stand for a control character. -/
theorem hexWord?_control {n : Nat} (h : n < 32) :
    hexWord? '0' '0' (Nat.digitChar (n / 16)) (Nat.digitChar (n % 16)) = some n := by
  have hzero : hexValue? '0' = some 0 := rfl
  have hhigh := hexValue?_digitChar (n / 16) (by omega)
  have hlow := hexValue?_digitChar (n % 16) (by omega)
  simp only [hexWord?, hzero, hhigh, hlow, Option.bind_eq_bind, Option.bind_some, Option.pure_def]
  congr 1
  omega

/-- What a literal stands for with a character in front. -/
def withFirst (c : Char) (read : Option (Option (List Char) × List Char)) : Option (Option (List Char) × List Char) :=
  read.map fun r => (r.1.map (c :: ·), r.2)

/-- A letter after a backslash stands for its character. -/
theorem readString_letter {letter c : Char} (hletter : letter ≠ 'u') (h : escaped? letter = some c) (cs : List Char) :
    readString ('\\' :: letter :: cs) = withFirst c (readString cs) := by
  rw [readString, h]
  · rfl
  · exact fun _ _ _ _ _ _ _ _ _ hu => absurd hu hletter
  · exact fun _ _ _ _ _ hu => absurd hu hletter

/-- Four digits after a backslash stand for a control character; it is no half of a pair. -/
theorem readString_control {n : Nat} (h : n < 32) (cs : List Char) :
    readString ('\\' :: 'u' :: '0' :: '0' :: (controlHex n ++ cs)) = withFirst (Char.ofNat n) (readString cs) := by
  have hsingle : ¬ (55296 ≤ n ∧ n < 57344) := by omega
  have hhigh : ∀ low, ¬ (55296 ≤ n ∧ n < 56320 ∧ 56320 ≤ low ∧ low < 57344) := by omega
  have hword := hexWord?_control h
  rw [controlHex, List.cons_append, List.cons_append, List.nil_append]
  by_cases hpair : ∃ a b c d rest, cs = '\\' :: 'u' :: a :: b :: c :: d :: rest
  · obtain ⟨a, b, c, d, rest, rfl⟩ := hpair
    rw [readString, hword]
    cases hexWord? a b c d with
    | none => simp only [if_neg hsingle, withFirst]
    | some low => simp only [if_neg (hhigh low), if_neg hsingle, withFirst]
  · rw [readString, hword]
    · simp only [if_neg hsingle, withFirst]
    · exact fun a b c d rest hcs => hpair ⟨a, b, c, d, rest, hcs⟩

/-- A character that needs no backslash stands for itself. -/
theorem readString_plain {c : Char} (hquote : c ≠ '"') (hslash : c ≠ '\\') (h : ¬ c.toNat < 32) (cs : List Char) :
    readString (c :: cs) = withFirst c (readString cs) := by
  rw [readString]
  · simp [hslash, h, withFirst]
  · exact fun hq => absurd hq hquote
  · exact fun _ _ _ _ _ _ _ _ _ hs => absurd hs hslash
  · exact fun _ _ _ _ _ hs => absurd hs hslash
  · exact fun _ _ hs => absurd hs hslash

theorem readString_escapeChar (c : Char) (cs : List Char) :
    readString (escapeChar c ++ cs) = withFirst c (readString cs) := by
  have hchar : ∀ n, c.toNat = n → c = Char.ofNat n := fun n hn => by rw [← hn, Char.ofNat_toNat]
  unfold escapeChar
  split_ifs with hquote hslash hfeed hreturn htab hback hform hcontrol
  · rw [hquote]
    exact readString_letter (by decide) rfl cs
  · rw [hslash]
    exact readString_letter (by decide) rfl cs
  · rw [hfeed]
    exact readString_letter (by decide) rfl cs
  · rw [hreturn]
    exact readString_letter (by decide) rfl cs
  · rw [htab]
    exact readString_letter (by decide) rfl cs
  · rw [hchar 8 hback]
    exact readString_letter (by decide) rfl cs
  · rw [hchar 12 hform]
    exact readString_letter (by decide) rfl cs
  · have hread := readString_control hcontrol cs
    rwa [Char.ofNat_toNat] at hread
  · exact readString_plain hquote hslash hcontrol cs

/-- A string literal is read back. -/
theorem readString_quoted (text rest : List Char) :
    readString (text.flatMap escapeChar ++ '"' :: rest) = some (some text, rest) := by
  induction text with
  | nil => rw [List.flatMap_nil, List.nil_append, readString]
  | cons c text ih =>
    rw [List.flatMap_cons, List.append_assoc, readString_escapeChar, ih]
    rfl

theorem toList_quote (s : String) : (quote s).toList = '"' :: (s.toList.flatMap escapeChar ++ ['"']) := by
  rw [quote, String.toList_ofList, List.cons_append]

/-! ### Numerals -/

/-- A numeral that ends here ends: no digit, no fraction and no exponent follows. -/
def EndsNumeral (rest : List Char) : Prop :=
  ∀ c ∈ rest.head?, c.isDigit = false ∧ c ≠ '.' ∧ c ≠ 'e' ∧ c ≠ 'E'

theorem EndsNumeral.nil : EndsNumeral [] := fun _ h => by cases h

theorem EndsNumeral.cons {c : Char} (h : c.isDigit = false ∧ c ≠ '.' ∧ c ≠ 'e' ∧ c ≠ 'E') (rest : List Char) :
    EndsNumeral (c :: rest) := by
  intro d hd
  cases hd
  exact h

/-- A mark that ends a numeral also ends it with blanks in between. -/
theorem endsNumeral_mark {spaces : List Char} (hspaces : IsSpaces spaces) {c : Char}
    (h : c.isDigit = false ∧ c ≠ '.' ∧ c ≠ 'e' ∧ c ≠ 'E') (rest : List Char) : EndsNumeral (spaces ++ c :: rest) := by
  cases spaces with
  | nil => exact EndsNumeral.cons h rest
  | cons first spaces =>
    have hfirst := hspaces first List.mem_cons_self
    simp only [isSpace, Bool.or_eq_true, decide_eq_true_eq] at hfirst
    refine EndsNumeral.cons ?_ _
    rcases hfirst with ((rfl | rfl) | rfl) | rfl <;> decide

/-- A digit is no other character. -/
theorem ne_of_digit {c d : Char} (hc : c.isDigit = true) (hd : d.isDigit = false) : c ≠ d := by
  rintro rfl
  rw [hc] at hd
  cases hd

theorem not_space_of_digit {c : Char} (hc : c.isDigit = true) : isSpace c = false := by
  have hspace := ne_of_digit hc (d := ' ') (by decide)
  have hfeed := ne_of_digit hc (d := '\n') (by decide)
  have htab := ne_of_digit hc (d := '\t') (by decide)
  have hreturn := ne_of_digit hc (d := '\r') (by decide)
  simp [isSpace, hspace, hfeed, htab, hreturn]

theorem takeWhile_digits {ds rest : List Char} (hds : ∀ c ∈ ds, c.isDigit = true) (h : EndsNumeral rest) :
    (ds ++ rest).takeWhile Char.isDigit = ds ∧ (ds ++ rest).dropWhile Char.isDigit = rest := by
  have hrest : rest.takeWhile Char.isDigit = [] ∧ rest.dropWhile Char.isDigit = rest := by
    cases rest with
    | nil => exact ⟨rfl, rfl⟩
    | cons c rest =>
      have hc := (h c rfl).1
      exact ⟨List.takeWhile_cons_of_neg (by simp [hc]), List.dropWhile_cons_of_neg (by simp [hc])⟩
  rw [List.takeWhile_append_of_pos hds, List.dropWhile_append_of_pos hds, hrest.1, hrest.2, List.append_nil]
  exact ⟨rfl, rfl⟩

theorem skipFraction?_of_ends {rest : List Char} (h : EndsNumeral rest) : skipFraction? rest = some (false, rest) := by
  cases rest with
  | nil => rfl
  | cons c rest =>
    rw [skipFraction?]
    exact fun _ hdot => absurd (List.cons.inj hdot).1 (h c rfl).2.1

theorem skipExponent?_of_ends {rest : List Char} (h : EndsNumeral rest) : skipExponent? rest = some (false, rest) := by
  cases rest with
  | nil => rfl
  | cons c rest =>
    obtain ⟨-, -, he, hE⟩ := h c rfl
    simp [skipExponent?, he, hE]

theorem digitChar_ne_zero : ∀ n < 10, 0 < n → Nat.digitChar n ≠ '0' := by decide

/-- A numeral of more than one digit does not start with zero. -/
theorem head?_toDigits {n : Nat} (h : 0 < n) : (Nat.toDigits 10 n).head? ≠ some '0' := by
  induction n using Nat.strongRecOn with
  | ind n ih =>
    by_cases hn : n < 10
    · rw [Nat.toDigits_of_lt_base hn]
      exact fun hzero => digitChar_ne_zero n hn h (Option.some.inj hzero)
    · rw [Nat.toDigits_of_base_le (by decide) (by omega), List.head?_append_of_ne_nil _ Nat.toDigits_ne_nil]
      exact ih (n / 10) (by omega) (by omega)

/-- The digits of a number are read back after either sign; minus zero is no integer. -/
theorem readNumber_ofNat (n : Nat) (negative : Bool) (hsign : negative = true → 0 < n) {rest : List Char}
    (h : EndsNumeral rest) :
    readNumber negative ((Text.ofNat n).toList ++ rest) =
      some (.integer (if negative then -(n : Int) else n), rest) := by
  have hdigits : ∀ c ∈ (Text.ofNat n).toList, c.isDigit = true := fun c => Text.isDigit_of_mem_ofNat
  obtain ⟨htake, hdrop⟩ := takeWhile_digits hdigits h
  have hvalue : Text.decimal (Text.ofNat n).toList = n := by
    rw [Text.toList_ofNat]
    exact Nat.ofDigitChars_ten_toDigits
  have hempty : (Text.ofNat n).toList.isEmpty = false := by
    rw [Text.toList_ofNat]
    exact List.isEmpty_eq_false_iff.mpr Nat.toDigits_ne_nil
  have hzero : ((Text.ofNat n).toList.head? = some '0' && 1 < (Text.ofNat n).toList.length) = false := by
    rcases Nat.eq_zero_or_pos n with rfl | hpos
    · rfl
    · simp [Text.toList_ofNat, head?_toDigits hpos]
  have hminus : (negative && (Text.ofNat n).toList = ['0']) = false := by
    cases negative with
    | false => rfl
    | true =>
      have hhead := head?_toDigits (hsign rfl)
      rw [Bool.true_and, decide_eq_false_iff_not, Text.toList_ofNat]
      intro heq
      rw [heq] at hhead
      exact hhead rfl
  rw [readNumber]
  simp only [htake, hdrop, hempty, hzero, hminus, hvalue, skipFraction?_of_ends h, skipExponent?_of_ends h,
    Bool.or_self, Bool.false_eq_true, if_false, Option.bind_eq_bind, Option.bind_some, Option.pure_def]

/-! ### Reading -/

/-- A text that is not over after its blanks, and goes on with another character than the given one. -/
def StartsWithout (closing : Char) (cs : List Char) : Prop :=
  ∀ rest, ∃ c cs', skipSpaces (cs ++ rest) = c :: cs' ∧ c ≠ closing

theorem startsWithout_cons {closing c : Char} (h : isSpace c = false ∧ c ≠ closing) (cs : List Char) :
    StartsWithout closing (c :: cs) := fun rest => ⟨c, cs ++ rest, skipSpaces_cons h.1 _, h.2⟩

theorem StartsWithout.append {closing : Char} {cs : List Char} (h : StartsWithout closing cs) (cs' : List Char) :
    StartsWithout closing (cs ++ cs') := by
  intro rest
  rw [List.append_assoc]
  exact h (cs' ++ rest)

theorem StartsWithout.after_spaces {closing : Char} {spaces cs : List Char} (hspaces : IsSpaces spaces)
    (h : StartsWithout closing cs) : StartsWithout closing (spaces ++ cs) := by
  intro rest
  rw [List.append_assoc, skipSpaces_append hspaces]
  exact h rest

/-- The characters are read as the value, with enough fuel and whatever follows. -/
structure ReadsAs (cs : List Char) (v : Json) : Prop where
  starts : StartsWithout ']' cs
  value : ∀ fuel rest, cs.length < fuel → EndsNumeral rest → readValue fuel (cs ++ rest) = some (v, rest)

/-- The characters are read as the items of a list, up to its closing bracket. -/
structure ReadsAsItems (cs : List Char) (items : List Json) : Prop where
  starts : StartsWithout ']' cs
  items : ∀ fuel rest, cs.length < fuel → readItems fuel (cs ++ rest) = some (items, rest)

/-- The characters are read as the members of an object, up to its closing brace. -/
structure ReadsAsMembers (cs : List Char) (members : List (String × Json)) : Prop where
  starts : StartsWithout '}' cs
  members : ∀ fuel rest, cs.length < fuel →
    readMembers fuel (cs ++ rest) = some (members.map fun m => (some m.1, m.2), rest)

/-- Blanks in front make no difference. -/
theorem readValue_skipSpaces (fuel : Nat) (cs : List Char) : readValue fuel (skipSpaces cs) = readValue fuel cs := by
  cases fuel with
  | zero => rfl
  | succ fuel => rw [readValue, readValue, skipSpaces_idem]

theorem readItems_skipSpaces (fuel : Nat) (cs : List Char) : readItems fuel (skipSpaces cs) = readItems fuel cs := by
  cases fuel with
  | zero => rfl
  | succ fuel => rw [readItems, readItems, readValue_skipSpaces]

theorem readMembers_skipSpaces (fuel : Nat) (cs : List Char) :
    readMembers fuel (skipSpaces cs) = readMembers fuel cs := by
  cases fuel with
  | zero => rfl
  | succ fuel => rw [readMembers, readMembers, skipSpaces_idem]

theorem ReadsAs.after_spaces {spaces cs : List Char} {v : Json} (hspaces : IsSpaces spaces) (h : ReadsAs cs v) :
    ReadsAs (spaces ++ cs) v := by
  refine ⟨h.starts.after_spaces hspaces, fun fuel rest hfuel hrest => ?_⟩
  rw [List.length_append] at hfuel
  rw [List.append_assoc, ← readValue_skipSpaces, skipSpaces_append hspaces, readValue_skipSpaces]
  exact h.value fuel rest (by omega) hrest

/-- Enough fuel is some fuel. -/
theorem exists_eq_succ {n fuel : Nat} (h : n < fuel) : ∃ k, fuel = k + 1 := ⟨fuel - 1, by omega⟩

/-- Decimal digits are read back. -/
theorem readsAs_ofNat (n : Nat) : ReadsAs (Text.ofNat n).toList (.integer n) := by
  cases hcs : (Text.ofNat n).toList with
  | nil => exact absurd (Text.toList_ofNat n ▸ hcs) Nat.toDigits_ne_nil
  | cons c cs =>
    have hdigit : c.isDigit = true := Text.isDigit_of_mem_ofNat (hcs ▸ List.mem_cons_self)
    refine ⟨startsWithout_cons ⟨not_space_of_digit hdigit, ne_of_digit hdigit (by decide)⟩ cs, ?_⟩
    intro fuel rest hfuel hrest
    obtain ⟨fuel, rfl⟩ := exists_eq_succ hfuel
    have hread := readNumber_ofNat n false (fun hf => by cases hf) hrest
    rw [hcs] at hread
    rw [readValue, List.cons_append, skipSpaces_cons (not_space_of_digit hdigit)]
    -- a digit is none of the characters that other values start with
    split
    all_goals first
      | exact hread
      | exact absurd rfl (ne_of_digit ((List.cons.inj ‹_›).1 ▸ hdigit) (by decide))

/-- A numeral is read back, with its sign if it has one. -/
theorem readsAs_ofInt (n : Int) : ReadsAs (Text.ofInt n).toList (.integer n) := by
  cases n with
  | ofNat n => exact readsAs_ofNat n
  | negSucc n =>
    rw [Text.ofInt, String.toList_append, show "-".toList = ['-'] from rfl, List.singleton_append]
    refine ⟨startsWithout_cons (by decide) _, fun fuel rest hfuel hrest => ?_⟩
    obtain ⟨fuel, rfl⟩ := exists_eq_succ hfuel
    have hread := readNumber_ofNat (n + 1) true (fun _ => Nat.succ_pos n) hrest
    rw [List.cons_append, readValue, skipSpaces_cons (by decide)]
    exact hread

/-- A string literal is read back. -/
theorem readsAs_quote (s : String) : ReadsAs (quote s).toList (.string s) := by
  rw [toList_quote]
  refine ⟨startsWithout_cons (by decide) _, fun fuel rest hfuel hrest => ?_⟩
  obtain ⟨fuel, rfl⟩ := exists_eq_succ hfuel
  rw [List.cons_append, readValue, skipSpaces_cons (by decide)]
  simp only [List.append_assoc, List.singleton_append, readString_quoted, Option.map_some, ofLiteral,
    String.ofList_toList]

/-- The last item is followed by the closing bracket. -/
theorem readsAsItems_last {cs spaces : List Char} {v : Json} (h : ReadsAs cs v) (hspaces : IsSpaces spaces) :
    ReadsAsItems (cs ++ (spaces ++ [']'])) [v] := by
  refine ⟨h.starts.append _, fun fuel rest hfuel => ?_⟩
  obtain ⟨fuel, rfl⟩ := exists_eq_succ hfuel
  simp only [List.length_append, List.length_singleton] at hfuel
  have hread := h.value fuel _ (by omega) (endsNumeral_mark hspaces (c := ']') (by decide) rest)
  rw [readItems, List.append_assoc, List.append_assoc, List.singleton_append, hread]
  simp only [Option.bind_eq_bind, Option.bind_some, skipSpaces_append hspaces,
    skipSpaces_cons (show isSpace ']' = false by rfl)]

/-- Any other item is followed by a comma. -/
theorem readsAsItems_more {cs spaces others : List Char} {v : Json} {items : List Json} (h : ReadsAs cs v)
    (hspaces : IsSpaces spaces) (hothers : ReadsAsItems others items) :
    ReadsAsItems (cs ++ (spaces ++ ',' :: others)) (v :: items) := by
  refine ⟨h.starts.append _, fun fuel rest hfuel => ?_⟩
  obtain ⟨fuel, rfl⟩ := exists_eq_succ hfuel
  simp only [List.length_append, List.length_cons] at hfuel
  have hread := h.value fuel _ (by omega) (endsNumeral_mark hspaces (c := ',') (by decide) (others ++ rest))
  rw [readItems, List.append_assoc, List.append_assoc, List.cons_append, hread]
  simp only [Option.bind_eq_bind, Option.bind_some, skipSpaces_append hspaces,
    skipSpaces_cons (show isSpace ',' = false by rfl), hothers.items fuel rest (by omega), Option.map_some]

theorem readsAs_emptyArray : ReadsAs ['[', ']'] (.array []) := by
  refine ⟨startsWithout_cons (by decide) _, fun fuel rest hfuel hrest => ?_⟩
  obtain ⟨fuel, rfl⟩ := exists_eq_succ hfuel
  rfl

/-- Items between brackets are read as a list. -/
theorem ReadsAsItems.array {cs : List Char} {items : List Json} (h : ReadsAsItems cs items) :
    ReadsAs ('[' :: cs) (.array items) := by
  refine ⟨startsWithout_cons (by decide) _, fun fuel rest hfuel hrest => ?_⟩
  obtain ⟨fuel, rfl⟩ := exists_eq_succ hfuel
  obtain ⟨c, cs', hhead, hc⟩ := h.starts rest
  have hread := h.items fuel rest (Nat.lt_of_succ_lt_succ hfuel)
  rw [← readItems_skipSpaces, hhead] at hread
  rw [List.cons_append, readValue, skipSpaces_cons (by decide)]
  simp only [hhead]
  split
  · rename_i heq
    exact absurd (List.cons.inj heq).1 hc
  · rw [hread]
    rfl

/-- A member is its name, a colon and its value; then a comma goes on and a brace ends the object. -/
theorem readMembers_member {before between cs tail rest : List Char} {v : Json} {fuel : Nat} (hbefore : IsSpaces before)
    (key : String) (hbetween : IsSpaces between) (h : ReadsAs cs v) (hfuel : cs.length < fuel)
    (htail : EndsNumeral tail) :
    (skipSpaces tail = ',' :: rest →
      readMembers (fuel + 1) (before ++ ((quote key).toList ++ (between ++ ':' :: (cs ++ tail)))) =
        (readMembers fuel rest).map fun r => ((some key, v) :: r.1, r.2)) ∧
    (skipSpaces tail = '}' :: rest →
      readMembers (fuel + 1) (before ++ ((quote key).toList ++ (between ++ ':' :: (cs ++ tail)))) =
        some ([(some key, v)], rest)) := by
  rw [readMembers, toList_quote]
  simp only [List.append_assoc, List.cons_append, List.nil_append, skipSpaces_append hbefore,
    skipSpaces_cons (show isSpace '"' = false by rfl), readString_quoted, skipSpaces_append hbetween,
    skipSpaces_cons (show isSpace ':' = false by rfl), h.value fuel tail hfuel htail, Option.bind_eq_bind,
    Option.bind_some, Option.map_some, String.ofList_toList]
  constructor
  · intro hcomma
    simp only [hcomma]
  · intro hbrace
    simp only [hbrace]

/-- The name of the first member comes first. -/
theorem startsWithout_member {before : List Char} (hbefore : IsSpaces before) (key : String) (cs : List Char) :
    StartsWithout '}' (before ++ ((quote key).toList ++ cs)) := by
  rw [toList_quote]
  exact (startsWithout_cons (by decide) _).after_spaces hbefore

/-- The last member is followed by the closing brace. -/
theorem readsAsMembers_last {before between cs spaces : List Char} {v : Json} (hbefore : IsSpaces before) (key : String)
    (hbetween : IsSpaces between) (h : ReadsAs cs v) (hspaces : IsSpaces spaces) :
    ReadsAsMembers (before ++ ((quote key).toList ++ (between ++ ':' :: (cs ++ (spaces ++ ['}']))))) [(key, v)] := by
  refine ⟨startsWithout_member hbefore key _, fun fuel rest hfuel => ?_⟩
  obtain ⟨fuel, rfl⟩ := exists_eq_succ hfuel
  simp only [List.length_append, List.length_cons] at hfuel
  have hmark : skipSpaces (spaces ++ '}' :: rest) = '}' :: rest := by
    rw [skipSpaces_append hspaces, skipSpaces_cons (by decide)]
  have hread := (readMembers_member hbefore key hbetween h (show cs.length < fuel by omega)
    (endsNumeral_mark hspaces (by decide) rest)).2 hmark
  simp only [List.append_assoc, List.cons_append, List.nil_append]
  exact hread

/-- Any other member is followed by a comma. -/
theorem readsAsMembers_more {before between cs spaces others : List Char} {v : Json} {members : List (String × Json)}
    (hbefore : IsSpaces before) (key : String) (hbetween : IsSpaces between) (h : ReadsAs cs v)
    (hspaces : IsSpaces spaces) (hothers : ReadsAsMembers others members) :
    ReadsAsMembers (before ++ ((quote key).toList ++ (between ++ ':' :: (cs ++ (spaces ++ ',' :: others)))))
      ((key, v) :: members) := by
  refine ⟨startsWithout_member hbefore key _, fun fuel rest hfuel => ?_⟩
  obtain ⟨fuel, rfl⟩ := exists_eq_succ hfuel
  simp only [List.length_append, List.length_cons] at hfuel
  have hmark : skipSpaces (spaces ++ ',' :: (others ++ rest)) = ',' :: (others ++ rest) := by
    rw [skipSpaces_append hspaces, skipSpaces_cons (by decide)]
  have hread := (readMembers_member hbefore key hbetween h (show cs.length < fuel by omega)
    (endsNumeral_mark hspaces (by decide) (others ++ rest))).1 hmark
  rw [hothers.members fuel rest (by omega)] at hread
  simp only [List.append_assoc, List.cons_append]
  exact hread

theorem readsAs_emptyObject : ReadsAs ['{', '}'] (.object []) := by
  refine ⟨startsWithout_cons (by decide) _, fun fuel rest hfuel hrest => ?_⟩
  obtain ⟨fuel, rfl⟩ := exists_eq_succ hfuel
  rfl

/-- A list is read back item by item. -/
theorem mapM_map_eq_some {α β : Type} {write : α → β} {read? : β → Option α} {items : List α}
    (h : ∀ a ∈ items, read? (write a) = some a) : (items.map write).mapM read? = some items := by
  induction items with
  | nil => rfl
  | cons a items ih =>
    rw [List.map_cons, List.mapM_cons, h a List.mem_cons_self, ih fun b hb => h b (List.mem_cons_of_mem _ hb)]
    rfl

theorem ofMembers_map (members : List (String × Json)) :
    ofMembers (members.map fun m => (some m.1, m.2)) = .object members := by
  have hkeys : (members.map fun m => (some m.1, m.2)).mapM
      (fun m : Option String × Json => m.1.map fun k => (k, m.2)) = some members := mapM_map_eq_some fun _ _ => rfl
  rw [ofMembers, hkeys]

/-- Members between braces are read as an object. -/
theorem ReadsAsMembers.object {cs : List Char} {members : List (String × Json)} (h : ReadsAsMembers cs members) :
    ReadsAs ('{' :: cs) (.object members) := by
  refine ⟨startsWithout_cons (by decide) _, fun fuel rest hfuel hrest => ?_⟩
  obtain ⟨fuel, rfl⟩ := exists_eq_succ hfuel
  obtain ⟨c, cs', hhead, hc⟩ := h.starts rest
  have hread := h.members fuel rest (Nat.lt_of_succ_lt_succ hfuel)
  rw [← readMembers_skipSpaces, hhead] at hread
  rw [List.cons_append, readValue, skipSpaces_cons (by decide)]
  simp only [hhead]
  split
  · rename_i heq
    exact absurd (List.cons.inj heq).1 hc
  · rw [hread, Option.map_some, ofMembers_map]

/-- A whole text is read with one more unit of fuel than it is long. -/
theorem ReadsAs.parse? {s : String} {v : Json} (h : ReadsAs s.toList v) : parse? s = some v := by
  have hread := h.value _ [] (Nat.lt_succ_self _) EndsNumeral.nil
  rw [List.append_nil] at hread
  simp only [Json.parse?, hread, Option.bind_eq_bind, Option.bind_some]
  rfl

/-! ### Fields -/

theorem items?_map {α : Type} {write : α → Json} {read? : Json → Option α} {items : List α}
    (h : ∀ a ∈ items, read? (write a) = some a) : (array (items.map write)).items? read? = some items :=
  mapM_map_eq_some h

theorem natural?_natCast {n limit : Nat} (h : n < limit) : (integer n).natural? limit = some n := by
  rw [natural?, if_pos (by omega), Int.toNat_natCast]

/-! ### Printing -/

theorem prettyItems_eq_map (depth : Nat) (items : List Json) :
    prettyItems depth items = items.map (prettyAt depth) := by
  induction items with
  | nil => rfl
  | cons v items ih => rw [prettyItems, ih, List.map_cons]

theorem prettyMembers_eq_map (depth : Nat) (members : List (String × Json)) :
    prettyMembers depth members = members.map fun m => quote m.1 ++ ": " ++ m.2.prettyAt depth := by
  induction members with
  | nil => rfl
  | cons m members ih => rw [prettyMembers, ih, List.map_cons]

theorem compactItems_eq_map (items : List Json) : compactItems items = items.map compact := by
  induction items with
  | nil => rfl
  | cons v items ih => rw [compactItems, ih, List.map_cons]

theorem compactMembers_eq_map (members : List (String × Json)) :
    compactMembers members = members.map fun m => quote m.1 ++ ":" ++ m.2.compact := by
  induction members with
  | nil => rfl
  | cons m members ih => rw [compactMembers, ih, List.map_cons]

section Intercalate

variable {text : Json → String} {gap closing : String} (hgap : IsSpaces gap.toList) (hclosing : IsSpaces closing.toList)
  (colon : String) {blanks : List Char} (hcolon : colon.toList = ':' :: blanks) (hblanks : IsSpaces blanks)
include hgap hclosing

/-- Items with commas and blanks in between, up to the closing bracket. -/
theorem readsAsItems_intercalate {items : List Json} (hne : items ≠ []) (h : ∀ v ∈ items, ReadsAs (text v).toList v) :
    ReadsAsItems (gap.toList ++ (((("," ++ gap).intercalate (items.map text))).toList ++ (closing.toList ++ [']'])))
      items := by
  induction items with
  | nil => exact absurd rfl hne
  | cons v items ih =>
    have hfirst := (h v List.mem_cons_self).after_spaces hgap
    cases items with
    | nil =>
      have hlast := readsAsItems_last hfirst hclosing
      simpa [List.append_assoc] using hlast
    | cons w items =>
      have hothers := ih (by simp) fun x hx => h x (List.mem_cons_of_mem _ hx)
      have hmore := readsAsItems_more hfirst IsSpaces.nil hothers
      simpa [String.intercalate_cons_cons, List.append_assoc] using hmore

include hcolon hblanks

/-- Members with commas and blanks in between, up to the closing brace. -/
theorem readsAsMembers_intercalate {members : List (String × Json)} (hne : members ≠ [])
    (h : ∀ m ∈ members, ReadsAs (text m.2).toList m.2) :
    ReadsAsMembers (gap.toList ++ ((("," ++ gap).intercalate
      (members.map fun m => quote m.1 ++ colon ++ text m.2)).toList ++ (closing.toList ++ ['}']))) members := by
  induction members with
  | nil => exact absurd rfl hne
  | cons m members ih =>
    have hvalue := (h m List.mem_cons_self).after_spaces hblanks
    cases members with
    | nil =>
      have hlast := readsAsMembers_last hgap m.1 IsSpaces.nil hvalue hclosing
      simpa [hcolon, List.append_assoc] using hlast
    | cons n members =>
      have hothers := ih (by simp) fun x hx => h x (List.mem_cons_of_mem _ hx)
      have hmore := readsAsMembers_more hgap m.1 IsSpaces.nil hvalue IsSpaces.nil hothers
      simpa [hcolon, String.intercalate_cons_cons, List.append_assoc] using hmore

end Intercalate

/-- Integers, strings, and lists and objects of such values. -/
inductive Plain : Json → Prop
  | integer (n : Int) : Plain (.integer n)
  | string (s : String) : Plain (.string s)
  | array {items : List Json} (h : ∀ v ∈ items, Plain v) : Plain (.array items)
  | object {members : List (String × Json)} (h : ∀ m ∈ members, Plain m.2) : Plain (.object members)

namespace Plain

variable {v : Json}

/-- The compact text of a plain value is read as the value. -/
theorem readsAs_compact (h : Plain v) : ReadsAs v.compact.toList v := by
  have hempty : IsSpaces ("" : String).toList := IsSpaces.nil
  induction h with
  | integer n => exact readsAs_ofInt n
  | string s => exact readsAs_quote s
  | @array items _ ih =>
    rw [compact, compactItems_eq_map]
    rcases eq_or_ne items [] with rfl | hne
    · exact readsAs_emptyArray
    · simpa using (readsAsItems_intercalate hempty hempty hne ih).array
  | @object members _ ih =>
    rw [compact, compactMembers_eq_map]
    rcases eq_or_ne members [] with rfl | hne
    · exact readsAs_emptyObject
    · simpa using (readsAsMembers_intercalate hempty hempty ":" rfl IsSpaces.nil hne ih).object

/-- The indented text of a plain value is read as the value, at every depth. -/
theorem readsAs_pretty (h : Plain v) (depth : Nat) : ReadsAs (v.prettyAt depth).toList v := by
  have hblank : IsSpaces [' '] := fun c hc => by rw [List.mem_singleton.mp hc]; rfl
  induction h generalizing depth with
  | integer n => exact readsAs_ofInt n
  | string s => exact readsAs_quote s
  | @array items _ ih =>
    rw [prettyAt, prettyItems_eq_map, block]
    rcases eq_or_ne items [] with rfl | hne
    · rw [List.map_nil, List.isEmpty_nil, if_pos rfl, String.toList_append]
      exact readsAs_emptyArray
    · rw [if_neg (by simpa using hne)]
      simpa [List.append_assoc] using (readsAsItems_intercalate (isSpaces_lineBreak (depth + 1))
        (isSpaces_lineBreak depth) hne fun w hw => ih w hw (depth + 1)).array
  | @object members _ ih =>
    rw [prettyAt, prettyMembers_eq_map, block]
    rcases eq_or_ne members [] with rfl | hne
    · rw [List.map_nil, List.isEmpty_nil, if_pos rfl, String.toList_append]
      exact readsAs_emptyObject
    · rw [if_neg (by simpa using hne)]
      simpa [List.append_assoc] using (readsAsMembers_intercalate (isSpaces_lineBreak (depth + 1))
        (isSpaces_lineBreak depth) ": " rfl hblank hne fun m hm => ih m hm (depth + 1)).object

/-- Both texts of a plain value are read back. -/
theorem parse?_compact (h : Plain v) : parse? v.compact = some v := h.readsAs_compact.parse?

theorem parse?_pretty (h : Plain v) : parse? v.pretty = some v := (h.readsAs_pretty 0).parse?

end Plain

end QuantNet.Json
