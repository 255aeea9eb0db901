import Mathlib.Data.List.Basic
import Mathlib.Data.List.TakeWhile
import Plinth.Lib.Json.Basic

/-!
# Reading what was printed

The parser gives back the document from the text that the printer writes for it.
-/

namespace Json

/-! ## Strings -/

theorem hexValue_digitChar {n : Nat} (h : n < 16) : hexValue (Nat.digitChar n) = some n := by
  have all : ∀ n < 16, hexValue (Nat.digitChar n) = some n := by decide
  exact all n h

theorem parseHex_printHex {n : Nat} (h : n < 0x10000) (rest : List Char) :
    parseHex (printHex n ++ rest) = some (n, rest) := by
  have h₁ := hexValue_digitChar (show n / 4096 < 16 by omega)
  have h₂ := hexValue_digitChar (show n / 256 % 16 < 16 by omega)
  have h₃ := hexValue_digitChar (show n / 16 % 16 < 16 by omega)
  have h₄ := hexValue_digitChar (show n % 16 < 16 by omega)
  simp only [printHex, List.cons_append, List.nil_append, parseHex, h₁, h₂, h₃, h₄,
    Option.pure_def, Option.bind_eq_bind, Option.bind_some, Option.some.injEq, Prod.mk.injEq,
    and_true]
  omega

theorem not_surrogate (c : Char) : c.toNat < 0xd800 ∨ 0xe000 ≤ c.toNat := by
  obtain h | h := c.valid
  · exact .inl h
  · exact .inr h.1

theorem toNat_lt (c : Char) : c.toNat < 0x110000 := by
  obtain h | h := c.valid
  · exact Nat.lt_trans h (by decide)
  · exact h.2

theorem parseUnicode_of_lt {c : Char} (h : c.toNat < 0x10000) (rest : List Char) :
    parseUnicode (printHex c.toNat ++ rest) = some (c, rest) := by
  have outside : c.toNat < 0xd800 ∨ 0xe000 ≤ c.toNat := not_surrogate c
  simp only [parseUnicode, parseHex_printHex h, Option.bind_eq_bind, Option.bind_some,
    if_pos outside, Char.ofNat_toNat, Option.pure_def]

theorem parseUnicode_pair {high low : Nat} (isHigh : 0xd800 ≤ high ∧ high < 0xdc00)
    (isLow : 0xdc00 ≤ low ∧ low < 0xe000) (rest : List Char) :
    parseUnicode (printHex high ++ '\\' :: 'u' :: (printHex low ++ rest)) =
      some (Char.ofNat (0x10000 + (high - 0xd800) * 0x400 + (low - 0xdc00)), rest) := by
  have inside : ¬ (high < 0xd800 ∨ 0xe000 ≤ high) := by omega
  have high' : high < 0x10000 := by omega
  have low' : low < 0x10000 := by omega
  have pair : high < 0xdc00 ∧ 0xdc00 ≤ low ∧ low < 0xe000 := ⟨isHigh.2, isLow⟩
  simp only [parseUnicode, parseLow, parseHex_printHex high', parseHex_printHex low',
    Option.bind_eq_bind, Option.bind_some, if_neg inside, if_pos pair, Option.pure_def,
    Option.getD_some]

theorem parseUnicode_of_le {c : Char} (h : 0x10000 ≤ c.toNat) (rest : List Char) :
    parseUnicode (printHex (0xd800 + (c.toNat - 0x10000) / 0x400) ++
      '\\' :: 'u' :: (printHex (0xdc00 + (c.toNat - 0x10000) % 0x400) ++ rest)) =
        some (c, rest) := by
  have bound := toNat_lt c
  rw [parseUnicode_pair (by omega) (by omega)]
  have code : 0x10000 + (0xd800 + (c.toNat - 0x10000) / 0x400 - 0xd800) * 0x400 +
      (0xdc00 + (c.toNat - 0x10000) % 0x400 - 0xdc00) = c.toNat := by omega
  rw [code, Char.ofNat_toNat]

theorem parseString_backslash (fuel : Nat) {c : Char} {body rest : List Char}
    (escaped : parseEscape body = some (c, rest)) :
    parseString (fuel + 1) ('\\' :: body) =
      (parseString fuel rest).map fun (s, rest) => (c :: s, rest) := by
  simp only [parseString, Char.reduceEq, if_false, if_true, escaped, Option.bind_eq_bind,
    Option.bind_some]
  cases parseString fuel rest <;> rfl

theorem parseString_escape (fuel : Nat) (c : Char) (rest : List Char) :
    parseString (fuel + 1) (escape c ++ rest) =
      (parseString fuel rest).map fun (s, rest) => (c :: s, rest) := by
  unfold escape
  split
  · subst_vars
    exact parseString_backslash fuel rfl
  split
  · subst_vars
    exact parseString_backslash fuel rfl
  split
  · subst_vars
    exact parseString_backslash fuel rfl
  split
  · subst_vars
    exact parseString_backslash fuel rfl
  split
  · subst_vars
    exact parseString_backslash fuel rfl
  split
  · subst_vars
    exact parseString_backslash fuel rfl
  split
  · subst_vars
    exact parseString_backslash fuel rfl
  split
  · rename_i notQuote notBackslash _ _ _ _ _ printable
    have plain : ¬ c.toNat < 0x20 := by omega
    simp only [List.cons_append, List.nil_append, parseString, if_neg notQuote,
      if_neg notBackslash, if_neg plain]
    cases parseString fuel rest <;> rfl
  split
  · rename_i small
    exact parseString_backslash fuel (parseUnicode_of_lt small rest)
  · rename_i large
    have escaped := parseUnicode_of_le (Nat.le_of_not_lt large) rest
    rw [List.append_assoc]
    exact parseString_backslash fuel escaped

theorem parseString_flatMap (s rest : List Char) {fuel : Nat} (enough : s.length < fuel) :
    parseString fuel (s.flatMap escape ++ '"' :: rest) = some (s, rest) := by
  induction s generalizing fuel with
  | nil =>
    obtain _ | fuel := fuel
    · cases enough
    · rfl
  | cons c s ih =>
    obtain _ | fuel := fuel
    · cases enough
    · rw [List.flatMap_cons, List.append_assoc, parseString_escape,
        ih (Nat.lt_of_succ_lt_succ enough)]
      rfl

theorem length_le_flatMap (s : List Char) : s.length ≤ (s.flatMap escape).length := by
  induction s with
  | nil => exact Nat.le_refl _
  | cons c s ih =>
    have positive : 0 < (escape c).length := by
      unfold escape
      repeat' split
      all_goals simp [printHex]
    rw [List.flatMap_cons, List.length_append, List.length_cons]
    omega

theorem parseString_printString (s : String) (rest : List Char) :
    ∃ body, printString s ++ rest = '"' :: body ∧
      (parseString body.length body).map (fun (s, rest) => (String.ofList s, rest)) =
        some (s, rest) := by
  refine ⟨s.toList.flatMap escape ++ '"' :: rest, by simp [printString], ?_⟩
  rw [parseString_flatMap]
  · simp
  · have := length_le_flatMap s.toList
    simp only [List.length_append, List.length_cons]
    omega

/-! ## Numbers -/

theorem head_toDigits {n : Nat} (positive : 0 < n) : (Nat.toDigits 10 n).head? ≠ some '0' := by
  induction n using Nat.strongRecOn with
  | ind n ih =>
    rw [Nat.toDigits_eq_if (by decide)]
    split
    · rename_i small
      have all : ∀ n < 10, 0 < n → [Nat.digitChar n].head? ≠ some '0' := by decide
      exact all n small positive
    · rw [List.head?_append, Option.or_of_isSome]
      · exact ih (n / 10) (by omega) (by omega)
      · rw [List.isSome_head?]
        exact Nat.toDigits_ne_nil

theorem all_isDigit_toDigits (n : Nat) : (Nat.toDigits 10 n).all Char.isDigit = true :=
  List.all_eq_true.mpr fun _ member => Nat.isDigit_of_mem_toDigits (by decide) (by decide) member

theorem isNatural_toDigits (n : Nat) : isNatural (Nat.toDigits 10 n) = true := by
  obtain rfl | positive := Nat.eq_zero_or_pos n
  · decide
  · simp [isNatural, all_isDigit_toDigits, head_toDigits positive, Nat.toDigits_ne_nil]

theorem parseNatural_toDigits (n : Nat) : parseNatural (Nat.toDigits 10 n) = some n := by
  rw [parseNatural, if_pos (isNatural_toDigits n), Nat.ofDigitChars_ten_toDigits]

theorem exists_digit_cons (n : Nat) :
    ∃ c digits, Nat.toDigits 10 n = c :: digits ∧ c.isDigit = true := by
  have nonempty : Nat.toDigits 10 n ≠ [] := Nat.toDigits_ne_nil
  obtain ⟨c, digits, h⟩ := List.exists_cons_of_ne_nil nonempty
  have all := all_isDigit_toDigits n
  rw [h, List.all_cons, Bool.and_eq_true] at all
  exact ⟨c, digits, h, all.1⟩

theorem parseInt_printInt (n : Int) : parseInt (printInt n) = some n := by
  unfold printInt
  split
  · have value : -(n.natAbs : Int) = n := by omega
    show (parseNatural (Nat.toDigits 10 n.natAbs)).map _ = some n
    rw [parseNatural_toDigits, Option.map_some, value]
  · have value : (n.natAbs : Int) = n := by omega
    obtain ⟨c, digits, same, digit⟩ := exists_digit_cons n.natAbs
    have unsigned : parseInt (c :: digits) =
        (parseNatural (c :: digits)).map fun n : Nat => (n : Int) := by
      unfold parseInt
      split
      · rename_i h
        obtain ⟨rfl, -⟩ := List.cons_eq_cons.mp h
        cases digit
      · rfl
    rw [same, unsigned, ← same, parseNatural_toDigits, Option.map_some, value]

theorem isNumberChar_of_isDigit {c : Char} (digit : c.isDigit = true) : isNumberChar c = true := by
  simp [isNumberChar, digit]

theorem all_isNumberChar_toDigits (n : Nat) : (Nat.toDigits 10 n).all isNumberChar = true := by
  have all := all_isDigit_toDigits n
  rw [List.all_eq_true] at all ⊢
  exact fun c member => isNumberChar_of_isDigit (all c member)

theorem isUnsignedFloat_toDigits (n : Nat) : isUnsignedFloat (Nat.toDigits 10 n) = false := by
  have whole : (Nat.toDigits 10 n).dropWhile Char.isDigit = [] := by
    rw [List.dropWhile_eq_nil_iff]
    exact fun c member => Nat.isDigit_of_mem_toDigits (by decide) (by decide) member
  simp [isUnsignedFloat, whole, isFraction, isExponent]

theorem isFloat_printInt (n : Int) : isFloat (printInt n) = false := by
  unfold printInt
  split
  · simp [isFloat, isUnsignedFloat_toDigits]
  · obtain ⟨c, digits, same, digit⟩ := exists_digit_cons n.natAbs
    have unsigned : isFloat (c :: digits) =
        ((c :: digits).all isNumberChar && isUnsignedFloat (c :: digits)) := by
      unfold isFloat
      split
      · rename_i h
        obtain ⟨rfl, -⟩ := List.cons_eq_cons.mp h
        cases digit
      · rfl
    rw [same, unsigned, ← same, isUnsignedFloat_toDigits, Bool.and_false]

def Ends (rest : List Char) : Prop :=
  ∀ c ∈ rest.head?, isNumberChar c = false

theorem takeWhile_append {token rest : List Char} (all : token.all isNumberChar = true)
    (ends : Ends rest) : (token ++ rest).takeWhile isNumberChar = token ∧
      (token ++ rest).dropWhile isNumberChar = rest := by
  rw [List.all_eq_true] at all
  rw [List.takeWhile_append_of_pos all, List.dropWhile_append_of_pos all]
  cases rest with
  | nil => simp
  | cons c rest =>
    have stop := ends c rfl
    simp [stop]

theorem constants_stop : ∀ entry ∈ constants,
    (entry.1.all isNumberChar = false) ∧
      (entry.1.takeWhile isNumberChar = [] ∨ entry.1.takeWhile isNumberChar = ['-']) := by
  decide

theorem parseAtom_number {token rest : List Char} (all : token.all isNumberChar = true)
    (ends : Ends rest) (nonempty : token ≠ []) (notSign : token ≠ ['-']) :
    parseAtom (token ++ rest) = parseNumber (token ++ rest) := by
  unfold parseAtom
  split
  · rename_i result found
    obtain ⟨⟨name, value⟩, member, found⟩ := List.exists_of_findSome?_eq_some found
    obtain ⟨after, found, -⟩ := Option.map_eq_some_iff.mp found
    obtain ⟨stops, short⟩ := constants_stop _ member
    have whole : name ++ after = token ++ rest :=
      List.append_eq_of_isPrefixOf?_eq_some found
    have taken : name.takeWhile isNumberChar = token := by
      rw [← (takeWhile_append all ends).1, ← whole, List.takeWhile_append, if_neg]
      intro same
      have prefixed := List.takeWhile_prefix (l := name) isNumberChar
      rw [← prefixed.eq_of_length same, List.all_takeWhile] at stops
      cases stops
    rw [taken] at short
    obtain short | short := short
    · exact absurd short nonempty
    · exact absurd short notSign
  · rfl

theorem all_isNumberChar_printInt (n : Int) : (printInt n).all isNumberChar = true := by
  unfold printInt
  split
  · rw [List.all_cons, all_isNumberChar_toDigits]
    rfl
  · exact all_isNumberChar_toDigits n.natAbs

theorem printInt_ne (n : Int) : printInt n ≠ [] ∧ printInt n ≠ ['-'] := by
  unfold printInt
  split
  · simp [Nat.toDigits_ne_nil]
  · obtain ⟨c, digits, same, digit⟩ := exists_digit_cons n.natAbs
    rw [same]
    refine ⟨List.cons_ne_nil _ _, ?_⟩
    rintro h
    obtain ⟨rfl, -⟩ := List.cons_eq_cons.mp h
    cases digit

theorem parseAtom_printInt (n : Int) {rest : List Char} (ends : Ends rest) :
    parseAtom (printInt n ++ rest) = some (.int n, rest) := by
  have all := all_isNumberChar_printInt n
  obtain ⟨nonempty, notSign⟩ := printInt_ne n
  obtain ⟨taken, dropped⟩ := takeWhile_append all ends
  rw [parseAtom_number all ends nonempty notSign]
  simp [parseNumber, taken, dropped, isFloat_printInt, parseInt_printInt]

theorem float_token {token : List Char} (valid : isFloat token = true) :
    token.all isNumberChar = true ∧ token ≠ [] ∧ token ≠ ['-'] := by
  refine ⟨?_, ?_, ?_⟩
  · unfold isFloat at valid
    exact (Bool.and_eq_true _ _ ▸ valid).1
  · rintro rfl
    exact absurd valid (by decide)
  · rintro rfl
    exact absurd valid (by decide)

theorem parseAtom_finite {token rest : List Char} (valid : isFloat token = true)
    (ends : Ends rest) : parseAtom (token ++ rest) = some (.float (.finite token valid), rest) := by
  obtain ⟨all, nonempty, notSign⟩ := float_token valid
  obtain ⟨taken, dropped⟩ := takeWhile_append all ends
  rw [parseAtom_number all ends nonempty notSign]
  simp [parseNumber, taken, dropped, valid]

/-! ## Documents -/

def Starts (text : List Char) : Prop :=
  ∃ c rest, text = c :: rest ∧ isSpace c = false ∧ c ≠ ']'

theorem Starts.append {text : List Char} (starts : Starts text) (rest : List Char) :
    Starts (text ++ rest) := by
  obtain ⟨c, text, rfl, visible, open'⟩ := starts
  exact ⟨c, text ++ rest, rfl, visible, open'⟩

theorem Starts.skipSpace {text : List Char} (starts : Starts text) : skipSpace text = text := by
  obtain ⟨c, text, rfl, visible, -⟩ := starts
  simp [Json.skipSpace, visible]

theorem starts_number {token : List Char} (all : token.all isNumberChar = true)
    (nonempty : token ≠ []) : Starts token := by
  obtain ⟨c, rest, rfl⟩ := List.exists_cons_of_ne_nil nonempty
  rw [List.all_cons, Bool.and_eq_true] at all
  refine ⟨c, rest, rfl, ?_, ?_⟩
  · by_contra space
    simp only [isSpace, Bool.not_eq_false, Bool.or_eq_true, decide_eq_true_eq] at space
    obtain ((rfl | rfl) | rfl) | rfl := space <;> cases all.1
  · rintro rfl
    cases all.1

theorem starts_print (document : Json) : Starts (print document) := by
  cases document with
  | null => exact ⟨_, _, rfl, rfl, by decide⟩
  | bool b => cases b <;> exact ⟨_, _, rfl, rfl, by decide⟩
  | int n => exact starts_number (all_isNumberChar_printInt n) (printInt_ne n).1
  | float f =>
    cases f with
    | nan => exact ⟨_, _, rfl, rfl, by decide⟩
    | infinity => exact ⟨_, _, rfl, rfl, by decide⟩
    | negInfinity => exact ⟨_, _, rfl, rfl, by decide⟩
    | finite token valid => exact starts_number (float_token valid).1 (float_token valid).2.1
  | str s => exact ⟨_, _, rfl, rfl, by decide⟩
  | arr elements => cases elements <;> exact ⟨_, _, rfl, rfl, by decide⟩
  | obj members => cases members <;> exact ⟨_, _, rfl, rfl, by decide⟩

theorem parseValue_number {token : List Char} (all : token.all isNumberChar = true)
    (nonempty : token ≠ []) (fuel : Nat) (rest : List Char) :
    parseValue (fuel + 1) (token ++ rest) = parseAtom (token ++ rest) := by
  obtain ⟨c, digits, rfl⟩ := List.exists_cons_of_ne_nil nonempty
  rw [List.all_cons, Bool.and_eq_true] at all
  unfold parseValue
  split
  · rename_i h
    obtain ⟨rfl, -⟩ := List.cons_eq_cons.mp h
    cases all.1
  · rename_i h
    obtain ⟨rfl, -⟩ := List.cons_eq_cons.mp h
    cases all.1
  · rename_i h
    obtain ⟨rfl, -⟩ := List.cons_eq_cons.mp h
    cases all.1
  · rfl

theorem parseValue_str (s : String) (fuel : Nat) (rest : List Char) :
    parseValue (fuel + 1) (printString s ++ rest) = some (.str s, rest) := by
  obtain ⟨body, text, parsed⟩ := parseString_printString s rest
  rw [text]
  obtain ⟨⟨chars, after⟩, found, same⟩ := Option.map_eq_some_iff.mp parsed
  obtain ⟨rfl, rfl⟩ := Prod.mk.injEq .. ▸ same
  simp [parseValue, found]

theorem parseValue_arr {text : List Char} (starts : Starts text) (fuel : Nat) :
    parseValue (fuel + 1) ('[' :: text) =
      (parseElements fuel text).map fun (elements, rest) => (.arr elements, rest) := by
  have skipped := starts.skipSpace
  obtain ⟨c, rest, rfl, -, open'⟩ := starts
  simp only [parseValue, skipped]
  split
  · rename_i h
    exact absurd (List.cons_eq_cons.mp h).1 open'
  · cases parseElements fuel (c :: rest) <;> rfl

theorem parseElements_last {element : Json} {fuel : Nat} {text rest : List Char}
    (parsed : parseValue fuel text = some (element, ']' :: rest)) :
    parseElements (fuel + 1) text = some ([element], rest) := by
  simp [parseElements, parsed, skipSpace, isSpace]

theorem parseElements_more {element : Json} {elements : List Json} {fuel : Nat}
    {text next rest : List Char} (starts : Starts next)
    (parsed : parseValue fuel text = some (element, ',' :: ' ' :: next))
    (others : parseElements fuel next = some (elements, rest)) :
    parseElements (fuel + 1) text = some (element :: elements, rest) := by
  have skipped : skipSpace (' ' :: next) = next := starts.skipSpace
  have comma : skipSpace (',' :: ' ' :: next) = ',' :: ' ' :: next := rfl
  simp [parseElements, parsed, comma, skipped, others]

theorem parseValue_obj (fuel : Nat) (text : List Char) :
    parseValue (fuel + 1) ('\x7b' :: '"' :: text) =
      (parseMembers fuel ('"' :: text)).map fun (members, rest) => (.obj members, rest) := by
  have skipped : skipSpace ('"' :: text) = '"' :: text := rfl
  simp only [parseValue, skipped]
  split
  · rename_i h
    exact absurd (List.cons_eq_cons.mp h).1 (by decide)
  · cases parseMembers fuel ('"' :: text) <;> rfl

theorem parseMembers_printString (key : String) (fuel : Nat) {text : List Char}
    (starts : Starts text) :
    parseMembers (fuel + 1) (printString key ++ ':' :: ' ' :: text) =
      (parseValue fuel text).bind fun (value, rest) =>
        match skipSpace rest with
        | '\x7d' :: rest => some ([(key, value)], rest)
        | ',' :: rest => do
            let (members, rest) ← parseMembers fuel (skipSpace rest)
            return ((key, value) :: members, rest)
        | _ => none := by
  obtain ⟨body, same, parsed⟩ := parseString_printString key (':' :: ' ' :: text)
  rw [same]
  obtain ⟨⟨chars, after⟩, found, same⟩ := Option.map_eq_some_iff.mp parsed
  obtain ⟨rfl, rfl⟩ := Prod.mk.injEq .. ▸ same
  have skipped : skipSpace (' ' :: text) = text := starts.skipSpace
  have colon : skipSpace (':' :: ' ' :: text) = ':' :: ' ' :: text := rfl
  simp only [parseMembers, found, Option.bind_eq_bind, Option.bind_some, colon, skipped]
  rfl

theorem parseMembers_last {value : Json} {fuel : Nat} {text rest : List Char} (key : String)
    (starts : Starts text) (parsed : parseValue fuel text = some (value, '\x7d' :: rest)) :
    parseMembers (fuel + 1) (printString key ++ ':' :: ' ' :: text) =
      some ([(key, value)], rest) := by
  rw [parseMembers_printString key fuel starts, parsed]
  rfl

theorem parseMembers_more {value : Json} {members : List (String × Json)} {fuel : Nat}
    {text next rest : List Char} (key : String) (starts : Starts text) (nextStarts : Starts next)
    (parsed : parseValue fuel text = some (value, ',' :: ' ' :: next))
    (others : parseMembers fuel next = some (members, rest)) :
    parseMembers (fuel + 1) (printString key ++ ':' :: ' ' :: text) =
      some ((key, value) :: members, rest) := by
  have skipped : skipSpace (' ' :: next) = next := nextStarts.skipSpace
  have comma : skipSpace (',' :: ' ' :: next) = ',' :: ' ' :: next := rfl
  rw [parseMembers_printString key fuel starts, parsed]
  simp [comma, skipped, others]

theorem ends_of_head {c : Char} (h : isNumberChar c = false) (rest : List Char) :
    Ends (c :: rest) := by
  rintro _ ⟨⟩
  exact h

theorem ends_printElements (elements : List Json) (rest : List Char) :
    Ends (printElements elements ++ rest) := by
  cases elements with
  | nil => exact ends_of_head rfl _
  | cons element elements => exact ends_of_head rfl _

theorem ends_printMembers (members : List (String × Json)) (rest : List Char) :
    Ends (printMembers members ++ rest) := by
  cases members with
  | nil => exact ends_of_head rfl _
  | cons member members => exact ends_of_head rfl _

theorem length_print_pos (document : Json) : 0 < (print document).length := by
  obtain ⟨c, text, same, -⟩ := starts_print document
  rw [same]
  exact Nat.succ_pos _

mutual

theorem parseValue_print (document : Json) (fuel : Nat) (rest : List Char)
    (enough : (print document).length ≤ fuel) (ends : Ends rest) :
    parseValue fuel (print document ++ rest) = some (document, rest) := by
  match fuel, document, enough with
  | 0, document, enough =>
    have positive := length_print_pos document
    omega
  | fuel + 1, .null, _ => rfl
  | fuel + 1, .bool true, _ => rfl
  | fuel + 1, .bool false, _ => rfl
  | fuel + 1, .int n, _ =>
    rw [print, parseValue_number (all_isNumberChar_printInt n) (printInt_ne n).1]
    exact parseAtom_printInt n ends
  | fuel + 1, .float .nan, _ => rfl
  | fuel + 1, .float .infinity, _ => rfl
  | fuel + 1, .float .negInfinity, _ => rfl
  | fuel + 1, .float (.finite token valid), _ =>
    have number := float_token valid
    exact (parseValue_number number.1 number.2.1 fuel rest).trans (parseAtom_finite valid ends)
  | fuel + 1, .str s, _ => exact parseValue_str s fuel rest
  | fuel + 1, .arr [], _ => rfl
  | fuel + 1, .arr (element :: elements), enough =>
    rw [print, List.length_append, List.length_cons] at enough
    have parsed := parseElements_print element elements fuel rest (by omega)
    simp only [print, List.cons_append, List.append_assoc]
    rw [parseValue_arr ((starts_print element).append _), parsed]
    rfl
  | fuel + 1, .obj [], _ => rfl
  | fuel + 1, .obj ((key, value) :: members), enough =>
    simp only [print, List.length_append, List.length_cons] at enough
    have parsed := parseMembers_print key value members fuel rest (by omega)
    simp only [print, List.cons_append, List.append_assoc]
    exact (parseValue_obj fuel _).trans (congrArg _ parsed)

theorem parseElements_print (element : Json) (elements : List Json) (fuel : Nat)
    (rest : List Char)
    (enough : (print element).length + (printElements elements).length ≤ fuel) :
    parseElements fuel (print element ++ (printElements elements ++ rest)) =
      some (element :: elements, rest) := by
  match fuel, elements, enough with
  | 0, elements, enough =>
    have positive := length_print_pos element
    omega
  | fuel + 1, [], enough =>
    simp only [printElements, List.length_cons] at enough
    exact parseElements_last
      (parseValue_print element fuel _ (by omega) (ends_printElements [] rest))
  | fuel + 1, next :: elements, enough =>
    simp only [printElements, List.length_append, List.length_cons] at enough
    have parsed := parseValue_print element fuel _ (by omega)
      (ends_printElements (next :: elements) rest)
    have others := parseElements_print next elements fuel rest (by omega)
    simp only [printElements, List.cons_append, List.append_assoc] at parsed ⊢
    exact parseElements_more ((starts_print next).append _) parsed others

theorem parseMembers_print (key : String) (value : Json) (members : List (String × Json))
    (fuel : Nat) (rest : List Char)
    (enough : (print value).length + (printMembers members).length ≤ fuel) :
    parseMembers fuel (printString key ++ ':' :: ' ' :: (print value ++
      (printMembers members ++ rest))) = some ((key, value) :: members, rest) := by
  have starts := (starts_print value).append (printMembers members ++ rest)
  match fuel, members, enough with
  | 0, members, enough =>
    have positive := length_print_pos value
    omega
  | fuel + 1, [], enough =>
    simp only [printMembers, List.length_cons] at enough
    exact parseMembers_last key starts
      (parseValue_print value fuel _ (by omega) (ends_printMembers [] rest))
  | fuel + 1, (nextKey, next) :: members, enough =>
    simp only [printMembers, List.length_append, List.length_cons] at enough
    have parsed := parseValue_print value fuel _ (by omega)
      (ends_printMembers ((nextKey, next) :: members) rest)
    have others := parseMembers_print nextKey next members fuel rest (by omega)
    simp only [printMembers, List.cons_append, List.append_assoc] at parsed starts ⊢
    exact parseMembers_more key starts ⟨_, _, rfl, rfl, by decide⟩ parsed others

end

theorem loads_dumps (document : Json) : loads (dumps document) = some document := by
  have parsed := parseValue_print document ((print document).length + 1) [] (by omega)
    (by rintro _ ⟨⟩)
  rw [List.append_nil] at parsed
  simp only [loads, dumps, String.toList_ofList, (starts_print document).skipSpace, parsed,
    Option.bind_eq_bind, Option.bind_some]
  rfl

end Json

/-!
## Printed documents are ASCII
-/

namespace Json

def Ascii (text : List Char) : Prop :=
  ∀ c ∈ text, c.toNat < 0x80

theorem Ascii.append {text text' : List Char} (ascii : Ascii text) (ascii' : Ascii text') :
    Ascii (text ++ text') := by
  intro c member
  obtain member | member := List.mem_append.mp member
  · exact ascii c member
  · exact ascii' c member

theorem Ascii.cons {c : Char} {text : List Char} (small : c.toNat < 0x80) (ascii : Ascii text) :
    Ascii (c :: text) :=
  List.forall_mem_cons.mpr ⟨small, ascii⟩

theorem ascii_of_all {text : List Char} (all : text.all (fun c => c.toNat < 0x80) = true) :
    Ascii text :=
  fun c member => of_decide_eq_true (List.all_eq_true.mp all c member)

theorem ascii_of_number {c : Char} (number : isNumberChar c = true) : c.toNat < 0x80 := by
  simp only [isNumberChar, Bool.or_eq_true, decide_eq_true_eq] at number
  obtain ((((digit | rfl) | rfl) | rfl) | rfl) | rfl := number
  · simp only [Char.isDigit, Bool.and_eq_true, decide_eq_true_eq] at digit
    have small : c.toNat ≤ 57 := digit.2
    omega
  all_goals decide

theorem ascii_token {token : List Char} (all : token.all isNumberChar = true) : Ascii token :=
  fun c member => ascii_of_number (List.all_eq_true.mp all c member)

theorem ascii_digitChar {n : Nat} (h : n < 16) : (Nat.digitChar n).toNat < 0x80 := by
  have all : ∀ n < 16, (Nat.digitChar n).toNat < 0x80 := by decide
  exact all n h

theorem ascii_printHex {n : Nat} (h : n < 0x10000) : Ascii (printHex n) := by
  refine .cons (ascii_digitChar (by omega)) (.cons (ascii_digitChar (by omega))
    (.cons (ascii_digitChar (by omega)) (.cons (ascii_digitChar (by omega)) ?_)))
  exact fun c member => absurd member List.not_mem_nil

theorem ascii_unicode {n : Nat} (h : n < 0x10000) : Ascii ('\\' :: 'u' :: printHex n) :=
  .cons (by decide) (.cons (by decide) (ascii_printHex h))

theorem ascii_escape (c : Char) : Ascii (escape c) := by
  have pair : ∀ mark : Char, mark.toNat < 0x80 → Ascii ['\\', mark] := by
    intro mark small
    exact .cons (by decide) (.cons small fun c member => absurd member List.not_mem_nil)
  unfold escape
  split
  · exact pair _ (by decide)
  split
  · exact pair _ (by decide)
  split
  · exact pair _ (by decide)
  split
  · exact pair _ (by decide)
  split
  · exact pair _ (by decide)
  split
  · exact pair _ (by decide)
  split
  · exact pair _ (by decide)
  split
  · rename_i printable
    exact .cons (by omega) fun c member => absurd member List.not_mem_nil
  split
  · exact ascii_unicode (by omega)
  · have bound := toNat_lt c
    exact .append (ascii_unicode (by omega)) (ascii_unicode (by omega))

theorem ascii_printString (s : String) : Ascii (printString s) := by
  refine .append (.cons (by decide) ?_) (.cons (by decide) fun c member => absurd member
    List.not_mem_nil)
  intro c member
  obtain ⟨origin, -, member⟩ := List.mem_flatMap.mp member
  exact ascii_escape origin c member

theorem ascii_float (f : Float) : Ascii f.text := by
  cases f with
  | nan => exact ascii_of_all rfl
  | infinity => exact ascii_of_all rfl
  | negInfinity => exact ascii_of_all rfl
  | finite token valid => exact ascii_token (float_token valid).1

mutual

theorem ascii_print (document : Json) : Ascii (print document) := by
  match document with
  | .null => exact ascii_of_all rfl
  | .bool true => exact ascii_of_all rfl
  | .bool false => exact ascii_of_all rfl
  | .int n => exact ascii_token (all_isNumberChar_printInt n)
  | .float f => exact ascii_float f
  | .str s => exact ascii_printString s
  | .arr [] => exact ascii_of_all rfl
  | .arr (element :: rest) =>
    exact .append (.cons (by decide) (ascii_print element)) (ascii_printElements rest)
  | .obj [] => exact ascii_of_all rfl
  | .obj ((key, value) :: rest) =>
    exact .append (.append (.cons (by decide) (ascii_printString key))
      (.cons (by decide) (.cons (by decide) (ascii_print value)))) (ascii_printMembers rest)

theorem ascii_printElements (elements : List Json) : Ascii (printElements elements) := by
  match elements with
  | [] => exact .cons (by decide) fun c member => absurd member List.not_mem_nil
  | element :: rest =>
    exact .append (.cons (by decide) (.cons (by decide) (ascii_print element)))
      (ascii_printElements rest)

theorem ascii_printMembers (members : List (String × Json)) : Ascii (printMembers members) := by
  match members with
  | [] => exact .cons (by decide) fun c member => absurd member List.not_mem_nil
  | (key, value) :: rest =>
    exact .append (.append (.cons (by decide) (.cons (by decide) (ascii_printString key)))
      (.cons (by decide) (.cons (by decide) (ascii_print value)))) (ascii_printMembers rest)

end

/-! ## Length -/

theorem escape_ne_nil (c : Char) : escape c ≠ [] := by
  unfold escape
  repeat' split
  all_goals simp

theorem length_le_printString (s : String) : s.toList.length ≤ (printString s).length := by
  have each (text : List Char) : text.length ≤ (text.flatMap escape).length := by
    induction text with
    | nil => exact Nat.le_refl 0
    | cons c text ih =>
      have one := List.length_pos_iff.mpr (escape_ne_nil c)
      rw [List.flatMap_cons, List.length_append, List.length_cons]
      omega
  have all := each s.toList
  simp only [printString, List.length_append, List.length_cons]
  omega

end Json
