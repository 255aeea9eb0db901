import Plinth.Lib.Python.Integer

/-!
# Fields of forms

What the fields of a form make of the text that is submitted: nothing where they refuse it.
-/

namespace Forms

open Python

variable {α : Type}

def accept (required : Bool) (valid : List Char → Bool) (text : List Char) :
    Option (List Char) :=
  if text = [] then (if required then none else some [])
  else if '\x00' ∈ text ∨ valid text = false then none
  else some text

def charField (required : Bool) (valid : List Char → Bool) (value : Option (List Char)) :
    Option (List Char) :=
  accept required valid (Text.strip (value.getD []))

def regexField (required : Bool) (valid : List Char → Bool) (value : Option (List Char)) :
    Option (List Char) :=
  accept required valid (value.getD [])

def choiceField (choices : List α) (text : α → List Char) (value : Option (List Char)) :
    Option α :=
  value.bind fun chosen => choices.find? fun choice => text choice = chosen

def withoutFraction : List Char → List Char
  | [] => []
  | c :: rest =>
    if c = '.' ∧ (rest.dropWhile (· = '0')).all Text.isSpace then []
    else c :: withoutFraction rest

def inRange (least greatest : Nat) : Except Exception Int → Option (Option Nat)
  | .error _ => none
  | .ok n => if least ≤ n ∧ n ≤ greatest then some (some n.toNat) else none

def integerField (digits : Integer.Digits) (least greatest : Nat) (value : Option (List Char)) :
    Option (Option Nat) :=
  if value.getD [] = [] then some none
  else inRange least greatest (Integer.int digits (withoutFraction (value.getD [])))

/-! ## What is accepted is accepted again -/

variable {required : Bool} {valid : List Char → Bool}

theorem accept_again {text accepted : List Char} (ok : accept required valid text = some accepted) :
    accepted = text ∧ accept required valid accepted = some accepted := by
  have same : accepted = text := by
    unfold accept at ok
    split at ok
    · rename_i empty
      split at ok
      · cases ok
      · cases ok
        exact empty.symm
    · split at ok
      · cases ok
      · cases ok
        rfl
  refine ⟨same, ?_⟩
  rw [same] at ok ⊢
  exact ok

theorem charField_again {value : Option (List Char)} {accepted : List Char}
    (ok : charField required valid value = some accepted) :
    charField required valid (some accepted) = some accepted := by
  obtain ⟨same, again⟩ := accept_again ok
  rw [charField, Option.getD_some]
  rw [same] at again ⊢
  rw [Text.strip_strip]
  exact again

theorem regexField_again {value : Option (List Char)} {accepted : List Char}
    (ok : regexField required valid value = some accepted) :
    regexField required valid (some accepted) = some accepted :=
  (accept_again ok).2

theorem charField_of_valid {text : List Char} (nonempty : text ≠ []) (noNull : '\x00' ∉ text)
    (good : valid text = true) (stripped : Text.strip text = text) :
    charField required valid (some text) = some text := by
  rw [charField, Option.getD_some, stripped, accept, if_neg nonempty, if_neg]
  rw [not_or, Bool.not_eq_false]
  exact ⟨noNull, good⟩

/-! ## Numbers that are shown -/

theorem withoutFraction_of_digits {s : List Char} (all : ∀ c ∈ s, c.isDigit = true) :
    withoutFraction s = s := by
  induction s with
  | nil => rfl
  | cons c s ih =>
    rw [List.forall_mem_cons] at all
    rw [withoutFraction, if_neg, ih all.2]
    intro point
    rw [point.1] at all
    exact absurd all.1 (by decide)

theorem decimal_toDigits (n : Nat) : Integer.decimal (Nat.toDigits 10 n) = n := by
  have value : Nat.ofDigitChars 10 (Nat.toDigits 10 n) 0 = n := Nat.ofDigitChars_ten_toDigits
  rwa [Nat.ofDigitChars_eq_foldl] at value

theorem int_toDigits (digits : Integer.Digits) {n : Nat} (short : n < 1000) :
    Integer.int digits (Nat.toDigits 10 n) = .ok (n : Int) := by
  have length : (Nat.toDigits 10 n).length ≤ 3 :=
    (Nat.length_toDigits_le_iff (by decide) (by decide)).mpr short
  rw [Integer.int_of_ascii Nat.toDigits_ne_nil
    (fun c member => Nat.isDigit_of_mem_toDigits (by decide) (by decide) member), if_neg,
    decimal_toDigits]
  rw [Integer.maxDigits]
  omega

theorem integerField_toDigits (digits : Integer.Digits) {least greatest n : Nat}
    (low : least ≤ n) (high : n ≤ greatest) (short : n < 1000) :
    integerField digits least greatest (some (Nat.toDigits 10 n)) = some (some n) := by
  rw [integerField, Option.getD_some, if_neg Nat.toDigits_ne_nil, withoutFraction_of_digits
    (fun c member => Nat.isDigit_of_mem_toDigits (by decide) (by decide) member),
    int_toDigits digits short, inRange, if_pos ⟨by exact_mod_cast low, by exact_mod_cast high⟩]
  rfl

theorem range_of_integerField {digits : Integer.Digits} {least greatest n : Nat}
    {value : Option (List Char)}
    (ok : integerField digits least greatest value = some (some n)) :
    least ≤ n ∧ n ≤ greatest := by
  unfold integerField at ok
  split at ok
  · cases ok
  · generalize Integer.int digits (withoutFraction (value.getD [])) = read at ok
    cases read with
    | error e => cases ok
    | ok number =>
      rw [inRange] at ok
      split at ok
      · rename_i range
        cases ok
        omega
      · cases ok

/-! ## Choices that are shown -/

end Forms
