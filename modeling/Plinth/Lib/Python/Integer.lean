import Mathlib.Tactic.IntervalCases
import Plinth.Lib.Python.Text
import Plinth.Lib.Python.Value

/-!
# Integers in texts

What `int` reads of a text: a sign, and decimal digits of any script, with single underscores
between them.
-/

namespace Python.Integer

open Exception

structure Digits where
  value : Char → Option Nat
  ascii : ∀ c, c.isDigit = true → value c = some (c.toNat - '0'.toNat)

def asciiValue (c : Char) : Option Nat :=
  if c.isDigit then some (c.toNat - '0'.toNat) else none

theorem asciiValue_of_isDigit (c : Char) (digit : c.isDigit = true) :
    asciiValue c = some (c.toNat - '0'.toNat) :=
  if_pos digit

def asciiDigits : Digits where
  value := asciiValue
  ascii := asciiValue_of_isDigit

def invalidLiteral : Exception :=
  ValueError "invalid literal for int() with base 10"

variable (digits : Digits)

def isNumeral (s : List Char) : Bool :=
  (s.splitOn '_').all fun part => part ≠ [] && part.all fun c => (digits.value c).isSome

def maxDigits : Nat := 4300

def natural (s : List Char) : Except Exception Nat :=
  if isNumeral digits s = false then .error invalidLiteral
  else
    let numeral := s.filter (· ≠ '_')
    if maxDigits < numeral.length then .error intError
    else .ok (numeral.foldl (fun n c => 10 * n + (digits.value c).getD 0) 0)

/-- `int(s)` -/
def int (s : List Char) : Except Exception Int :=
  match Text.strip s with
  | '-' :: s => (natural digits s).map fun n : Nat => -Int.ofNat n
  | '+' :: s => (natural digits s).map Int.ofNat
  | s => (natural digits s).map Int.ofNat

/-! ## Errors -/

variable {digits} in
theorem natural_error {s : List Char} {e : Exception} (raises : natural digits s = .error e) :
    e = invalidLiteral ∨ e = intError := by
  unfold natural at raises
  split at raises
  · cases raises
    exact .inl rfl
  · dsimp only at raises
    split at raises
    · cases raises
      exact .inr rfl
    · cases raises

theorem error_of_map {ε α β : Type} {result : Except ε α} {f : α → β} {e : ε}
    (raises : result.map f = .error e) : result = .error e := by
  cases result with
  | error e' =>
    cases raises
    rfl
  | ok a => cases raises

variable {digits} in
theorem int_error {s : List Char} {e : Exception} (raises : int digits s = .error e) :
    e = invalidLiteral ∨ e = intError := by
  unfold int at raises
  split at raises
  · exact natural_error (error_of_map raises)
  · exact natural_error (error_of_map raises)
  · exact natural_error (error_of_map raises)

/-! ## Digits of ASCII -/

def decimal (s : List Char) : Nat :=
  s.foldl (fun n c => 10 * n + (c.toNat - '0'.toNat)) 0

theorem isDigit_ne {c d : Char} (digit : c.isDigit = true) (other : d.isDigit = false) : c ≠ d := by
  rintro rfl
  rw [digit] at other
  cases other

theorem isSpace_of_isDigit {c : Char} (digit : c.isDigit = true) : Text.isSpace c = false := by
  obtain ⟨low, high⟩ : 48 ≤ c.toNat ∧ c.toNat ≤ 57 := by
    rw [Char.isDigit, Bool.and_eq_true, decide_eq_true_eq, decide_eq_true_eq] at digit
    exact digit
  simp only [Text.isSpace, decide_eq_false_iff_not]
  omega

section Ascii

variable {digits} {s : List Char}

theorem natural_of_ascii (nonempty : s ≠ []) (all : ∀ c ∈ s, c.isDigit = true) :
    natural digits s =
      if maxDigits < s.length then .error intError else .ok (decimal s) := by
  have plain : '_' ∉ s := fun member => absurd rfl (isDigit_ne (all _ member) (by decide))
  have numeral : isNumeral digits s = true := by
    rw [isNumeral, List.splitOn_eq_singleton plain]
    simp only [List.all_cons, List.all_nil, Bool.and_true, Bool.and_eq_true, decide_eq_true_eq,
      List.all_eq_true]
    exact ⟨nonempty, fun c member => by simp [digits.ascii c (all c member)]⟩
  have kept : s.filter (· ≠ '_') = s :=
    List.filter_eq_self.mpr fun c member => decide_eq_true fun same => plain (same ▸ member)
  have value : s.foldl (fun n c => 10 * n + (digits.value c).getD 0) 0 = decimal s := by
    apply List.foldl_ext
    intro n c member
    rw [digits.ascii c (all c member)]
    rfl
  unfold natural
  rw [if_neg (by simp [numeral]), kept]
  dsimp only
  rw [value]

theorem int_of_ascii (nonempty : s ≠ []) (all : ∀ c ∈ s, c.isDigit = true) :
    int digits s =
      if maxDigits < s.length then .error intError else .ok (decimal s : Int) := by
  have stripped : Text.strip s = s :=
    Text.strip_eq_self (fun c member => isSpace_of_isDigit (all c (List.mem_of_mem_head? member)))
      fun c member => isSpace_of_isDigit (all c (List.mem_of_mem_getLast? member))
  have read : natural digits s = _ := natural_of_ascii nonempty all
  unfold int
  rw [stripped]
  split
  · exact absurd rfl (isDigit_ne (all _ List.mem_cons_self) (by decide))
  · exact absurd rfl (isDigit_ne (all _ List.mem_cons_self) (by decide))
  · rw [read]
    split <;> rfl

end Ascii

/-! ## The digits of a number -/

theorem digitChar_of_isDigit {c : Char} (digit : c.isDigit = true) :
    Nat.digitChar (c.toNat - '0'.toNat) = c ∧ c.toNat - '0'.toNat < 10 := by
  obtain ⟨low, high⟩ : 48 ≤ c.toNat ∧ c.toNat ≤ 57 := by
    rw [Char.isDigit, Bool.and_eq_true, decide_eq_true_eq, decide_eq_true_eq] at digit
    exact digit
  obtain ⟨n, same⟩ := Nat.exists_eq_add_of_le low
  have small : n < 10 := by omega
  have whole : c = Char.ofNat (48 + n) := by rw [← same, Char.ofNat_toNat]
  have zero : '0'.toNat = 48 := rfl
  rw [same, zero, Nat.add_sub_cancel_left, whole]
  refine ⟨?_, small⟩
  clear digit low high same whole
  interval_cases n <;> rfl

theorem decimal_append (s : List Char) (c : Char) :
    decimal (s ++ [c]) = 10 * decimal s + (c.toNat - '0'.toNat) := by
  rw [decimal, List.foldl_append]
  rfl

theorem toDigits_decimal {s : List Char} (nonempty : s ≠ []) (all : ∀ c ∈ s, c.isDigit = true)
    (head : s.head? ≠ some '0') : Nat.toDigits 10 (decimal s) = s := by
  induction s using List.reverseRecOn with
  | nil => exact absurd rfl nonempty
  | append_singleton s c ih =>
    rw [List.forall_mem_append] at all
    obtain ⟨shown, small⟩ := digitChar_of_isDigit (all.2 c (List.mem_singleton_self c))
    rw [decimal_append]
    by_cases single : s = []
    · subst single
      rw [decimal, List.foldl_nil, Nat.mul_zero, Nat.zero_add, Nat.toDigits_of_lt_base small, shown]
      rfl
    · rw [List.head?_append_of_ne_nil _ single] at head
      have start := ih single all.1 head
      have positive : 0 < decimal s := by
        rw [Nat.pos_iff_ne_zero]
        intro zero
        rw [zero] at start
        rw [← start] at head
        exact head rfl
      rw [← Nat.toDigits_append_toDigits (by decide) positive small, start,
        Nat.toDigits_of_lt_base small, shown]

theorem head?_toDigits {n : Nat} (positive : 0 < n) : (Nat.toDigits 10 n).head? ≠ some '0' := by
  induction n using Nat.strong_induction_on with
  | h n ih =>
    by_cases small : n < 10
    · rw [Nat.toDigits_of_lt_base small]
      interval_cases n <;> decide
    · have some : Nat.toDigits 10 (n / 10) ≠ [] := Nat.toDigits_ne_nil
      rw [Nat.toDigits_of_base_le (by decide) (by omega), List.head?_append_of_ne_nil _ some]
      exact ih (n / 10) (by omega) (by omega)

theorem leading_zero {n : Nat} (head : (Nat.toDigits 10 n).head? = some '0') :
    Nat.toDigits 10 n = ['0'] := by
  by_cases zero : n = 0
  · rw [zero]
    rfl
  · exact absurd head (head?_toDigits (Nat.pos_of_ne_zero zero))

end Python.Integer
