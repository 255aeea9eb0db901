/-!
# Calendar

Dates and times of day without a time zone, from year 1 to year 9999, in the Gregorian calendar.
-/

namespace Calendar

def isLeap (year : Nat) : Bool :=
  year % 4 = 0 ∧ (year % 100 ≠ 0 ∨ year % 400 = 0)

def daysInMonth (year month : Nat) : Nat :=
  match month with
  | 2 => if isLeap year then 29 else 28
  | 4 | 6 | 9 | 11 => 30
  | _ => 31

def maxYear : Nat := 9999

def IsDate (year month day : Nat) : Prop :=
  (1 ≤ year ∧ year ≤ maxYear) ∧ (1 ≤ month ∧ month ≤ 12) ∧ 1 ≤ day ∧ day ≤ daysInMonth year month

instance (year month day : Nat) : Decidable (IsDate year month day) :=
  inferInstanceAs (Decidable (_ ∧ _ ∧ _ ∧ _))

structure DateTime where
  year : Nat
  month : Nat
  day : Nat
  hour : Nat
  minute : Nat
  second : Nat
  microsecond : Nat
  isDate : IsDate year month day
  isTime : hour < 24 ∧ minute < 60 ∧ second < 60 ∧ microsecond < 1000000
  deriving DecidableEq, Repr

def daysBeforeYear (year : Nat) : Nat :=
  (year - 1) * 365 + (year - 1) / 4 - (year - 1) / 100 + (year - 1) / 400

def daysBeforeMonth (year month : Nat) : Nat :=
  (List.range (month - 1)).foldl (fun days earlier => days + daysInMonth year (earlier + 1)) 0

/-! ## Durations, in microseconds -/

def seconds (n : Nat) : Nat := n * 1000000

def hours (n : Nat) : Nat := seconds (n * 3600)

def days (n : Nat) : Nat := hours (n * 24)

namespace DateTime

def min : DateTime :=
  ⟨1, 1, 1, 0, 0, 0, 0, by decide, by decide⟩

def max : DateTime :=
  ⟨9999, 12, 31, 23, 59, 59, 999999, by decide, by decide⟩

def ordinal (self : DateTime) : Nat :=
  daysBeforeYear self.year + daysBeforeMonth self.year self.month + self.day

def isoweekday (self : DateTime) : Nat :=
  if self.ordinal % 7 = 0 then 7 else self.ordinal % 7

def instant (self : DateTime) : Nat :=
  days self.ordinal + hours self.hour + seconds (self.minute * 60 + self.second) + self.microsecond

def since (self earlier : DateTime) : Int :=
  self.instant - earlier.instant

def withDate? (self : DateTime) (year month day : Nat) : Option DateTime :=
  if isDate : IsDate year month day then some { self with year, month, day, isDate } else none

def monthLater? (self : DateTime) : Option DateTime :=
  let (year, month) := if self.month = 12 then (self.year + 1, 1) else (self.year, self.month + 1)
  self.withDate? year month (Nat.min self.day (daysInMonth year month))

/-! ## The last instant -/

theorem daysBeforeMonth_add_le {year month day : Nat} (isDate : IsDate year month day) :
    daysBeforeMonth year month + day ≤ if isLeap year then 366 else 365 := by
  obtain ⟨-, ⟨low, high⟩, -, short⟩ := isDate
  have each : month = 1 ∨ month = 2 ∨ month = 3 ∨ month = 4 ∨ month = 5 ∨ month = 6 ∨ month = 7 ∨
      month = 8 ∨ month = 9 ∨ month = 10 ∨ month = 11 ∨ month = 12 := by omega
  have whole : daysBeforeMonth year month + daysInMonth year month ≤
      if isLeap year then 366 else 365 := by
    cases leap : isLeap year <;>
      obtain rfl | rfl | rfl | rfl | rfl | rfl | rfl | rfl | rfl | rfl | rfl | rfl := each <;>
        simp [daysBeforeMonth, daysInMonth, leap, List.range_succ]
  omega

theorem ordinal_le_max (self : DateTime) : self.ordinal ≤ max.ordinal := by
  have inYear := daysBeforeMonth_add_le self.isDate
  obtain ⟨⟨low, high⟩, -⟩ := self.isDate
  have last : max.ordinal = daysBeforeYear maxYear + 365 := rfl
  rw [ordinal, last]
  obtain small | same := Nat.lt_or_eq_of_le high
  · have earlier : daysBeforeYear self.year + 365 ≤ daysBeforeYear maxYear := by
      unfold daysBeforeYear maxYear at *
      omega
    split at inYear <;> omega
  · have common : isLeap maxYear = false := rfl
    rw [same] at inYear ⊢
    rw [common] at inYear
    simp only [Bool.false_eq_true, if_false] at inYear
    omega

theorem instant_le_max (self : DateTime) : self.instant ≤ max.instant := by
  have date := self.ordinal_le_max
  have time := self.isTime
  have last : max.instant = days max.ordinal + hours 23 + seconds (59 * 60 + 59) + 999999 := rfl
  rw [instant, last]
  unfold days hours seconds
  omega

end DateTime

end Calendar
