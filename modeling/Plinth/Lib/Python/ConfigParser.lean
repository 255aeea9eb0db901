import Plinth.Lib.Python.Text

/-!
# Values of `configparser`

The value of an option as `ConfigParser` writes it into a file and reads it again, with its basic
interpolation.
-/

namespace Python.ConfigParser

open Text

/-! ## Writing -/

/-- The length of `%\(([^)]+)\)s` at the front of a text. -/
def keyLength : List Char → Option Nat
  | '%' :: '(' :: s =>
    let name := s.takeWhile (· ≠ ')')
    if name ≠ [] ∧ [')', 's'].isPrefixOf (s.drop name.length) then some (name.length + 4) else none
  | _ => none

def withoutKeysFrom : Nat → List Char → List Char
  | _, [] => []
  | skip + 1, _ :: s => withoutKeysFrom skip s
  | 0, c :: s =>
    match keyLength (c :: s) with
    | some length => withoutKeysFrom (length - 1) s
    | none => c :: withoutKeysFrom 0 s

/-- The check of `BasicInterpolation.before_set` -/
def Accepts (value : List Char) : Prop :=
  '%' ∉ withoutKeysFrom 0 (replace ['%', '%'] [] value)

instance (value : List Char) : Decidable (Accepts value) :=
  inferInstanceAs (Decidable (_ ∉ _))

def writeValue (value : List Char) : List Char :=
  replace ['\n'] ['\n', '\t'] value

/-! ## Reading -/

def isComment (line : List Char) : Bool :=
  ['#'].isPrefixOf line || [';'].isPrefixOf line

def isIndented : List Char → Bool
  | [] => false
  | c :: _ => isSpace c

def continuation : List (List Char) → List (List Char) × List (List Char)
  | [] => ([], [])
  | line :: lines =>
    if strip line = [] then ([] :: (continuation lines).1, (continuation lines).2)
    else if isComment (strip line) then continuation lines
    else if isIndented line then (strip line :: (continuation lines).1, (continuation lines).2)
    else ([], line :: lines)

def joinLines (lines : List (List Char)) : List Char :=
  rstrip (['\n'].intercalate lines)

/-- `BasicInterpolation.before_get`, in a section where no other option can be looked up. -/
def interpolate : List Char → Option (List Char)
  | [] => some []
  | '%' :: '%' :: s => (interpolate s).map ('%' :: ·)
  | c :: s => if c = '%' then none else (interpolate s).map (c :: ·)

def readLines (text : List Char) : List (List Char) × List (List Char) :=
  match (universalNewlines text).splitOn '\n' with
  | [] => ([], [])
  | first :: lines => (strip first :: (continuation lines).1, (continuation lines).2)

def readValue (text : List Char) : Option (List Char) :=
  interpolate (joinLines (readLines text).1)

/-! ## Values that are read as they were written -/

structure Kept (value : List Char) : Prop where
  noPercent : '%' ∉ value
  noReturn : '\r' ∉ value
  stripped : ∀ line ∈ value.splitOn '\n', strip line = line
  noComment : ∀ line ∈ (value.splitOn '\n').tail, isComment line = false
  ended : rstrip value = value

theorem interpolate_of_not_mem {s : List Char} (absent : '%' ∉ s) : interpolate s = some s := by
  fun_induction interpolate s with
  | case1 => rfl
  | case2 s ih => simp at absent
  | case3 s notBoth => simp at absent
  | case4 c s notBoth notPercent ih =>
    rw [List.mem_cons, not_or] at absent
    rw [ih absent.2]
    rfl

theorem length_interpolate {s value : List Char} (read : interpolate s = some value) :
    value.length ≤ s.length ∧ ('%' ∈ s → value.length < s.length) ∧
      ∀ c ∈ value, c ∈ s := by
  fun_induction interpolate s generalizing value with
  | case1 =>
    cases read
    simp
  | case2 s ih =>
    rw [Option.map_eq_some_iff] at read
    obtain ⟨rest, later, rfl⟩ := read
    obtain ⟨le, _, members⟩ := ih later
    refine ⟨?_, ?_, ?_⟩
    · simp only [List.length_cons]
      omega
    · intro _
      simp only [List.length_cons]
      omega
    · intro c member
      rcases List.mem_cons.mp member with rfl | member
      · exact List.mem_cons_self
      · exact List.mem_cons_of_mem _ (List.mem_cons_of_mem _ (members c member))
  | case3 s notBoth => cases read
  | case4 c s notBoth notPercent ih =>
    rw [Option.map_eq_some_iff] at read
    obtain ⟨rest, later, rfl⟩ := read
    obtain ⟨le, lt, members⟩ := ih later
    refine ⟨?_, ?_, ?_⟩
    · simp only [List.length_cons]
      omega
    · intro inside
      have inRest : '%' ∈ s := (List.mem_cons.mp inside).resolve_left (Ne.symm notPercent)
      have shorter := lt inRest
      simp only [List.length_cons]
      omega
    · intro d member
      rcases List.mem_cons.mp member with rfl | member
      · exact List.mem_cons_self
      · exact List.mem_cons_of_mem _ (members d member)

theorem universalNewlines_writeValue {value : List Char} (noReturn : '\r' ∉ value) :
    universalNewlines (writeValue value) = writeValue value := by
  rw [universalNewlines_eq_iff, writeValue]
  induction value with
  | nil => simp [replace, replaceFrom]
  | cons c value ih =>
    rw [List.mem_cons, not_or] at noReturn
    rw [replace_single_cons, List.mem_append, not_or]
    refine ⟨?_, ih noReturn.2⟩
    split
    · simp
    · rw [List.mem_singleton]
      exact noReturn.1

theorem splitOn_writeValue (value : List Char) :
    ∃ first lines, value.splitOn '\n' = first :: lines ∧
      (writeValue value).splitOn '\n' = first :: lines.map ('\t' :: ·) := by
  induction value with
  | nil => exact ⟨[], [], rfl, rfl⟩
  | cons c value ih =>
    obtain ⟨first, lines, split, written⟩ := ih
    rw [writeValue] at written ⊢
    rw [replace_single_cons, List.splitOn_cons_eq_if_modifyHead, split]
    by_cases isBreak : c = '\n'
    · subst isBreak
      refine ⟨[], first :: lines, by simp, ?_⟩
      have differ : ('\t' == '\n') = false := by decide
      rw [if_pos rfl]
      show ('\n' :: '\t' :: replace ['\n'] ['\n', '\t'] value).splitOn '\n' = _
      rw [List.splitOn_cons_eq_if_modifyHead, List.splitOn_cons_eq_if_modifyHead, written]
      simp [differ]
    · have notBreak : (c == '\n') = false := beq_false_of_ne isBreak
      refine ⟨c :: first, lines, by simp [notBreak], ?_⟩
      rw [if_neg isBreak, List.singleton_append, List.splitOn_cons_eq_if_modifyHead, written]
      simp [notBreak]

def size : List (List Char) → Nat
  | [] => 0
  | line :: lines => line.length + 1 + size lines

theorem size_eq (first : List Char) (lines : List (List Char)) :
    (['\n'].intercalate (first :: lines)).length + 1 = size (first :: lines) := by
  induction lines generalizing first with
  | nil => simp [size, List.intercalate]
  | cons next lines ih =>
    rw [List.intercalate_cons_cons, size, ← ih next]
    simp only [List.length_append, List.length_singleton]
    omega

theorem strip_tab (line : List Char) : strip ('\t' :: line) = strip line := by
  rw [strip, strip, lstrip, lstrip, List.dropWhile_cons_of_pos (by decide)]

theorem continuation_tabbed (lines : List (List Char)) :
    (continuation (lines.map ('\t' :: ·))).2 = [] ∧
      size (continuation (lines.map ('\t' :: ·))).1 ≤ size lines ∧
      (size (continuation (lines.map ('\t' :: ·))).1 = size lines →
        ∀ line ∈ lines, strip line = line ∧ isComment line = false) := by
  induction lines with
  | nil => simp [continuation, size]
  | cons line lines ih =>
    obtain ⟨all, le, eq⟩ := ih
    have indented : isIndented ('\t' :: line) = true := rfl
    rw [List.map_cons, continuation, strip_tab, List.forall_mem_cons]
    by_cases blank : strip line = []
    · rw [if_pos blank]
      refine ⟨all, ?_, ?_⟩
      · simp only [size, List.length_nil]
        omega
      · intro same
        simp only [size, List.length_nil] at same
        have empty : line = [] := List.eq_nil_of_length_eq_zero (by omega)
        subst empty
        exact ⟨⟨rfl, rfl⟩, eq (by omega)⟩
    · rw [if_neg blank]
      by_cases comment : isComment (strip line) = true
      · rw [if_pos comment]
        refine ⟨all, ?_, ?_⟩
        · simp only [size]
          omega
        · intro same
          simp only [size] at same
          omega
      · rw [if_neg comment, if_pos indented]
        have shorter := strip_length line
        refine ⟨all, ?_, ?_⟩
        · simp only [size]
          omega
        · intro same
          simp only [size] at same
          have stripped : strip line = line := (strip_sublist line).eq_of_length (by omega)
          rw [stripped] at comment
          exact ⟨⟨stripped, by simpa using comment⟩, eq (by omega)⟩

theorem continuation_kept {lines : List (List Char)}
    (stripped : ∀ line ∈ lines, strip line = line)
    (noComment : ∀ line ∈ lines, isComment line = false) :
    (continuation (lines.map ('\t' :: ·))).1 = lines := by
  induction lines with
  | nil => rfl
  | cons line lines ih =>
    rw [List.forall_mem_cons] at stripped noComment
    have indented : isIndented ('\t' :: line) = true := rfl
    rw [List.map_cons, continuation, strip_tab, stripped.1, noComment.1]
    by_cases blank : line = []
    · rw [if_pos blank, ih stripped.2 noComment.2, blank]
    · rw [if_neg blank, if_neg Bool.false_ne_true, if_pos indented, ih stripped.2 noComment.2]

theorem readLines_writeValue {value first : List Char} {lines : List (List Char)}
    (noReturn : '\r' ∉ value)
    (written : (writeValue value).splitOn '\n' = first :: lines.map ('\t' :: ·)) :
    readLines (writeValue value) =
      (strip first :: (continuation (lines.map ('\t' :: ·))).1, []) := by
  rw [readLines, universalNewlines_writeValue noReturn, written]
  dsimp only
  rw [(continuation_tabbed lines).1]

theorem unread_writeValue {value : List Char} (noReturn : '\r' ∉ value) :
    (readLines (writeValue value)).2 = [] := by
  obtain ⟨first, lines, _, written⟩ := splitOn_writeValue value
  rw [readLines_writeValue noReturn written]

theorem not_mem_continuation {c : Char} {lines : List (List Char)}
    (absent : ∀ line ∈ lines, c ∉ line) : ∀ line ∈ (continuation lines).1, c ∉ line := by
  induction lines with
  | nil => simp [continuation]
  | cons line lines ih =>
    rw [List.forall_mem_cons] at absent
    have later := ih absent.2
    have here : c ∉ strip line := fun inside => absent.1 ((strip_sublist line).subset inside)
    rw [continuation]
    split
    · simpa using later
    · split
      · exact later
      · split
        · rw [List.forall_mem_cons]
          exact ⟨here, later⟩
        · simp

theorem noReturn_of_read {text value : List Char} (read : readValue text = some value) :
    '\r' ∉ value := by
  intro inside
  have inJoined := (length_interpolate read).2.2 _ inside
  have inLines := (List.rdropWhile_prefix _ _).subset inJoined
  revert inLines
  apply not_mem_intercalate (by decide)
  have pieces : ∀ line ∈ (universalNewlines text).splitOn '\n', '\r' ∉ line := by
    intro line member inLine
    exact not_mem_universalNewlines text (mem_of_mem_splitOn member inLine)
  rw [readLines]
  cases split : (universalNewlines text).splitOn '\n' with
  | nil => simp
  | cons first lines =>
    rw [split, List.forall_mem_cons] at pieces
    rw [List.forall_mem_cons]
    exact ⟨fun inFirst => pieces.1 ((strip_sublist first).subset inFirst),
      not_mem_continuation pieces.2⟩

theorem readValue_writeValue_iff (value : List Char) :
    readValue (writeValue value) = some value ↔ Kept value := by
  obtain ⟨first, lines, split, written⟩ := splitOn_writeValue value
  have joined : ['\n'].intercalate (first :: lines) = value := by
    rw [← split]
    exact List.intercalate_splitOn '\n'
  constructor
  · intro read
    have noReturn := noReturn_of_read read
    rw [readValue, readLines_writeValue noReturn written] at read
    dsimp only at read
    generalize restOf : (continuation (lines.map ('\t' :: ·))).1 = rest at read
    obtain ⟨_, le, eq⟩ := continuation_tabbed lines
    rw [restOf] at le eq
    have longest := (length_interpolate read).1
    have shorter : (joinLines (strip first :: rest)).length ≤
        (['\n'].intercalate (strip first :: rest)).length :=
      (List.rdropWhile_prefix _ _).length_le
    have lengthRead := size_eq (strip first) rest
    have lengthValue := size_eq first lines
    have lengthFirst := strip_length first
    rw [joined] at lengthValue
    simp only [size] at lengthRead lengthValue
    have noPercent : '%' ∉ joinLines (strip first :: rest) := by
      intro inside
      have less := (length_interpolate read).2.1 inside
      omega
    rw [interpolate_of_not_mem noPercent] at read
    have same := Option.some.inj read
    have strippedFirst : strip first = first := (strip_sublist first).eq_of_length (by omega)
    have others := eq (by omega)
    have sameLength : (joinLines (strip first :: rest)).length =
        (['\n'].intercalate (strip first :: rest)).length := by
      omega
    have untouched : joinLines (strip first :: rest) = ['\n'].intercalate (strip first :: rest) :=
      (List.rdropWhile_prefix _ _).sublist.eq_of_length sameLength
    refine ⟨same ▸ noPercent, noReturn, ?_, ?_, ?_⟩
    · rw [split, List.forall_mem_cons]
      exact ⟨strippedFirst, fun line member => (others line member).1⟩
    · rw [split]
      exact fun line member => (others line member).2
    · rw [untouched] at same
      rw [← same]
      exact untouched
  · rintro ⟨noPercent, noReturn, stripped, noComment, ended⟩
    rw [split, List.forall_mem_cons] at stripped
    rw [split] at noComment
    rw [readValue, readLines_writeValue noReturn written]
    dsimp only
    rw [stripped.1, continuation_kept stripped.2 noComment, joinLines, joined, ended,
      interpolate_of_not_mem noPercent]

end Python.ConfigParser
