import Mathlib.Data.List.DropRight
import Mathlib.Data.List.Infix

/-!
# Methods of strings

The methods of `str`, on the characters of a string.
-/

namespace Python.Text

instance lawfulBEqListChar : LawfulBEq (List Char) := inferInstance

theorem numbered_injective (start : String) :
    Function.Injective fun number : Nat => start ++ toString number := by
  intro number number' same
  have digits := congrArg String.toList same
  rw [String.toList_append, String.toList_append, List.append_cancel_left_eq] at digits
  have value := congrArg (fun digits => Nat.ofDigitChars 10 digits 0) digits
  simpa using value

/-- `s.removesuffix(suffix)` -/
def removesuffix (s suffix : List Char) : List Char :=
  if suffix.isSuffixOf s then s.take (s.length - suffix.length) else s

/-- `s.split(sep)[0]`: what stands before the first occurrence, or everything. -/
def before (sep : List Char) : List Char → List Char
  | [] => []
  | c :: rest => if sep.isPrefixOf (c :: rest) then [] else c :: before sep rest

def universalNewlines : List Char → List Char
  | [] => []
  | '\r' :: '\n' :: s => '\n' :: universalNewlines s
  | c :: s => (if c = '\r' then '\n' else c) :: universalNewlines s

/-- `c.isspace()` -/
def isSpace (c : Char) : Bool :=
  (0x9 ≤ c.toNat ∧ c.toNat ≤ 0xd) ∨ (0x1c ≤ c.toNat ∧ c.toNat ≤ 0x20) ∨ c.toNat = 0x85 ∨
    c.toNat = 0xa0 ∨ c.toNat = 0x1680 ∨ (0x2000 ≤ c.toNat ∧ c.toNat ≤ 0x200a) ∨ c.toNat = 0x2028 ∨
    c.toNat = 0x2029 ∨ c.toNat = 0x202f ∨ c.toNat = 0x205f ∨ c.toNat = 0x3000

def lstrip (s : List Char) : List Char :=
  s.dropWhile isSpace

def rstrip (s : List Char) : List Char :=
  s.rdropWhile isSpace

def strip (s : List Char) : List Char :=
  rstrip (lstrip s)

/-- `s.lstrip(chars)` -/
def lstripChars (chars s : List Char) : List Char :=
  s.dropWhile (· ∈ chars)

/-- `s.rstrip(chars)` -/
def rstripChars (chars s : List Char) : List Char :=
  s.rdropWhile (· ∈ chars)

/-- `s.strip(chars)` -/
def stripChars (chars s : List Char) : List Char :=
  rstripChars chars (lstripChars chars s)

def startswith (s start : List Char) : Bool :=
  start.isPrefixOf s

/-- `s.find(word)` -/
def find (word : List Char) : List Char → Option Nat
  | [] => if word = [] then some 0 else none
  | c :: s => if word.isPrefixOf (c :: s) then some 0 else (find word s).map (· + 1)

/-- `word in s` -/
def contains (word s : List Char) : Bool :=
  (find word s).isSome

/-- `s.partition(sep)`, without the separator -/
def partition (sep s : List Char) : List Char × List Char :=
  match find sep s with
  | some start => (s.take start, s.drop (start + sep.length))
  | none => (s, [])

def splitFrom (sep : List Char) : Nat → List Char → List (List Char)
  | _, [] => [[]]
  | skip + 1, _ :: s => splitFrom sep skip s
  | 0, c :: s =>
    if sep.isPrefixOf (c :: s) then [] :: splitFrom sep (sep.length - 1) s
    else (splitFrom sep 0 s).modifyHead (c :: ·)

/-- `s.split(sep)` -/
def split (sep s : List Char) : List (List Char) :=
  splitFrom sep 0 s

/-- A text with `old` replaced, after some characters of an occurrence of it. -/
def replaceFrom (old new : List Char) : Nat → List Char → List Char
  | _, [] => []
  | skip + 1, _ :: s => replaceFrom old new skip s
  | 0, c :: s =>
    if old.isPrefixOf (c :: s) then new ++ replaceFrom old new (old.length - 1) s
    else c :: replaceFrom old new 0 s

/-- `s.replace(old, new)` -/
def replace (old new s : List Char) : List Char :=
  replaceFrom old new 0 s

/-- `s.removeprefix(start)` -/
def removeprefix (s start : List Char) : List Char :=
  if start.isPrefixOf s then s.drop start.length else s

def isLineBreak (c : Char) : Bool :=
  (0xa ≤ c.toNat ∧ c.toNat ≤ 0xd) ∨ (0x1c ≤ c.toNat ∧ c.toNat ≤ 0x1e) ∨ c.toNat = 0x85 ∨
    c.toNat = 0x2028 ∨ c.toNat = 0x2029

/-- `s.splitlines(True)` -/
def splitlines : List Char → List (List Char)
  | [] => []
  | '\r' :: '\n' :: s => ['\r', '\n'] :: splitlines s
  | c :: s =>
    if isLineBreak c then [c] :: splitlines s
    else match splitlines s with
      | [] => [[c]]
      | line :: lines => (c :: line) :: lines

/-- `s.splitlines()` -/
def lines (s : List Char) : List (List Char) :=
  (splitlines s).map fun line => line.filter fun c => !isLineBreak c

/-- `s.split()[0]` of a text that is not blank -/
def firstWord (s : List Char) : List Char :=
  (lstrip s).takeWhile fun c => !isSpace c

/-- `s.split()` -/
def words (s : List Char) : List (List Char) :=
  (s.splitOnP isSpace).filter (· ≠ [])

/-- `file.readlines()` of what a file is read as -/
def readlines : List Char → List (List Char)
  | [] => []
  | c :: s =>
    if c = '\n' then ['\n'] :: readlines s
    else match readlines s with
      | [] => [[c]]
      | line :: lines => (c :: line) :: lines

/-- `s.rfind(word)` -/
def rfind (word : List Char) : List Char → Option Nat
  | [] => if word = [] then some 0 else none
  | c :: s =>
    match rfind word s with
    | some start => some (start + 1)
    | none => if word.isPrefixOf (c :: s) then some 0 else none

/-! ## Line breaks of files -/

theorem universalNewlines_cons_of_ne {c : Char} (notReturn : c ≠ '\r') (s : List Char) :
    universalNewlines (c :: s) = c :: universalNewlines s := by
  rw [universalNewlines]
  · rw [if_neg notReturn]
  · intro _ same
    exact absurd same notReturn

theorem not_mem_universalNewlines (s : List Char) : '\r' ∉ universalNewlines s := by
  fun_induction universalNewlines s with
  | case1 => simp
  | case2 s ih => simp [ih]
  | case3 c s notBoth ih =>
    rw [List.mem_cons]
    rintro (same | later)
    · split at same
      · exact absurd same (by decide)
      · rename_i notReturn
        exact notReturn same.symm
    · exact ih later

theorem universalNewlines_eq_iff (s : List Char) : universalNewlines s = s ↔ '\r' ∉ s := by
  constructor
  · intro same
    rw [← same]
    exact not_mem_universalNewlines s
  · intro absent
    induction s with
    | nil => rfl
    | cons c s ih =>
      rw [List.mem_cons, not_or] at absent
      rw [universalNewlines_cons_of_ne (Ne.symm absent.1), ih absent.2]

/-! ## Replacement -/

theorem replace_single_cons (c : Char) (new s : List Char) (d : Char) :
    replace [c] new (d :: s) = (if d = c then new else [d]) ++ replace [c] new s := by
  unfold replace
  rw [replaceFrom]
  by_cases same : d = c
  · subst same
    simp
  · have differ : ¬ c = d := fun h => same h.symm
    simp [same, differ]

theorem replace_escape {escape quote : Char} (differ : escape ≠ quote) (s : List Char) :
    replace [escape, quote] [quote] (replace [quote] [escape, quote] s) = s := by
  have unescape : ∀ rest, replace [escape, quote] [quote] (escape :: quote :: rest) =
      quote :: replace [escape, quote] [quote] rest := by
    intro rest
    simp [replace, replaceFrom]
  induction s with
  | nil => rfl
  | cons c s ih =>
    rw [replace_single_cons]
    by_cases isQuote : c = quote
    · rw [if_pos isQuote, isQuote]
      show replace [escape, quote] [quote]
        (escape :: quote :: replace [quote] [escape, quote] s) = quote :: s
      rw [unescape, ih]
    · have other : ¬ [escape, quote].isPrefixOf (c :: replace [quote] [escape, quote] s) = true := by
        intro starts
        rw [List.isPrefixOf_iff_prefix, List.cons_prefix_cons] at starts
        cases s with
        | nil => simp [replace, replaceFrom] at starts
        | cons d s =>
          rw [replace_single_cons] at starts
          by_cases next : d = quote
          · simp [next, differ.symm] at starts
          · have differ' : ¬ quote = d := fun h => next h.symm
            simp [next, differ'] at starts
      rw [if_neg isQuote]
      show replaceFrom _ _ 0 (c :: replace [quote] [escape, quote] s) = _
      rw [replaceFrom, if_neg other]
      exact congrArg (c :: ·) ih

theorem removesuffix_append (s suffix : List Char) : removesuffix (s ++ suffix) suffix = s := by
  have ends : suffix.isSuffixOf (s ++ suffix) = true :=
    List.isSuffixOf_iff_suffix.mpr (List.suffix_append s suffix)
  unfold removesuffix
  rw [if_pos ends]
  simp

theorem removesuffix_cases (s suffix : List Char) :
    removesuffix s suffix = s ∨ s = removesuffix s suffix ++ suffix := by
  unfold removesuffix
  split
  · rename_i ends
    obtain ⟨start, rfl⟩ := List.isSuffixOf_iff_suffix.mp ends
    right
    simp
  · exact .inl rfl

theorem removesuffix_of_not_mem {c : Char} {s suffix : List Char} (member : c ∈ suffix)
    (absent : c ∉ s) : removesuffix s suffix = s := by
  unfold removesuffix
  rw [if_neg]
  intro ends
  exact absent ((List.isSuffixOf_iff_suffix.mp ends).subset member)

theorem removeprefix_append (start s : List Char) : removeprefix (start ++ s) start = s := by
  have starts : start.isPrefixOf (start ++ s) = true :=
    List.isPrefixOf_iff_prefix.mpr (List.prefix_append start s)
  unfold removeprefix
  rw [if_pos starts]
  simp

/-! ## Lengths -/

theorem find_le {word s : List Char} {start : Nat} (found : find word s = some start) :
    start + word.length ≤ s.length := by
  induction s generalizing start with
  | nil =>
    rw [find] at found
    split at found
    · rename_i empty
      cases found
      rw [empty]
      rfl
    · cases found
  | cons c s ih =>
    rw [find] at found
    split at found
    · rename_i starts
      cases found
      rw [Nat.zero_add]
      exact (List.isPrefixOf_iff_prefix.mp starts).length_le
    · rw [Option.map_eq_some_iff] at found
      obtain ⟨later, found, rfl⟩ := found
      have bound := ih found
      rw [List.length_cons]
      omega

theorem partition_length (sep s : List Char) :
    (partition sep s).1.length + (partition sep s).2.length ≤ s.length := by
  rw [partition]
  cases found : find sep s with
  | none => simp
  | some start =>
    have bound := find_le found
    simp only [List.length_take, List.length_drop]
    omega

theorem strip_length (s : List Char) : (strip s).length ≤ s.length :=
  Nat.le_trans (List.rdropWhile_prefix _ _).length_le (List.dropWhile_sublist _).length_le

theorem not_mem_of_lstripChars {chars s rest : List Char} {c : Char}
    (stripped : lstripChars chars s = c :: rest) : c ∉ chars := by
  have stops := List.head?_dropWhile_not (fun c => decide (c ∈ chars)) s
  rw [lstripChars] at stripped
  rw [stripped] at stops
  exact of_decide_eq_false stops

/-! ## Lines -/

theorem splitlines_cons {c : Char} (notBreak : isLineBreak c = false) (s : List Char) :
    splitlines (c :: s) = match splitlines s with
      | [] => [[c]]
      | line :: lines => (c :: line) :: lines := by
  have notReturn : c ≠ '\r' := by
    rintro rfl
    revert notBreak
    decide
  rw [splitlines]
  · rw [notBreak]
    rfl
  · intro _ same
    exact absurd same notReturn

theorem splitlines_break {c : Char} (isBreak : isLineBreak c = true) {s : List Char}
    (notPair : ∀ rest, c = '\r' → s ≠ '\n' :: rest) : splitlines (c :: s) = [c] :: splitlines s := by
  rw [splitlines]
  · rw [isBreak]
    rfl
  · exact notPair

theorem splitlines_flatten (s : List Char) : (splitlines s).flatten = s := by
  induction s using splitlines.induct with
  | case1 => rfl
  | case2 s ih => rw [splitlines, List.flatten_cons, ih, List.cons_append, List.cons_append,
      List.nil_append]
  | case3 c s notPair isBreak ih =>
    rw [splitlines_break isBreak notPair, List.flatten_cons, ih, List.cons_append, List.nil_append]
  | case4 c s notPair notBreak none ih =>
    rw [splitlines_cons (Bool.eq_false_iff.mpr notBreak), none]
    rw [none] at ih
    rw [← ih]
    rfl
  | case5 c s notPair notBreak line lines found ih =>
    rw [splitlines_cons (Bool.eq_false_iff.mpr notBreak), found]
    rw [found, List.flatten_cons] at ih
    rw [List.flatten_cons, List.cons_append, ih]

theorem splitlines_append {u : List Char} (noBreak : ∀ c ∈ u, isLineBreak c = false)
    {s line : List Char} {lines : List (List Char)} (found : splitlines s = line :: lines) :
    splitlines (u ++ s) = (u ++ line) :: lines := by
  induction u with
  | nil => exact found
  | cons c u ih =>
    rw [List.forall_mem_cons] at noBreak
    rw [List.cons_append, splitlines_cons noBreak.1, ih noBreak.2]
    rfl

theorem splitlines_of_noBreak {u : List Char} (noBreak : ∀ c ∈ u, isLineBreak c = false)
    (nonempty : u ≠ []) : splitlines u = [u] := by
  induction u with
  | nil => exact absurd rfl nonempty
  | cons c u ih =>
    rw [List.forall_mem_cons] at noBreak
    rw [splitlines_cons noBreak.1]
    cases u with
    | nil => rfl
    | cons d u => rw [ih noBreak.2 (List.cons_ne_nil d u)]

theorem not_mem_intercalate {c sep : Char} (differ : c ≠ sep) {pieces : List (List Char)}
    (absent : ∀ piece ∈ pieces, c ∉ piece) : c ∉ [sep].intercalate pieces := by
  induction pieces with
  | nil => simp [List.intercalate]
  | cons piece pieces ih =>
    rw [List.forall_mem_cons] at absent
    cases pieces with
    | nil => simpa [List.intercalate] using absent.1
    | cons next pieces =>
      rw [List.intercalate_cons_cons]
      simp only [List.mem_append, List.mem_singleton, not_or]
      exact ⟨⟨absent.1, differ⟩, ih absent.2⟩

theorem noBreak_of_mem_lines {s line : List Char} (member : line ∈ lines s) :
    ∀ c ∈ line, isLineBreak c = false := by
  obtain ⟨whole, -, rfl⟩ := List.mem_map.mp member
  intro c inside
  have kept := (List.mem_filter.mp inside).2
  rwa [Bool.not_eq_true'] at kept

theorem filter_noBreak {u : List Char} (noBreak : ∀ c ∈ u, isLineBreak c = false) :
    (u.filter fun c => !isLineBreak c) = u := by
  rw [List.filter_eq_self]
  intro c member
  rw [noBreak c member]
  rfl

theorem lines_append {u : List Char} (noBreak : ∀ c ∈ u, isLineBreak c = false) (s : List Char) :
    lines (u ++ '\n' :: s) = u :: lines s := by
  have first : splitlines ('\n' :: s) = ['\n'] :: splitlines s :=
    splitlines_break (by decide) fun _ same => absurd same (by decide)
  have ends : (['\n'].filter fun c => !isLineBreak c) = [] := by decide
  rw [lines, splitlines_append noBreak first, List.map_cons, List.filter_append,
    filter_noBreak noBreak, ends, List.append_nil]
  rfl

theorem lines_of_noBreak {u : List Char} (noBreak : ∀ c ∈ u, isLineBreak c = false)
    (nonempty : u ≠ []) : lines u = [u] := by
  rw [lines, splitlines_of_noBreak noBreak nonempty, List.map_singleton, filter_noBreak noBreak]

theorem lines_intercalate {all : List (List Char)}
    (whole : ∀ line ∈ all, line ≠ [] ∧ ∀ c ∈ line, isLineBreak c = false) :
    lines (['\n'].intercalate all) = all := by
  induction all with
  | nil => rfl
  | cons line rest ih =>
    obtain ⟨⟨nonempty, noBreak⟩, later⟩ := List.forall_mem_cons.mp whole
    cases rest with
    | nil =>
      rw [List.intercalate_singleton]
      exact lines_of_noBreak noBreak nonempty
    | cons next rest =>
      rw [List.intercalate_cons_cons, List.append_assoc, List.singleton_append,
        lines_append noBreak, ih later]

/-! ## Splitting at a character -/

section SplitOn

variable {sep : Char}

theorem length_splitOn (sep : Char) (s : List Char) : (s.splitOn sep).length = s.count sep + 1 := by
  induction s with
  | nil => rfl
  | cons c s ih =>
    rw [List.splitOn_cons_eq_if_modifyHead]
    split
    · rename_i same
      rw [List.length_cons, ih, List.count_cons, if_pos same]
    · rename_i other
      rw [List.length_modifyHead, ih, List.count_cons, if_neg other, Nat.add_zero]

theorem not_mem_of_mem_splitOn {s piece : List Char} (member : piece ∈ s.splitOn sep) : sep ∉ piece := by
  induction s generalizing piece with
  | nil =>
    rw [List.mem_singleton.mp member]
    exact List.not_mem_nil
  | cons c s ih =>
    rw [List.splitOn_cons_eq_if_modifyHead] at member
    split at member
    · rcases List.mem_cons.mp member with rfl | member
      · exact List.not_mem_nil
      · exact ih member
    · rename_i other
      cases pieces : s.splitOn sep with
      | nil => exact absurd pieces (List.splitOn_ne_nil sep s)
      | cons first pieces' =>
        rw [pieces, List.modifyHead_cons] at member
        rw [pieces] at ih
        rcases List.mem_cons.mp member with rfl | member
        · rw [List.mem_cons, not_or]
          exact ⟨fun same => other (by simp [same]), ih List.mem_cons_self⟩
        · exact ih (List.mem_cons_of_mem _ member)

theorem mem_of_mem_splitOn {s piece : List Char} (member : piece ∈ s.splitOn sep) {c : Char}
    (inside : c ∈ piece) : c ∈ s := by
  have whole : [sep].intercalate (s.splitOn sep) = s := List.intercalate_splitOn sep
  rw [← whole]
  generalize s.splitOn sep = pieces at member
  induction pieces with
  | nil => cases member
  | cons first pieces ih =>
    cases pieces with
    | nil =>
      rw [List.mem_singleton.mp member] at inside
      simpa [List.intercalate] using inside
    | cons next pieces =>
      rw [List.intercalate_cons_cons]
      rcases List.mem_cons.mp member with rfl | member
      · exact List.mem_append_left _ (List.mem_append_left _ inside)
      · exact List.mem_append_right _ (ih member)

theorem exists_mem_splitOn {s : List Char} {c : Char} (member : c ∈ s) (other : c ≠ sep) :
    ∃ piece ∈ s.splitOn sep, c ∈ piece := by
  induction s with
  | nil => cases member
  | cons d s ih =>
    rw [List.splitOn_cons_eq_if_modifyHead]
    split
    · rename_i isSep
      rcases List.mem_cons.mp member with rfl | later
      · exact absurd (eq_of_beq isSep) other
      · obtain ⟨piece, listed, inside⟩ := ih later
        exact ⟨piece, List.mem_cons_of_mem _ listed, inside⟩
    · cases pieces : s.splitOn sep with
      | nil => exact absurd pieces (List.splitOn_ne_nil sep s)
      | cons first rest =>
        rw [pieces] at ih
        rw [List.modifyHead_cons]
        rcases List.mem_cons.mp member with rfl | later
        · exact ⟨_, List.mem_cons_self, List.mem_cons_self⟩
        · obtain ⟨piece, listed, inside⟩ := ih later
          rcases List.mem_cons.mp listed with rfl | listed
          · exact ⟨_, List.mem_cons_self, List.mem_cons_of_mem _ inside⟩
          · exact ⟨piece, List.mem_cons_of_mem _ listed, inside⟩

theorem splitOn_first (sep : Char) (s : List Char) : ∃ first pieces, s.splitOn sep = first :: pieces ∧
    (s = first ∨ ∃ rest, s = first ++ sep :: rest) := by
  induction s with
  | nil => exact ⟨[], [], rfl, .inl rfl⟩
  | cons c s ih =>
    obtain ⟨first, pieces, same, starts⟩ := ih
    rw [List.splitOn_cons_eq_if_modifyHead]
    split
    · rename_i isSep
      refine ⟨[], _, rfl, .inr ⟨s, ?_⟩⟩
      rw [eq_of_beq isSep]
      rfl
    · refine ⟨c :: first, pieces, by rw [same, List.modifyHead_cons], ?_⟩
      rcases starts with rfl | ⟨rest, rfl⟩
      · exact .inl rfl
      · exact .inr ⟨rest, rfl⟩

theorem count_intercalate {pieces : List (List Char)} (absent : ∀ piece ∈ pieces, sep ∉ piece) :
    ([sep].intercalate pieces).count sep = pieces.length - 1 := by
  induction pieces with
  | nil => rfl
  | cons piece pieces ih =>
    rw [List.forall_mem_cons] at absent
    have none : piece.count sep = 0 := List.count_eq_zero.mpr absent.1
    cases pieces with
    | nil => simp [List.intercalate, none]
    | cons next pieces =>
      rw [List.intercalate_cons_cons, List.count_append, List.count_append, ih absent.2, none]
      simp [Nat.add_comm]

end SplitOn

/-! ## Words -/

theorem words_cons_of_space {c : Char} (space : isSpace c = true) (s : List Char) :
    words (c :: s) = words s := by
  rw [words, List.splitOnP_cons_eq_if_modifyHead, if_pos space]
  rfl

theorem words_append_of_space {c : Char} (space : isSpace c = true) (s : List Char) :
    words (s ++ [c]) = words s := by
  rw [words, List.splitOnP_append_cons s [] space, List.filter_append]
  exact List.append_nil _

theorem words_lstrip (s : List Char) : words (lstrip s) = words s := by
  induction s with
  | nil => rfl
  | cons c s ih =>
    by_cases space : isSpace c = true
    · rw [lstrip, List.dropWhile_cons_of_pos space, words_cons_of_space space]
      exact ih
    · rw [lstrip, List.dropWhile_cons_of_neg space]

theorem words_rstrip (s : List Char) : words (rstrip s) = words s := by
  induction s using List.reverseRecOn with
  | nil => rfl
  | append_singleton s c ih =>
    by_cases space : isSpace c = true
    · rw [rstrip, List.rdropWhile_concat_pos _ _ _ space, words_append_of_space space]
      exact ih
    · rw [rstrip, List.rdropWhile_concat_neg _ _ _ space]

@[simp] theorem words_strip (s : List Char) : words (strip s) = words s := by
  rw [strip, words_rstrip, words_lstrip]

theorem of_mem_splitOnP {p : Char → Bool} {s piece : List Char} (member : piece ∈ s.splitOnP p) :
    ∀ c ∈ piece, c ∈ s ∧ p c = false := by
  induction s generalizing piece with
  | nil =>
    rw [List.mem_singleton.mp member]
    intro c inside
    cases inside
  | cons c s ih =>
    have later : ∀ {piece}, piece ∈ s.splitOnP p → ∀ d ∈ piece, d ∈ c :: s ∧ p d = false :=
      fun member d inside => (ih member d inside).imp_left (List.mem_cons_of_mem c)
    rw [List.splitOnP_cons_eq_if_modifyHead] at member
    split at member
    · obtain rfl | member := List.mem_cons.mp member
      · intro c inside
        cases inside
      · exact later member
    · rename_i other
      cases pieces : s.splitOnP p with
      | nil => exact absurd pieces (List.splitOnP_ne_nil p s)
      | cons first rest =>
        rw [pieces, List.modifyHead_cons] at member
        rw [pieces] at later
        obtain rfl | member := List.mem_cons.mp member
        · intro d inside
          obtain rfl | inside := List.mem_cons.mp inside
          · exact ⟨List.mem_cons_self, Bool.not_eq_true _ ▸ other⟩
          · exact later List.mem_cons_self d inside
        · exact later (List.mem_cons_of_mem _ member)

theorem of_mem_words {s word : List Char} (member : word ∈ words s) :
    word ≠ [] ∧ ∀ c ∈ word, isSpace c = false := by
  obtain ⟨piece, nonempty⟩ := List.mem_filter.mp member
  exact ⟨of_decide_eq_true nonempty, fun c inside => (of_mem_splitOnP piece c inside).2⟩

theorem mem_of_mem_words {s word : List Char} (member : word ∈ words s) {c : Char}
    (inside : c ∈ word) : c ∈ s :=
  (of_mem_splitOnP (List.mem_filter.mp member).1 c inside).1

theorem words_eq_nil_iff (s : List Char) : words s = [] ↔ ∀ c ∈ s, isSpace c = true := by
  induction s with
  | nil => exact iff_of_true rfl (List.forall_mem_nil _)
  | cons c s ih =>
    by_cases space : isSpace c = true
    · rw [words_cons_of_space space, ih, List.forall_mem_cons, and_iff_right space]
    · rw [List.forall_mem_cons]
      refine iff_of_false ?_ fun all => space all.1
      intro none
      rw [words, List.splitOnP_cons_eq_if_modifyHead, if_neg space] at none
      cases pieces : s.splitOnP isSpace with
      | nil => exact List.splitOnP_ne_nil isSpace s pieces
      | cons first rest =>
        rw [pieces, List.modifyHead_cons, List.filter_cons_of_pos (by simp)] at none
        cases none

theorem strip_eq_nil_iff (s : List Char) : strip s = [] ↔ words s = [] := by
  constructor
  · intro empty
    rw [← words_strip, empty]
    rfl
  · intro none
    have blank : lstrip s = [] := List.dropWhile_eq_nil_iff.mpr ((words_eq_nil_iff s).mp none)
    rw [strip, blank]
    rfl

theorem strip_eq_self {s : List Char} (head : ∀ c ∈ s.head?, isSpace c = false)
    (last : ∀ c ∈ s.getLast?, isSpace c = false) : strip s = s := by
  have started : lstrip s = s := by
    cases s with
    | nil => rfl
    | cons c s => exact List.dropWhile_cons_of_neg (by simp [head c rfl])
  rw [strip, started]
  apply List.rdropWhile_eq_self_iff.mpr
  intro nonempty
  rw [last _ (List.getLast?_eq_some_getLast nonempty)]
  exact Bool.false_ne_true

theorem rdropWhile_append_of_not {p : Char → Bool} {c : Char} (stop : p c = false)
    (front rest : List Char) :
    (front ++ c :: rest).rdropWhile p = front ++ (c :: rest).rdropWhile p := by
  have nonempty : ((c :: rest).reverse.dropWhile p).isEmpty = false := by
    rw [List.isEmpty_eq_false_iff, Ne, List.dropWhile_eq_nil_iff]
    intro all
    have passed := all c (List.mem_reverse.mpr List.mem_cons_self)
    rw [stop] at passed
    cases passed
  rw [List.rdropWhile, List.reverse_append, List.dropWhile_append, nonempty]
  simp [List.rdropWhile]

theorem strip_sublist (s : List Char) : (strip s).Sublist s :=
  (List.rdropWhile_prefix _ _).sublist.trans (List.dropWhile_sublist _)

theorem mem_strip {c : Char} (letter : isSpace c = false) (url : List Char) :
    c ∈ strip url ↔ c ∈ url := by
  constructor
  · intro member
    exact (List.dropWhile_sublist _).subset ((List.rdropWhile_prefix _ _).subset member)
  · intro member
    obtain ⟨front, rest, rfl, -⟩ := List.eq_append_cons_of_mem member
    have left : ∃ front', lstrip (front ++ c :: rest) = front' ++ c :: rest := by
      rw [lstrip, List.dropWhile_append]
      split
      · exact ⟨[], by rw [List.dropWhile_cons_of_neg (by simp [letter])]; rfl⟩
      · exact ⟨_, rfl⟩
    obtain ⟨front', left⟩ := left
    rw [strip, left, rstrip, rdropWhile_append_of_not letter]
    apply List.mem_append_right
    by_contra absent
    have dropped : c ∈ (c :: rest).rtakeWhile isSpace := by
      have whole : c ∈ (c :: rest).rdropWhile isSpace ++ (c :: rest).rtakeWhile isSpace := by
        rw [List.rdropWhile_append_rtakeWhile]
        exact List.mem_cons_self
      exact (List.mem_append.mp whole).resolve_left absent
    have blank := List.mem_rtakeWhile_imp dropped
    rw [letter] at blank
    cases blank

theorem rstrip_cons {c : Char} (letter : isSpace c = false) (s : List Char) :
    rstrip (c :: s) = c :: rstrip s := by
  rw [rstrip, rstrip, List.rdropWhile, List.rdropWhile, List.reverse_cons, List.dropWhile_append]
  split
  · rename_i none
    rw [List.isEmpty_iff.mp none, List.dropWhile_cons_of_neg (by simp [letter])]
    rfl
  · rw [List.reverse_append]
    rfl

theorem lstrip_append {c : Char} (letter : isSpace c = false) (s rest : List Char) :
    lstrip (s ++ c :: rest) = lstrip s ++ c :: rest := by
  rw [lstrip, List.dropWhile_append, lstrip]
  split
  · rename_i none
    rw [List.isEmpty_iff.mp none, List.dropWhile_cons_of_neg (by simp [letter])]
    rfl
  · rfl

theorem strip_append {c : Char} (letter : isSpace c = false) (s rest : List Char) :
    strip (s ++ c :: rest) = lstrip s ++ c :: rstrip rest := by
  rw [strip, lstrip_append letter, rstrip, rdropWhile_append_of_not letter]
  exact congrArg (lstrip s ++ ·) (rstrip_cons letter rest)

theorem startswith_single (c d : Char) (s : List Char) : startswith (d :: s) [c] = (c == d) := by
  rw [startswith, List.isPrefixOf_cons_cons, List.isPrefixOf_nil_left, Bool.and_true]

theorem strip_strip (s : List Char) : strip (strip s) = strip s := by
  apply strip_eq_self
  · intro c member
    have starts : (lstrip s).head? = some c := by
      obtain ⟨rest, whole⟩ := List.rdropWhile_prefix isSpace (lstrip s)
      have kept : (lstrip s).rdropWhile isSpace ≠ [] := by
        intro none
        rw [strip, rstrip, none] at member
        cases member
      rw [← whole, List.head?_append_of_ne_nil _ kept]
      exact member
    have stops := List.head?_dropWhile_not isSpace s
    rw [lstrip] at starts
    rw [starts] at stops
    exact stops
  · intro c member
    obtain ⟨kept, last⟩ := List.mem_getLast?_eq_getLast member
    rw [last]
    exact Bool.eq_false_iff.mpr (List.rdropWhile_last_not isSpace (lstrip s) kept)

theorem head?_intercalate {sep word : List Char} (nonempty : word ≠ []) (rest : List (List Char)) :
    (sep.intercalate (word :: rest)).head? = word.head? := by
  cases rest with
  | nil => simp
  | cons next rest =>
    rw [List.intercalate_cons_cons, List.append_assoc, List.head?_append_of_ne_nil _ nonempty]

theorem getLast?_intercalate {sep word : List Char} (nonempty : word ≠ [])
    (start : List (List Char)) :
    (sep.intercalate (start ++ [word])).getLast? = word.getLast? := by
  induction start with
  | nil => simp
  | cons first start ih =>
    obtain ⟨next, rest, same⟩ := List.exists_cons_of_ne_nil (List.append_ne_nil_of_right_ne_nil
      start (List.cons_ne_nil word []))
    rw [List.cons_append, same, List.intercalate_cons_cons, ← same, List.getLast?_append, ih]
    obtain ⟨c, ends⟩ := Option.isSome_iff_exists.mp (List.getLast?_isSome.mpr nonempty)
    rw [ends]
    rfl

theorem strip_intercalate_words (s : List Char) :
    strip ([' '].intercalate (words s)) = [' '].intercalate (words s) := by
  apply strip_eq_self
  · intro c member
    cases all : words s with
    | nil =>
      rw [all] at member
      cases member
    | cons word rest =>
      have first : word ∈ words s := all ▸ List.mem_cons_self
      rw [all, head?_intercalate (of_mem_words first).1] at member
      exact (of_mem_words first).2 c (List.mem_of_mem_head? member)
  · intro c member
    cases all : words s using List.reverseRecOn with
    | nil =>
      rw [all] at member
      cases member
    | append_singleton start word =>
      have last : word ∈ words s := all ▸ List.mem_append_right _ (List.mem_singleton_self word)
      rw [all, getLast?_intercalate (of_mem_words last).1] at member
      exact (of_mem_words last).2 c (List.mem_of_mem_getLast? member)

theorem words_of_plain {word : List Char} (nonempty : word ≠ [])
    (plain : ∀ c ∈ word, isSpace c = false) : words word = [word] := by
  have single : word.splitOnP isSpace = [word] := by
    apply List.splitOnP_eq_singleton
    intro c member
    simp [plain c member]
  rw [words, single]
  simp [nonempty]

theorem words_append_space {word : List Char} (nonempty : word ≠ [])
    (plain : ∀ c ∈ word, isSpace c = false) (rest : List Char) :
    words (word ++ ' ' :: rest) = word :: words rest := by
  have first := words_of_plain nonempty plain
  unfold words at first ⊢
  rw [List.splitOnP_append_cons word rest (by decide), List.filter_append, first]
  rfl

theorem words_intercalate {all : List (List Char)}
    (words_all : ∀ word ∈ all, word ≠ [] ∧ ∀ c ∈ word, isSpace c = false) :
    words ([' '].intercalate all) = all := by
  induction all with
  | nil => rfl
  | cons word rest ih =>
    obtain ⟨⟨nonempty, plain⟩, later⟩ := List.forall_mem_cons.mp words_all
    cases rest with
    | nil =>
      rw [List.intercalate_singleton]
      exact words_of_plain nonempty plain
    | cons next rest =>
      rw [List.intercalate_cons_cons, List.append_assoc, List.singleton_append,
        words_append_space nonempty plain, ih later]

/-! ## The first occurrence -/

theorem prefix_append_of_distinct {c : Char} {word s rest : List Char} (distinct : c ∉ word)
    (starts : c :: word <+: s ++ c :: rest) : s = [] ∨ c :: word <+: s := by
  cases s with
  | nil => exact .inl rfl
  | cons d s =>
    apply Or.inr
    rw [List.cons_append, List.cons_prefix_cons] at starts
    obtain ⟨rfl, starts⟩ := starts
    rw [List.cons_prefix_cons]
    refine ⟨rfl, ?_⟩
    rcases List.prefix_or_prefix_of_prefix starts (List.prefix_append s (c :: rest)) with short | ⟨tail, long⟩
    · exact short
    · cases tail with
      | nil =>
        rw [List.append_nil] at long
        rw [long]
      | cons d tail =>
        rw [← long] at starts distinct
        rw [List.prefix_append_right_inj, List.cons_prefix_cons] at starts
        rw [starts.1] at distinct
        exact absurd (List.mem_append_right _ List.mem_cons_self) distinct

theorem find_single_append {c : Char} {s : List Char} (absent : c ∉ s) (rest : List Char) :
    find [c] (s ++ c :: rest) = some s.length := by
  induction s with
  | nil => simp [find]
  | cons d s ih =>
    rw [List.mem_cons, not_or] at absent
    have later : ¬ [c].isPrefixOf (d :: (s ++ c :: rest)) = true := by simp [absent.1]
    rw [List.cons_append, find, if_neg later, ih absent.2]
    rfl

theorem partition_append {c : Char} {s : List Char} (absent : c ∉ s) (rest : List Char) :
    partition [c] (s ++ c :: rest) = (s, rest) := by
  rw [partition, find_single_append absent]
  simp

theorem before_append {c : Char} {word s : List Char} (distinct : c ∉ word)
    (absent : ¬ c :: word <:+: s) (rest : List Char) :
    before (c :: word) (s ++ (c :: word ++ rest)) = s := by
  induction s with
  | nil =>
    have starts : (c :: word).isPrefixOf (c :: word ++ rest) = true :=
      List.isPrefixOf_iff_prefix.mpr (List.prefix_append _ _)
    exact if_pos starts
  | cons d s ih =>
    have absent' : ¬ c :: word <:+: s := fun inside => absent (List.infix_cons inside)
    have later : ¬ (c :: word).isPrefixOf (d :: s ++ (c :: word ++ rest)) = true := by
      intro starts
      rcases prefix_append_of_distinct distinct (List.isPrefixOf_iff_prefix.mp starts) with none | starts
      · cases none
      · exact absent starts.isInfix
    rw [List.cons_append] at later ⊢
    rw [before, if_neg later, ih absent']

/-! ## The lines of a file -/

theorem readlines_cons {line : List Char} (free : '\n' ∉ line) (rest : List Char) :
    readlines (line ++ '\n' :: rest) = (line ++ ['\n']) :: readlines rest := by
  induction line with
  | nil => exact if_pos rfl
  | cons c line ih =>
    rw [List.mem_cons, not_or] at free
    rw [List.cons_append, readlines, if_neg (Ne.symm free.1), ih free.2]
    rfl

theorem readlines_last {line : List Char} (free : '\n' ∉ line) (nonempty : line ≠ []) :
    readlines line = [line] := by
  induction line with
  | nil => exact absurd rfl nonempty
  | cons c line ih =>
    rw [List.mem_cons, not_or] at free
    rw [readlines, if_neg (Ne.symm free.1)]
    cases line with
    | nil => rfl
    | cons d line => rw [ih free.2 (List.cons_ne_nil d line)]

inductive IsLines : List (List Char) → Prop
  | nil : IsLines []
  | last {line : List Char} (free : '\n' ∉ line) (nonempty : line ≠ []) : IsLines [line]
  | cons {line : List Char} (free : '\n' ∉ line) {lines : List (List Char)}
      (later : IsLines lines) : IsLines ((line ++ ['\n']) :: lines)

theorem isLines_readlines (s : List Char) : IsLines (readlines s) := by
  induction s with
  | nil => exact .nil
  | cons c s ih =>
    rw [readlines]
    split
    · exact IsLines.cons List.not_mem_nil ih
    · rename_i other
      cases lines : readlines s with
      | nil => exact .last (by simpa using Ne.symm other) (List.cons_ne_nil c [])
      | cons line lines' =>
        rw [lines] at ih
        cases ih with
        | last free nonempty =>
          exact .last (by simp [Ne.symm other, free]) (List.cons_ne_nil c line)
        | @cons line free lines'' later =>
          show IsLines ((c :: line ++ ['\n']) :: lines')
          exact .cons (by simp [Ne.symm other, free]) later

theorem flatten_readlines (s : List Char) : (readlines s).flatten = s := by
  induction s with
  | nil => rfl
  | cons c s ih =>
    rw [readlines]
    split
    · rename_i isBreak
      rw [List.flatten_cons, ih, isBreak]
      rfl
    · cases lines : readlines s with
      | nil =>
        rw [lines] at ih
        rw [← ih]
        rfl
      | cons line lines' =>
        rw [lines] at ih
        rw [← ih]
        rfl

theorem IsLines.readlines_flatten {lines : List (List Char)} (isLines : IsLines lines) :
    readlines lines.flatten = lines := by
  induction isLines with
  | nil => rfl
  | last free nonempty =>
    rw [List.flatten_singleton]
    exact readlines_last free nonempty
  | cons free later ih =>
    rw [List.flatten_cons, List.append_assoc, List.singleton_append, readlines_cons free, ih]

theorem IsLines.remove {before after : List (List Char)} {line : List Char}
    (isLines : IsLines (before ++ line :: after)) : IsLines (before ++ after) := by
  induction before with
  | nil =>
    cases isLines with
    | last => exact .nil
    | cons _ later => exact later
  | cons first before ih =>
    generalize whole : first :: before ++ line :: after = lines at isLines
    cases isLines with
    | nil => cases whole
    | last => simp at whole
    | cons free later =>
      rw [List.cons_append, List.cons.injEq] at whole
      obtain ⟨rfl, rfl⟩ := whole
      exact .cons free (ih later)

/-! ## The last occurrence -/

theorem rfind_none {word s : List Char} {c : Char} (head : word.head? = some c) (free : c ∉ s) :
    rfind word s = none := by
  induction s with
  | nil =>
    rw [rfind, if_neg]
    rintro rfl
    cases head
  | cons d s ih =>
    rw [List.mem_cons, not_or] at free
    rw [rfind, ih free.2]
    refine if_neg fun starts => ?_
    cases word with
    | nil => cases head
    | cons e word =>
      cases head
      rw [List.isPrefixOf_iff_prefix, List.cons_prefix_cons] at starts
      exact free.1 starts.1

theorem rfind_append {word after : List Char} {c : Char} (start : List Char)
    (free : c ∉ word ++ after) :
    rfind (c :: word) (start ++ (c :: word ++ after)) = some start.length := by
  induction start with
  | nil =>
    have later : rfind (c :: word) (word ++ after) = none := rfind_none rfl free
    rw [List.nil_append, List.cons_append, rfind, later]
    exact if_pos (List.isPrefixOf_iff_prefix.mpr (List.prefix_append (c :: word) after))
  | cons d start ih =>
    rw [List.cons_append, rfind, ih]
    rfl

end Python.Text
