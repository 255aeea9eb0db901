import Mathlib.Data.List.Basic

/-!
# Regular expressions

A pattern gives the ways in which it matches at the start of a text, in the order in which they are
tried: what is captured, and the text that is left.
-/

namespace Python.Regex

def Pattern (α : Type) := List Char → List (α × List Char)

variable {α β : Type}

instance : Monad Pattern where
  pure a := fun s => [(a, s)]
  bind p f := fun s => (p s).flatMap fun found => f found.1 found.2

def fails : Pattern α :=
  fun _ => []

def char (p : Char → Bool) : Pattern Char
  | [] => []
  | c :: s => if p c then [(c, s)] else []

def literal (word : List Char) : Pattern (List Char) :=
  fun s => if word.isPrefixOf s then [(word, s.drop word.length)] else []

/-- `[p]*` -/
def many (p : Char → Bool) : Pattern (List Char)
  | [] => [([], [])]
  | c :: s =>
    if p c then (many p s).map (fun found => (c :: found.1, found.2)) ++ [([], c :: s)]
    else [([], c :: s)]

/-- `[p]+` -/
def many1 (p : Char → Bool) : Pattern (List Char) := do
  let c ← char p
  let cs ← many p
  return c :: cs

/-- `(p|q|…)` -/
def choice (patterns : List (Pattern α)) : Pattern α :=
  fun s => patterns.flatMap fun p => p s

/-- `.` -/
def notNewline (c : Char) : Bool :=
  c ≠ '\n'

/-- `re.match` -/
def match? (p : Pattern α) (s : List Char) : Option α :=
  ((p s).map Prod.fst).head?

/-- `re.fullmatch` -/
def fullmatch (p : Pattern α) (s : List Char) : Bool :=
  (p s).any fun found => found.2 = []

/-- `re.search`, with the text before and after; a pattern can ask whether it is at the start. -/
def search (p : Bool → Pattern α) (atStart : Bool) : List Char → Option (List Char × α × List Char)
  | [] => (p atStart []).head?.map fun found => ([], found)
  | c :: s =>
    match (p atStart (c :: s)).head? with
    | some found => some ([], found)
    | none => (search p false s).map fun found => (c :: found.1, found.2)

/-- `re.sub`, of a pattern that gives what takes the place of its match -/
def subst (p : Bool → Pattern (List Char)) : Nat → Bool → List Char → List Char
  | 0, _, s => s
  | _ + 1, _, [] => []
  | n + 1, atStart, c :: s =>
    match (p atStart (c :: s)).head? with
    | some (new, rest) => new ++ subst p n false rest
    | none => c :: subst p n false s

def sub (p : Bool → Pattern (List Char)) (s : List Char) : List Char :=
  subst p s.length true s

/-! ## What is matched -/

theorem mem_pure {a b : α} {s rest : List Char} :
    (a, rest) ∈ (pure b : Pattern α) s ↔ a = b ∧ rest = s := by
  simp [pure]

theorem mem_bind {p : Pattern α} {f : α → Pattern β} {b : β} {s rest : List Char} :
    (b, rest) ∈ (p >>= f) s ↔ ∃ a middle, (a, middle) ∈ p s ∧ (b, rest) ∈ f a middle := by
  simp [bind]

theorem mem_char {p : Char → Bool} {c : Char} {s rest : List Char} :
    (c, rest) ∈ char p s ↔ s = c :: rest ∧ p c = true := by
  cases s with
  | nil => simp [char]
  | cons d s =>
    rw [char]
    split
    · rename_i h
      simp only [List.mem_singleton, Prod.mk.injEq, List.cons.injEq]
      constructor
      · rintro ⟨rfl, rfl⟩
        exact ⟨⟨rfl, rfl⟩, h⟩
      · rintro ⟨⟨rfl, rfl⟩, _⟩
        exact ⟨rfl, rfl⟩
    · rename_i h
      simp only [List.not_mem_nil, List.cons.injEq, false_iff]
      rintro ⟨⟨rfl, rfl⟩, holds⟩
      exact h holds

theorem mem_literal {word found s rest : List Char} :
    (found, rest) ∈ literal word s ↔ found = word ∧ s = word ++ rest := by
  rw [literal]
  split
  · rename_i starts
    obtain ⟨tail, rfl⟩ := List.isPrefixOf_iff_prefix.mp starts
    simp [eq_comm]
  · rename_i starts
    simp only [List.not_mem_nil, false_iff]
    rintro ⟨_, rfl⟩
    exact starts (List.isPrefixOf_iff_prefix.mpr (List.prefix_append _ _))

theorem mem_many {p : Char → Bool} {found s rest : List Char} :
    (found, rest) ∈ many p s ↔ s = found ++ rest ∧ ∀ c ∈ found, p c = true := by
  induction s generalizing found with
  | nil =>
    cases found with
    | nil =>
      rw [many, List.mem_singleton, Prod.mk.injEq, List.nil_append]
      exact ⟨fun h => ⟨h.2.symm, by simp⟩, fun h => ⟨rfl, h.1.symm⟩⟩
    | cons c found => simp [many]
  | cons d s ih =>
    cases found with
    | nil =>
      have whole : ([], rest) ∈ many p (d :: s) ↔ rest = d :: s := by
        rw [many]
        split <;> simp
      rw [whole, List.nil_append]
      exact ⟨fun h => ⟨h.symm, by simp⟩, fun h => h.1.symm⟩
    | cons c found =>
      rw [many]
      split
      · rename_i h
        simp only [List.mem_append, List.mem_map, List.mem_singleton, Prod.mk.injEq,
          reduceCtorEq, false_and, or_false, List.cons_append, List.cons.injEq,
          List.forall_mem_cons]
        constructor
        · rintro ⟨⟨tail, left⟩, member, ⟨rfl, rfl⟩, rfl⟩
          obtain ⟨same, all⟩ := ih.mp member
          exact ⟨⟨rfl, same⟩, h, all⟩
        · rintro ⟨⟨rfl, same⟩, _, all⟩
          exact ⟨(found, rest), ih.mpr ⟨same, all⟩, ⟨rfl, rfl⟩, rfl⟩
      · rename_i h
        simp only [List.mem_singleton, Prod.mk.injEq, reduceCtorEq, false_and,
          List.cons_append, List.cons.injEq, List.forall_mem_cons, false_iff]
        rintro ⟨⟨rfl, _⟩, holds, _⟩
        exact h holds

theorem mem_many1 {p : Char → Bool} {found s rest : List Char} :
    (found, rest) ∈ many1 p s ↔ found ≠ [] ∧ s = found ++ rest ∧ ∀ c ∈ found, p c = true := by
  rw [many1]
  simp only [mem_bind, mem_pure, mem_char, mem_many]
  constructor
  · rintro ⟨c, _, ⟨rfl, first⟩, cs, _, ⟨rfl, all⟩, rfl, rfl⟩
    exact ⟨List.cons_ne_nil _ _, rfl, List.forall_mem_cons.mpr ⟨first, all⟩⟩
  · rintro ⟨nonempty, rfl, all⟩
    cases found with
    | nil => exact absurd rfl nonempty
    | cons c found =>
      obtain ⟨first, all⟩ := List.forall_mem_cons.mp all
      exact ⟨c, _, ⟨rfl, first⟩, found, _, ⟨rfl, all⟩, rfl, rfl⟩

theorem mem_choice {patterns : List (Pattern α)} {a : α} {s rest : List Char} :
    (a, rest) ∈ choice patterns s ↔ ∃ p ∈ patterns, (a, rest) ∈ p s := by
  simp [choice]

theorem mem_of_match? {p : Pattern α} {a : α} {s : List Char} (found : match? p s = some a) :
    ∃ rest, (a, rest) ∈ p s := by
  rw [match?, List.head?_map, Option.map_eq_some_iff] at found
  obtain ⟨⟨_, rest⟩, first, rfl⟩ := found
  exact ⟨rest, List.mem_of_mem_head? first⟩

theorem fullmatch_iff {p : Pattern α} {s : List Char} :
    fullmatch p s = true ↔ ∃ a, (a, []) ∈ p s := by
  simp [fullmatch]

theorem match?_isSome_iff {p : Pattern α} {s : List Char} :
    (match? p s).isSome = true ↔ ∃ a rest, (a, rest) ∈ p s := by
  rw [match?, List.isSome_head?]
  simp [List.eq_nil_iff_forall_not_mem]

/-! ## Matches in sequence -/

theorem literal_append (word s : List Char) : literal word (word ++ s) = [(word, s)] := by
  rw [literal, if_pos (List.isPrefixOf_iff_prefix.mpr (List.prefix_append word s)),
    List.drop_left]

theorem bind_of_single {p : Pattern α} {f : α → Pattern β} {a : α} {s rest : List Char}
    (only : p s = [(a, rest)]) : (p >>= f) s = f a rest := by
  show (p s).flatMap (fun found => f found.1 found.2) = _
  rw [only]
  exact List.append_nil _

theorem bind_of_nil {p : Pattern α} {f : α → Pattern β} {s : List Char} (none : p s = []) :
    (p >>= f) s = [] := by
  show (p s).flatMap (fun found => f found.1 found.2) = _
  rw [none]
  rfl

theorem bind_of_first {p : Pattern α} {f : α → Pattern β} {a b : α} {s rest rest' : List Char}
    (both : p s = [(a, rest), (b, rest')]) (second : f b rest' = []) :
    (p >>= f) s = f a rest := by
  show (p s).flatMap (fun found => f found.1 found.2) = _
  rw [both]
  show f a rest ++ (f b rest' ++ []) = _
  rw [second]
  exact List.append_nil _

theorem char_cons {p : Char → Bool} {c : Char} (holds : p c = true) (s : List Char) :
    char p (c :: s) = [(c, s)] :=
  if_pos holds

theorem literal_of_not_mem {c : Char} {word s : List Char} (absent : c ∉ s) :
    literal (c :: word) s = [] := by
  rw [literal, if_neg]
  intro starts
  exact absent ((List.isPrefixOf_iff_prefix.mp starts).subset List.mem_cons_self)

theorem head?_bind_of_failing {p : Pattern α} {f : α → Pattern β} {s : List Char}
    {earlier later : List (α × List Char)} {a : α} {rest : List Char} {found : β × List Char}
    (order : p s = earlier ++ (a, rest) :: later) (fails : ∀ m ∈ earlier, f m.1 m.2 = [])
    (first : (f a rest).head? = some found) : ((p >>= f) s).head? = some found := by
  have none : earlier.flatMap (fun m => f m.1 m.2) = [] := List.flatMap_eq_nil_iff.mpr fails
  show ((p s).flatMap fun m => f m.1 m.2).head? = _
  rw [order, List.flatMap_append, none, List.nil_append, List.flatMap_cons, List.head?_append, first]
  rfl

theorem many_append {p : Char → Bool} {run : List Char} (all : ∀ c ∈ run, p c = true)
    (tail : List Char) : ∃ longer shorter, many p (run ++ tail) = longer ++ (run, tail) :: shorter ∧
      ∀ m ∈ longer, ∃ c more, tail = c :: more ++ m.2 := by
  induction run with
  | nil =>
    cases tail with
    | nil => exact ⟨[], [], rfl, by simp⟩
    | cons c tail =>
      rw [List.nil_append, many]
      split
      · refine ⟨_, [], rfl, ?_⟩
        intro m member
        obtain ⟨⟨more, rest⟩, inner, rfl⟩ := List.mem_map.mp member
        exact ⟨c, more, congrArg (c :: ·) (mem_many.mp inner).1⟩
      · exact ⟨[], [], rfl, by simp⟩
  | cons c run ih =>
    obtain ⟨holds, all⟩ := List.forall_mem_cons.mp all
    obtain ⟨longer, shorter, order, suffixes⟩ := ih all
    rw [List.cons_append, many, if_pos holds, order, List.map_append, List.map_cons,
      List.append_assoc, List.cons_append]
    refine ⟨_, _, rfl, ?_⟩
    intro m member
    obtain ⟨inner, inLonger, rfl⟩ := List.mem_map.mp member
    exact suffixes inner inLonger

theorem head?_many_bind {p : Char → Bool} {f : List Char → Pattern β} {run tail : List Char}
    {found : β × List Char} (all : ∀ c ∈ run, p c = true)
    (fails : ∀ taken c more rest, tail = c :: more ++ rest → f taken rest = [])
    (first : (f run tail).head? = some found) :
    ((many p >>= f) (run ++ tail)).head? = some found := by
  obtain ⟨longer, shorter, order, suffixes⟩ := many_append all tail
  apply head?_bind_of_failing order _ first
  intro m member
  obtain ⟨c, more, split⟩ := suffixes m member
  exact fails m.1 c more m.2 split

/-! ## The order of matches -/

def Greedy (p : Pattern (List Char)) : Prop :=
  ∀ s, (p s).Pairwise fun found later => later.1.length < found.1.length

theorem greedy_many (p : Char → Bool) : Greedy (many p) := by
  intro s
  induction s with
  | nil => exact List.pairwise_singleton _ _
  | cons c s ih =>
    rw [many]
    split
    · rw [List.pairwise_append, List.pairwise_map]
      refine ⟨ih.imp fun shorter => Nat.succ_lt_succ shorter, List.pairwise_singleton _ _, ?_⟩
      intro found member later last
      obtain ⟨tail, _, rfl⟩ := List.mem_map.mp member
      rw [List.mem_singleton.mp last]
      exact Nat.succ_pos _
    · exact List.pairwise_singleton _ _

theorem greedy_many1 (p : Char → Bool) : Greedy (many1 p) := by
  intro s
  cases s with
  | nil => exact .nil
  | cons c s =>
    by_cases first : p c = true
    · have matches_ : many1 p (c :: s) = (many p s).map fun found => (c :: found.1, found.2) := by
        rw [List.map_eq_flatMap]
        show ((char p (c :: s)).flatMap fun found => (many p found.2).flatMap fun rest =>
          [(found.1 :: rest.1, rest.2)]) = _
        rw [char, if_pos first]
        simp
      rw [matches_, List.pairwise_map]
      exact (greedy_many p s).imp fun shorter => Nat.succ_lt_succ shorter
    · have none : many1 p (c :: s) = [] := by
        show ((char p (c :: s)).flatMap fun found => (many p found.2).flatMap fun rest =>
          [(found.1 :: rest.1, rest.2)]) = _
        rw [char, if_neg first]
        rfl
      rw [none]
      exact .nil

theorem Greedy.longest {p : Pattern (List Char)} (greedy : Greedy p) {s found rest : List Char}
    (first : (p s).head? = some (found, rest)) {found' rest' : List Char}
    (member : (found', rest') ∈ p s) : found'.length ≤ found.length := by
  have ordered := greedy s
  cases all : p s with
  | nil =>
    rw [all] at first
    cases first
  | cons head others =>
    rw [all] at first member ordered
    cases first
    rcases List.mem_cons.mp member with same | later
    · cases same
      exact Nat.le_refl _
    · exact Nat.le_of_lt ((List.pairwise_cons.mp ordered).1 _ later)

theorem search_of_match {p : Bool → Pattern α} {atStart : Bool} {s : List Char}
    {found : α × List Char} (first : (p atStart s).head? = some found) :
    search p atStart s = some ([], found) := by
  cases s with
  | nil =>
    rw [search, first]
    rfl
  | cons c s => rw [search, first]

theorem search_cons_of_no_match {p : Bool → Pattern α} {atStart : Bool} {c : Char} {s : List Char}
    (nothing : p atStart (c :: s) = []) :
    search p atStart (c :: s) = (search p false s).map fun found => (c :: found.1, found.2) := by
  rw [search, nothing]
  rfl

end Python.Regex
