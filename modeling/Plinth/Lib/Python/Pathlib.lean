import Plinth.Lib.Python.Os

/-!
# Pure paths

`pathlib.PurePosixPath`: a root and the parts after it. A path is what it is written as, up to
empty parts and dots; two dots stay.
-/

namespace Python.Pathlib

def IsPart (part : List Char) : Prop :=
  part ≠ [] ∧ part ≠ ['.'] ∧ '/' ∉ part

instance : DecidablePred IsPart := fun _ => inferInstanceAs (Decidable (_ ∧ _))

structure PurePath where
  root : List Char
  parts : List (List Char)
  root_slashes : root = [] ∨ root = ['/'] ∨ root = ['/', '/']
  isPart : ∀ part ∈ parts, IsPart part

theorem PurePath.ext' {p q : PurePath} (root : p.root = q.root) (parts : p.parts = q.parts) :
    p = q := by
  cases p
  cases q
  cases root
  cases parts
  rfl

instance : DecidableEq PurePath := fun p q =>
  decidable_of_iff (p.root = q.root ∧ p.parts = q.parts)
    ⟨fun same => PurePath.ext' same.1 same.2, fun same => same ▸ ⟨rfl, rfl⟩⟩

theorem initialSlashes_root (s : List Char) :
    Os.initialSlashes s = [] ∨ Os.initialSlashes s = ['/'] ∨ Os.initialSlashes s = ['/', '/'] := by
  by_cases absolute : s.head? = some '/'
  · exact .inr (Os.initialSlashes_cases absolute)
  · exact .inl ((Os.initialSlashes_eq_nil_iff s).mpr absolute)

def partsOf (s : List Char) : List (List Char) :=
  (s.splitOn '/').filter fun part => part ≠ [] ∧ part ≠ ['.']

theorem isPart_of_mem_partsOf {s part : List Char} (member : part ∈ partsOf s) : IsPart part := by
  obtain ⟨listed, kept⟩ := List.mem_filter.mp member
  rw [decide_eq_true_eq] at kept
  exact ⟨kept.1, kept.2, Text.not_mem_of_mem_splitOn listed⟩

/-- `Path(s)` -/
def path (s : List Char) : PurePath where
  root := Os.initialSlashes s
  parts := partsOf s
  root_slashes := initialSlashes_root s
  isPart _ := isPart_of_mem_partsOf

namespace PurePath

/-- `str(path)` -/
def text (p : PurePath) : List Char :=
  if p.root = [] ∧ p.parts = [] then ['.'] else p.root ++ ['/'].intercalate p.parts

/-- `path / other` -/
def join (p q : PurePath) : PurePath where
  root := if q.root = [] then p.root else q.root
  parts := if q.root = [] then p.parts ++ q.parts else q.parts
  root_slashes := by
    split
    · exact p.root_slashes
    · exact q.root_slashes
  isPart := by
    split
    · intro part member
      rcases List.mem_append.mp member with first | second
      · exact p.isPart part first
      · exact q.isPart part second
    · exact q.isPart

/-- `path.name` -/
def name (p : PurePath) : List Char :=
  p.parts.getLast?.getD []

/-- `path.parent` -/
def parent (p : PurePath) : PurePath where
  root := p.root
  parts := p.parts.dropLast
  root_slashes := p.root_slashes
  isPart part member := p.isPart part (List.dropLast_subset _ member)

/-- `q in path.parents` -/
def IsParent (q p : PurePath) : Prop :=
  q.root = p.root ∧ q.parts <+: p.parts ∧ q.parts ≠ p.parts

instance (q p : PurePath) : Decidable (q.IsParent p) := inferInstanceAs (Decidable (_ ∧ _))

theorem splitOn_intercalate_parts {parts : List (List Char)} (isPart : ∀ part ∈ parts, IsPart part) :
    partsOf (['/'].intercalate parts) = parts := by
  have kept : parts.filter (fun part => part ≠ [] ∧ part ≠ ['.']) = parts :=
    List.filter_eq_self.mpr fun part member =>
      decide_eq_true ⟨(isPart part member).1, (isPart part member).2.1⟩
  cases parts with
  | nil => rfl
  | cons part rest =>
    rw [partsOf, List.splitOn_intercalate '/' (fun name member => (isPart name member).2.2)
      (List.cons_ne_nil part rest)]
    exact kept

theorem head_intercalate_parts {parts : List (List Char)} (isPart : ∀ part ∈ parts, IsPart part) :
    (['/'].intercalate parts).head? ≠ some '/' := by
  cases parts with
  | nil => simp
  | cons part rest =>
    obtain ⟨nonempty, -, plain⟩ := isPart part List.mem_cons_self
    cases part with
    | nil => exact absurd rfl nonempty
    | cons c part =>
      have first : c ≠ '/' := fun same => plain (same ▸ List.mem_cons_self)
      cases rest <;> simp [List.intercalate_cons_cons, first]

theorem partsOf_cons_slash (s : List Char) : partsOf ('/' :: s) = partsOf s := by
  have split : ('/' :: s).splitOn '/' = [] :: s.splitOn '/' :=
    List.splitOn_append_cons_self [] s
  rw [partsOf, split]
  rfl

theorem path_text (p : PurePath) : path p.text = p := by
  have rest := splitOn_intercalate_parts p.isPart
  have first := head_intercalate_parts p.isPart
  have slashes : ∀ root, root = [] ∨ root = ['/'] ∨ root = ['/', '/'] →
      Os.initialSlashes (root ++ ['/'].intercalate p.parts) = root ∧
        partsOf (root ++ ['/'].intercalate p.parts) = p.parts := by
    rintro root (rfl | rfl | rfl)
    · exact ⟨(Os.initialSlashes_eq_nil_iff _).mpr first, rest⟩
    · refine ⟨?_, (partsOf_cons_slash _).trans rest⟩
      generalize ['/'].intercalate p.parts = tail at first
      cases tail with
      | nil => rfl
      | cons c tail =>
        have other : c ≠ '/' := by simpa using first
        simp [Os.initialSlashes, other]
    · refine ⟨?_, ((partsOf_cons_slash _).trans (partsOf_cons_slash _)).trans rest⟩
      generalize ['/'].intercalate p.parts = tail at first
      cases tail with
      | nil => rfl
      | cons c tail =>
        have other : c ≠ '/' := by simpa using first
        simp [Os.initialSlashes, other]
  unfold text
  split
  · rename_i empty
    exact ext' empty.1.symm empty.2.symm
  · obtain ⟨root, parts⟩ := slashes p.root p.root_slashes
    exact ext' root parts

theorem splitOn_text {p : PurePath} (root : p.root = ['/']) (some_ : p.parts ≠ []) :
    p.text.splitOn '/' = [] :: p.parts := by
  have free : ∀ part ∈ p.parts, '/' ∉ part := fun part member => (p.isPart part member).2.2
  have first : ('/' :: ['/'].intercalate p.parts).splitOn '/' =
      [] :: (['/'].intercalate p.parts).splitOn '/' := List.splitOn_append_cons_self [] _
  rw [text, if_neg (fun empty => some_ empty.2), root]
  exact first.trans (congrArg _ (List.splitOn_intercalate '/' free some_))

theorem text_ne_nil (p : PurePath) : p.text ≠ [] := by
  intro empty
  have same := path_text p
  rw [empty] at same
  have dot : (path []).text = ['.'] := by decide
  rw [same, empty] at dot
  cases dot

end PurePath

end Python.Pathlib
