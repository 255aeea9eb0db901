import Mathlib.Data.List.Infix

/-!
# Paths as strings

An absolute path is a string with a separator. It denotes the list of the names on the way from
the root: empty segments and dots are skipped, and two dots go up, at the root no further.
-/

namespace Path

variable {α : Type*} [DecidableEq α] (sep dot : α)

def resolveStep (resolved : List (List α)) (segment : List α) : List (List α) :=
  if segment = [] ∨ segment = [dot] then resolved
  else if segment = [dot, dot] then resolved.dropLast
  else resolved ++ [segment]

def components (path : List α) : List (List α) :=
  (path.splitOn sep).foldl (resolveStep dot) []

def join (names : List (List α)) : List α :=
  names.flatMap (sep :: ·)

def Clean (path : List α) : Prop :=
  join sep (components sep dot path) = path

def IsName (segment : List α) : Prop :=
  segment ≠ [] ∧ segment ≠ [dot] ∧ segment ≠ [dot, dot]

def HasUp (path : List α) : Prop :=
  [dot, dot] ∈ path.splitOn sep

def Inside (location path : List α) : Prop :=
  components sep dot location <+: components sep dot path

instance : DecidablePred (Clean sep dot) := fun _ => inferInstanceAs (Decidable (_ = _))

instance : DecidablePred (IsName dot) := fun _ => inferInstanceAs (Decidable (_ ∧ _))

instance : DecidablePred (HasUp sep dot) := fun _ => inferInstanceAs (Decidable (_ ∈ _))

instance (location path : List α) : Decidable (Inside sep dot location path) :=
  inferInstanceAs (Decidable (_ <+: _))

variable {sep dot}

omit [DecidableEq α] in
theorem join_prefix {names names' : List (List α)} (h : names <+: names') :
    join sep names <+: join sep names' := by
  obtain ⟨more, rfl⟩ := h
  rw [join, join, List.flatMap_append]
  exact List.prefix_append ..

theorem splitOn_append (sep : α) (path : List α) :
    ∃ before last, path.splitOn sep = before ++ [last] ∧ ∀ rest first more,
      rest.splitOn sep = first :: more →
        (path ++ rest).splitOn sep = before ++ (last ++ first) :: more := by
  induction path with
  | nil => exact ⟨[], [], by simp [List.splitOn_nil], fun rest first more h => by simpa using h⟩
  | cons c path ih =>
    obtain ⟨before, last, split, append⟩ := ih
    by_cases isSep : c = sep
    · refine ⟨[] :: before, last, ?_, fun rest first more h => ?_⟩
      · simp [List.splitOn_cons_eq_if_modifyHead, isSep, split]
      · simp [List.splitOn_cons_eq_if_modifyHead, isSep, append rest first more h]
    · cases before with
      | nil =>
        refine ⟨[], c :: last, ?_, fun rest first more h => ?_⟩
        · simp [List.splitOn_cons_eq_if_modifyHead, isSep, split]
        · simp [List.splitOn_cons_eq_if_modifyHead, isSep, append rest first more h]
      | cons segment before =>
        refine ⟨(c :: segment) :: before, last, ?_, fun rest first more h => ?_⟩
        · simp [List.splitOn_cons_eq_if_modifyHead, isSep, split]
        · simp [List.splitOn_cons_eq_if_modifyHead, isSep, append rest first more h]

theorem prefix_resolve {segments : List (List α)} (noUp : [dot, dot] ∉ segments)
    (base : List (List α)) : base <+: segments.foldl (resolveStep dot) base := by
  induction segments generalizing base with
  | nil => exact List.prefix_rfl
  | cons segment rest ih =>
    rw [List.mem_cons, not_or] at noUp
    refine List.IsPrefix.trans ?_ (ih noUp.2 _)
    rw [resolveStep, if_neg (Ne.symm noUp.1)]
    split
    · exact List.prefix_rfl
    · exact List.prefix_append ..

theorem inside_append {location rest : List α} (noUp : ¬ HasUp sep dot (location ++ rest)) :
    Inside sep dot location (location ++ rest) ∨
      (∃ last ∈ (location.splitOn sep).getLast?, IsName dot last) ∧
        ∃ c tail, rest = c :: tail ∧ c ≠ sep := by
  obtain ⟨before, last, split, append⟩ := splitOn_append sep location
  obtain ⟨first, more, splitRest⟩ := List.exists_cons_of_ne_nil (List.splitOn_ne_nil sep rest)
  have splitAll := append rest first more splitRest
  have noUp' : [dot, dot] ∉ (last ++ first) :: more := by
    rw [HasUp, splitAll] at noUp
    exact fun up => noUp (List.mem_append_right _ up)
  have all : components sep dot (location ++ rest) =
      ((last ++ first) :: more).foldl (resolveStep dot) (before.foldl (resolveStep dot) []) := by
    rw [components, splitAll, List.foldl_append]
  have base : components sep dot location =
      resolveStep dot (before.foldl (resolveStep dot) []) last := by
    rw [components, split, List.foldl_append]
    rfl
  rw [Inside, all, base]
  by_cases boundary : first = []
  · subst boundary
    rw [List.append_nil] at noUp' ⊢
    rw [List.foldl_cons]
    exact .inl (prefix_resolve (fun up => noUp' (List.mem_cons_of_mem _ up)) _)
  · by_cases name : IsName dot last
    · refine .inr ⟨⟨last, by simp [split], name⟩, ?_⟩
      cases rest with
      | nil =>
        rw [List.splitOn_nil, List.cons_eq_cons] at splitRest
        exact absurd splitRest.1.symm boundary
      | cons c tail =>
        refine ⟨c, tail, rfl, ?_⟩
        rintro rfl
        have head : (c :: tail).splitOn c = [] :: tail.splitOn c :=
          List.splitOn_append_cons_self [] tail
        rw [head, List.cons_eq_cons] at splitRest
        exact boundary splitRest.1.symm
    · left
      refine List.IsPrefix.trans ?_ (prefix_resolve noUp' _)
      rw [resolveStep]
      split
      · exact List.prefix_rfl
      · split
        · exact List.dropLast_prefix _
        · rename_i kept notUp
          exact absurd ⟨fun h => kept (.inl h), fun h => kept (.inr h), notUp⟩ name

theorem components_append_sep (path : List α) :
    components sep dot (path ++ [sep]) = components sep dot path := by
  rw [components, List.splitOn_append_cons_self, List.foldl_append]
  simp [List.splitOn_nil, resolveStep, components]

theorem prefix_of_inside {location path : List α} (cleanLocation : Clean sep dot location)
    (cleanPath : Clean sep dot path) (inside : Inside sep dot location path) :
    location <+: path := by
  rw [← cleanLocation, ← cleanPath]
  exact join_prefix inside

theorem prefix_of_inside_append_sep {location path : List α}
    (cleanLocation : Clean sep dot location) (cleanPath : Clean sep dot path)
    (inside : Inside sep dot (location ++ [sep]) path) :
    location ++ [sep] <+: path ∨ path = location := by
  rw [Inside, components_append_sep] at inside
  obtain ⟨more, names⟩ := inside
  rw [← cleanLocation, ← cleanPath, ← names]
  cases more with
  | nil => exact .inr (by simp)
  | cons name more =>
    left
    simp only [join, List.flatMap_append, List.flatMap_cons, List.prefix_append_right_inj,
      List.cons_append]
    exact ⟨_, rfl⟩

theorem eq_of_components {path path' : List α} (clean : Clean sep dot path)
    (clean' : Clean sep dot path')
    (same : components sep dot path = components sep dot path') : path = path' := by
  rw [← clean, ← clean', same]

end Path
