import Mathlib.Data.List.Nodup
import Plinth.Lib.OrderedDict

/-!
# First occurrences

A list without its repetitions, in the order of the first occurrences, which is what the keys of a
dictionary that is filled in turn are.
-/

namespace Distinct

variable {α : Type*} [DecidableEq α]

def distinctFrom (seen : List α) : List α → List α
  | [] => []
  | x :: l => if x ∈ seen then distinctFrom seen l else x :: distinctFrom (x :: seen) l

def distinct (l : List α) : List α :=
  distinctFrom [] l

variable {seen seen' l : List α} {x : α}

theorem distinctFrom_cons_of_mem (member : x ∈ seen) (l : List α) :
    distinctFrom seen (x :: l) = distinctFrom seen l :=
  if_pos member

theorem distinctFrom_cons_of_not_mem (absent : x ∉ seen) (l : List α) :
    distinctFrom seen (x :: l) = x :: distinctFrom (x :: seen) l :=
  if_neg absent

theorem distinctFrom_congr (same : ∀ x, x ∈ seen ↔ x ∈ seen') (l : List α) :
    distinctFrom seen l = distinctFrom seen' l := by
  induction l generalizing seen seen' with
  | nil => rfl
  | cons x l ih =>
    have next : ∀ y, y ∈ x :: seen ↔ y ∈ x :: seen' := by
      intro y
      rw [List.mem_cons, List.mem_cons, same]
    rw [distinctFrom, distinctFrom, ih same, ih next]
    simp only [same]

@[simp] theorem mem_distinctFrom : x ∈ distinctFrom seen l ↔ x ∈ l ∧ x ∉ seen := by
  induction l generalizing seen with
  | nil => simp [distinctFrom]
  | cons y l ih =>
    by_cases member : y ∈ seen
    · rw [distinctFrom_cons_of_mem member, ih, List.mem_cons]
      constructor
      · rintro ⟨later, absent⟩
        exact ⟨.inr later, absent⟩
      · rintro ⟨rfl | later, absent⟩
        · exact absurd member absent
        · exact ⟨later, absent⟩
    · rw [distinctFrom_cons_of_not_mem member, List.mem_cons, ih, List.mem_cons, List.mem_cons,
        not_or]
      constructor
      · rintro (rfl | ⟨later, -, absent⟩)
        · exact ⟨.inl rfl, member⟩
        · exact ⟨.inr later, absent⟩
      · rintro ⟨rfl | later, absent⟩
        · exact .inl rfl
        · by_cases same : x = y
          · exact .inl same
          · exact .inr ⟨later, same, absent⟩

@[simp] theorem mem_distinct : x ∈ distinct l ↔ x ∈ l := by
  rw [distinct, mem_distinctFrom]
  simp

theorem nodup_distinctFrom (seen l : List α) : (distinctFrom seen l).Nodup := by
  induction l generalizing seen with
  | nil => exact List.nodup_nil
  | cons x l ih =>
    rw [distinctFrom]
    split
    · exact ih seen
    · refine List.nodup_cons.mpr ⟨?_, ih _⟩
      simp

theorem nodup_distinct (l : List α) : (distinct l).Nodup :=
  nodup_distinctFrom [] l

theorem distinctFrom_append (seen l l' : List α) :
    distinctFrom seen (l ++ l') = distinctFrom seen l ++ distinctFrom (l ++ seen) l' := by
  induction l generalizing seen with
  | nil => rfl
  | cons x l ih =>
    rw [List.cons_append]
    by_cases member : x ∈ seen
    · rw [distinctFrom_cons_of_mem member, distinctFrom_cons_of_mem member, ih]
      refine congrArg (_ ++ ·) (distinctFrom_congr ?_ l')
      intro y
      rw [List.cons_append, List.mem_cons]
      constructor
      · exact .inr
      · rintro (rfl | later)
        · exact List.mem_append_right _ member
        · exact later
    · rw [distinctFrom_cons_of_not_mem member, distinctFrom_cons_of_not_mem member, ih,
        List.cons_append]
      refine congrArg (fun rest => x :: (_ ++ rest)) (distinctFrom_congr ?_ l')
      intro y
      simp only [List.cons_append, List.mem_append, List.mem_cons]
      tauto

theorem head?_distinctFrom (seen l : List α) :
    (distinctFrom seen l).head? = l.find? fun x => x ∉ seen := by
  induction l with
  | nil => rfl
  | cons x l ih =>
    rw [List.find?_cons]
    by_cases member : x ∈ seen
    · rw [distinctFrom_cons_of_mem member, ih]
      simp [member]
    · rw [distinctFrom_cons_of_not_mem member]
      simp [member]

theorem distinctFrom_of_find? (first : (l.find? fun x => x ∉ seen) = some x) :
    distinctFrom seen l = x :: distinctFrom (x :: seen) l := by
  induction l with
  | nil => cases first
  | cons y l ih =>
    rw [List.find?_cons] at first
    by_cases member : y ∈ seen
    · rw [distinctFrom_cons_of_mem member, distinctFrom_cons_of_mem (List.mem_cons_of_mem _ member)]
      exact ih (by simpa [member] using first)
    · have same : y = x := by simpa [member] using first
      subst same
      rw [distinctFrom_cons_of_not_mem member, distinctFrom_cons_of_mem List.mem_cons_self]

theorem distinctFrom_eq_nil_iff : distinctFrom seen l = [] ↔ ∀ x ∈ l, x ∈ seen := by
  rw [List.eq_nil_iff_forall_not_mem]
  simp only [mem_distinctFrom, not_and, not_not]

theorem distinctFrom_eq_self (distinct : (seen ++ l).Nodup) : distinctFrom seen l = l := by
  induction l generalizing seen with
  | nil => rfl
  | cons x l ih =>
    have absent : x ∉ seen := by
      intro member
      exact (List.nodup_append.mp distinct).2.2 x member x List.mem_cons_self rfl
    have rest : (x :: seen ++ l).Nodup := by
      rw [List.cons_append]
      exact (List.nodup_middle.mp distinct)
    rw [distinctFrom_cons_of_not_mem absent, ih rest]

theorem distinct_eq_self (nodup : l.Nodup) : distinct l = l :=
  distinctFrom_eq_self nodup

theorem foldl_append_new (seen l : List α) :
    l.foldl (fun all x => if x ∈ all then all else all ++ [x]) seen =
      seen ++ distinctFrom seen l := by
  induction l generalizing seen with
  | nil => exact (List.append_nil _).symm
  | cons x l ih =>
    rw [List.foldl_cons, ih]
    by_cases member : x ∈ seen
    · rw [if_pos member, distinctFrom_cons_of_mem member]
    · rw [if_neg member, distinctFrom_cons_of_not_mem member, List.append_assoc,
        List.singleton_append]
      refine congrArg (fun rest => seen ++ x :: rest) (distinctFrom_congr ?_ l)
      intro y
      simp [or_comm]

theorem distinctFrom_sublist (seen l : List α) : (distinctFrom seen l).Sublist l := by
  induction l generalizing seen with
  | nil => exact List.Sublist.refl _
  | cons x l ih =>
    rw [distinctFrom]
    split
    · exact (ih seen).cons x
    · exact (ih _).cons_cons x

theorem distinct_eq_self_iff : distinct l = l ↔ l.Nodup := by
  constructor
  · intro same
    rw [← same]
    exact nodup_distinct l
  · exact distinct_eq_self

theorem keys_foldl_set_map {ε ν : Type*} (key : ε → α) (value : ε → ν) (l : List ε)
    (d : OrderedDict α ν) : (l.foldl (fun d x => d.set (key x) (value x)) d).keys =
      d.keys ++ distinctFrom d.keys (l.map key) := by
  induction l generalizing d with
  | nil => exact (List.append_nil _).symm
  | cons x l ih =>
    rw [List.foldl_cons, ih, List.map_cons]
    by_cases member : key x ∈ d.keys
    · rw [d.keys_set_of_mem member, distinctFrom_cons_of_mem member]
    · rw [d.keys_set_of_not_mem member, distinctFrom_cons_of_not_mem member,
        List.append_assoc, List.singleton_append]
      refine congrArg (fun rest => d.keys ++ key x :: rest) (distinctFrom_congr ?_ _)
      intro y
      simp [or_comm]

theorem keys_foldl_set {ν : Type*} (v : ν) (l : List α) (d : OrderedDict α ν) :
    (l.foldl (fun d k => d.set k v) d).keys = d.keys ++ distinctFrom d.keys l := by
  rw [keys_foldl_set_map (fun k => k) (fun _ => v), List.map_id']

theorem mem_of_second (x : α) {rest : List α} (some : rest ≠ []) {y : α}
    (found : (distinct (x :: rest))[if 1 < (distinct (x :: rest)).length then 1 else 0]? = .some y) :
    y ∈ rest := by
  have whole : distinct (x :: rest) = x :: distinctFrom [x] rest :=
    distinctFrom_cons_of_not_mem List.not_mem_nil rest
  rw [whole, List.length_cons] at found
  cases later : distinctFrom [x] rest with
  | nil =>
    rw [later] at found
    obtain rfl := Option.some.inj found
    obtain ⟨z, rest, rfl⟩ := List.exists_cons_of_ne_nil some
    have seen := distinctFrom_eq_nil_iff.mp later z List.mem_cons_self
    rw [← List.mem_singleton.mp seen]
    exact List.mem_cons_self
  | cons z more =>
    rw [later] at found
    obtain rfl := Option.some.inj found
    have member : z ∈ distinctFrom [x] rest := by
      rw [later]
      exact List.mem_cons_self
    exact (mem_distinctFrom.mp member).1

/-! ## What is announced -/

def Announced (seen upcoming : List α) : List α → Prop
  | [] => True
  | x :: l => (x ∈ seen ∨ (upcoming.find? fun y => y ∉ seen) = some x) ∧
      Announced (x :: seen) upcoming l

theorem distinctFrom_eq_append_iff (seen upcoming l whole : List α) :
    distinctFrom seen upcoming = distinctFrom seen (l ++ whole) ↔ Announced seen upcoming l ∧
      distinctFrom (l ++ seen) upcoming = distinctFrom (l ++ seen) whole := by
  induction l generalizing seen with
  | nil => simp [Announced]
  | cons x l ih =>
    have moved : ∀ y, y ∈ x :: l ++ seen ↔ y ∈ l ++ x :: seen := by
      intro y
      simp only [List.cons_append, List.mem_cons, List.mem_append]
      tauto
    rw [Announced, and_assoc, distinctFrom_congr moved upcoming, distinctFrom_congr moved whole,
      ← ih, List.cons_append]
    by_cases member : x ∈ seen
    · have same : ∀ y, y ∈ x :: seen ↔ y ∈ seen := by
        intro y
        rw [List.mem_cons]
        constructor
        · rintro (rfl | old)
          · exact member
          · exact old
        · exact .inr
      rw [distinctFrom_cons_of_mem member, distinctFrom_congr same, distinctFrom_congr same]
      exact (and_iff_right (.inl member)).symm
    · rw [distinctFrom_cons_of_not_mem member]
      by_cases first : (upcoming.find? fun y => y ∉ seen) = some x
      · rw [distinctFrom_of_find? first, List.cons_inj_right]
        exact (and_iff_right (.inr first)).symm
      · have differ : distinctFrom seen upcoming ≠ x :: distinctFrom (x :: seen) (l ++ whole) := by
          intro same
          have head := head?_distinctFrom seen upcoming
          rw [same] at head
          exact first head.symm
        exact iff_of_false differ fun both => both.1.elim member first

variable {ε : Type*} (first rest : ε → List α)

def AllAnnounced (seen : List α) : List ε → Prop
  | [] => True
  | e :: later => Announced (first e ++ seen) (later.flatMap first) (rest e) ∧
      AllAnnounced (rest e ++ (first e ++ seen)) later

theorem distinctFrom_flatMap_iff (seen : List α) (all : List ε) :
    distinctFrom seen (all.flatMap first) =
      distinctFrom seen (all.flatMap fun e => first e ++ rest e) ↔
        AllAnnounced first rest seen all := by
  induction all generalizing seen with
  | nil => simp [AllAnnounced]
  | cons e later ih =>
    rw [List.flatMap_cons, List.flatMap_cons, AllAnnounced, ← ih, List.append_assoc,
      distinctFrom_append, distinctFrom_append seen (first e), List.append_cancel_left_eq,
      distinctFrom_eq_append_iff]

end Distinct
