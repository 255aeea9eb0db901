import Mathlib.Data.Fintype.EquivFin
import Mathlib.Data.Set.Finite.Basic
import Mathlib.Order.WellFounded
import Mathlib.Logic.Relation

/-!
# Dependencies that can be resolved

A dependency table gives the dependencies of what exists. What can be resolved is what exists
and depends only on what can be resolved; in a finite table that is what reaches neither a
missing dependency nor a cycle.
-/

namespace Dependency

open Relation

variable {α : Type*}

/-- `b` is a dependency of `a`. -/
def Depends (table : α → Option (List α)) (a b : α) : Prop :=
  ∃ ds, table a = some ds ∧ b ∈ ds

inductive Resolvable (table : α → Option (List α)) : α → Prop
  | intro {a : α} {ds : List α} : table a = some ds → (∀ d ∈ ds, Resolvable table d) →
      Resolvable table a

variable {table : α → Option (List α)}

theorem Resolvable.exists {a : α} (h : Resolvable table a) : (table a).isSome = true := by
  cases h with
  | intro found _ => simp [found]

theorem Resolvable.dependency {a b : α} (h : Resolvable table a) (dep : Depends table a b) :
    Resolvable table b := by
  obtain ⟨ds, found, member⟩ := dep
  cases h with
  | intro found' all =>
    obtain rfl := Option.some.inj (found'.symm.trans found)
    exact all b member

theorem Resolvable.reaches {a b : α} (h : Resolvable table a)
    (reach : ReflTransGen (Depends table) a b) : Resolvable table b := by
  induction reach with
  | refl => exact h
  | tail _ dep ih => exact ih.dependency dep

theorem Resolvable.not_cyclic {a : α} (h : Resolvable table a) :
    ¬ TransGen (Depends table) a a := by
  induction h with
  | @intro a ds found all ih =>
    intro cycle
    -- The cycle also passes through the dependency it leaves by.
    obtain ⟨d, dep, back⟩ := TransGen.head'_iff.mp cycle
    obtain ⟨ds', found', member⟩ := dep
    obtain rfl := Option.some.inj (found.symm.trans found')
    exact ih d member (TransGen.tail' back ⟨ds, found, member⟩)

theorem resolvable_iff (finite : {a | (table a).isSome = true}.Finite) (a : α) :
    Resolvable table a ↔
      (∀ b, ReflTransGen (Depends table) a b → (table b).isSome = true) ∧
      ∀ b, ReflTransGen (Depends table) a b → ¬ TransGen (Depends table) b b := by
  constructor
  · intro h
    exact ⟨fun b reach => (h.reaches reach).exists, fun b reach => (h.reaches reach).not_cyclic⟩
  · rintro ⟨present, acyclic⟩
    let Reached := {b // ReflTransGen (Depends table) a b}
    let deeper : Reached → Reached → Prop := fun b c => TransGen (Depends table) c.val b.val
    have : Finite Reached := (finite.subset fun b reach => present b reach).to_subtype
    have : IsTrans Reached deeper := ⟨fun _ _ _ ab bc => TransGen.trans bc ab⟩
    have : Std.Irrefl deeper := ⟨fun b => acyclic b.val b.property⟩
    have wf : WellFounded deeper := Finite.wellFounded_of_trans_of_irrefl deeper
    have all (b : Reached) : Resolvable table b.val := by
      induction b using wf.induction with
      | _ b ih =>
        obtain ⟨ds, found⟩ := Option.isSome_iff_exists.mp (present b.val b.property)
        refine .intro found fun d member => ?_
        have dep : Depends table b.val d := ⟨ds, found, member⟩
        exact ih ⟨d, b.property.tail dep⟩ (TransGen.single dep)
    exact all ⟨a, .refl⟩

def Ordered (table : α → Option (List α)) (l : List α) : Prop :=
  ∀ before a after, l = before ++ a :: after →
    (table a).isSome = true ∧ ∀ d, Depends table a d → d ∈ before

theorem ordered_nil : Ordered table [] := by
  intro before a after h
  simp at h

theorem Ordered.concat {l : List α} (ordered : Ordered table l) {a : α} {ds : List α}
    (found : table a = some ds) (resolved : ∀ d ∈ ds, d ∈ l) : Ordered table (l ++ [a]) := by
  intro before b after h
  obtain rfl | ⟨after', last, rfl⟩ := List.eq_nil_or_concat after
  · obtain ⟨rfl, rfl⟩ := List.append_inj' h rfl |>.imp_right (List.singleton_inj.mp)
    refine ⟨by simp [found], ?_⟩
    rintro d ⟨ds', found', member⟩
    obtain rfl := Option.some.inj (found.symm.trans found')
    exact resolved d member
  · have split : l ++ [a] = (before ++ b :: after') ++ [last] := by simpa using h
    exact ordered before b after' (List.append_inj' split rfl).1

theorem Ordered.resolvable {l : List α} (ordered : Ordered table l) (a : α) (member : a ∈ l) :
    Resolvable table a := by
  induction l using List.reverseRecOn generalizing a with
  | nil => cases member
  | append_singleton l last ih =>
    have ordered' : Ordered table l := by
      intro before b after h
      exact ordered before b (after ++ [last]) (by simp [h])
    obtain member | rfl := (List.mem_append.mp member).imp_right List.mem_singleton.mp
    · exact ih ordered' a member
    · obtain ⟨present, earlier⟩ := ordered l a [] rfl
      obtain ⟨ds, found⟩ := Option.isSome_iff_exists.mp present
      exact .intro found fun d member' => ih ordered' d (earlier d ⟨ds, found, member'⟩)

end Dependency
