import Mathlib.Data.Finset.Card
import Mathlib.Data.Finset.SDiff
import Mathlib.Data.Finset.Lattice.Basic
import Mathlib.Data.Finset.Dedup
import Mathlib.Logic.Relation

/-!
# Closing a set by a worklist

A loop takes any element of the pending ones, in no particular order, and adds what is next to it
unless it has been processed. It ends with what can be reached from the roots.
-/

namespace Worklist

open Relation

variable {α : Type*} (next : α → List α)

def Reachable (roots : α → Prop) (b : α) : Prop :=
  ∃ a, roots a ∧ ReflTransGen (fun a b => b ∈ next a) a b

structure Invariant (roots processed pending : α → Prop) : Prop where
  started : ∀ a, roots a → processed a ∨ pending a
  sound : ∀ a, processed a ∨ pending a → Reachable next roots a
  expanded : ∀ a, processed a → ∀ b ∈ next a, processed b ∨ pending b

section Invariant

variable {next} {roots processed pending processed' pending' : α → Prop}

theorem Reachable.tail {a b : α} (reached : Reachable next roots a) (edge : b ∈ next a) :
    Reachable next roots b := by
  obtain ⟨root, isRoot, path⟩ := reached
  exact ⟨root, isRoot, path.tail edge⟩

theorem invariant_start (next : α → List α) (roots : α → Prop) :
    Invariant next roots (fun _ => False) roots where
  started _ isRoot := .inr isRoot
  sound a known := ⟨a, known.resolve_left id, .refl⟩
  expanded _ none := none.elim

theorem Invariant.advance (h : Invariant next roots processed pending)
    (kept : ∀ a, processed a ∨ pending a → processed' a ∨ pending' a)
    (known : ∀ b, processed' b ∨ pending' b →
      (processed b ∨ pending b) ∨ ∃ a, (processed a ∨ pending a) ∧ b ∈ next a)
    (expanded : ∀ a, processed' a → processed a ∨ ∀ b ∈ next a, processed' b ∨ pending' b) :
    Invariant next roots processed' pending' where
  started a isRoot := kept a (h.started a isRoot)
  sound b member := by
    obtain old | ⟨a, old, edge⟩ := known b member
    · exact h.sound b old
    · exact (h.sound a old).tail edge
  expanded a member b edge := by
    obtain old | now := expanded a member
    · exact kept b (h.expanded a old b edge)
    · exact now b edge

theorem Invariant.processed_iff (h : Invariant next roots processed pending)
    (done : ∀ a, ¬ pending a) (b : α) : processed b ↔ Reachable next roots b := by
  constructor
  · intro member
    exact h.sound b (.inl member)
  · rintro ⟨root, isRoot, path⟩
    induction path with
    | refl => exact (h.started root isRoot).resolve_right (done root)
    | tail _ edge ih => exact (h.expanded _ ih _ edge).resolve_right (done _)

end Invariant

/-! ## Loops over sets -/

structure State (α : Type*) where
  processed : Finset α
  pending : Finset α

variable [DecidableEq α]

inductive Step : State α → State α → Prop
  | skip {s : State α} {a : α} : a ∈ s.pending → a ∈ s.processed →
      Step s ⟨s.processed, s.pending.erase a⟩
  | expand {s : State α} {a : α} : a ∈ s.pending → a ∉ s.processed →
      Step s ⟨insert a s.processed, s.pending.erase a ∪ (next a).toFinset⟩

def start (roots : Finset α) : State α := ⟨∅, roots⟩

variable {next}

theorem Step.invariant {roots : α → Prop} {s s' : State α} (step : Step next s s')
    (h : Invariant next roots (· ∈ s.processed) (· ∈ s.pending)) :
    Invariant next roots (· ∈ s'.processed) (· ∈ s'.pending) := by
  cases step with
  | @skip a pending processed =>
    apply h.advance
    · intro b member
      by_cases same : b = a
      · exact .inl (same ▸ processed)
      · exact member.imp_right fun other => Finset.mem_erase.mpr ⟨same, other⟩
    · intro b member
      exact .inl (member.imp_right fun other => (Finset.mem_erase.mp other).2)
    · exact fun b member => .inl member
  | @expand a pending fresh =>
    apply h.advance
    · intro b member
      by_cases same : b = a
      · exact .inl (Finset.mem_insert.mpr (.inl same))
      · obtain old | other := member
        · exact .inl (Finset.mem_insert_of_mem old)
        · exact .inr (Finset.mem_union_left _ (Finset.mem_erase.mpr ⟨same, other⟩))
    · intro b member
      obtain old | new := member
      · obtain rfl | old := Finset.mem_insert.mp old
        · exact .inl (.inr pending)
        · exact .inl (.inl old)
      · obtain old | new := Finset.mem_union.mp new
        · exact .inl (.inr (Finset.mem_erase.mp old).2)
        · exact .inr ⟨a, .inr pending, List.mem_toFinset.mp new⟩
    · intro b member
      obtain rfl | old := Finset.mem_insert.mp member
      · exact .inr fun c edge =>
          .inr (Finset.mem_union_right _ (List.mem_toFinset.mpr edge))
      · exact .inl old

theorem processed_of_ended {roots kept : Finset α}
    (ran : ReflTransGen (Step next) (start roots) ⟨kept, ∅⟩) (b : α) :
    b ∈ kept ↔ Reachable next (· ∈ roots) b := by
  have invariant : ∀ s, ReflTransGen (Step next) (start roots) s →
      Invariant next (· ∈ roots) (· ∈ s.processed) (· ∈ s.pending) := by
    intro s reached
    induction reached with
    | refl => simpa [start] using invariant_start next (· ∈ roots)
    | tail _ step ih => exact step.invariant ih
  exact (invariant _ ran).processed_iff (fun a => Finset.notMem_empty a) b

theorem exists_step {s : State α} (pending : s.pending.Nonempty) : ∃ s', Step next s s' := by
  obtain ⟨a, member⟩ := pending
  by_cases processed : a ∈ s.processed
  · exact ⟨_, .skip member processed⟩
  · exact ⟨_, .expand member processed⟩

section Termination

variable (bound : Finset α) (bounded : ∀ a, ∀ b ∈ next a, b ∈ bound)
include bounded

theorem Step.decreases {s s' : State α} (step : Step next s s') (within : s.pending ⊆ bound) :
    s'.pending ⊆ bound ∧
      (bound \ s'.processed).card * (bound.card + 1) + s'.pending.card <
        (bound \ s.processed).card * (bound.card + 1) + s.pending.card := by
  cases step with
  | @skip a pending processed =>
    have fewer := Finset.card_erase_lt_of_mem pending
    refine ⟨(Finset.erase_subset _ _).trans within, ?_⟩
    dsimp only
    omega
  | @expand a pending fresh =>
    have within' : s.pending.erase a ∪ (next a).toFinset ⊆ bound := by
      apply Finset.union_subset ((Finset.erase_subset _ _).trans within)
      intro b member
      exact bounded a b (List.mem_toFinset.mp member)
    have few := Finset.card_le_card within'
    have remaining : bound \ insert a s.processed = (bound \ s.processed).erase a := by
      rw [← Finset.sdiff_singleton_eq_erase, sdiff_sdiff, Finset.sup_eq_union,
        Finset.union_singleton]
    have present : a ∈ bound \ s.processed := Finset.mem_sdiff.mpr ⟨within pending, fresh⟩
    have less := Finset.card_erase_add_one present
    refine ⟨within', ?_⟩
    dsimp only
    rw [remaining, ← less, Nat.add_mul]
    omega

theorem terminates (s : State α) (within : s.pending ⊆ bound) :
    Acc (fun s' s => Step next s s') s := by
  induction measure : (bound \ s.processed).card * (bound.card + 1) + s.pending.card
    using Nat.strong_induction_on generalizing s with
  | h n ih =>
    subst measure
    refine Acc.intro s fun s' step => ?_
    obtain ⟨within', less⟩ := step.decreases bound bounded within
    exact ih _ less s' within' rfl

end Termination

theorem exists_ended {s : State α} (terminates : Acc (fun s' s => Step next s s') s) :
    ∃ kept, ReflTransGen (Step next) s ⟨kept, ∅⟩ := by
  induction terminates with
  | intro s _ ih =>
    by_cases done : s.pending = ∅
    · refine ⟨s.processed, ?_⟩
      rw [← done]
    · obtain ⟨s', step⟩ := exists_step (Finset.nonempty_iff_ne_empty.mpr done)
      obtain ⟨kept, ran⟩ := ih s' step
      exact ⟨kept, .head step ran⟩

end Worklist
