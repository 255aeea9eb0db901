import Plinth.Lib.Runs
import Plinth.Model.ActionUtils

/-! # The hold on the package freedombox -/

namespace Plinth.ActionUtils

open Effect Python Runs

/-! ## A context by itself -/

/-! ## Contexts of several processes -/

namespace Contexts

def HeldWhileActive (c : Contexts) (events : List Event) : Prop :=
  ∀ before after, events = before ++ after → (run step c before).active ≠ [] →
    (run step c before).system.held freedombox = true

def LeavesAlone (c : Contexts) : Event → Prop
  | .enter _ => True
  | .leave context => ∀ entry ∈ c.active, c.currentHold context ≠ none → entry.1 = context

theorem mem_of_currentHold {c : Contexts} {context : Nat} {currentHold : Bool}
    (found : c.currentHold context = some currentHold) : (context, currentHold) ∈ c.active := by
  obtain ⟨entry, first, rfl⟩ := Option.map_eq_some_iff.mp found
  have same := List.find?_some first
  have member := List.mem_of_find?_eq_some first
  rw [← of_decide_eq_true same]
  exact member

theorem fresh_of_currentHold {c : Contexts} {context : Nat} (absent : c.currentHold context = none) :
    context ∉ c.active.map Prod.fst := by
  rw [currentHold, Option.map_eq_none_iff, List.find?_eq_none] at absent
  rintro present
  obtain ⟨entry, member, same⟩ := List.mem_map.mp present
  exact absent entry member (decide_eq_true same)

theorem step_cases (c : Contexts) (event : Event) :
    c.step event = c ∨
    (∃ context, event = .enter context ∧ c.currentHold context = none ∧
      c.step event = ⟨enterHold c.system, (context, c.system.held freedombox) :: c.active⟩) ∨
    ∃ context currentHold, event = .leave context ∧ c.currentHold context = some currentHold ∧
      c.step event =
        ⟨leaveHold currentHold c.system, c.active.filter fun entry => entry.1 ≠ context⟩ := by
  cases event with
  | enter context =>
    rw [step]
    cases found : c.currentHold context with
    | some currentHold => exact .inl rfl
    | none => exact .inr (.inl ⟨context, rfl, found, rfl⟩)
  | leave context =>
    rw [step]
    cases found : c.currentHold context with
    | none => exact .inl rfl
    | some currentHold => exact .inr (.inr ⟨context, currentHold, rfl, found, rfl⟩)

@[simp] theorem held_enterHold (s : System) : (enterHold s).held freedombox = true := by
  rw [enterHold]
  split
  · assumption
  · simp [System.setHeld]

theorem leaveHold_cases (currentHold : Bool) (s : System) :
    ((leaveHold currentHold s).held freedombox = false ∧
      (leaveHold currentHold s).aptHoldFlag = false) ∨
    currentHold = true ∧ s.aptHoldFlag = false ∧ leaveHold currentHold s = s := by
  rw [leaveHold]
  split
  · apply Or.inl
    simp [aptUnholdFreedombox, System.setHeld]
  · rename_i kept
    rw [not_or, Bool.not_eq_false, Bool.not_eq_true] at kept
    exact .inr ⟨kept.1, kept.2, rfl⟩

/-! ## The hold of the administrator -/

structure Kept (c : Contexts) : Prop where
  held : c.system.held freedombox = true
  flag : c.system.aptHoldFlag = false
  found : ∀ entry ∈ c.active, entry.2 = true

theorem Kept.step {c : Contexts} (kept : Kept c) (event : Event) : Kept (c.step event) := by
  rcases step_cases c event with same | ⟨context, rfl, _, next⟩ | ⟨context, currentHold, rfl, found, next⟩
  · rw [same]
    exact kept
  · rw [next, enterHold, if_pos kept.held]
    refine ⟨kept.held, kept.flag, ?_⟩
    intro entry member
    rcases List.mem_cons.mp member with rfl | member
    · exact kept.held
    · exact kept.found entry member
  · have hold : currentHold = true := kept.found _ (mem_of_currentHold found)
    have same : leaveHold currentHold c.system = c.system := by
      rw [leaveHold, if_neg]
      simp [hold, kept.flag]
    rw [next, same]
    exact ⟨kept.held, kept.flag, fun entry member => kept.found entry (List.mem_of_mem_filter member)⟩

theorem kept_run {c : Contexts} (kept : Kept c) (events : List Event) : Kept (run step c events) :=
  invariant_run Kept (fun _ event kept => kept.step event) c events kept

/-! ## The hold of the contexts -/

structure Owned (c : Contexts) : Prop where
  nodup : (c.active.map Prod.fst).Nodup
  owner : c.system.held freedombox = true ∨ c.system.aptHoldFlag = true →
    ∃ entry ∈ c.active, entry.2 = false

theorem Owned.step {c : Contexts} (owned : Owned c) (event : Event) : Owned (c.step event) := by
  rcases step_cases c event with same | ⟨context, rfl, absent, next⟩ | ⟨context, currentHold, rfl, found, next⟩
  · rw [same]
    exact owned
  · rw [next]
    refine ⟨List.nodup_cons.mpr ⟨fresh_of_currentHold absent, owned.nodup⟩, ?_⟩
    rintro -
    cases held : c.system.held freedombox with
    | false => exact ⟨_, List.mem_cons_self, rfl⟩
    | true =>
      obtain ⟨entry, member, set⟩ := owned.owner (.inl held)
      exact ⟨entry, List.mem_cons_of_mem _ member, set⟩
  · rw [next]
    refine ⟨owned.nodup.sublist (List.filter_sublist.map Prod.fst), ?_⟩
    rcases leaveHold_cases currentHold c.system with ⟨released, cleared⟩ | ⟨hold, _, same⟩
    · simp [released, cleared]
    · intro some
      dsimp only at some
      rw [same] at some
      obtain ⟨entry, member, set⟩ := owned.owner some
      refine ⟨entry, List.mem_filter.mpr ⟨member, decide_eq_true ?_⟩, set⟩
      intro mine
      have both := List.inj_on_of_nodup_map owned.nodup member (mem_of_currentHold found) mine
      rw [both] at set
      exact absurd (set.symm.trans hold) (by simp)

theorem owned_run {c : Contexts} (owned : Owned c) (events : List Event) :
    Owned (run step c events) :=
  invariant_run Owned (fun _ event owned => owned.step event) c events owned

structure Alone (c : Contexts) : Prop where
  held : c.system.held freedombox = true ↔ c.active ≠ []
  flag : c.system.aptHoldFlag = true ↔ c.active ≠ []

theorem Alone.step {c : Contexts} (alone : Alone c) (event : Event) (leaves : LeavesAlone c event) :
    Alone (c.step event) := by
  rcases step_cases c event with same | ⟨context, rfl, absent, next⟩ | ⟨context, currentHold, rfl, found, next⟩
  · rw [same]
    exact alone
  · rw [next]
    have flagged : (enterHold c.system).aptHoldFlag = true := by
      rw [enterHold]
      split
      · exact alone.flag.mpr (alone.held.mp ‹_›)
      · rfl
    exact ⟨by simp, by simp [flagged]⟩
  · have member := mem_of_currentHold found
    have flagged := alone.flag.mpr (List.ne_nil_of_mem member)
    have nobody : c.active.filter (fun entry => entry.1 ≠ context) = [] := by
      rw [List.filter_eq_nil_iff]
      intro entry present
      have mine := leaves entry present (by simp [found])
      simp [mine]
    rw [next, nobody]
    rcases leaveHold_cases currentHold c.system with ⟨released, cleared⟩ | ⟨_, unflagged, _⟩
    · exact ⟨by simp [released], by simp [cleared]⟩
    · exact absurd (flagged.symm.trans unflagged) (by simp)

theorem released_of_not_leavesAlone {c : Contexts} (alone : Alone c) {event : Event}
    (leaves : ¬ LeavesAlone c event) :
    (c.step event).active ≠ [] ∧ (c.step event).system.held freedombox = false := by
  cases event with
  | enter context => exact absurd trivial leaves
  | leave context =>
    cases found : c.currentHold context with
    | none =>
      apply absurd _ leaves
      intro entry _ entered
      exact absurd found entered
    | some currentHold =>
      have flagged := alone.flag.mpr (List.ne_nil_of_mem (mem_of_currentHold found))
      have other : ∃ entry ∈ c.active, entry.1 ≠ context := by
        by_contra none
        apply leaves
        intro entry present _
        by_contra other
        exact none ⟨entry, present, other⟩
      obtain ⟨entry, present, other⟩ := other
      rw [Contexts.step, found]
      constructor
      · exact List.ne_nil_of_mem (List.mem_filter.mpr ⟨present, decide_eq_true other⟩)
      · rcases leaveHold_cases currentHold c.system with ⟨released, _⟩ | ⟨_, unflagged, _⟩
        · exact released
        · exact absurd (flagged.symm.trans unflagged) (by simp)

theorem alone_run {c : Contexts} (alone : Alone c) (events : List Event)
    (leaves : Throughout step LeavesAlone c events) : Alone (run step c events) :=
  invariant_run_of_throughout Alone (fun _ event alone leaves => alone.step event leaves) c events
    alone leaves

theorem heldWhileActive_iff {c : Contexts} (alone : Alone c) (events : List Event) :
    HeldWhileActive c events ↔ Throughout step LeavesAlone c events := by
  constructor
  · intro held
    induction events generalizing c with
    | nil => trivial
    | cons event events ih =>
      have leaves : LeavesAlone c event := by
        by_contra broken
        obtain ⟨active, released⟩ := released_of_not_leavesAlone alone broken
        exact absurd ((held [event] events rfl active).symm.trans released) (by simp)
      refine ⟨leaves, ih (alone.step event leaves) ?_⟩
      rintro before after rfl active
      exact held (event :: before) after rfl active
  · rintro leaves before after rfl active
    have leaves := ((throughout_append c before after).mp leaves).1
    exact (alone_run alone before leaves).held.mpr active

def initial (system : System) : Contexts := ⟨system, []⟩

/-- From a state without a flag: the package stays on hold while a context is active exactly when
it was on hold before, or no context is left while another one is active. When all contexts have
been left, the hold is what it was, and a hold that was there before is never released. -/
theorem held_while_active_iff (system : System) (noFlag : system.aptHoldFlag = false)
    (events : List Event) :
    (HeldWhileActive (initial system) events ↔
      system.held freedombox = true ∨ Throughout step LeavesAlone (initial system) events) ∧
    ((run step (initial system) events).active = [] →
      (run step (initial system) events).system.held freedombox = system.held freedombox) ∧
    (system.held freedombox = true →
      (run step (initial system) events).system.held freedombox = true) := by
  cases held : system.held freedombox with
  | true =>
    have kept : Kept (initial system) := ⟨held, noFlag, by simp [initial]⟩
    have always : ∀ events, (run step (initial system) events).system.held freedombox = true :=
      fun events => (kept_run kept events).held
    exact ⟨⟨fun _ => .inl rfl, fun _ before _ _ _ => always before⟩, fun _ => always events,
      fun _ => always events⟩
  | false =>
    have alone : Alone (initial system) := ⟨by simp [initial, held], by simp [initial, noFlag]⟩
    have owned : Owned (initial system) := ⟨List.nodup_nil, by simp [initial, held, noFlag]⟩
    refine ⟨?_, ?_, ?_⟩
    · rw [heldWhileActive_iff alone]
      simp
    · intro nobody
      by_contra holds
      obtain ⟨entry, member, _⟩ := (owned_run owned events).owner (.inl (by simpa using holds))
      rw [nobody] at member
      cases member
    · intro h
      cases h

end Contexts

/-! ## A context inside another one -/

def unheld : System where
  held := fun _ => false
  aptHoldFlag := false
  enabled := fun _ => false
  running := fun _ => false
  disableAptSnapshot := none

theorem held_while_active_iff_unheld :
    Contexts.HeldWhileActive (Contexts.initial unheld) [.enter 0, .leave 0] := by
  apply (Contexts.held_while_active_iff unheld rfl _).1.mpr
  apply Or.inr
  refine ⟨trivial, ?_, trivial⟩
  intro entry member _
  have only : entry = (0, false) := List.mem_singleton.mp member
  rw [only]

theorem released_by_inner_context : ¬ ∀ (system : System), system.aptHoldFlag = false →
    ∀ events, Contexts.HeldWhileActive (Contexts.initial system) events := by
  intro all
  have held := all unheld rfl [.enter 0, .enter 1, .leave 1] _ [] (List.append_nil _).symm
  have active : (run Contexts.step (Contexts.initial unheld) [.enter 0, .enter 1, .leave 1]).active =
      [(0, false)] := rfl
  have released : (run Contexts.step (Contexts.initial unheld)
      [.enter 0, .enter 1, .leave 1]).system.held freedombox = false := rfl
  rw [active, released] at held
  exact absurd (held (by simp)) (by simp)

end Plinth.ActionUtils
