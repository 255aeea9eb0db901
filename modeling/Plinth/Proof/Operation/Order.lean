import Plinth.Proof.Operation.Acceptance
import Mathlib.Data.List.Range

/-! # Operations start in the order of acceptance -/

namespace Plinth.OperationsManager

def hasStarted (m : OperationsManager) (r : Nat) : Bool :=
  m.objects[r]?.any fun operation => operation.state ≠ .waiting

def starts (m : OperationsManager) (e : Event) : List Nat :=
  (List.range (m.step e).objects.length).filter fun r =>
    !m.hasStarted r && (m.step e).hasStarted r

def accepts (m : OperationsManager) : Event → List Nat
  | .new opId appId showMessage showNotification stored =>
    match (m.new opId appId showMessage showNotification stored).1 with
    | .ok r => [r]
    | .error _ => []
  | _ => []

def entriesFrom (m : OperationsManager) (opId : String) : List (String × Nat) :=
  m.operations.entries.dropWhile fun entry => entry.1 ≠ opId

/-- No operation waits behind an entry that is taken over, and a callback deletes no entry that is
another operation's. -/
def KeepsOrder (m : OperationsManager) : Event → Prop
  | .new opId _ _ showNotification stored =>
    m.inProgress opId = false → showNotification = false ∨ stored = true →
      ∀ entry ∈ m.entriesFrom opId, m.hasState .waiting entry.2 = false
  | .onComplete r => ∀ operation ∈ m.objects[r]?, operation.thread = .notified →
      operation.showMessage = false → ∀ r' ∈ m.operations.get? operation.opId, r' = r
  | .collectResults _ | .started .. | .finished .. | .notified .. => True

instance (m : OperationsManager) : ∀ e, Decidable (m.KeepsOrder e)
  | .new opId _ _ showNotification stored => inferInstanceAs (Decidable
      (m.inProgress opId = false → showNotification = false ∨ stored = true →
        ∀ entry ∈ m.entriesFrom opId, m.hasState .waiting entry.2 = false))
  | .onComplete r => inferInstanceAs (Decidable (∀ operation ∈ m.objects[r]?,
      operation.thread = .notified → operation.showMessage = false →
        ∀ r' ∈ m.operations.get? operation.opId, r' = r))
  | .collectResults _ | .started .. | .finished .. | .notified .. => .isTrue trivial

def waitingOperations (m : OperationsManager) : List Nat :=
  m.operations.values.filter (m.hasState .waiting)

structure InOrder (m : OperationsManager) (n : Nat) : Prop where
  wf : m.WellFormed
  kept : m.NotDropped
  sorted : m.waitingOperations.Pairwise (· < ·)
  started : ∀ r, m.hasStarted r = true ↔ r < n

/-! ## The operations that wait -/

theorem hasStarted_iff (m : OperationsManager) (r : Nat) :
    m.hasStarted r = true ↔ r < m.objects.length ∧ m.hasState .waiting r = false := by
  by_cases bound : r < m.objects.length
  · simp [hasStarted, hasState, bound]
  · simp [hasStarted, bound]

theorem hasStarted_congr {m m' : OperationsManager}
    (length : m'.objects.length = m.objects.length)
    (same : ∀ r, m'.hasState .waiting r = m.hasState .waiting r) (r : Nat) :
    m'.hasStarted r = m.hasStarted r := by
  rw [Bool.eq_iff_iff, hasStarted_iff, hasStarted_iff, length, same]

theorem mem_waitingOperations {m : OperationsManager} (kept : m.NotDropped) (r : Nat) :
    r ∈ m.waitingOperations ↔ m.hasState .waiting r = true := by
  rw [waitingOperations, List.mem_filter, OrderedDict.mem_values_iff]
  constructor
  · exact And.right
  · intro waiting
    obtain ⟨operation, found, state⟩ := (hasState_iff _ _ _).mp waiting
    exact ⟨⟨_, kept r operation found state⟩, waiting⟩

theorem InOrder.waiting_iff {m : OperationsManager} {n : Nat} (h : m.InOrder n) (r : Nat) :
    m.hasState .waiting r = true ↔ n ≤ r ∧ r < m.objects.length := by
  have started := (h.started r).symm.trans (m.hasStarted_iff r)
  constructor
  · intro waiting
    obtain ⟨operation, found, -⟩ := (hasState_iff _ _ _).mp waiting
    refine ⟨?_, (List.getElem?_eq_some_iff.mp found).1⟩
    rw [← Nat.not_lt]
    intro less
    rw [(started.mp less).2] at waiting
    cases waiting
  · rintro ⟨late, bound⟩
    rw [← Bool.not_eq_false]
    intro left
    exact absurd (started.mpr ⟨bound, left⟩) (Nat.not_lt.mpr late)

theorem InOrder.le_length {m : OperationsManager} {n : Nat} (h : m.InOrder n) :
    n ≤ m.objects.length := by
  rw [← Nat.not_lt]
  intro less
  exact absurd ((m.hasStarted_iff _).mp ((h.started _).mpr less)).1 (Nat.lt_irrefl _)

theorem filter_setEntry {κ α : Type*} [DecidableEq κ] (p q : α → Bool) (k : κ) (v : α)
    (entries : List (κ × α)) (same : ∀ entry ∈ entries, q entry.2 = p entry.2)
    (behind : ∀ entry ∈ entries.dropWhile (fun entry => entry.1 ≠ k), p entry.2 = false)
    (last : q v = true) :
    ((OrderedDict.setEntry k v entries).map Prod.snd).filter q =
      (entries.map Prod.snd).filter p ++ [v] := by
  induction entries with
  | nil => simp [OrderedDict.setEntry, last]
  | cons entry entries ih =>
    have same' : ∀ entry ∈ entries, q entry.2 = p entry.2 :=
      fun other member => same other (List.mem_cons_of_mem _ member)
    by_cases here : entry.1 = k
    · have none : ∀ other ∈ entry :: entries, p other.2 = false := by
        simpa [List.dropWhile_cons, here] using behind
      have before : ((entry :: entries).map Prod.snd).filter p = [] := by
        rw [List.filter_eq_nil_iff]
        intro x member
        obtain ⟨other, member', rfl⟩ := List.mem_map.mp member
        simp [none other member']
      have after : (entries.map Prod.snd).filter q = [] := by
        rw [List.filter_eq_nil_iff]
        intro x member
        obtain ⟨other, member', rfl⟩ := List.mem_map.mp member
        simp [same' other member', none other (List.mem_cons_of_mem _ member')]
      rw [before]
      simp [OrderedDict.setEntry, here, last, after]
    · have rest := ih same' (by simpa [List.dropWhile_cons, here] using behind)
      simp only [OrderedDict.setEntry, here, if_false, List.map_cons, List.filter_cons, rest,
        same entry List.mem_cons_self]
      split <;> rfl

/-! ## What one step does to the order -/

theorem inOrder_initial : initial.InOrder 0 :=
  ⟨wellFormed_initial, accepting_initial.kept, List.Pairwise.nil, by simp [hasStarted, initial]⟩

theorem InOrder.update {m : OperationsManager} {n : Nat} (h : m.InOrder n) (r : Nat)
    (f : Operation → Operation)
    (allowed : ∀ operation, m.objects[r]? = some operation → Allowed operation (f operation)) :
    (m.update r f).InOrder n := by
  have same := hasState_waiting_update allowed
  refine ⟨h.wf.update r f allowed, h.kept.allowed allowed, ?_, ?_⟩
  · have unchanged : (m.update r f).waitingOperations = m.waitingOperations :=
      List.filter_congr fun x _ => same x
    rw [unchanged]
    exact h.sorted
  · intro x
    rw [hasStarted_congr (by simp [OperationsManager.update]) same, h.started]

theorem InOrder.restrict {m : OperationsManager} {n : Nat} (h : m.InOrder n)
    (keep : String × Nat → Bool)
    (kept : ({ m with operations := m.operations.filter keep } : OperationsManager).NotDropped) :
    ({ m with operations := m.operations.filter keep } : OperationsManager).InOrder n where
  wf := h.wf.restrict _ fun _ _ found => ((m.operations.get?_filter _ _ _).mp found).1
  kept := kept
  sorted := h.sorted.sublist ((List.filter_sublist.map Prod.snd).filter _)
  started := h.started

theorem InOrder.register {m : OperationsManager} {n : Nat} (h : m.InOrder n)
    (opId appId : String) (showMessage showNotification : Bool)
    (idle : m.inProgress opId = false)
    (behind : ∀ entry ∈ m.entriesFrom opId, m.hasState .waiting entry.2 = false) :
    (m.register (.init opId appId showMessage showNotification)).InOrder n := by
  let operation := Operation.init opId appId showMessage showNotification
  have newest : (m.register operation).hasState .waiting m.objects.length = true :=
    (hasState_iff _ _ _).mpr ⟨operation, m.objects_register_new operation, rfl⟩
  have earlier (r : Nat) (bound : r < m.objects.length) :
      (m.register operation).hasState .waiting r = m.hasState .waiting r := by
    simp [hasState, OperationsManager.register, List.getElem?_append_left bound]
  have registered (r : Nat) (member : r ∈ m.operations.values) : r < m.objects.length := by
    obtain ⟨k, found⟩ := (m.operations.mem_values_iff r).mp member
    obtain ⟨before, there, -⟩ := h.wf.registered k r found
    exact (List.getElem?_eq_some_iff.mp there).1
  have waiting : (m.register operation).waitingOperations =
      m.waitingOperations ++ [m.objects.length] :=
    filter_setEntry _ _ opId _ m.operations.entries
      (fun entry member => earlier _ (registered _ (List.mem_map.mpr ⟨entry, member, rfl⟩)))
      behind newest
  refine ⟨h.wf.register _ _ _ _, h.kept.register operation idle, ?_, ?_⟩
  · rw [waiting, List.pairwise_append]
    refine ⟨h.sorted, List.pairwise_singleton _ _, ?_⟩
    intro r member last isLast
    rw [List.mem_singleton.mp isLast]
    exact registered r (List.mem_filter.mp member).1
  · intro r
    rw [← h.started, hasStarted_iff, hasStarted_iff]
    have length : (m.register operation).objects.length = m.objects.length + 1 := by
      simp [OperationsManager.register]
    rw [length]
    constructor
    · rintro ⟨bound, left⟩
      have other : r ≠ m.objects.length := by
        rintro rfl
        rw [newest] at left
        cases left
      have bound' : r < m.objects.length := by omega
      exact ⟨bound', (earlier r bound').symm.trans left⟩
    · rintro ⟨bound, left⟩
      exact ⟨Nat.lt_succ_of_lt bound, (earlier r bound).trans left⟩

theorem hasState_waiting_run (m : OperationsManager) (first r : Nat) :
    (m.run first).hasState .waiting r = (decide (r ≠ first) && m.hasState .waiting r) := by
  rw [hasState, run, objects_update]
  by_cases same : first = r
  · subst same
    cases m.objects[first]? <;> simp
  · simp [same, Ne.symm same, hasState]

theorem InOrder.scheduleNext {m : OperationsManager} {n : Nat} (h : m.InOrder n) :
    m.scheduleNext.InOrder n ∨ m.scheduleNext.InOrder (n + 1) := by
  obtain ⟨-, same⟩ | ⟨-, same, -⟩ | ⟨first, idle, picked, same⟩ := m.scheduleNext_cases
  · rw [same]
    exact .inl h
  · rw [same]
    exact .inl h
  refine .inr ?_
  have waits : m.waitingOperations.head? = some first := by
    rw [waitingOperations, List.head?_filter, picked]
  obtain ⟨tail, split⟩ : ∃ tail, m.waitingOperations = first :: tail := by
    cases list : m.waitingOperations with
    | nil => simp [list] at waits
    | cons x tail =>
      simp only [list, List.head?_cons, Option.some.injEq] at waits
      exact ⟨tail, by rw [waits]⟩
  have least : ∀ r, m.hasState .waiting r = true → first ≤ r := by
    intro r waiting
    have member := (mem_waitingOperations h.kept r).mpr waiting
    have sorted := h.sorted
    rw [split] at member sorted
    obtain rfl | later := List.mem_cons.mp member
    · exact Nat.le_refl _
    · exact Nat.le_of_lt ((List.pairwise_cons.mp sorted).1 r later)
  have firstWaits : m.hasState .waiting first = true := List.find?_some picked
  obtain ⟨late, bound⟩ := (h.waiting_iff first).mp firstWaits
  have next : first = n :=
    Nat.le_antisymm (least n ((h.waiting_iff n).mpr ⟨Nat.le_refl n, by omega⟩)) late
  have after (r : Nat) : m.scheduleNext.hasState .waiting r =
      (decide (r ≠ first) && m.hasState .waiting r) := by
    rw [same]
    exact hasState_waiting_run { m with currentOperation := some first } first r
  refine ⟨h.wf.scheduleNext, h.kept.scheduleNext, ?_, ?_⟩
  · have remaining : m.scheduleNext.waitingOperations =
        m.waitingOperations.filter fun r => r ≠ first := by
      rw [waitingOperations, waitingOperations, operations_scheduleNext, List.filter_filter]
      exact List.filter_congr fun r _ => after r
    rw [remaining]
    exact h.sorted.filter _
  · intro r
    rw [hasStarted_iff, length_scheduleNext, after]
    have started := (h.started r).symm.trans (m.hasStarted_iff r)
    constructor
    · rintro ⟨bound', left⟩
      by_cases here : r = first
      · omega
      · have left' : m.hasState .waiting r = false := by simpa [here] using left
        have := started.mpr ⟨bound', left'⟩
        omega
    · intro less
      by_cases here : r = first
      · subst here
        exact ⟨bound, by simp⟩
      · obtain ⟨bound', left⟩ := started.mp (by omega)
        exact ⟨bound', by simp [left]⟩

theorem InOrder.onComplete {m : OperationsManager} {n : Nat} (h : m.InOrder n) (r : Nat)
    (keeps : m.KeepsOrder (.onComplete r)) :
    (m.step (.onComplete r)).InOrder n ∨ (m.step (.onComplete r)).InOrder (n + 1) := by
  obtain ⟨-, same⟩ | ⟨operation, found, there, outcome⟩ := m.onComplete_cases r
  · rw [same]
    exact .inl h
  have updated := h.update r _ (allowed_ended h.wf found there)
  have wf := h.wf.cleared r operation found there
  have cleared : (m.cleared r).InOrder n := ⟨wf, updated.kept, updated.sorted, updated.started⟩
  obtain ⟨-, same⟩ | ⟨-, -, same⟩ | ⟨registered, lingers, taken, same⟩ := outcome
  · rw [same]
    exact cleared.scheduleNext
  · rw [same]
    exact .inl (cleared.update r _ (allowed_died wf))
  · rw [same]
    obtain rfl : registered = r := keeps operation found there lingers registered taken
    apply InOrder.scheduleNext
    apply cleared.restrict
    intro other after found' waiting
    have registered' := updated.kept other after found' waiting
    have differs : after.opId ≠ operation.opId := by
      intro id
      rw [id] at registered'
      obtain rfl : other = registered := Option.some.inj (registered'.symm.trans taken)
      have := wf.consistent other after found'
      simp [Consistent, ended_of_cleared found', waiting] at this
    exact (m.operations.get?_filter _ _ _).mpr ⟨registered', by simpa using differs⟩

theorem InOrder.step {m : OperationsManager} {n : Nat} (h : m.InOrder n) (e : Event)
    (keeps : m.KeepsOrder e) : (m.step e).InOrder n ∨ (m.step e).InOrder (n + 1) := by
  cases e with
  | new opId appId showMessage showNotification stored =>
    simp only [OperationsManager.step, new]
    split
    · exact .inl h
    · rename_i idle
      have idle' := eq_false_of_ne_true idle
      split
      · rename_i returns
        have accepted : showNotification = false ∨ stored = true := by
          simpa [Operation.updateNotification, Operation.init] using returns
        exact (h.register opId appId showMessage showNotification idle'
          (keeps idle' accepted)).scheduleNext
      · exact .inl h
  | collectResults appId =>
    have kept := h.kept.collectResults h.wf appId
    simp only [OperationsManager.step, collectResults_eq h.wf] at kept ⊢
    exact .inl (h.restrict _ kept)
  | started r stored =>
    exact .inl (h.update r _ (allowed_advance h.wf (allowed_started_step h.wf r stored)))
  | finished r exception =>
    exact .inl (h.update r _ (allowed_advance h.wf fun operation found there =>
      allowed_finished (h.wf.consistent r operation found) there exception))
  | notified r stored =>
    exact .inl (h.update r _ (allowed_advance h.wf (allowed_notified_step h.wf r stored)))
  | onComplete r => exact h.onComplete r keeps

/-! ## Runs -/

theorem filter_range_between {before after : Nat → Bool} {n k length : Nat}
    (wasBelow : ∀ r, before r = true ↔ r < n) (isBelow : ∀ r, after r = true ↔ r < n + k)
    (bound : n + k ≤ length) :
    ((List.range length).filter fun r => !before r && after r) = List.range' n k := by
  obtain ⟨rest, rfl⟩ := Nat.exists_eq_add_of_le bound
  have split : List.range (n + k + rest) =
      List.range' 0 n ++ List.range' n k ++ List.range' (n + k) rest := by
    rw [List.range_eq_range', ← List.range'_append_1, ← List.range'_append_1]
    simp
  have old : (List.range' 0 n).filter (fun r => !before r && after r) = [] := by
    rw [List.filter_eq_nil_iff]
    intro r member
    rw [List.mem_range'_1] at member
    simp [(wasBelow r).mpr (by omega)]
  have new : (List.range' n k).filter (fun r => !before r && after r) = List.range' n k := by
    rw [List.filter_eq_self]
    intro r member
    rw [List.mem_range'_1] at member
    have notYet : before r = false := by
      rw [← Bool.not_eq_true, wasBelow]
      omega
    simp [notYet, (isBelow r).mpr member.2]
  have none : (List.range' (n + k) rest).filter (fun r => !before r && after r) = [] := by
    rw [List.filter_eq_nil_iff]
    intro r member
    rw [List.mem_range'_1] at member
    have notAfter : after r = false := by
      rw [← Bool.not_eq_true, isBelow]
      omega
    simp [notAfter]
  rw [split, List.filter_append, List.filter_append, old, new, none]
  simp

theorem InOrder.starts {m : OperationsManager} {n : Nat} (h : m.InOrder n) (e : Event)
    (keeps : m.KeepsOrder e) :
    ∃ k, (m.step e).InOrder (n + k) ∧ m.starts e = List.range' n k := by
  have counted (k : Nat) (after : (m.step e).InOrder (n + k)) : m.starts e = List.range' n k :=
    filter_range_between h.started after.started after.le_length
  obtain same | next := h.step e keeps
  · exact ⟨0, same, counted 0 same⟩
  · exact ⟨1, next, counted 1 next⟩

theorem accepts_eq_range' {m : OperationsManager} (wf : m.WellFormed) (e : Event) :
    ∃ k, (m.step e).objects.length = m.objects.length + k ∧
      m.accepts e = List.range' m.objects.length k := by
  cases e with
  | new opId appId showMessage showNotification stored =>
    simp only [step, accepts]
    obtain ⟨failure, same⟩ | ⟨-, same⟩ := m.new_cases opId appId showMessage showNotification stored
    · exact ⟨0, by rw [same]; rfl, by rw [same]; rfl⟩
    · refine ⟨1, ?_, by rw [same]; rfl⟩
      rw [same, length_scheduleNext]
      simp [register]
  | collectResults appId =>
    refine ⟨0, ?_, rfl⟩
    simp [step, collectResults_eq wf]
  | started | finished | notified => exact ⟨0, by simp [step, advance, update], rfl⟩
  | onComplete r =>
    refine ⟨0, ?_, rfl⟩
    obtain ⟨-, same⟩ | ⟨operation, -, -, outcome⟩ := m.onComplete_cases r
    · rw [same, Nat.add_zero]
    · obtain ⟨-, same⟩ | ⟨-, -, same⟩ | ⟨_, -, -, same⟩ := outcome
      · rw [same, length_scheduleNext]
        simp [cleared, update]
      · rw [same]
        simp [cleared, update]
      · rw [same, length_scheduleNext]
        simp [cleared, update]

theorem accepted_in_turn (events : List Event) :
    Runs.trace step accepts initial events =
      List.range' 0 (Runs.run step initial events).objects.length := by
  have always : Runs.Throughout step (fun _ _ => True) initial events := by
    rw [Runs.throughout_iff]
    intros
    trivial
  obtain ⟨k, ⟨-, length⟩, accepted⟩ := Runs.trace_eq_range'
    (fun m n => m.WellFormed ∧ m.objects.length = n) accepts
    (by
      rintro m e _ ⟨wf, rfl⟩ -
      obtain ⟨k, length, accepted⟩ := accepts_eq_range' wf e
      exact ⟨k, ⟨wf.step e, length⟩, accepted⟩)
    initial events 0 ⟨wellFormed_initial, rfl⟩ always
  rw [accepted, length, Nat.zero_add]

/-- Order. In a run that takes over no entry ahead of a waiting operation and deletes none of
another operation, the operations that have been started are the first ones accepted, in the order
of their acceptance. -/
theorem started_in_order_of_acceptance (events : List Event)
    (keeps : Runs.Throughout step KeepsOrder initial events) :
    Runs.trace step starts initial events <+: Runs.trace step accepts initial events := by
  obtain ⟨k, final, started⟩ := Runs.trace_eq_range' InOrder starts
    (fun _ e _ h keeps => h.starts e keeps) initial events 0 inOrder_initial keeps
  rw [started, accepted_in_turn]
  obtain ⟨rest, length⟩ := Nat.exists_eq_add_of_le final.le_length
  refine ⟨List.range' k rest, ?_⟩
  rw [length, Nat.zero_add]
  have append : List.range' 0 k ++ List.range' (0 + k) rest = List.range' 0 (k + rest) :=
    List.range'_append_1
  rw [Nat.zero_add] at append
  exact append

def overtaken : List Event :=
  [.new "a" "app" true false true, .started 0 true, .finished 0 none, .notified 0 true,
    .onComplete 0, .new "b" "app" true false true, .new "c" "app" true false true,
    .new "a" "app" true false true, .started 1 true, .finished 1 none, .notified 1 true,
    .onComplete 1]

theorem started_in_order_of_acceptance_undisturbed :
    Runs.trace step starts initial (overtaken.take 7) <+:
      Runs.trace step accepts initial (overtaken.take 7) :=
  started_in_order_of_acceptance _ (by decide)

theorem overtaken_starts_first :
    ¬ ∀ events, Runs.trace step starts initial events <+:
      Runs.trace step accepts initial events := by
  intro all
  have order := all overtaken
  revert order
  decide

end Plinth.OperationsManager
