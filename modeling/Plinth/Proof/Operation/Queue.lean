import Plinth.Proof.Operation.Order

/-! # Accepted operations are picked -/

namespace Plinth.OperationsManager

/-! ## Counting ahead of an element -/

section Lists

variable {α κ : Type*} [DecidableEq α] [DecidableEq κ]

def aheadOf (r : α) : List α → List α
  | [] => []
  | a :: l => if a = r then [] else a :: aheadOf r l

theorem aheadOf_append_of_mem {r : α} {l : List α} (member : r ∈ l) (rest : List α) :
    aheadOf r (l ++ rest) = aheadOf r l := by
  induction l with
  | nil => cases member
  | cons a l ih =>
    by_cases same : a = r
    · simp [aheadOf, same]
    · have member' : r ∈ l := (List.mem_cons.mp member).resolve_left (Ne.symm same)
      simp [aheadOf, same, ih member']

theorem mem_of_mem_aheadOf {r a : α} {l : List α} (member : a ∈ aheadOf r l) : a ∈ l := by
  induction l with
  | nil => cases member
  | cons b l ih =>
    by_cases same : b = r
    · simp [aheadOf, same] at member
    · rw [aheadOf, if_neg same, List.mem_cons] at member
      exact List.mem_cons.mpr (member.imp_right ih)

theorem countP_aheadOf_filter_le (p keep : α → Bool) {r : α} (kept : keep r = true)
    (l : List α) : (aheadOf r (l.filter keep)).countP p ≤ (aheadOf r l).countP p := by
  induction l with
  | nil => simp [aheadOf]
  | cons a l ih =>
    by_cases same : a = r
    · simp [aheadOf, same, kept]
    · by_cases keeps : keep a = true
      · simp [aheadOf, same, keeps, List.countP_cons, ih]
      · simp only [aheadOf, same, keeps, List.filter_cons, if_false, List.countP_cons]
        exact Nat.le_add_right_of_le ih

theorem countP_aheadOf_setEntry_le (p : α → Bool) {r v : α} (k : κ) (entries : List (κ × α))
    (other : (k, r) ∉ entries) (new : v ≠ r) :
    (aheadOf r ((OrderedDict.setEntry k v entries).map Prod.snd)).countP p ≤
      (aheadOf r (entries.map Prod.snd)).countP p + 1 := by
  induction entries with
  | nil =>
    simp only [OrderedDict.setEntry, List.map_cons, List.map_nil, aheadOf, new, if_false,
      List.countP_cons, List.countP_nil]
    split <;> omega
  | cons entry entries ih =>
    simp only [List.mem_cons, not_or] at other
    by_cases here : entry.1 = k
    · have differs : entry.2 ≠ r := fun h => other.1 (Prod.ext here.symm h.symm)
      simp only [OrderedDict.setEntry, here, if_true, List.map_cons, aheadOf, new, differs,
        if_false, List.countP_cons]
      split <;> omega
    · by_cases same : entry.2 = r
      · simp [OrderedDict.setEntry, here, same, aheadOf]
      · simp only [OrderedDict.setEntry, here, if_false, List.map_cons, aheadOf, same,
          List.countP_cons]
        have := ih other.2
        omega

theorem countP_aheadOf_find?_lt (p q : α → Bool) {r first : α} {l : List α}
    (found : l.find? p = some first) (satisfied : p r = true) (other : first ≠ r)
    (remaining : ∀ a, q a = true → p a = true ∧ a ≠ first) :
    (aheadOf r l).countP q + 1 ≤ (aheadOf r l).countP p := by
  induction l with
  | nil => simp at found
  | cons a l ih =>
    by_cases here : p a = true
    · obtain rfl : a = first := by simpa [here] using found
      have out : q a = false := by
        rw [← Bool.not_eq_true]
        exact fun h => (remaining a h).2 rfl
      have fewer : (aheadOf r l).countP q ≤ (aheadOf r l).countP p :=
        List.countP_mono_left fun x _ h => (remaining x h).1
      simpa [aheadOf, other, here, out, List.countP_cons] using fewer
    · have differs : a ≠ r := fun h => here (h ▸ satisfied)
      have out : q a = false := by
        rw [← Bool.not_eq_true]
        exact fun h => here (remaining a h).1
      have rest := ih (by simpa [here] using found)
      simpa [aheadOf, differs, here, out, List.countP_cons] using rest

end Lists

def waitingAhead (m : OperationsManager) (r : Nat) : Nat :=
  (aheadOf r m.operations.values).countP (m.hasState .waiting)

def callbacks (m : OperationsManager) : Event → Nat
  | .onComplete r => if m.objects[r]?.any (·.thread = .notified) then 1 else 0
  | _ => 0

/-- The event is a call of `new` with the id of a registered operation. -/
def reuses (m : OperationsManager) : Event → Nat
  | .new opId .. => if (m.operations.get? opId).isSome then 1 else 0
  | _ => 0

/-! ## What one step does to the operations ahead -/

theorem waiting_of_run {m : OperationsManager} {r r' : Nat}
    (waiting : (m.run r).hasState .waiting r' = true) :
    m.hasState .waiting r' = true ∧ r' ≠ r := by
  obtain ⟨after, found, state⟩ := (hasState_iff _ _ _).mp waiting
  obtain ⟨before, h, ⟨-, rfl⟩ | ⟨other, rfl⟩⟩ := objects_update_cases found
  · cases state
  · exact ⟨(hasState_iff _ _ _).mpr ⟨after, h, state⟩, Ne.symm other⟩

theorem waiting_of_scheduleNext {m : OperationsManager} {r : Nat}
    (waiting : m.scheduleNext.hasState .waiting r = true) : m.hasState .waiting r = true := by
  obtain ⟨-, same⟩ | ⟨-, same, -⟩ | ⟨first, -, -, same⟩ := m.scheduleNext_cases
  · rwa [same] at waiting
  · rwa [same] at waiting
  · rw [same] at waiting
    exact (waiting_of_run waiting).1

theorem waitingAhead_scheduleNext {m : OperationsManager} {r : Nat}
    (idle : m.currentOperation = none) (registered : r ∈ m.operations.values)
    (waiting : m.scheduleNext.hasState .waiting r = true) :
    m.scheduleNext.waitingAhead r + 1 ≤ m.waitingAhead r := by
  have waiting' := waiting_of_scheduleNext waiting
  obtain ⟨busy, -⟩ | ⟨-, -, none⟩ | ⟨first, -, picked, same⟩ := m.scheduleNext_cases
  · simp [idle] at busy
  · obtain ⟨k, found⟩ := (m.operations.mem_values_iff r).mp registered
    rw [none k r found] at waiting'
    cases waiting'
  · rw [same] at waiting ⊢
    exact countP_aheadOf_find?_lt _ _ picked waiting' (waiting_of_run waiting).2.symm
      fun _ => waiting_of_run

theorem mem_values_of_waiting {m : OperationsManager} (h : m.NotDropped) {r : Nat}
    (waiting : m.hasState .waiting r = true) : r ∈ m.operations.values := by
  obtain ⟨operation, found, state⟩ := (hasState_iff _ _ _).mp waiting
  exact (m.operations.mem_values_iff r).mpr ⟨_, h r operation found state⟩

theorem waitingAhead_congr {m m' : OperationsManager} (r : Nat)
    (operations : m'.operations = m.operations)
    (same : ∀ x ∈ m.operations.values, m'.hasState .waiting x = m.hasState .waiting x) :
    m'.waitingAhead r = m.waitingAhead r := by
  rw [waitingAhead, waitingAhead, operations]
  exact List.countP_congr fun x member => by rw [same x (mem_of_mem_aheadOf member)]

theorem hasState_register {m : OperationsManager} (operation : Operation) {r : Nat}
    (bound : r < m.objects.length) :
    (m.register operation).hasState .waiting r = m.hasState .waiting r := by
  simp [hasState, register, List.getElem?_append_left bound]

theorem bound_of_mem_values {m : OperationsManager} (wf : m.WellFormed) {r : Nat}
    (member : r ∈ m.operations.values) : r < m.objects.length := by
  obtain ⟨k, found⟩ := (m.operations.mem_values_iff r).mp member
  obtain ⟨operation, h, -⟩ := wf.registered k r found
  exact (List.getElem?_eq_some_iff.mp h).1

theorem waitingAhead_register {m : OperationsManager} (h : m.Accepting) {r : Nat}
    (operation : Operation) (idle : m.inProgress operation.opId = false)
    (waiting : m.hasState .waiting r = true) :
    (m.register operation).waitingAhead r ≤
      m.waitingAhead r + if (m.operations.get? operation.opId).isSome then 1 else 0 := by
  have registered := mem_values_of_waiting h.kept waiting
  have unchanged : (aheadOf r m.operations.values).countP
      ((m.register operation).hasState .waiting) = m.waitingAhead r :=
    List.countP_congr fun x member => by
      rw [hasState_register operation (bound_of_mem_values h.wf (mem_of_mem_aheadOf member))]
  rw [← unchanged]
  cases taken : m.operations.get? operation.opId with
  | none =>
    have absent : operation.opId ∉ m.operations.entries.map Prod.fst := by
      intro member
      obtain ⟨x, found⟩ := (m.operations.mem_keys_iff _).mp member
      simp [taken] at found
    have appended : (m.register operation).operations.values =
        m.operations.values ++ [m.objects.length] := by
      simp [register, OrderedDict.values, OrderedDict.set,
        OrderedDict.setEntry_of_absent _ _ _ absent]
    rw [waitingAhead, appended, aheadOf_append_of_mem registered]
    exact Nat.le_add_right _ _
  | some x =>
    have other : (operation.opId, r) ∉ m.operations.entries := by
      rw [← OrderedDict.get?_eq_some_iff]
      intro found
      simp only [inProgress, found, Option.any_some, Bool.not_eq_false'] at idle
      obtain ⟨before, h', completed⟩ := (hasState_iff _ _ _).mp idle
      obtain ⟨before', h'', state⟩ := (hasState_iff _ _ _).mp waiting
      obtain rfl : before = before' := Option.some.inj (h'.symm.trans h'')
      rw [completed] at state
      cases state
    have new : m.objects.length ≠ r :=
      (Nat.ne_of_lt (bound_of_mem_values h.wf registered)).symm
    exact countP_aheadOf_setEntry_le _ _ _ other new

theorem waitingAhead_onComplete {m : OperationsManager} (h : m.Accepting) (c : Nat)
    (undisturbed : m.CallbackUndisturbed (.onComplete c)) {r : Nat}
    (live : (m.step (.onComplete c)).hasState .waiting r = true) :
    m.hasState .waiting r = true ∧
      (m.step (.onComplete c)).waitingAhead r + m.callbacks (.onComplete c) ≤
        m.waitingAhead r + 0 := by
  obtain ⟨silent, same⟩ | ⟨operation, found, there, outcome⟩ := m.onComplete_cases c
  · rw [same] at live ⊢
    have none : m.callbacks (.onComplete c) = 0 := by
      cases h' : m.objects[c]? <;> simp_all [callbacks]
    exact ⟨live, by omega⟩
  · have one : m.callbacks (.onComplete c) = 1 := by simp [callbacks, found, there]
    have wf := h.wf.cleared c operation found there
    have unchanged := hasState_waiting_cleared h.wf found there
    have ahead : (m.cleared c).waitingAhead r = m.waitingAhead r :=
      waitingAhead_congr r rfl fun x _ => unchanged x
    rw [one]
    obtain ⟨-, same⟩ | ⟨lingers, missing, same⟩ | ⟨r', lingers, registered, same⟩ := outcome
    · rw [same] at live ⊢
      have waiting := (unchanged r).symm.trans (waiting_of_scheduleNext live)
      have registered : r ∈ (m.cleared c).operations.values := mem_values_of_waiting h.kept waiting
      have picked := waitingAhead_scheduleNext rfl registered live
      exact ⟨waiting, by omega⟩
    · -- The entry was collected, so that nobody waits.
      obtain shown | own | ⟨-, alone⟩ := undisturbed operation found there
      · simp [lingers] at shown
      · simp [missing] at own
      rw [same, hasState_waiting_update (allowed_died wf), unchanged, hasState_iff] at live
      obtain ⟨waiter, h', waiting⟩ := live
      exact absurd waiting (alone waiter (List.mem_of_getElem? h'))
    · obtain rfl : r' = c := by
        obtain shown | own | ⟨missing, -⟩ := undisturbed operation found there
        · simp [lingers] at shown
        · exact Option.some.inj (registered.symm.trans own)
        · simp [missing] at registered
      let erased : OperationsManager :=
        { m.cleared r' with operations := m.operations.erase operation.opId }
      have scheduled : m.step (.onComplete r') = erased.scheduleNext := same
      rw [scheduled] at live ⊢
      have still : erased.hasState .waiting r = true := waiting_of_scheduleNext live
      have waiting : m.hasState .waiting r = true := (unchanged r).symm.trans still
      obtain ⟨before, h', state⟩ := (hasState_iff _ _ _).mp waiting
      have other : r ≠ r' := by
        rintro rfl
        obtain rfl : before = operation := Option.some.inj (h'.symm.trans found)
        rw [completed_of_thread h.wf found (.inr (.inl there))] at state
        cases state
      have values : erased.operations.values = m.operations.values.filter (· ≠ r') := by
        refine m.operations.values_filter _ _ fun entry member => ?_
        have entry_found := (m.operations.get?_eq_some_iff entry.1 entry.2).mpr member
        obtain ⟨named, h'', id⟩ := h.wf.registered _ _ entry_found
        rw [Bool.eq_iff_iff]
        simp only [decide_eq_true_eq, not_iff_not]
        constructor
        · intro same'
          rw [same'] at entry_found
          exact Option.some.inj (entry_found.symm.trans registered)
        · intro same'
          rw [same'] at h''
          rw [← id, Option.some.inj (h''.symm.trans found)]
      have member : r ∈ erased.operations.values := by
        rw [values, List.mem_filter]
        exact ⟨mem_values_of_waiting h.kept waiting, by simpa using other⟩
      have picked := waitingAhead_scheduleNext rfl member live
      have fewer : erased.waitingAhead r ≤ (m.cleared r').waitingAhead r := by
        rw [waitingAhead, values]
        exact countP_aheadOf_filter_le _ _ (by simpa using other) _
      exact ⟨waiting, by omega⟩

theorem waitingAhead_step {m : OperationsManager} (h : m.Accepting) (e : Event)
    (undisturbed : m.CallbackUndisturbed e) {r : Nat} (bound : r < m.objects.length)
    (live : (m.step e).hasState .waiting r = true) :
    m.hasState .waiting r = true ∧
      (m.step e).waitingAhead r + m.callbacks e ≤ m.waitingAhead r + m.reuses e := by
  cases e with
  | new opId appId showMessage showNotification stored =>
    simp only [step] at live ⊢
    obtain ⟨failure, same⟩ | ⟨idle, same⟩ := m.new_cases opId appId showMessage showNotification stored
    · rw [same] at live ⊢
      exact ⟨live, by simp [callbacks]⟩
    · rw [same] at live ⊢
      have waiting : m.hasState .waiting r = true := by
        rw [← hasState_register _ bound]
        exact waiting_of_scheduleNext live
      have busy : m.currentOperation.isSome = true := by
        rw [Option.isSome_iff_ne_none]
        intro none
        obtain ⟨operation, found, state⟩ := (hasState_iff _ _ _).mp waiting
        exact h.notStalled.1 none r operation found state
      have unscheduled : (m.register (.init opId appId showMessage showNotification)).scheduleNext =
          m.register (.init opId appId showMessage showNotification) := by
        rw [scheduleNext, if_pos (show (m.register _).currentOperation.isSome = true from busy)]
      refine ⟨waiting, ?_⟩
      rw [unscheduled]
      exact waitingAhead_register h (.init opId appId showMessage showNotification) idle waiting
  | collectResults appId =>
    simp only [step, collectResults_eq h.wf] at live ⊢
    refine ⟨live, ?_⟩
    have waiting : m.hasState .waiting r = true := live
    obtain ⟨operation, found, state⟩ := (hasState_iff _ _ _).mp waiting
    have kept : (!m.isResult appId r) = true := by simp [not_isResult appId found state]
    have fewer := countP_aheadOf_filter_le (m.hasState .waiting) (fun r => !m.isResult appId r)
      kept m.operations.values
    rw [← m.operations.values_filter (fun entry => !m.isResult appId entry.2) _ fun _ _ => rfl]
      at fewer
    exact fewer
  | started r' stored =>
    have same := hasState_waiting_update
      (allowed_advance h.wf (allowed_started_step h.wf r' stored))
    refine ⟨(same r).symm.trans live, Nat.le_of_eq ?_⟩
    exact waitingAhead_congr r rfl fun x _ => same x
  | finished r' exception =>
    have same := hasState_waiting_update (allowed_advance h.wf fun operation found there =>
      allowed_finished (h.wf.consistent r' operation found) there exception)
    refine ⟨(same r).symm.trans live, Nat.le_of_eq ?_⟩
    exact waitingAhead_congr r rfl fun x _ => same x
  | notified r' stored =>
    have same := hasState_waiting_update
      (allowed_advance h.wf (allowed_notified_step h.wf r' stored))
    refine ⟨(same r).symm.trans live, Nat.le_of_eq ?_⟩
    exact waitingAhead_congr r rfl fun x _ => same x
  | onComplete c => exact waitingAhead_onComplete h c undisturbed live

/-! ## Runs -/

theorem length_objects_step {m : OperationsManager} (wf : m.WellFormed) (e : Event) :
    m.objects.length ≤ (m.step e).objects.length := by
  obtain ⟨k, longer, -⟩ := accepts_eq_range' wf e
  exact Nat.le.intro longer.symm

/-- The current operation has not come to its callback: its thread is on the way there, or the
target has not been run to its end. -/
def Unfinished (m : OperationsManager) (c : Nat) : Prop :=
  ∃ operation, m.objects[c]? = some operation ∧
    (operation.thread.active = true ∨ operation.state ≠ .completed)

theorem Accepting.waits_for_current {m : OperationsManager} (h : m.Accepting) {r : Nat}
    (waiting : m.hasState .waiting r = true) :
    ∃ c, m.currentOperation = some c ∧ c ≠ r ∧ m.Unfinished c := by
  obtain ⟨operation, found, state⟩ := (hasState_iff _ _ _).mp waiting
  cases current : m.currentOperation with
  | none => exact absurd state (h.notStalled.1 current r operation found)
  | some c =>
    obtain ⟨before, h', started⟩ := h.wf.current c current
    refine ⟨c, rfl, ?_, before, h', ?_⟩
    · rintro rfl
      exact started (Option.some.inj (h'.symm.trans found) ▸ state)
    · by_cases completed : before.state = .completed
      · exact .inl (h.notStalled.2 c before current h' completed)
      · exact .inr completed

theorem callbacks_le_waitingAhead (before after : List Event)
    (undisturbed : Runs.Throughout step CallbackUndisturbed initial (before ++ after)) {r : Nat}
    (waiting : (Runs.run step initial before).hasState .waiting r = true)
    (still : (Runs.run step initial (before ++ after)).hasState .waiting r = true) :
    Runs.tally step callbacks (Runs.run step initial before) after ≤
      (Runs.run step initial before).waitingAhead r +
        Runs.tally step reuses (Runs.run step initial before) after := by
  rw [Runs.throughout_append] at undisturbed
  rw [Runs.run_append] at still
  have accepting := accepting_run before undisturbed.1
  obtain ⟨operation, found, -⟩ := (hasState_iff _ _ _).mp waiting
  have bound := (List.getElem?_eq_some_iff.mp found).1
  have := (Runs.tally_le_of_potential
    (fun m : OperationsManager => m.Accepting ∧ r < m.objects.length)
    (fun m => m.hasState .waiting r = true) (fun m => m.waitingAhead r) callbacks reuses
    (fun m e h c => ⟨h.1.step e c, Nat.lt_of_lt_of_le h.2 (length_objects_step h.1.wf e)⟩)
    (fun m e h c live => waitingAhead_step h.1 e c h.2 live)
    _ after ⟨accepting, bound⟩ undisturbed.2 still).2
  omega

/-- Acceptance. In a run every step keeps every accepted operation and schedules after every
finished one exactly when the callbacks of the run are undisturbed; and in such a run an
operation that waits does so for an unfinished one, and is picked once the operations ahead of it
and the reuses of registered ids have had their callbacks. -/
theorem accepted_operations_are_run (events : List Event) :
    (Runs.Throughout step KeepsAccepted initial events ↔
      Runs.Throughout step CallbackUndisturbed initial events) ∧
    (Runs.Throughout step CallbackUndisturbed initial events →
      ∀ before after, events = before ++ after → ∀ r,
        (Runs.run step initial before).hasState .waiting r = true →
        (∃ c, (Runs.run step initial before).currentOperation = some c ∧ c ≠ r ∧
          (Runs.run step initial before).Unfinished c) ∧
        ((Runs.run step initial before).waitingAhead r +
            Runs.tally step reuses (Runs.run step initial before) after <
          Runs.tally step callbacks (Runs.run step initial before) after →
          (Runs.run step initial events).hasState .waiting r = false)) := by
  constructor
  · exact (Runs.throughout_congr Accepting
      (fun m e h => ⟨fun keeps => h.undisturbed e keeps, fun c => h.keepsAccepted e c⟩)
      (fun m e h keeps => ⟨h.wf.step e, keeps.1, keeps.2.1⟩) initial events accepting_initial)
  · rintro undisturbed before after rfl r waiting
    constructor
    · exact (accepting_run before
        ((Runs.throughout_append _ _ _).mp undisturbed).1).waits_for_current waiting
    · intro enough
      rw [← Bool.not_eq_true]
      intro still
      have := callbacks_le_waitingAhead before after undisturbed waiting still
      omega

theorem accepted_operations_are_run_next :
    (Runs.run step initial [.new "a" "app" false false true, .new "b" "app" false false true,
      .started 0 true, .finished 0 none, .notified 0 true, .onComplete 0]).hasState .waiting 1 =
        false :=
  ((accepted_operations_are_run _).2 (by decide)
    [.new "a" "app" false false true, .new "b" "app" false false true] _ rfl 1 (by decide)).2
    (by decide)

def reusedId : List Event :=
  [.new "a" "app" false false true, .started 0 true, .finished 0 none,
    .new "a" "app" false false true, .notified 0 true, .onComplete 0]

theorem reusedId_drops : ¬ ∀ events, Runs.Throughout step KeepsAccepted initial events := by
  intro all
  have kept := ((Runs.throughout_iff _ _).mp (all reusedId) (reusedId.take 5) (.onComplete 0) []
    rfl).1
  have registered := kept 1 (.init "a" "app" false false) (by decide) rfl
  exact absurd registered (by decide)

end Plinth.OperationsManager
