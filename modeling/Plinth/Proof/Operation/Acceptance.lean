import Plinth.Proof.Operation.Invariant

/-! # The scheduler runs one operation at a time and does not stall -/

namespace Plinth.OperationsManager

def AtMostOneRunning (m : OperationsManager) : Prop :=
  ∀ r r', m.hasState .running r = true → m.hasState .running r' = true → r = r'

def Busy (m : OperationsManager) : Prop :=
  (∀ (c : Nat) operation, m.currentOperation = some c → m.objects[c]? = some operation →
    operation.thread.active = true) ∧
  (m.currentOperation = none →
    ∀ k r, m.operations.get? k = some r → m.hasState .waiting r = false)

def CallbacksReturn (m : OperationsManager) : Prop :=
  ∀ (r : Nat) operation, m.objects[r]? = some operation → operation.state = .completed →
    operation.thread ≠ .died

def StartsNext (m : OperationsManager) (e : Event) : Prop :=
  ∀ r operation, e = .onComplete r → m.objects[r]? = some operation →
    operation.thread = .notified →
    (∃ k r', (m.step e).operations.get? k = some r' ∧ (m.step e).hasState .waiting r' = true) →
    ∃ c, (m.step e).currentOperation = some c ∧ m.hasState .waiting c = true ∧
      (m.step e).hasState .running c = true

def Schedules (m : OperationsManager) (e : Event) : Prop :=
  (m.step e).AtMostOneRunning ∧ (m.step e).Busy ∧ (m.step e).CallbacksReturn ∧ m.StartsNext e

def Unraised (m : OperationsManager) : Event → Prop
  | .onComplete r => ∀ operation ∈ m.objects[r]?, operation.thread = .notified →
      operation.showMessage = true ∨ (m.operations.get? operation.opId).isSome = true
  | .started r stored => ∀ operation ∈ m.objects[r]?, operation.thread = .starting →
      operation.updateNotification stored = true
  | .notified r stored => ∀ operation ∈ m.objects[r]?, operation.thread = .completed →
      operation.updateNotification stored = true
  | .new .. | .collectResults _ | .finished .. => True

instance (m : OperationsManager) : ∀ e, Decidable (m.Unraised e)
  | .onComplete r => inferInstanceAs (Decidable (∀ operation ∈ m.objects[r]?,
      operation.thread = .notified → operation.showMessage = true ∨
        (m.operations.get? operation.opId).isSome = true))
  | .started r stored => inferInstanceAs (Decidable (∀ operation ∈ m.objects[r]?,
      operation.thread = .starting → operation.updateNotification stored = true))
  | .notified r stored => inferInstanceAs (Decidable (∀ operation ∈ m.objects[r]?,
      operation.thread = .completed → operation.updateNotification stored = true))
  | .new .. | .collectResults _ | .finished .. => .isTrue trivial

theorem WellFormed.atMostOneRunning {m : OperationsManager} (wf : m.WellFormed) :
    m.AtMostOneRunning := by
  intro r r' running running'
  obtain ⟨operation, found, state⟩ := (hasState_iff _ _ _).mp running
  obtain ⟨operation', found', state'⟩ := (hasState_iff _ _ _).mp running'
  have current := wf.running r operation found state
  exact Option.some.inj (current.symm.trans (wf.running r' operation' found' state'))

structure Flowing (m : OperationsManager) : Prop where
  wf : m.WellFormed
  busy : m.Busy
  callbacksReturn : m.CallbacksReturn

theorem flowing_initial : initial.Flowing :=
  ⟨wellFormed_initial, by simp [Busy, initial], by simp [CallbacksReturn, initial]⟩

/-! ## Scheduling keeps the queue flowing -/

theorem scheduleNext_busy {m : OperationsManager}
    (active : ∀ (c : Nat) operation, m.currentOperation = some c →
      m.objects[c]? = some operation → operation.thread.active = true) :
    m.scheduleNext.Busy := by
  obtain ⟨busy, same⟩ | ⟨idle, same, none⟩ | ⟨r, -, -, same⟩ := m.scheduleNext_cases
  · rw [same]
    exact ⟨active, fun idle => by simp [idle] at busy⟩
  · rw [same]
    exact ⟨active, fun _ => none⟩
  · rw [same]
    refine ⟨?_, fun idle => (Option.some_ne_none r idle).elim⟩
    rintro c after ⟨⟩ found
    obtain ⟨before, -, ⟨-, rfl⟩ | ⟨other, -⟩⟩ := objects_update_cases found
    · rfl
    · exact absurd rfl other

theorem CallbacksReturn.update {m : OperationsManager} (returns : m.CallbacksReturn) (r : Nat)
    (f : Operation → Operation)
    (alive : ∀ operation, m.objects[r]? = some operation → (f operation).state = .completed →
      (f operation).thread ≠ .died) :
    (m.update r f).CallbacksReturn := by
  intro r' after found completed
  obtain ⟨before, h, ⟨rfl, rfl⟩ | ⟨-, rfl⟩⟩ := objects_update_cases found
  · exact alive before h completed
  · exact returns r' after h completed

theorem CallbacksReturn.scheduleNext {m : OperationsManager} (returns : m.CallbacksReturn) :
    m.scheduleNext.CallbacksReturn := by
  obtain ⟨-, same⟩ | ⟨-, same, -⟩ | ⟨r, -, -, same⟩ := m.scheduleNext_cases
  · rwa [same]
  · rwa [same]
  · rw [same]
    exact CallbacksReturn.update (show ({ m with currentOperation := some r }).CallbacksReturn
      from returns) r _ fun _ _ completed => by cases completed

theorem scheduleNext_starts {m : OperationsManager} (idle : m.currentOperation = none)
    (waits : ∃ k r, m.scheduleNext.operations.get? k = some r ∧
      m.scheduleNext.hasState .waiting r = true)
    (wf : m.WellFormed) :
    ∃ c, m.scheduleNext.currentOperation = some c ∧ m.hasState .waiting c = true ∧
      m.scheduleNext.hasState .running c = true := by
  obtain ⟨busy, -⟩ | ⟨-, same, none⟩ | ⟨r, -, picked, same⟩ := m.scheduleNext_cases
  · simp [idle] at busy
  · obtain ⟨k, r, registered, waiting⟩ := waits
    rw [same] at registered waiting
    rw [none k r registered] at waiting
    cases waiting
  · obtain ⟨⟨k, registered⟩, waiting⟩ := picked_registered picked
    obtain ⟨operation, found, -⟩ := wf.registered k r registered
    rw [same]
    refine ⟨r, rfl, waiting, (hasState_iff _ _ _).mpr ⟨_, objects_update_of found, ?_⟩⟩
    rw [if_pos rfl]

theorem Busy.update {m : OperationsManager} (busy : m.Busy) {r : Nat}
    {f : Operation → Operation}
    (allowed : ∀ operation, m.objects[r]? = some operation → Allowed operation (f operation))
    (active : ∀ operation, m.currentOperation = some r → m.objects[r]? = some operation →
      (f operation).thread.active = true) : (m.update r f).Busy := by
  constructor
  · intro c after current found
    obtain ⟨before, h, ⟨rfl, rfl⟩ | ⟨-, rfl⟩⟩ := objects_update_cases found
    · exact active before current h
    · exact busy.1 c after current h
  · intro idle k r' registered
    rw [hasState_waiting_update allowed]
    exact busy.2 idle k r' registered

theorem Flowing.advance {m : OperationsManager} (h : m.Flowing) (r : Nat)
    (position : Operation.Thread) (f : Operation → Operation)
    (allowed : ∀ operation, m.objects[r]? = some operation → operation.thread = position →
      Allowed operation (f operation))
    (active : ∀ operation, m.objects[r]? = some operation → operation.thread = position →
      (f operation).thread.active = true) :
    (m.advance r position f).Busy ∧ (m.advance r position f).CallbacksReturn := by
  constructor
  · refine h.busy.update (allowed_advance h.wf allowed) fun operation current found => ?_
    split
    · rename_i there
      exact active operation found there
    · exact h.busy.1 r operation current found
  · refine h.callbacksReturn.update r _ fun operation found => ?_
    split
    · rename_i there
      rintro - died
      have := active operation found there
      rw [died] at this
      cases this
    · exact h.callbacksReturn r operation found

theorem Flowing.new {m : OperationsManager} (h : m.Flowing) (opId appId : String)
    (showMessage showNotification stored : Bool) :
    (m.new opId appId showMessage showNotification stored).2.Busy ∧
      (m.new opId appId showMessage showNotification stored).2.CallbacksReturn := by
  obtain ⟨failure, same⟩ | ⟨-, same⟩ := m.new_cases opId appId showMessage showNotification stored
  · rw [same]
    exact ⟨h.busy, h.callbacksReturn⟩
  · rw [same]
    constructor
    · apply scheduleNext_busy
      intro c operation current found
      obtain ⟨before, h', -⟩ := h.wf.current c current
      obtain rfl : before = operation :=
        Option.some.inj ((objects_register_of h').symm.trans found)
      exact h.busy.1 c before current h'
    · apply CallbacksReturn.scheduleNext
      intro r operation found completed
      obtain before | ⟨-, rfl⟩ := objects_register_cases found
      · exact h.callbacksReturn r operation before completed
      · cases completed

theorem Flowing.onComplete {m : OperationsManager} (h : m.Flowing) (r : Nat)
    (unraised : m.Unraised (.onComplete r)) :
    (m.step (.onComplete r)).Busy ∧ (m.step (.onComplete r)).CallbacksReturn ∧
      m.StartsNext (.onComplete r) := by
  obtain ⟨silent, same⟩ | ⟨operation, found, there, outcome⟩ := m.onComplete_cases r
  · rw [same]
    refine ⟨h.busy, h.callbacksReturn, ?_⟩
    rintro _ operation ⟨⟩ found there
    exact absurd there (silent operation found)
  -- Both ways to the scheduling start from the cleared manager with some of its entries.
  have scheduled (operations : OrderedDict String Nat)
      (sub : ∀ k r', operations.get? k = some r' → m.operations.get? k = some r')
      (same : m.step (.onComplete r) = { m.cleared r with operations }.scheduleNext) :
      (m.step (.onComplete r)).Busy ∧ (m.step (.onComplete r)).CallbacksReturn ∧
        m.StartsNext (.onComplete r) := by
    have wf := (h.wf.cleared r operation found there).restrict operations sub
    have returns : ({ m.cleared r with operations } : OperationsManager).CallbacksReturn :=
      h.callbacksReturn.update r (fun operation => { operation with thread := .ended })
        fun _ _ _ died => by cases died
    refine ⟨?_, ?_, ?_⟩
    · rw [same]
      exact scheduleNext_busy (by rintro c _ ⟨⟩)
    · rw [same]
      exact returns.scheduleNext
    · rintro _ _ ⟨⟩ - - waits
      rw [same] at waits ⊢
      obtain ⟨c, current, waiting, running⟩ := scheduleNext_starts rfl waits wf
      exact ⟨c, current, (hasState_waiting_cleared h.wf found there c).symm.trans waiting, running⟩
  obtain ⟨-, same⟩ | ⟨lingers, missing, -⟩ | ⟨r', -, -, same⟩ := outcome
  · exact scheduled m.operations (fun _ _ => id) same
  · obtain shown | registered := unraised operation found there
    · simp [lingers] at shown
    · simp [missing] at registered
  · refine scheduled _ (fun k r' h' => ?_) same
    rw [OrderedDict.get?_erase] at h'
    split at h'
    · cases h'
    · exact h'

theorem Flowing.schedules {m : OperationsManager} (h : m.Flowing) (e : Event)
    (unraised : m.Unraised e) : m.Schedules e := by
  have one := (h.wf.step e).atMostOneRunning
  cases e with
  | new opId appId showMessage showNotification stored =>
    obtain ⟨busy, returns⟩ := h.new opId appId showMessage showNotification stored
    exact ⟨one, busy, returns, by rintro _ _ ⟨⟩⟩
  | collectResults appId =>
    refine ⟨one, ?_, ?_, by rintro _ _ ⟨⟩⟩
    · simp only [step, collectResults_eq h.wf]
      refine ⟨h.busy.1, fun idle k r registered => ?_⟩
      exact h.busy.2 idle k r ((m.operations.get?_filter _ _ _).mp registered).1
    · simp only [step, collectResults_eq h.wf]
      exact h.callbacksReturn
  | started r stored =>
    obtain ⟨busy, returns⟩ := h.advance r .starting _ (allowed_started_step h.wf r stored)
      fun operation found there => by
        rw [unraised operation found there]
        rfl
    exact ⟨one, busy, returns, by rintro _ _ ⟨⟩⟩
  | finished r exception =>
    obtain ⟨busy, returns⟩ := h.advance r .target
      (fun operation => { operation with state := .completed, exception, thread := .completed })
      (fun operation found there =>
        allowed_finished (h.wf.consistent r operation found) there exception)
      (fun _ _ _ => rfl)
    exact ⟨one, busy, returns, by rintro _ _ ⟨⟩⟩
  | notified r stored =>
    obtain ⟨busy, returns⟩ := h.advance r .completed _ (allowed_notified_step h.wf r stored)
      fun operation found there => by
        rw [unraised operation found there]
        rfl
    exact ⟨one, busy, returns, by rintro _ _ ⟨⟩⟩
  | onComplete r =>
    obtain ⟨busy, returns, starts⟩ := h.onComplete r unraised
    exact ⟨one, busy, returns, starts⟩

theorem stored_of_busy {m : OperationsManager} (wf : m.WellFormed) {r : Nat}
    {position next : Operation.Thread} {operation : Operation} {stored : Bool}
    (found : m.objects[r]? = some operation) (there : operation.thread = position)
    (active : position.active = true)
    (busy : (m.advance r position fun operation => { operation with
      thread := if operation.updateNotification stored then next else .died }).Busy) :
    operation.updateNotification stored = true := by
  have current := wf.active r operation found (by rw [there, active])
  have after := m.objects_advance r position (fun operation => { operation with
    thread := if operation.updateNotification stored then next else .died }) found
  rw [if_pos ⟨rfl, there⟩] at after
  have alive := busy.1 r _ current after
  simp only at alive
  split at alive
  · assumption
  · cases alive

theorem Flowing.unraised {m : OperationsManager} (h : m.Flowing) (e : Event)
    (schedules : m.Schedules e) : m.Unraised e := by
  obtain ⟨-, busy, returns, -⟩ := schedules
  cases e with
  | new | collectResults | finished => trivial
  | started r stored => exact fun operation found there => stored_of_busy h.wf found there rfl busy
  | notified r stored => exact fun operation found there => stored_of_busy h.wf found there rfl busy
  | onComplete r =>
    intro operation found there
    obtain ⟨silent, -⟩ | ⟨other, found', -, outcome⟩ := m.onComplete_cases r
    · exact absurd there (silent operation found)
    obtain rfl : other = operation := Option.some.inj (found'.symm.trans found)
    obtain ⟨shown, -⟩ | ⟨-, -, same⟩ | ⟨r', -, registered, -⟩ := outcome
    · exact .inl shown
    · rw [same] at returns
      have ended : (m.cleared r).objects[r]? = some { other with thread := .ended } :=
        (objects_update_of found).trans (by rw [if_pos rfl])
      have died : ((m.cleared r).update r fun operation =>
          { operation with thread := .died }).objects[r]? =
            some { other with thread := .died } :=
        (objects_update_of ended).trans (by rw [if_pos rfl])
      have completed : other.state = .completed :=
        completed_of_thread h.wf found (.inr (.inl there))
      exact absurd rfl (returns r _ died completed)
    · exact .inr (by simp [registered])

/-- Scheduling. Every step of a run leaves at most one operation running, a current operation on
its way to a callback that schedules the next one, and nothing waiting without a current one,
exactly when no notification is refused and no callback looks for an entry that is gone. -/
theorem scheduler_does_not_stall (events : List Event) :
    Runs.Throughout step Schedules initial events ↔
      Runs.Throughout step Unraised initial events :=
  Runs.throughout_congr Flowing
    (fun _ e h => ⟨fun schedules => h.unraised e schedules, fun c => h.schedules e c⟩)
    (fun _ e h schedules => ⟨h.wf.step e, schedules.2.1, schedules.2.2.1⟩)
    initial events flowing_initial

def collectedEarly : List Event :=
  [.new "a" "app" false false true, .new "b" "app" true false true, .started 0 true,
    .finished 0 none, .collectResults "app", .notified 0 true, .onComplete 0]

theorem collectedEarly_stalls : ¬ ∀ events, Runs.Throughout step Schedules initial events := by
  intro all
  have busy := ((Runs.throughout_iff _ _).mp (all collectedEarly) (collectedEarly.take 6)
    (.onComplete 0) [] rfl).2.1
  have waiting := busy.2 (by decide) "b" 1 (by decide)
  exact absurd waiting (by decide)

end Plinth.OperationsManager

/-! ## No accepted operation is dropped -/

namespace Plinth.OperationsManager

def NotDropped (m : OperationsManager) : Prop :=
  ∀ (r : Nat) operation, m.objects[r]? = some operation → operation.state = .waiting →
    m.operations.get? operation.opId = some r

def CallbackPending (m : OperationsManager) : Prop :=
  ∀ (c : Nat) operation, m.currentOperation = some c → m.objects[c]? = some operation →
    operation.state = .completed → operation.thread.active = true

def NotStalled (m : OperationsManager) : Prop :=
  (m.currentOperation = none →
    ∀ (r : Nat) operation, m.objects[r]? = some operation → operation.state ≠ .waiting) ∧
  m.CallbackPending

def RemovesOnlyItself (m : OperationsManager) (e : Event) : Prop :=
  ∀ r, e = .onComplete r → ∀ k r', m.operations.get? k = some r' →
    (m.step e).operations.get? k = none → r' = r

def KeepsAccepted (m : OperationsManager) (e : Event) : Prop :=
  (m.step e).NotDropped ∧ (m.step e).NotStalled ∧ m.RemovesOnlyItself e

/-- The entry of an operation that is not to linger is still its own at its callback (or is gone
with nobody waiting), and its last notification is stored. -/
def CallbackUndisturbed (m : OperationsManager) : Event → Prop
  | .onComplete r => ∀ operation ∈ m.objects[r]?, operation.thread = .notified →
      operation.showMessage = true ∨ m.operations.get? operation.opId = some r ∨
        m.operations.get? operation.opId = none ∧ ∀ other ∈ m.objects, other.state ≠ .waiting
  | .notified r stored => ∀ operation ∈ m.objects[r]?, operation.thread = .completed →
      operation.updateNotification stored = true
  | .new .. | .collectResults _ | .started .. | .finished .. => True

instance (m : OperationsManager) : ∀ e, Decidable (m.CallbackUndisturbed e)
  | .onComplete r => inferInstanceAs (Decidable (∀ operation ∈ m.objects[r]?,
      operation.thread = .notified → operation.showMessage = true ∨
        m.operations.get? operation.opId = some r ∨
        m.operations.get? operation.opId = none ∧ ∀ other ∈ m.objects, other.state ≠ .waiting))
  | .notified r stored => inferInstanceAs (Decidable (∀ operation ∈ m.objects[r]?,
      operation.thread = .completed → operation.updateNotification stored = true))
  | .new .. | .collectResults _ | .started .. | .finished .. => .isTrue trivial

/-! ## Operations that keep the entries of waiting operations -/

theorem not_waiting {m : OperationsManager} {r : Nat} {operation : Operation}
    (found : m.objects[r]? = some operation) :
    m.hasState .waiting r = false ↔ operation.state ≠ .waiting := by
  simp [hasState, found]

theorem NotDropped.update {m : OperationsManager} (kept : m.NotDropped) (r : Nat)
    (f : Operation → Operation)
    (same : ∀ operation, m.objects[r]? = some operation →
      (f operation).state = .waiting → operation.state = .waiting ∧
        (f operation).opId = operation.opId) :
    (m.update r f).NotDropped := by
  intro r' after found waiting
  obtain ⟨before, h, ⟨rfl, rfl⟩ | ⟨-, rfl⟩⟩ := objects_update_cases found
  · obtain ⟨waiting', id⟩ := same before h waiting
    rw [id]
    exact kept r before h waiting'
  · exact kept r' after h waiting

theorem NotDropped.allowed {m : OperationsManager} (kept : m.NotDropped) {r : Nat}
    {f : Operation → Operation}
    (allowed : ∀ operation, m.objects[r]? = some operation → Allowed operation (f operation)) :
    (m.update r f).NotDropped :=
  kept.update r f fun operation found waiting =>
    ⟨(allowed operation found).waiting.mp waiting, (allowed operation found).opId⟩

theorem NotDropped.scheduleNext {m : OperationsManager} (kept : m.NotDropped) :
    m.scheduleNext.NotDropped := by
  obtain ⟨-, same⟩ | ⟨-, same, -⟩ | ⟨r, -, -, same⟩ := m.scheduleNext_cases
  · rwa [same]
  · rwa [same]
  · rw [same]
    exact NotDropped.update (show ({ m with currentOperation := some r }).NotDropped from kept) r _
      fun operation _ waiting => by cases waiting

theorem NotDropped.register {m : OperationsManager} (kept : m.NotDropped)
    (operation : Operation) (idle : m.inProgress operation.opId = false) :
    (m.register operation).NotDropped := by
  intro r after found waiting
  simp only [OperationsManager.register, OrderedDict.get?_set]
  obtain h | ⟨rfl, rfl⟩ := objects_register_cases found
  · have registered := kept r after h waiting
    split
    · rename_i taken
      rw [taken] at registered
      simp only [inProgress, registered, Option.any_some, Bool.not_eq_false'] at idle
      obtain ⟨completed, h', state⟩ := (hasState_iff _ _ _).mp idle
      obtain rfl : completed = after := Option.some.inj (h'.symm.trans h)
      rw [state] at waiting
      cases waiting
    · exact registered
  · simp

theorem not_isResult {m : OperationsManager} {r : Nat} {operation : Operation} (appId : String)
    (found : m.objects[r]? = some operation) (waiting : operation.state = .waiting) :
    m.isResult appId r = false := by
  simp [isResult, found, waiting]

theorem NotDropped.collectResults {m : OperationsManager} (wf : m.WellFormed)
    (kept : m.NotDropped) (appId : String) : (m.collectResults appId).2.NotDropped := by
  rw [collectResults_eq wf]
  intro r operation (found : m.objects[r]? = some operation) waiting
  rw [OrderedDict.get?_filter]
  exact ⟨kept r operation found waiting, by simp [not_isResult appId found waiting]⟩

theorem scheduleNext_notStalled {m : OperationsManager} (kept : m.NotDropped)
    (pending : m.CallbackPending) : m.scheduleNext.NotStalled := by
  obtain ⟨busy, same⟩ | ⟨-, same, none⟩ | ⟨r, -, -, same⟩ := m.scheduleNext_cases
  · rw [same]
    exact ⟨fun idle => by simp [idle] at busy, pending⟩
  · rw [same]
    refine ⟨fun _ r operation found waiting => ?_, pending⟩
    have := none _ r (kept r operation found waiting)
    exact (not_waiting found).mp this waiting
  · rw [same]
    refine ⟨fun idle => (Option.some_ne_none r idle).elim, ?_⟩
    rintro c after ⟨⟩ found completed
    obtain ⟨before, -, ⟨-, rfl⟩ | ⟨other, -⟩⟩ := objects_update_cases found
    · cases completed
    · exact absurd rfl other

theorem NotStalled.update {m : OperationsManager} (notStalled : m.NotStalled) {r : Nat}
    {f : Operation → Operation}
    (allowed : ∀ operation, m.objects[r]? = some operation → Allowed operation (f operation))
    (pending : ∀ operation, m.currentOperation = some r → m.objects[r]? = some operation →
      (f operation).state = .completed → (f operation).thread.active = true) :
    (m.update r f).NotStalled := by
  constructor
  · intro idle r' after found waiting
    obtain ⟨before, h, ⟨rfl, rfl⟩ | ⟨-, rfl⟩⟩ := objects_update_cases found
    · exact notStalled.1 idle r before h ((allowed before h).waiting.mp waiting)
    · exact notStalled.1 idle r' after h waiting
  · intro c after current found completed
    obtain ⟨before, h, ⟨rfl, rfl⟩ | ⟨-, rfl⟩⟩ := objects_update_cases found
    · exact pending before current h completed
    · exact notStalled.2 c after current h completed

structure Accepting (m : OperationsManager) : Prop where
  wf : m.WellFormed
  kept : m.NotDropped
  notStalled : m.NotStalled

theorem accepting_initial : initial.Accepting :=
  ⟨wellFormed_initial, by simp [NotDropped, initial],
    by simp [NotStalled, CallbackPending, initial]⟩

theorem Accepting.new {m : OperationsManager} (h : m.Accepting) (opId appId : String)
    (showMessage showNotification stored : Bool) :
    (m.new opId appId showMessage showNotification stored).2.NotDropped ∧
      (m.new opId appId showMessage showNotification stored).2.NotStalled := by
  obtain ⟨failure, same⟩ | ⟨idle, same⟩ := m.new_cases opId appId showMessage showNotification stored
  · rw [same]
    exact ⟨h.kept, h.notStalled⟩
  · rw [same]
    have kept := h.kept.register (.init opId appId showMessage showNotification) idle
    refine ⟨kept.scheduleNext, scheduleNext_notStalled kept ?_⟩
    intro c operation current found completed
    obtain before | ⟨-, rfl⟩ := objects_register_cases found
    · exact h.notStalled.2 c operation current before completed
    · cases completed

theorem Accepting.onComplete {m : OperationsManager} (h : m.Accepting) (r : Nat)
    (undisturbed : m.CallbackUndisturbed (.onComplete r)) : m.KeepsAccepted (.onComplete r) := by
  obtain ⟨-, same⟩ | ⟨operation, found, there, outcome⟩ := m.onComplete_cases r
  · refine ⟨by rw [same]; exact h.kept, by rw [same]; exact h.notStalled, ?_⟩
    rintro _ ⟨⟩ k r' registered gone
    rw [same, registered] at gone
    cases gone
  · have wf := h.wf.cleared r operation found there
    have kept : (m.cleared r).NotDropped := h.kept.allowed (allowed_ended h.wf found there)
    have pending : (m.cleared r).CallbackPending := by rintro c _ ⟨⟩
    obtain ⟨-, same⟩ | ⟨lingers, missing, same⟩ | ⟨r', lingers, registered, same⟩ := outcome
    · refine ⟨same ▸ kept.scheduleNext, same ▸ scheduleNext_notStalled kept pending, ?_⟩
      rintro _ ⟨⟩ k r' registered gone
      rw [same, operations_scheduleNext] at gone
      exact absurd (registered.symm.trans gone) (Option.some_ne_none r')
    · -- The entry was collected: nobody may be waiting for the callback to schedule.
      obtain shown | own | ⟨-, alone⟩ := undisturbed operation found there
      · simp [lingers] at shown
      · simp [missing] at own
      refine ⟨same ▸ kept.allowed (allowed_died wf), ?_, ?_⟩
      · rw [same]
        refine NotStalled.update ⟨?_, pending⟩ (allowed_died wf) (by rintro _ ⟨⟩)
        intro _ r' after found' waiting
        have still := (hasState_waiting_cleared h.wf found there r').symm.trans
          ((hasState_iff _ _ _).mpr ⟨after, found', waiting⟩)
        obtain ⟨other, h', waiting'⟩ := (hasState_iff _ _ _).mp still
        exact alone other (List.mem_of_getElem? h') waiting'
      · rintro _ ⟨⟩ k r' registered gone
        rw [same] at gone
        exact absurd (registered.symm.trans gone) (Option.some_ne_none r')
    · obtain rfl : r' = r := by
        obtain shown | own | ⟨missing, -⟩ := undisturbed operation found there
        · simp [lingers] at shown
        · exact Option.some.inj (registered.symm.trans own)
        · simp [missing] at registered
      have kept' : ({ m.cleared r' with
          operations := m.operations.erase operation.opId } : OperationsManager).NotDropped := by
        intro other after found' waiting
        have registered' := kept other after found' waiting
        rw [OrderedDict.get?_erase]
        split
        · rename_i same'
          obtain rfl : other = r' := by
            rw [same'] at registered'
            exact Option.some.inj (registered'.symm.trans registered)
          have := wf.consistent other after found'
          simp [Consistent, ended_of_cleared found', waiting] at this
        · exact registered'
      refine ⟨same ▸ kept'.scheduleNext, same ▸ scheduleNext_notStalled kept' pending, ?_⟩
      rintro _ ⟨⟩ k other registered' gone
      rw [same, operations_scheduleNext] at gone
      simp only [OrderedDict.get?_erase] at gone
      split at gone
      · rename_i same'
        rw [same'] at registered'
        exact Option.some.inj (registered'.symm.trans registered)
      · exact absurd (registered'.symm.trans gone) (Option.some_ne_none other)

theorem Accepting.advance {m : OperationsManager} (h : m.Accepting) (r : Nat)
    (position : Operation.Thread) (f : Operation → Operation)
    (allowed : ∀ operation, m.objects[r]? = some operation → operation.thread = position →
      Allowed operation (f operation))
    (pending : ∀ operation, m.objects[r]? = some operation → operation.thread = position →
      (f operation).state = .completed → (f operation).thread.active = true) :
    (m.advance r position f).NotDropped ∧ (m.advance r position f).NotStalled := by
  refine ⟨h.kept.allowed (allowed_advance h.wf allowed),
    h.notStalled.update (allowed_advance h.wf allowed) ?_⟩
  intro operation current found
  split
  · rename_i there
    exact pending operation found there
  · exact h.notStalled.2 r operation current found

theorem Accepting.keepsAccepted {m : OperationsManager} (h : m.Accepting) (e : Event)
    (undisturbed : m.CallbackUndisturbed e) : m.KeepsAccepted e := by
  cases e with
  | new opId appId showMessage showNotification stored =>
    obtain ⟨kept, notStalled⟩ := h.new opId appId showMessage showNotification stored
    exact ⟨kept, notStalled, by rintro _ ⟨⟩⟩
  | collectResults appId =>
    refine ⟨h.kept.collectResults h.wf appId, ?_, by rintro _ ⟨⟩⟩
    simp only [step, collectResults_eq h.wf]
    exact h.notStalled
  | started r stored =>
    obtain ⟨kept, notStalled⟩ := h.advance r .starting _ (allowed_started_step h.wf r stored)
      (by
        intro operation found there completed
        have consistent := h.wf.consistent r operation found
        simp only [Consistent, there] at consistent
        simp [consistent] at completed)
    exact ⟨kept, notStalled, by rintro _ ⟨⟩⟩
  | finished r exception =>
    obtain ⟨kept, notStalled⟩ := h.advance r .target
      (fun operation => { operation with state := .completed, exception, thread := .completed })
      (fun operation found there =>
        allowed_finished (h.wf.consistent r operation found) there exception)
      (fun _ _ _ _ => rfl)
    exact ⟨kept, notStalled, by rintro _ ⟨⟩⟩
  | notified r stored =>
    obtain ⟨kept, notStalled⟩ := h.advance r .completed _ (allowed_notified_step h.wf r stored)
      (fun operation found there _ => by
        rw [undisturbed operation found there]
        rfl)
    exact ⟨kept, notStalled, by rintro _ ⟨⟩⟩
  | onComplete r => exact h.onComplete r undisturbed

theorem Accepting.undisturbed {m : OperationsManager} (h : m.Accepting) (e : Event)
    (keeps : m.KeepsAccepted e) : m.CallbackUndisturbed e := by
  obtain ⟨-, notStalled, itself⟩ := keeps
  cases e with
  | new | collectResults | started | finished => trivial
  | notified r stored =>
    intro operation found there
    have current := h.wf.active r operation found (by rw [there]; rfl)
    have after := m.objects_advance r .completed (fun operation => { operation with
      thread := if operation.updateNotification stored then .notified else .died }) found
    rw [if_pos ⟨rfl, there⟩] at after
    have completed : operation.state = .completed := completed_of_thread h.wf found (.inl there)
    have active := notStalled.2 r _ current after completed
    simp only at active
    split at active
    · assumption
    · cases active
  | onComplete r =>
    intro operation found there
    have current := h.wf.active r operation found (by rw [there]; rfl)
    obtain ⟨silent, -⟩ | ⟨other, found', -, outcome⟩ := m.onComplete_cases r
    · exact absurd there (silent operation found)
    obtain rfl : other = operation := Option.some.inj (found'.symm.trans found)
    obtain ⟨shown, -⟩ | ⟨-, missing, same⟩ | ⟨r', lingers, registered, same⟩ := outcome
    · exact .inl shown
    · refine .inr (.inr ⟨missing, fun waiter member waiting => ?_⟩)
      rw [same] at notStalled
      have wf := h.wf.cleared r other found there
      obtain ⟨r', h'⟩ := List.mem_iff_getElem?.mp member
      have still := (hasState_waiting_update (allowed_died wf) r').trans
        (hasState_waiting_cleared h.wf found there r')
      rw [(hasState_iff _ _ _).mpr ⟨waiter, h', waiting⟩, hasState_iff] at still
      obtain ⟨after, h'', waiting'⟩ := still
      exact notStalled.1 rfl r' after h'' waiting'
    · have gone : (m.step (.onComplete r)).operations.get? other.opId = none := by
        rw [same, operations_scheduleNext]
        simp [OrderedDict.get?_erase]
      exact .inr (.inl (itself r rfl _ r' registered gone ▸ registered))

theorem Accepting.step {m : OperationsManager} (h : m.Accepting) (e : Event)
    (undisturbed : m.CallbackUndisturbed e) : (m.step e).Accepting :=
  have keeps := h.keepsAccepted e undisturbed
  ⟨h.wf.step e, keeps.1, keeps.2.1⟩

theorem accepting_run (events : List Event)
    (undisturbed : Runs.Throughout OperationsManager.step CallbackUndisturbed initial events) :
    (Runs.run OperationsManager.step initial events).Accepting :=
  Runs.invariant_run_of_throughout Accepting (fun _ e h c => h.step e c) initial events
    accepting_initial undisturbed

end Plinth.OperationsManager
