import Plinth.Model.Operation

/-!
# The invariant of the operations manager

What every interleaving keeps, whatever the threads and the database do: registered references
name operations under their own id, the recorded state agrees with the position of the thread,
and only the current operation has a thread that runs.
-/

namespace Plinth.OperationsManager

def Consistent (operation : Operation) : Prop :=
  match operation.thread with
  | .unstarted => operation.state = .waiting
  | .starting | .target => operation.state = .running
  | .completed | .notified | .ended => operation.state = .completed
  | .died => operation.state ≠ .waiting

structure WellFormed (m : OperationsManager) : Prop where
  registered : ∀ k (r : Nat), m.operations.get? k = some r →
    ∃ operation, m.objects[r]? = some operation ∧ operation.opId = k
  consistent : ∀ (r : Nat) operation, m.objects[r]? = some operation → Consistent operation
  active : ∀ (r : Nat) operation, m.objects[r]? = some operation → operation.thread.active = true →
    m.currentOperation = some r
  running : ∀ (r : Nat) operation, m.objects[r]? = some operation → operation.state = .running →
    m.currentOperation = some r
  current : ∀ r : Nat, m.currentOperation = some r →
    ∃ operation, m.objects[r]? = some operation ∧ operation.state ≠ .waiting
  /-- An operation that took over the id of the current one has not been run. -/
  successor : ∀ (c : Nat) operation r, m.currentOperation = some c → m.objects[c]? = some operation →
    m.operations.get? operation.opId = some r → r = c ∨ m.hasState .waiting r = true

/-! ## Reading the table of objects -/

theorem hasState_iff (m : OperationsManager) (state : Operation.State) (r : Nat) :
    m.hasState state r = true ↔
      ∃ operation, m.objects[r]? = some operation ∧ operation.state = state := by
  simp [hasState, Option.any_eq_true]

theorem objects_update (m : OperationsManager) (r r' : Nat) (f : Operation → Operation) :
    (m.update r f).objects[r']? = if r = r' then m.objects[r']?.map f else m.objects[r']? := by
  simp only [update, List.getElem?_modify]
  split <;> simp

@[simp] theorem operations_update (m : OperationsManager) (r : Nat) (f : Operation → Operation) :
    (m.update r f).operations = m.operations := rfl

@[simp] theorem currentOperation_update (m : OperationsManager) (r : Nat)
    (f : Operation → Operation) : (m.update r f).currentOperation = m.currentOperation := rfl

theorem objects_update_cases {m : OperationsManager} {r r' : Nat} {f : Operation → Operation}
    {after : Operation} (found : (m.update r f).objects[r']? = some after) :
    ∃ before, m.objects[r']? = some before ∧
      (r = r' ∧ after = f before ∨ r ≠ r' ∧ after = before) := by
  rw [objects_update] at found
  split at found
  · rename_i same
    obtain ⟨before, h, rfl⟩ := Option.map_eq_some_iff.mp found
    exact ⟨before, h, .inl ⟨same, rfl⟩⟩
  · rename_i other
    exact ⟨after, found, .inr ⟨other, rfl⟩⟩

theorem objects_update_of {m : OperationsManager} {r r' : Nat} {f : Operation → Operation}
    {before : Operation} (found : m.objects[r']? = some before) :
    (m.update r f).objects[r']? = some (if r = r' then f before else before) := by
  rw [objects_update, found]
  split <;> rfl

/-! ## Changing one operation -/

/-- A change of an operation that no other part of the manager can notice: it keeps the id, does
not wake a thread and does not touch the waiting operations. -/
structure Allowed (before after : Operation) : Prop where
  opId : after.opId = before.opId
  consistent : Consistent after
  active : after.thread.active = true → before.thread.active = true
  running : after.state = .running → before.state = .running
  waiting : after.state = .waiting ↔ before.state = .waiting

theorem hasState_waiting_update {m : OperationsManager} {r : Nat} {f : Operation → Operation}
    (allowed : ∀ operation, m.objects[r]? = some operation → Allowed operation (f operation))
    (r' : Nat) : (m.update r f).hasState .waiting r' = m.hasState .waiting r' := by
  rw [Bool.eq_iff_iff, hasState_iff, hasState_iff]
  constructor
  · rintro ⟨after, found, waiting⟩
    obtain ⟨before, h, ⟨rfl, rfl⟩ | ⟨-, rfl⟩⟩ := objects_update_cases found
    · exact ⟨before, h, (allowed before h).waiting.mp waiting⟩
    · exact ⟨after, h, waiting⟩
  · rintro ⟨before, found, waiting⟩
    refine ⟨_, objects_update_of found, ?_⟩
    split
    · rename_i same
      subst same
      exact (allowed before found).waiting.mpr waiting
    · exact waiting

theorem WellFormed.update {m : OperationsManager} (wf : m.WellFormed) (r : Nat)
    (f : Operation → Operation)
    (allowed : ∀ operation, m.objects[r]? = some operation → Allowed operation (f operation)) :
    (m.update r f).WellFormed where
  registered k r' found := by
    obtain ⟨operation, h, id⟩ := wf.registered k r' found
    refine ⟨_, objects_update_of h, ?_⟩
    split
    · rename_i same
      subst same
      rw [(allowed operation h).opId, id]
    · exact id
  consistent r' after found := by
    obtain ⟨before, h, ⟨rfl, rfl⟩ | ⟨-, rfl⟩⟩ := objects_update_cases found
    · exact (allowed before h).consistent
    · exact wf.consistent r' after h
  active r' after found active := by
    obtain ⟨before, h, ⟨rfl, rfl⟩ | ⟨-, rfl⟩⟩ := objects_update_cases found
    · exact wf.active r before h ((allowed before h).active active)
    · exact wf.active r' after h active
  running r' after found running := by
    obtain ⟨before, h, ⟨rfl, rfl⟩ | ⟨-, rfl⟩⟩ := objects_update_cases found
    · exact wf.running r before h ((allowed before h).running running)
    · exact wf.running r' after h running
  current c current := by
    obtain ⟨operation, h, started⟩ := wf.current c current
    refine ⟨_, objects_update_of h, ?_⟩
    split
    · rename_i same
      subst same
      exact fun waiting => started ((allowed operation h).waiting.mp waiting)
    · exact started
  successor c after r' current found registered := by
    rw [hasState_waiting_update allowed]
    obtain ⟨before, h, ⟨rfl, rfl⟩ | ⟨-, rfl⟩⟩ := objects_update_cases found
    · rw [(allowed before h).opId] at registered
      exact wf.successor r before r' current h registered
    · exact wf.successor c after r' current h registered

theorem objects_advance (m : OperationsManager) (r : Nat) (position : Operation.Thread)
    (f : Operation → Operation) {r' : Nat} {before : Operation}
    (found : m.objects[r']? = some before) :
    (m.advance r position f).objects[r']? =
      some (if r = r' ∧ before.thread = position then f before else before) := by
  rw [advance, objects_update_of found]
  by_cases same : r = r' <;> by_cases there : before.thread = position <;> simp [same, there]

/-! ## Scheduling -/

theorem scheduleNext_cases (m : OperationsManager) :
    m.currentOperation.isSome = true ∧ m.scheduleNext = m ∨
    (m.currentOperation = none ∧ m.scheduleNext = m ∧
      ∀ k r, m.operations.get? k = some r → m.hasState .waiting r = false) ∨
    ∃ r, m.currentOperation = none ∧
      m.operations.values.find? (m.hasState .waiting) = some r ∧
      m.scheduleNext = { m with currentOperation := some r }.run r := by
  cases current : m.currentOperation with
  | some c => exact .inl ⟨rfl, by simp [scheduleNext, current]⟩
  | none =>
    cases picked : m.operations.values.find? (m.hasState .waiting) with
    | none =>
      refine .inr (.inl ⟨rfl, by simp [scheduleNext, current, picked], ?_⟩)
      intro k r registered
      have member := (m.operations.mem_values_iff r).mpr ⟨k, registered⟩
      simpa using List.find?_eq_none.mp picked r member
    | some r => exact .inr (.inr ⟨r, rfl, rfl, by simp [scheduleNext, current, picked]⟩)

@[simp] theorem operations_scheduleNext (m : OperationsManager) :
    m.scheduleNext.operations = m.operations := by
  obtain ⟨-, same⟩ | ⟨-, same, -⟩ | ⟨r, -, -, same⟩ := m.scheduleNext_cases
  all_goals rw [same]
  rfl

theorem length_scheduleNext (m : OperationsManager) :
    m.scheduleNext.objects.length = m.objects.length := by
  obtain ⟨-, same⟩ | ⟨-, same, -⟩ | ⟨r, -, -, same⟩ := m.scheduleNext_cases
  · rw [same]
  · rw [same]
  · simp [same, run, update]

theorem picked_registered {m : OperationsManager} {r : Nat}
    (picked : m.operations.values.find? (m.hasState .waiting) = some r) :
    (∃ k, m.operations.get? k = some r) ∧ m.hasState .waiting r = true :=
  ⟨(m.operations.mem_values_iff r).mp (List.mem_of_find?_eq_some picked),
    List.find?_some picked⟩

theorem WellFormed.run {m : OperationsManager} (wf : m.WellFormed) (r : Nat)
    (idle : m.currentOperation = none) (registered : ∃ k, m.operations.get? k = some r) :
    ({ m with currentOperation := some r }.run r).WellFormed := by
  obtain ⟨k, found⟩ := registered
  obtain ⟨operation, h, id⟩ := wf.registered k r found
  have silent : ∀ (r' : Nat) other, m.objects[r']? = some other → other.thread.active = false := by
    intro r' other h'
    rw [Bool.eq_false_iff]
    intro active
    have := wf.active r' other h' active
    simp [idle] at this
  constructor
  · intro k' r' found'
    obtain ⟨other, h', id'⟩ := wf.registered k' r' found'
    refine ⟨_, objects_update_of h', ?_⟩
    split <;> exact id'
  · intro r' after found'
    obtain ⟨before, h', ⟨-, rfl⟩ | ⟨-, rfl⟩⟩ := objects_update_cases found'
    · rfl
    · exact wf.consistent r' after h'
  · intro r' after found' active
    obtain ⟨before, h', ⟨rfl, rfl⟩ | ⟨-, rfl⟩⟩ := objects_update_cases found'
    · rfl
    · rw [silent r' after h'] at active
      contradiction
  · intro r' after found' running
    obtain ⟨before, h', ⟨rfl, rfl⟩ | ⟨-, rfl⟩⟩ := objects_update_cases found'
    · rfl
    · have := wf.running r' after h' running
      simp [idle] at this
  · rintro c ⟨⟩
    exact ⟨_, objects_update_of h, by simp⟩
  · rintro c after r' ⟨⟩ found' registered'
    obtain ⟨before, h', ⟨-, rfl⟩ | ⟨other, -⟩⟩ := objects_update_cases found'
    · obtain rfl : before = operation := Option.some.inj (h'.symm.trans h)
      subst id
      exact .inl (Option.some.inj (registered'.symm.trans found))
    · exact absurd rfl other

theorem WellFormed.scheduleNext {m : OperationsManager} (wf : m.WellFormed) :
    m.scheduleNext.WellFormed := by
  obtain ⟨-, same⟩ | ⟨-, same, -⟩ | ⟨r, idle, picked, same⟩ := m.scheduleNext_cases
  · rwa [same]
  · rwa [same]
  · rw [same]
    exact wf.run r idle (picked_registered picked).1

/-! ## Calls of request threads -/

theorem objects_register_cases {m : OperationsManager} {operation after : Operation} {r : Nat}
    (found : (m.register operation).objects[r]? = some after) :
    m.objects[r]? = some after ∨ r = m.objects.length ∧ after = operation := by
  simp only [register, List.getElem?_append] at found
  split at found
  · exact .inl found
  · obtain ⟨bound, rfl⟩ := List.getElem?_eq_some_iff.mp found
    simp only [List.length_singleton] at bound
    exact .inr ⟨by omega, List.getElem_singleton _⟩

theorem objects_register_of {m : OperationsManager} {operation before : Operation} {r : Nat}
    (found : m.objects[r]? = some before) :
    (m.register operation).objects[r]? = some before := by
  obtain ⟨bound, -⟩ := List.getElem?_eq_some_iff.mp found
  rw [register, List.getElem?_append_left bound, found]

theorem objects_register_new (m : OperationsManager) (operation : Operation) :
    (m.register operation).objects[m.objects.length]? = some operation := by
  simp [register]

theorem WellFormed.register {m : OperationsManager} (wf : m.WellFormed)
    (opId appId : String) (showMessage showNotification : Bool) :
    (m.register (.init opId appId showMessage showNotification)).WellFormed := by
  constructor
  · intro k r found
    simp only [OperationsManager.register, Operation.init, OrderedDict.get?_set] at found
    split at found
    · rename_i same
      cases found
      exact ⟨_, m.objects_register_new _, same.symm⟩
    · obtain ⟨operation, h, id⟩ := wf.registered k r found
      exact ⟨operation, objects_register_of h, id⟩
  · intro r operation found
    obtain h | ⟨-, rfl⟩ := objects_register_cases found
    · exact wf.consistent r operation h
    · rfl
  · intro r operation found active
    obtain h | ⟨-, rfl⟩ := objects_register_cases found
    · exact wf.active r operation h active
    · cases active
  · intro r operation found running
    obtain h | ⟨-, rfl⟩ := objects_register_cases found
    · exact wf.running r operation h running
    · cases running
  · intro c current
    obtain ⟨operation, h, started⟩ := wf.current c current
    exact ⟨operation, objects_register_of h, started⟩
  · intro c operation r current found registered
    obtain ⟨before, h, started⟩ := wf.current c current
    obtain rfl : before = operation :=
      Option.some.inj ((objects_register_of h).symm.trans found)
    simp only [OperationsManager.register, OrderedDict.get?_set] at registered
    split at registered
    · cases registered
      exact .inr ((hasState_iff _ _ _).mpr ⟨_, m.objects_register_new _, rfl⟩)
    · obtain same | waiting := wf.successor c before r current h registered
      · exact .inl same
      · obtain ⟨other, h', state⟩ := (hasState_iff _ _ _).mp waiting
        exact .inr ((hasState_iff _ _ _).mpr ⟨other, objects_register_of h', state⟩)

theorem new_cases (m : OperationsManager) (opId appId : String)
    (showMessage showNotification stored : Bool) :
    (∃ failure, m.new opId appId showMessage showNotification stored = (.error failure, m)) ∨
    m.inProgress opId = false ∧
      m.new opId appId showMessage showNotification stored =
        (.ok m.objects.length,
          (m.register (.init opId appId showMessage showNotification)).scheduleNext) := by
  simp only [new]
  split
  · exact .inl ⟨_, rfl⟩
  · rename_i idle
    split
    · exact .inr ⟨eq_false_of_ne_true idle, rfl⟩
    · exact .inl ⟨_, rfl⟩

theorem WellFormed.restrict {m : OperationsManager} (wf : m.WellFormed)
    (operations : OrderedDict String Nat)
    (sub : ∀ k r, operations.get? k = some r → m.operations.get? k = some r) :
    ({ m with operations } : OperationsManager).WellFormed where
  registered k r found := wf.registered k r (sub k r found)
  consistent := wf.consistent
  active := wf.active
  running := wf.running
  current := wf.current
  successor c operation r current found registered :=
    wf.successor c operation r current found (sub _ r registered)

theorem collectResults_eq {m : OperationsManager} (wf : m.WellFormed) (appId : String) :
    (m.collectResults appId).2 =
      { m with operations := m.operations.filter fun entry => !m.isResult appId entry.2 } := by
  have keyed : ∀ entry ∈ m.operations.entries, m.opId entry.2 = entry.1 := by
    intro entry member
    obtain ⟨operation, h, id⟩ :=
      wf.registered entry.1 entry.2 ((m.operations.get?_eq_some_iff _ _).mpr member)
    simp [opId, h, id]
  unfold collectResults
  simp only
  split
  · rename_i none
    rw [List.isEmpty_iff, List.filter_eq_nil_iff] at none
    have kept : m.operations.filter (fun entry => !m.isResult appId entry.2) = m.operations := by
      apply OrderedDict.ext
      apply List.filter_eq_self.mpr
      intro entry member
      have := none entry.2 (List.mem_map.mpr ⟨entry, member, rfl⟩)
      simpa using this
    rw [kept]
  · rw [OrderedDict.ofValues_filter_values _ _ _ keyed]

/-! ## Steps of worker threads -/

theorem Allowed.refl {operation : Operation} (consistent : Consistent operation) :
    Allowed operation operation :=
  ⟨rfl, consistent, id, id, Iff.rfl⟩

theorem allowed_advance {m : OperationsManager} (wf : m.WellFormed) {r : Nat}
    {position : Operation.Thread} {f : Operation → Operation}
    (allowed : ∀ operation, m.objects[r]? = some operation → operation.thread = position →
      Allowed operation (f operation)) (operation : Operation)
    (found : m.objects[r]? = some operation) :
    Allowed operation (if operation.thread = position then f operation else operation) := by
  split
  · rename_i there
    exact allowed operation found there
  · exact .refl (wf.consistent r operation found)

theorem WellFormed.advance {m : OperationsManager} (wf : m.WellFormed) (r : Nat)
    (position : Operation.Thread) (f : Operation → Operation)
    (allowed : ∀ operation, m.objects[r]? = some operation → operation.thread = position →
      Allowed operation (f operation)) :
    (m.advance r position f).WellFormed :=
  wf.update r _ (allowed_advance wf allowed)

theorem allowed_started {operation : Operation} (consistent : Consistent operation)
    (there : operation.thread = .starting) (thread : Operation.Thread)
    (next : thread = .target ∨ thread = .died) :
    Allowed operation { operation with thread } := by
  simp only [Consistent, there] at consistent
  refine ⟨rfl, ?_, fun _ => by rw [there]; rfl, id, Iff.rfl⟩
  obtain rfl | rfl := next <;> simp [Consistent, consistent]

theorem allowed_finished {operation : Operation} (consistent : Consistent operation)
    (there : operation.thread = .target) (exception : Option String) :
    Allowed operation { operation with state := .completed, exception, thread := .completed } := by
  simp only [Consistent, there] at consistent
  refine ⟨rfl, rfl, fun _ => by rw [there]; rfl, ?_, ?_⟩ <;> simp [consistent]

theorem allowed_completed {operation : Operation}
    (completed : operation.state = .completed) (thread : Operation.Thread)
    (next : thread = .notified ∧ operation.thread = .completed ∨ thread = .ended ∨
      thread = .died) :
    Allowed operation { operation with thread } := by
  refine ⟨rfl, ?_, ?_, id, Iff.rfl⟩
  · obtain ⟨rfl, -⟩ | rfl | rfl := next <;> simp [Consistent, completed]
  · obtain ⟨-, there⟩ | rfl | rfl := next <;> simp_all [Operation.Thread.active]

theorem allowed_started_step {m : OperationsManager} (wf : m.WellFormed) (r : Nat)
    (stored : Bool) (operation : Operation) (found : m.objects[r]? = some operation)
    (there : operation.thread = .starting) :
    Allowed operation { operation with
      thread := if operation.updateNotification stored then .target else .died } := by
  refine allowed_started (wf.consistent r operation found) there _ ?_
  split <;> simp

theorem completed_of_thread {m : OperationsManager} (wf : m.WellFormed) {r : Nat}
    {operation : Operation} (found : m.objects[r]? = some operation)
    (there : operation.thread = .completed ∨ operation.thread = .notified ∨
      operation.thread = .ended) : operation.state = .completed := by
  have consistent := wf.consistent r operation found
  obtain there | there | there := there <;> simpa [Consistent, there] using consistent

theorem allowed_notified_step {m : OperationsManager} (wf : m.WellFormed) (r : Nat)
    (stored : Bool) (operation : Operation) (found : m.objects[r]? = some operation)
    (there : operation.thread = .completed) :
    Allowed operation { operation with
      thread := if operation.updateNotification stored then .notified else .died } := by
  refine allowed_completed (completed_of_thread wf found (.inl there)) _ ?_
  split <;> simp [there]

def cleared (m : OperationsManager) (r : Nat) : OperationsManager :=
  { m.update r (fun operation => { operation with thread := .ended }) with
    currentOperation := none }

theorem onComplete_cases (m : OperationsManager) (r : Nat) :
    ((∀ operation, m.objects[r]? = some operation → operation.thread ≠ .notified) ∧
      m.step (.onComplete r) = m) ∨
    ∃ operation, m.objects[r]? = some operation ∧ operation.thread = .notified ∧
      (operation.showMessage = true ∧ m.step (.onComplete r) = (m.cleared r).scheduleNext ∨
      (operation.showMessage = false ∧ m.operations.get? operation.opId = none ∧
        m.step (.onComplete r) =
          (m.cleared r).update r fun operation => { operation with thread := .died }) ∨
      ∃ registered, operation.showMessage = false ∧
        m.operations.get? operation.opId = some registered ∧
        m.step (.onComplete r) =
          { m.cleared r with
            operations := m.operations.erase operation.opId }.scheduleNext) := by
  cases found : m.objects[r]? with
  | none => exact .inl ⟨by simp, by simp [step, found]⟩
  | some operation =>
    by_cases there : operation.thread = .notified
    · refine .inr ⟨operation, rfl, there, ?_⟩
      cases lingers : operation.showMessage with
      | true =>
        exact .inl ⟨rfl, by simp [step, found, there, onOperationComplete, lingers, cleared]⟩
      | false =>
        cases registered : m.operations.get? operation.opId with
        | none =>
          refine .inr (.inl ⟨rfl, rfl, ?_⟩)
          simp [step, found, there, onOperationComplete, lingers, registered, cleared]
        | some r' =>
          refine .inr (.inr ⟨r', rfl, rfl, ?_⟩)
          simp [step, found, there, onOperationComplete, lingers, registered, cleared]
    · exact .inl ⟨by simpa using there, by simp [step, found, there]⟩

theorem allowed_ended {m : OperationsManager} (wf : m.WellFormed) {r : Nat}
    {operation : Operation} (found : m.objects[r]? = some operation)
    (there : operation.thread = .notified) (other : Operation) (h : m.objects[r]? = some other) :
    Allowed other { other with thread := .ended } := by
  obtain rfl : other = operation := Option.some.inj (h.symm.trans found)
  exact allowed_completed (completed_of_thread wf found (.inr (.inl there))) _ (.inr (.inl rfl))

theorem hasState_waiting_cleared {m : OperationsManager} (wf : m.WellFormed) {r : Nat}
    {operation : Operation} (found : m.objects[r]? = some operation)
    (there : operation.thread = .notified) (r' : Nat) :
    (m.cleared r).hasState .waiting r' = m.hasState .waiting r' :=
  hasState_waiting_update (allowed_ended wf found there) r'

theorem ended_of_cleared {m : OperationsManager} {r : Nat} {after : Operation}
    (h : (m.cleared r).objects[r]? = some after) : after.thread = .ended := by
  obtain ⟨before, -, ⟨-, rfl⟩ | ⟨other, -⟩⟩ := objects_update_cases h
  · rfl
  · exact absurd rfl other

theorem WellFormed.cleared {m : OperationsManager} (wf : m.WellFormed) (r : Nat)
    (operation : Operation) (found : m.objects[r]? = some operation)
    (there : operation.thread = .notified) : (m.cleared r).WellFormed := by
  have completed := completed_of_thread wf found (.inr (.inl there))
  have current : m.currentOperation = some r :=
    wf.active r operation found (by rw [there]; rfl)
  have updated := wf.update r _ (allowed_ended wf found there)
  -- No other operation is active or running, and this one no longer is.
  have gone (r' : Nat) (after : Operation)
      (h : (m.update r fun operation => { operation with thread := .ended }).objects[r']? =
        some after)
      (claimed : m.currentOperation = some r') :
      after.thread = .ended ∧ after.state = .completed := by
    obtain rfl : r = r' := Option.some.inj (current.symm.trans claimed)
    rw [objects_update_of found, if_pos rfl, Option.some.injEq] at h
    exact ⟨h ▸ rfl, h ▸ completed⟩
  constructor
  · exact updated.registered
  · exact updated.consistent
  · intro r' after h active
    have := (gone r' after h (updated.active r' after h active)).1
    rw [this] at active
    cases active
  · intro r' after h running
    have := (gone r' after h (updated.running r' after h running)).2
    rw [this] at running
    cases running
  · rintro c ⟨⟩
  · rintro c _ _ ⟨⟩

theorem allowed_died {m : OperationsManager} {r : Nat} (wf : (m.cleared r).WellFormed)
    (after : Operation) (h : (m.cleared r).objects[r]? = some after) :
    Allowed after { after with thread := .died } :=
  allowed_completed (completed_of_thread wf h (.inr (.inr (ended_of_cleared h)))) _
    (.inr (.inr rfl))

theorem WellFormed.step {m : OperationsManager} (wf : m.WellFormed) (e : Event) :
    (m.step e).WellFormed := by
  cases e with
  | new opId appId showMessage showNotification stored =>
    simp only [OperationsManager.step]
    obtain ⟨failure, same⟩ | ⟨-, same⟩ := m.new_cases opId appId showMessage showNotification stored
    · rwa [same]
    · rw [same]
      exact (wf.register _ _ _ _).scheduleNext
  | collectResults appId =>
    simp only [OperationsManager.step, collectResults_eq wf]
    exact wf.restrict _ fun k r found => ((m.operations.get?_filter _ _ _).mp found).1
  | started r stored => exact wf.advance r _ _ (allowed_started_step wf r stored)
  | finished r exception =>
    exact wf.advance r _ _ fun operation found there =>
      allowed_finished (wf.consistent r operation found) there exception
  | notified r stored => exact wf.advance r _ _ (allowed_notified_step wf r stored)
  | onComplete r =>
    obtain ⟨-, same⟩ | ⟨operation, found, there, outcome⟩ := m.onComplete_cases r
    · rwa [same]
    · have wf' := wf.cleared r operation found there
      obtain ⟨-, same⟩ | ⟨-, -, same⟩ | ⟨_, -, -, same⟩ := outcome
      · rw [same]
        exact wf'.scheduleNext
      · rw [same]
        exact wf'.update r _ (allowed_died wf')
      · rw [same]
        refine (wf'.restrict _ fun k r' h => ?_).scheduleNext
        rw [OrderedDict.get?_erase] at h
        split at h
        · cases h
        · exact h

theorem wellFormed_initial : initial.WellFormed := by
  constructor <;> simp [initial]

end Plinth.OperationsManager
