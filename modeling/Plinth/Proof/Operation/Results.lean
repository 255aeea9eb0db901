import Plinth.Proof.Operation.Order

/-! # What becomes of accepted operations -/

namespace Plinth.OperationsManager

def collects (m : OperationsManager) : Event → List Nat
  | .collectResults appId => (m.collectResults appId).1
  | _ => []

/-- The operations that a callback deletes, and those whose id another operation takes over. -/
def drops (m : OperationsManager) : Event → List Nat
  | .new opId appId showMessage showNotification stored =>
    match (m.new opId appId showMessage showNotification stored).1 with
    | .ok _ => (m.operations.get? opId).toList
    | .error _ => []
  | .onComplete r =>
    (m.objects[r]?.bind fun operation =>
      if operation.thread = .notified ∧ operation.showMessage = false
      then m.operations.get? operation.opId else none).toList
  | _ => []

def leaves (m : OperationsManager) (e : Event) : List Nat :=
  m.collects e ++ m.drops e

theorem leaves_of_unchanged {m : OperationsManager} {e : Event} (collected : m.collects e = [])
    (dropped : m.drops e = []) (accepted : m.accepts e = [])
    (same : (m.step e).operations = m.operations) :
    (m.leaves e ++ (m.step e).operations.values).Perm
      (m.operations.values ++ m.accepts e) := by
  simp [leaves, collected, dropped, accepted, same]

theorem leaves_step {m : OperationsManager} (wf : m.WellFormed) (e : Event) :
    (m.leaves e ++ (m.step e).operations.values).Perm
      (m.operations.values ++ m.accepts e) := by
  cases e with
  | new opId appId showMessage showNotification stored =>
    obtain ⟨failure, same⟩ | ⟨-, same⟩ := m.new_cases opId appId showMessage showNotification stored
    · simp [leaves, collects, drops, accepts, step, same]
    · have moved := m.operations.values_set_perm opId m.objects.length
      simpa [leaves, collects, drops, accepts, step, same, register, Operation.init] using moved
  | collectResults appId =>
    have split := List.filter_append_perm (m.isResult appId) m.operations.values
    have kept := m.operations.values_filter (fun entry => !m.isResult appId entry.2)
      (fun r => !m.isResult appId r) fun _ _ => rfl
    have results : (m.collectResults appId).1 = m.operations.values.filter (m.isResult appId) := by
      unfold collectResults
      dsimp only
      split <;> rfl
    simpa [leaves, collects, drops, accepts, step, collectResults_eq wf, kept, results] using split
  | started | finished | notified => exact leaves_of_unchanged rfl rfl rfl rfl
  | onComplete r =>
    obtain ⟨elsewhere, same⟩ | ⟨operation, found, there, outcome⟩ := m.onComplete_cases r
    · refine leaves_of_unchanged rfl ?_ rfl (by rw [same])
      cases found : m.objects[r]? with
      | none => simp [drops, found]
      | some operation => simp [drops, found, elsewhere operation found]
    · obtain ⟨lingers, same⟩ | ⟨hidden, absent, same⟩ | ⟨registered, hidden, present, same⟩ := outcome
      · exact leaves_of_unchanged rfl (by simp [drops, found, lingers]) rfl (by simp [same, cleared])
      · refine leaves_of_unchanged rfl ?_ rfl (by simp [same, cleared])
        simp [drops, found, absent]
      · have moved := m.operations.values_erase_perm operation.opId
        simpa [leaves, collects, drops, accepts, found, there, hidden, same] using moved

/-- At any time an accepted operation is registered, has been shown by one request or has been
dropped, and it is only one of these. -/
theorem operations_accounted_for (events : List Event) :
    (Runs.trace step leaves initial events ++
      (Runs.run step initial events).operations.values).Perm
      (List.range (Runs.run step initial events).objects.length) := by
  have balanced := Runs.perm_trace WellFormed (fun _ e wf => wf.step e)
    (fun m => m.operations.values) leaves accepts (fun _ e wf => leaves_step wf e)
    initial events wellFormed_initial
  rw [accepted_in_turn, ← List.range_eq_range'] at balanced
  exact balanced

end Plinth.OperationsManager
