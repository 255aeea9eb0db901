import Plinth.Lib.OrderedDict
import Plinth.Lib.Runs

/-!
# Operations and their manager

`plinth/operation.py`. Operations are objects that the manager, its current operation and the
worker threads share, so they are kept in a table and referred to by their index in it. The
bodies under the manager's lock are single functions here; the worker thread of an operation is
its position in `_catch_thread_errors`, which changes the state of the operation without the lock.
-/

namespace Plinth

inductive Operation.State
  | waiting
  | running
  | completed
  deriving DecidableEq, Repr

/-- The position of an operation's thread in `_catch_thread_errors`. -/
inductive Operation.Thread
  | unstarted
  /-- before the first `_update_notification()`, outside the `try` -/
  | starting
  /-- in `self.target(...)` -/
  | target
  /-- in the `finally` block with the state set, before its `_update_notification()` -/
  | completed
  /-- before `self.on_complete(self)` -/
  | notified
  | ended
  | died
  deriving DecidableEq, Repr

def Operation.Thread.active : Operation.Thread → Bool
  | .starting | .target | .completed | .notified => true
  | .unstarted | .ended | .died => false

structure Operation where
  opId : String
  appId : String
  showMessage : Bool
  showNotification : Bool
  state : Operation.State
  exception : Option String
  thread : Operation.Thread
  deriving DecidableEq, Repr

/-- `Operation.__init__`, without the notification it stores last. -/
def Operation.init (opId appId : String) (showMessage showNotification : Bool) : Operation :=
  { opId, appId, showMessage, showNotification,
    state := .waiting, exception := none, thread := .unstarted }

/-- Whether `_update_notification` returns. It stores a notification only when one is to be
shown, and then the database may refuse. -/
def Operation.updateNotification (operation : Operation) (stored : Bool) : Bool :=
  !operation.showNotification || stored

structure OperationsManager where
  objects : List Operation
  operations : OrderedDict String Nat
  currentOperation : Option Nat

inductive OperationsManager.Failure
  | keyError (message : String)
  | notification
  deriving DecidableEq, Repr

namespace OperationsManager

def initial : OperationsManager := ⟨[], .empty, none⟩

def update (m : OperationsManager) (r : Nat) (f : Operation → Operation) : OperationsManager :=
  { m with objects := m.objects.modify r f }

def hasState (m : OperationsManager) (state : Operation.State) (r : Nat) : Bool :=
  m.objects[r]?.any (fun operation => operation.state = state)

/-- `Operation.run`. -/
def run (m : OperationsManager) (r : Nat) : OperationsManager :=
  m.update r fun operation => { operation with state := .running, thread := .starting }

def scheduleNext (m : OperationsManager) : OperationsManager :=
  if m.currentOperation.isSome then m
  else match m.operations.values.find? (m.hasState .waiting) with
    | none => m
    | some r => { m with currentOperation := some r }.run r

def inProgress (m : OperationsManager) (opId : String) : Bool :=
  (m.operations.get? opId).any fun r => !m.hasState .completed r

def register (m : OperationsManager) (operation : Operation) : OperationsManager :=
  { m with
    objects := m.objects ++ [operation]
    operations := m.operations.set operation.opId m.objects.length }

/-- `stored` says whether the database accepts the notification of the new operation. -/
def new (m : OperationsManager) (opId appId : String)
    (showMessage showNotification stored : Bool) : Except Failure Nat × OperationsManager :=
  if m.inProgress opId then (.error (.keyError "Operation in progress/scheduled"), m)
  else
    let operation := Operation.init opId appId showMessage showNotification
    if operation.updateNotification stored then
      (.ok m.objects.length, (m.register operation).scheduleNext)
    else (.error .notification, m)

def onOperationComplete (m : OperationsManager) (operation : Operation) :
    Except Failure Unit × OperationsManager :=
  let cleared := { m with currentOperation := none }
  if operation.showMessage then (.ok (), cleared.scheduleNext)
  else match m.operations.get? operation.opId with
    -- `del` of a missing key leaves before the next operation is scheduled
    | none => (.error (.keyError operation.opId), cleared)
    | some _ =>
      (.ok (), { cleared with operations := m.operations.erase operation.opId }.scheduleNext)

def isResult (m : OperationsManager) (appId : String) (r : Nat) : Bool :=
  m.objects[r]?.any fun operation => operation.appId = appId && operation.state = .completed

def opId (m : OperationsManager) (r : Nat) : String :=
  m.objects[r]?.elim "" Operation.opId

def collectResults (m : OperationsManager) (appId : String) : List Nat × OperationsManager :=
  let results := m.operations.values.filter (m.isResult appId)
  let remaining := m.operations.values.filter (fun r => !m.isResult appId r)
  if results.isEmpty then (results, m)
  else (results, { m with operations := .ofValues m.opId remaining })

/-- What can happen next: a call of a request thread, or the next step of a worker thread. -/
inductive Event
  | new (opId appId : String) (showMessage showNotification stored : Bool)
  | collectResults (appId : String)
  /-- the first `_update_notification()` of the thread -/
  | started (r : Nat) (stored : Bool)
  /-- the target returned or raised, and the state is set without the lock -/
  | finished (r : Nat) (exception : Option String)
  /-- the `_update_notification()` after it -/
  | notified (r : Nat) (stored : Bool)
  | onComplete (r : Nat)
  deriving DecidableEq, Repr

def advance (m : OperationsManager) (r : Nat) (position : Operation.Thread)
    (f : Operation → Operation) : OperationsManager :=
  m.update r fun operation => if operation.thread = position then f operation else operation

def step (m : OperationsManager) : Event → OperationsManager
  | .new opId appId showMessage showNotification stored =>
    (m.new opId appId showMessage showNotification stored).2
  | .collectResults appId => (m.collectResults appId).2
  | .started r stored => m.advance r .starting fun operation =>
    { operation with
      thread := if operation.updateNotification stored then .target else .died }
  | .finished r exception => m.advance r .target fun operation =>
    { operation with state := .completed, exception, thread := .completed }
  | .notified r stored => m.advance r .completed fun operation =>
    { operation with
      thread := if operation.updateNotification stored then .notified else .died }
  | .onComplete r =>
    match m.objects[r]? with
    | none => m
    | some operation =>
      if operation.thread = .notified then
        let entered := m.update r fun operation => { operation with thread := .ended }
        match entered.onOperationComplete operation with
        | (.ok (), after) => after
        | (.error _, after) => after.update r fun operation => { operation with thread := .died }
      else m

end OperationsManager

end Plinth
