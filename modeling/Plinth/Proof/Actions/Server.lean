import Plinth.Lib.Python.Codec
import Plinth.Model.Actions

/-!
# How the daemon runs a request

The steps of a request, from what they find to the reply and the state of the thread.
-/

namespace Plinth.Actions

open Effect Python Exception

/-! ## Handlers -/

section Handlers

variable {α : Type} {m : Call α} {handle : Exception → Call α} {s s' : Thread}

theorem exec_catchException_of_ok {a : α} (h : m.exec s = (.ok a, s')) :
    (catchException m handle).exec s = (.ok a, s') := by
  rw [catchException, exec_tryCatch, h]

theorem exec_catchException_of_caught {e : Exception} (h : m.exec s = (.error e, s'))
    (caught : e.isinstance .exception = true) :
    (catchException m handle).exec s = (handle e).exec s' := by
  rw [catchException, exec_tryCatch, h]
  simp only [if_pos caught]

theorem exec_catchException_of_uncaught {e : Exception} (h : m.exec s = (.error e, s'))
    (uncaught : e.isinstance .exception = false) :
    (catchException m handle).exec s = (.error e, s') := by
  rw [catchException, exec_tryCatch, h]
  simp only [uncaught, Bool.false_eq_true, if_false, exec_throw]

end Handlers

/-! ## Reports of exceptions -/

def Thread.Reportable (s : Thread) : Prop :=
  (∃ stdout, s.stdout.decode = .ok stdout) ∧ ∃ stderr, s.stderr.decode = .ok stderr

theorem exec_getReturnValue (env : Environment) (e : Exception) {s : Thread}
    {stdout stderr : String} (hStdout : s.stdout.decode = .ok stdout)
    (hStderr : s.stderr.decode = .ok stderr) :
    (getReturnValueFromException env e).exec s = (.ok (exceptionReply env e stdout stderr), s) := by
  simp only [getReturnValueFromException, exec_bind, exec_get, exec_lift, hStdout, hStderr,
    exec_pure]

theorem exec_getReturnValue_of_not_reportable (env : Environment) (e : Exception) {s : Thread}
    (h : ¬ s.Reportable) : ∃ e', (getReturnValueFromException env e).exec s = (.error e', s) := by
  simp only [getReturnValueFromException, exec_bind, exec_get, exec_lift]
  cases hStdout : s.stdout.decode with
  | error e' => exact ⟨e', rfl⟩
  | ok stdout =>
    cases hStderr : s.stderr.decode with
    | error e' => exact ⟨e', rfl⟩
    | ok stderr => exact absurd ⟨⟨stdout, hStdout⟩, stderr, hStderr⟩ h

theorem exec_logFailure (e : Exception) (s : Thread) :
    ∃ result record, (logFailure e).exec s = (result, { s with log := s.log ++ record }) ∧
      (result = .ok () ∨
        e.args = [] ∧ result = .error (IndexError "tuple index out of range")) := by
  unfold logFailure
  split
  · cases e.args with
    | nil => exact ⟨_, [], by simp, .inr ⟨rfl, rfl⟩⟩
    | cons message rest => exact ⟨_, [_], rfl, .inl rfl⟩
  · exact ⟨_, [_], rfl, .inl rfl⟩

theorem exec_refuseRequest_of_not_reportable (env : Environment) (e : Exception) {s : Thread}
    (h : ¬ s.Reportable) :
    ∃ e' s', (refuseRequest env e).exec s = (.error e', s') ∧ ¬ s'.Reportable := by
  obtain ⟨result, record, logged, rfl | ⟨-, rfl⟩⟩ := exec_logFailure e s
  · have same : ¬ Thread.Reportable { s with log := s.log ++ record } := h
    obtain ⟨e', raised⟩ := exec_getReturnValue_of_not_reportable env e same
    exact ⟨e', _, by simp only [refuseRequest, exec_bind, logged, raised], same⟩
  · refine ⟨IndexError "tuple index out of range", { s with log := s.log ++ record }, ?_, h⟩
    simp only [refuseRequest, exec_bind, logged]

theorem exec_refuseRequest (env : Environment) (e : Exception) {s : Thread}
    {stdout stderr : String} (hStdout : s.stdout.decode = .ok stdout)
    (hStderr : s.stderr.decode = .ok stderr) :
    ∃ records, (refuseRequest env e).exec s =
        (.ok (.value (exceptionReply env e stdout stderr)), { s with log := s.log ++ records }) ∨
      e.args = [] ∧ (refuseRequest env e).exec s =
        (.error (IndexError "tuple index out of range"), { s with log := s.log ++ records }) := by
  obtain ⟨result, records, logged, rfl | ⟨none, rfl⟩⟩ := exec_logFailure e s
  · have reply := exec_getReturnValue env e (s := { s with log := s.log ++ records }) hStdout hStderr
    exact ⟨records, .inl (by simp only [refuseRequest, exec_bind, logged, reply, exec_pure])⟩
  · exact ⟨records, .inr ⟨none, by simp only [refuseRequest, exec_bind, logged]⟩⟩

/-! ## Replies -/

theorem encodeList_strings (default : Value → Except Exception Json) (texts : List String) :
    encodeList default (texts.map .str) = .ok (texts.map .str) := by
  induction texts with
  | nil => rfl
  | cons text texts ih =>
    rw [List.map_cons, encodeList, ih]
    rfl

def exceptionDocument (env : Environment) (e : Exception) (args : List Json)
    (stdout stderr : String) : Json :=
  .obj [("result", .str "exception"),
    ("exception", .obj [("module", .str e.cls.module), ("name", .str e.cls.name),
      ("args", .arr args), ("traceback", .arr ((env.formatTb e).map .str)),
      ("stdout", .str stdout), ("stderr", .str stderr)])]

section Encode

variable {default : Value → Except Exception Json}

theorem encode_exceptionReply (env : Environment) (e : Exception) (stdout stderr : String) :
    encode default (exceptionReply env e stdout stderr) =
      (encodeList default e.args).map fun args => exceptionDocument env e args stdout stderr := by
  simp only [exceptionReply, encode, encodeItems, encodeKey, bind, Except.bind, pure, Except.pure,
    encodeList_strings]
  cases encodeList default e.args <;> rfl

theorem encode_successReply (value : Value) :
    encode default (successReply value) = (encode default value).map fun document =>
      .obj [("result", .str "success"), ("return", document)] := by
  simp only [successReply, encode, encodeItems, encodeKey, bind, Except.bind, pure, Except.pure]
  cases encode default value <;> rfl

theorem encode_tuple (elements : List Value) :
    encode default (.tuple elements) = (encodeList default elements).map .arr := by
  simp only [encode, bind, Except.bind, pure, Except.pure]
  cases encodeList default elements <;> rfl

end Encode

/-! ## Calls -/

def Thread.ran (func : Function) (args : List Value) (kwargs : Kwargs) (s : Thread) : Thread :=
  { s with
    stdout := s.stdout.append (func.behaviour args kwargs).stdout
    stderr := s.stderr.append (func.behaviour args kwargs).stderr
    calls := s.calls ++ [(args, kwargs)] }

/-- What runs of a function give, as far as the handler of `_privileged_call` is concerned. -/
def Outcome.result : Outcome → Except Exception Return
  | returns value => .ok (.value (successReply value))
  | reader stream => .ok (.reader stream)
  | raises exception => .error exception

theorem exec_runFunction (func : Function) (args : List Value) (kwargs : Kwargs) (s : Thread) :
    (runFunction func args kwargs).exec s =
      ((func.behaviour args kwargs).outcome.result, s.ran func args kwargs) := by
  simp only [runFunction, exec_bind, exec_modify]
  cases (func.behaviour args kwargs).outcome <;> rfl

theorem exec_reportError (env : Environment) (moduleName actionName : String) (logError : Bool)
    (e : Exception) {s : Thread} {stdout stderr : String} (hStdout : s.stdout.decode = .ok stdout)
    (hStderr : s.stderr.decode = .ok stderr) :
    ∃ records, (reportError env moduleName actionName logError e).exec s =
      (.ok (.value (exceptionReply env e stdout stderr)),
        { s with log := s.log ++ records }) := by
  have details : getItem (exceptionReply env e stdout stderr) "exception" = .ok (.dict [
      (.str "module", .str e.cls.module), (.str "name", .str e.cls.name),
      (.str "args", .tuple e.args), (.str "traceback", .list ((env.formatTb e).map .str)),
      (.str "stdout", .str stdout), (.str "stderr", .str stderr)]) := rfl
  simp only [reportError, exec_bind, exec_getReturnValue env e hStdout hStderr, exec_lift, details]
  cases logError with
  | true => exact ⟨[_], rfl⟩
  | false => exact ⟨[], by simp [getItem, lookup, when]⟩

theorem exec_reportError_of_not_reportable (env : Environment) (moduleName actionName : String)
    (logError : Bool) (e : Exception) {s : Thread} (h : ¬ s.Reportable) :
    ∃ e', (reportError env moduleName actionName logError e).exec s = (.error e', s) := by
  obtain ⟨e', raised⟩ := exec_getReturnValue_of_not_reportable env e h
  exact ⟨e', by simp only [reportError, exec_bind, raised]⟩

/-! ## Requests -/

def beforeCall (env : Environment) (request : Request) : Except Exception (Function × String) := do
  let func ← findAction env request.module request.action
  assertValidArguments env.str func request.args request.kwargs
  return (func, ← formatArgs func request.args request.kwargs)

def Request.record (request : Request) (formattedArgs : String) : LogRecord :=
  ⟨.info, .text "%s %s..%s(%s) %s", [.text "»", .text request.module, .text request.action,
    .text formattedArgs, .text ""]⟩

theorem exec_privilegedCall (env : Environment) (request : Request) (s : Thread) :
    (privilegedCall env request.module request.action request.args request.kwargs
      request.logError).exec s = match beforeCall env request with
        | .error e => (.error e, s)
        | .ok (func, formattedArgs) =>
          (catchException (runFunction func request.args request.kwargs)
            (reportError env request.module request.action request.logError)).exec
              { s with log := s.log ++ [request.record formattedArgs] } := by
  simp only [privilegedCall, beforeCall, exec_bind, exec_lift]
  cases findAction env request.module request.action with
  | error e => rfl
  | ok func =>
    cases hValid : assertValidArguments env.str func request.args request.kwargs with
    | error e => simp [hValid, bind, Except.bind]
    | ok valid =>
      simp only [hValid, bind, Except.bind]
      unfold logAction
      cases formatArgs func request.args request.kwargs <;> rfl

def Thread.setup (s : Thread) : Thread :=
  { s with stdout := .bytes [], stderr := .bytes [] }

def Thread.called (request : Request) (func : Function) (formattedArgs : String) (s : Thread) :
    Thread :=
  Thread.ran func request.args request.kwargs
    { s.setup with log := s.log ++ [request.record formattedArgs] }

def Request.behaviour (request : Request) (func : Function) : Behaviour :=
  func.behaviour request.args request.kwargs

section Call

variable {env : Environment} {request : Request} {func : Function} {formattedArgs : String}
  (s : Thread) (h : beforeCall env request = .ok (func, formattedArgs))

include h

theorem exec_privilegedCall_of_ok {value : Return}
    (outcome : (request.behaviour func).outcome.result = .ok value) :
    (privilegedCall env request.module request.action request.args request.kwargs
      request.logError).exec s.setup = (.ok value, s.called request func formattedArgs) := by
  rw [exec_privilegedCall, h]
  refine exec_catchException_of_ok ?_
  rw [exec_runFunction, ← Request.behaviour, outcome]
  rfl

variable {e : Exception} (outcome : (request.behaviour func).outcome = .raises e)

include outcome

omit h in
theorem exec_runFunction_of_raises : (runFunction func request.args request.kwargs).exec
    { s.setup with log := s.log ++ [request.record formattedArgs] } =
      (.error e, s.called request func formattedArgs) := by
  rw [exec_runFunction, ← Request.behaviour, outcome]
  rfl

theorem exec_privilegedCall_of_uncaught (uncaught : e.isinstance .exception = false) :
    (privilegedCall env request.module request.action request.args request.kwargs
      request.logError).exec s.setup = (.error e, s.called request func formattedArgs) := by
  rw [exec_privilegedCall, h]
  exact exec_catchException_of_uncaught (exec_runFunction_of_raises s outcome) uncaught

theorem exec_privilegedCall_of_caught (caught : e.isinstance .exception = true)
    {stdout stderr : String} (hStdout : decode (request.behaviour func).stdout = .ok stdout)
    (hStderr : decode (request.behaviour func).stderr = .ok stderr) :
    ∃ records, (privilegedCall env request.module request.action request.args request.kwargs
      request.logError).exec s.setup = (.ok (.value (exceptionReply env e stdout stderr)),
        { s.called request func formattedArgs with
          log := (s.called request func formattedArgs).log ++ records }) := by
  rw [exec_privilegedCall, h]
  obtain ⟨records, reported⟩ := exec_reportError (s := s.called request func formattedArgs) env
    request.module request.action request.logError e hStdout hStderr
  refine ⟨records, ?_⟩
  rw [← reported]
  exact exec_catchException_of_caught (exec_runFunction_of_raises s outcome) caught

theorem exec_privilegedCall_of_not_reportable (caught : e.isinstance .exception = true)
    (notReportable : ¬ (s.called request func formattedArgs).Reportable) :
    ∃ e', (privilegedCall env request.module request.action request.args request.kwargs
      request.logError).exec s.setup = (.error e', s.called request func formattedArgs) := by
  rw [exec_privilegedCall, h]
  obtain ⟨e', raised⟩ := exec_reportError_of_not_reportable env request.module request.action
    request.logError e notReportable
  refine ⟨e', ?_⟩
  rw [← raised]
  exact exec_catchException_of_caught (exec_runFunction_of_raises s outcome) caught

end Call

section Serve

variable {env : Environment} {requestString : String} {request : Request} {s s' : Thread}

theorem exec_serveRequest_of_invalid {e : Exception} (h : parseRequest requestString = .error e) :
    (serveRequest env requestString).exec s = (.error e, s) := by
  simp only [serveRequest, exec_bind, exec_lift, h]

variable (parsed : parseRequest requestString = .ok request)

include parsed

theorem exec_serveRequest_of_error {e : Exception}
    (h : (privilegedCall env request.module request.action request.args request.kwargs
      request.logError).exec s.setup = (.error e, s')) :
    (serveRequest env requestString).exec s = (.error e, s') := by
  have setup : setupThreadStorage.exec s = (.ok (), s.setup) := rfl
  simp only [serveRequest, exec_bind, exec_lift, parsed, setup, h]

theorem exec_serveRequest_of_value {value : Value}
    (h : (privilegedCall env request.module request.action request.args request.kwargs
      request.logError).exec s.setup = (.ok (.value value), s')) :
    (serveRequest env requestString).exec s = (.ok (.value value), s') := by
  have setup : setupThreadStorage.exec s = (.ok (), s.setup) := rfl
  simp only [serveRequest, exec_bind, exec_lift, parsed, setup, h, exec_pure]

theorem exec_serveRequest_of_reader {stream : Stream}
    (h : (privilegedCall env request.module request.action request.args request.kwargs
      request.logError).exec s.setup = (.ok (.reader stream), s')) :
    (serveRequest env requestString).exec s =
      if request.rawOutput = true then (.ok (.reader stream), s')
      else (.error (TypeError "Invalid call to raw output API."), s') := by
  have setup : setupThreadStorage.exec s = (.ok (), s.setup) := rfl
  simp only [serveRequest, exec_bind, exec_lift, parsed, setup, h]
  split <;> rfl

theorem exec_serveRequest_of_refused {e : Exception} (h : beforeCall env request = .error e) :
    (serveRequest env requestString).exec s = (.error e, s.setup) := by
  refine exec_serveRequest_of_error parsed ?_
  rw [exec_privilegedCall, h]

end Serve

/-! ## Responses -/

def Thread.clear (s : Thread) : Thread :=
  { s with stdout := .none, stderr := .none }

theorem Thread.clear_not_reportable (s : Thread) : ¬ s.clear.Reportable := by
  rintro ⟨⟨stdout, h⟩, -⟩
  cases h

section Respond

variable {env : Environment} {requestString : String} {s s' : Thread}

theorem exec_privilegedHandle_of_value {value : Value}
    (h : (catchException (serveRequest env requestString) (refuseRequest env)).exec s =
      (.ok (.value value), s')) :
    (privilegedHandleJsonRequest env requestString).exec s =
      match encode encoderDefault value with
      | .ok document => (.ok (.text (Json.dumps document)), s'.clear)
      | .error e => (.error e, s'.clear) := by
  have clear : clearThreadStorage.exec s' = (.ok (), s'.clear) := rfl
  simp only [privilegedHandleJsonRequest, exec_bind, h, clear, exec_lift, dumps]
  cases encode encoderDefault value <;> rfl

theorem exec_privilegedHandle_of_reader {stream : Stream}
    (h : (serveRequest env requestString).exec s = (.ok (.reader stream), s')) :
    (privilegedHandleJsonRequest env requestString).exec s = (.ok (.reader stream), s') := by
  rw [privilegedHandleJsonRequest, exec_bind, exec_catchException_of_ok h]
  rfl

theorem exec_privilegedHandle_of_error {e : Exception}
    (h : (catchException (serveRequest env requestString) (refuseRequest env)).exec s =
      (.error e, s')) :
    (privilegedHandleJsonRequest env requestString).exec s = (.error e, s') := by
  rw [privilegedHandleJsonRequest, exec_bind, h]

end Respond

end Plinth.Actions
