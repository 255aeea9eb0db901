import Plinth.Proof.Actions.Validation
import Plinth.Proof.PrivilegedDaemon

/-! # Calls through the daemon -/

namespace Plinth.Actions

open Effect Python Exception PrivilegedDaemon

/-! ## The statement -/

def connected (env : Environment) (importModule : String → Except Exception Namespace) :
    Client where
  requestToServer requestData :=
    .ok ⟨((handle env requestData).exec Thread.start).2.written, none⟩
  importModule := importModule

/-- A call that the daemon takes: it finds the function under the names, and the arguments are
JSON data that the function accepts. -/
structure ValidCall (env : Environment) (func : Function) (moduleName actionName : String)
    (args : List Value) (kwargs : OrderedDict String Value) : Prop where
  found : findAction env moduleName actionName = .ok func
  accepts : Accepts func args (withoutOptions kwargs).entries
  args_data : ∀ value ∈ args, JsonData value
  kwargs_data : ∀ entry ∈ (withoutOptions kwargs).entries, JsonData entry.2
  waits : (popOption kwargs "_raw_output" false).truthy = false ∧
    (popOption kwargs "_run_in_background" false).truthy = false
  short : ∀ requestString, dumps jsonDefault (request moduleName actionName args
    (withoutOptions kwargs).entries (popOption kwargs "_raw_output" false)
      (popOption kwargs "_log_error" true)) = .ok requestString →
        (encodeUtf8 requestString).length ≤ maxRequestLength

/-- The exception can be reported, and the service builds it again: it finds the class under its
name in its module, and the class gives back the arguments that it is called with. -/
structure Sendable (importModule : String → Except Exception Namespace) (behaviour : Behaviour)
    (e : Exception) : Prop where
  caught : e.isinstance .exception = true
  text : (∃ stdout, decode behaviour.stdout = .ok stdout) ∧
    ∃ stderr, decode behaviour.stderr = .ok stderr
  data : ∀ value ∈ e.args, JsonData value
  rebuilt : ∃ module constructor e', importModule e.cls.module = .ok module ∧
    module.attributes e.cls.name = some constructor ∧ constructor e.args = .ok e' ∧
      e'.cls = e.cls ∧ e'.args = e.args

/-! ## The request -/

def receivedMembers (moduleName actionName : String) (args : List Value) (kwargs : Kwargs)
    (logError : Bool) : List (String × Value) :=
  [("module", .str moduleName), ("action", .str actionName), ("args", .list args),
    ("kwargs", .dict (kwargs.map fun (key, value) => (.str key, value)))] ++
      if logError = true then [] else [("log_error", .bool false)]

def received (moduleName actionName : String) (args : List Value) (kwargs : Kwargs)
    (logError : Bool) : Value :=
  .dict ((receivedMembers moduleName actionName args kwargs logError).map fun member =>
    (.str member.1, member.2))

section Request

variable {moduleName actionName : String} {args : List Value} {kwargs : Kwargs}

theorem encode_request {rawOutput logError : Value} (read : rawOutput.truthy = false) :
    encode jsonDefault (request moduleName actionName args kwargs rawOutput logError) =
      encode jsonDefault (received moduleName actionName args kwargs logError.truthy) := by
  cases truthy : logError.truthy <;>
    simp [request, received, receivedMembers, read, truthy, encode, encodeItems]

theorem jsonData_received (logError : Bool) (args_data : ∀ value ∈ args, JsonData value)
    (nodup : (kwargs.map Prod.fst).Nodup) (kwargs_data : ∀ entry ∈ kwargs, JsonData entry.2) :
    JsonData (received moduleName actionName args kwargs logError) := by
  refine .dict _ ?_ ?_
  · have keys : (["module", "action", "args", "kwargs", "log_error"] : List String).Nodup := by
      decide
    cases logError with
    | true => exact keys.sublist (List.sublist_append_left ["module", "action", "args", "kwargs"] _)
    | false => exact keys
  · intro member present
    have list : JsonData (.list args) := .list args args_data
    have dict : JsonData (.dict (kwargs.map fun (key, value) => (.str key, value))) :=
      .dict kwargs nodup kwargs_data
    have str (s : String) : JsonData (.str s) := .str s
    have bool (b : Bool) : JsonData (.bool b) := .bool b
    cases logError <;> simp only [receivedMembers, List.mem_append, List.mem_cons,
      List.not_mem_nil, or_false, Bool.false_eq_true, if_false, if_true] at present
    · obtain (rfl | rfl | rfl | rfl) | rfl := present
      · exact str _
      · exact str _
      · exact list
      · exact dict
      · exact bool _
    · obtain rfl | rfl | rfl | rfl := present
      · exact str _
      · exact str _
      · exact list
      · exact dict

theorem stringItems_map (kwargs : Kwargs) :
    stringItems (kwargs.map fun (key, value) => (.str key, value)) = kwargs := by
  induction kwargs with
  | nil => rfl
  | cons entry kwargs ih =>
    simp only [stringItems, List.map_cons, List.filterMap_cons] at ih ⊢
    rw [ih]

theorem parseRequest_received {requestString : String} {logError : Bool}
    (loaded : loads requestString = .ok (received moduleName actionName args kwargs logError)) :
    parseRequest requestString =
      .ok ⟨moduleName, actionName, args, kwargs, false, logError⟩ := by
  unfold parseRequest
  rw [loaded]
  cases logError <;>
    simp [received, receivedMembers, getParameter, getOption, contains, getItem, lookup,
      bind, Except.bind, pure, Except.pure, stringItems_map]

end Request

/-! ## The daemon -/

section Daemon

variable {env : Environment} {func : Function} {moduleName actionName : String}
  {args : List Value} {kwargs : OrderedDict String Value}

def runRequest (moduleName actionName : String) (args : List Value)
    (kwargs : OrderedDict String Value) : Request :=
  ⟨moduleName, actionName, args, (withoutOptions kwargs).entries, false,
    (popOption kwargs "_log_error" true).truthy⟩

theorem ValidCall.requested (valid : ValidCall env func moduleName actionName args kwargs) :
    ∃ requestString, dumps jsonDefault (request moduleName actionName args
        (withoutOptions kwargs).entries (popOption kwargs "_raw_output" false)
        (popOption kwargs "_log_error" true)) = .ok requestString ∧
      readRequest (encodeUtf8 requestString) = .ok requestString ∧
      parseRequest requestString = .ok (runRequest moduleName actionName args kwargs) := by
  have nodup : ((withoutOptions kwargs).entries.map Prod.fst).Nodup := (withoutOptions kwargs).nodup
  have data : JsonData (received moduleName actionName args (withoutOptions kwargs).entries
      (popOption kwargs "_log_error" true).truthy) :=
    jsonData_received _ valid.args_data nodup valid.kwargs_data
  obtain ⟨requestString, dumped, loaded⟩ := data.loads_dumps jsonDefault
  rw [dumps, ← encode_request valid.waits.1, ← dumps] at dumped
  refine ⟨requestString, dumped, ?_, parseRequest_received loaded⟩
  rw [readRequest, if_neg (Nat.not_lt.mpr (valid.short requestString dumped)),
    decodeUtf8_encodeUtf8]

theorem ValidCall.beforeCall (valid : ValidCall env func moduleName actionName args kwargs) :
    ∃ text, formatArgs func args (withoutOptions kwargs).entries = .ok text ∧
      beforeCall env (runRequest moduleName actionName args kwargs) = .ok (func, text) := by
  obtain ⟨text, formatted⟩ := formatArgs_of_accepts valid.accepts valid.args_data valid.kwargs_data
  refine ⟨text, formatted, ?_⟩
  exact bind_of_ok valid.found (bind_of_ok (assertValidArguments_of_accepts env.str valid.accepts)
    (bind_of_ok formatted rfl))

variable {requestString : String} {request : Request} {text : String}
  (read : readRequest (encodeUtf8 requestString) = .ok requestString)
  (parsed : parseRequest requestString = .ok request)
  (before : Actions.beforeCall env request = .ok (func, text))

include read parsed before

theorem exec_handle_of_returns {value : Value} {document : Json}
    (outcome : (request.behaviour func).outcome = .returns value)
    (encoded : encode encoderDefault value = .ok document) :
    ∃ s, (handle env (encodeUtf8 requestString)).exec Thread.start = (.ok (), s) ∧
      s.calls = [(request.args, request.kwargs)] ∧
      s.written = encodeUtf8 (Json.dumps (.obj [("result", .str "success"),
        ("return", document)])) := by
  have result : (request.behaviour func).outcome.result = .ok (.value (successReply value)) := by
    rw [outcome]
    rfl
  have served : (catchException (serveRequest env requestString) (refuseRequest env)).exec
      Thread.start = (.ok (.value (successReply value)), Thread.start.called request func text) :=
    exec_catchException_of_ok
      (exec_serveRequest_of_value parsed (exec_privilegedCall_of_ok Thread.start before result))
  have handled := exec_privilegedHandle_of_value served
  have replied : encode encoderDefault (successReply value) = .ok (.obj
      [("result", .str "success"), ("return", document)]) := by
    rw [encode_successReply, encoded]
    rfl
  rw [replied] at handled
  exact ⟨_, exec_handle_of_ok ((exec_answerRequest env read Thread.start).trans handled), rfl, rfl⟩

theorem exec_handle_of_raises {e : Exception} {documents : List Json} {stdout stderr : String}
    (outcome : (request.behaviour func).outcome = .raises e)
    (caught : e.isinstance .exception = true)
    (hStdout : decode (request.behaviour func).stdout = .ok stdout)
    (hStderr : decode (request.behaviour func).stderr = .ok stderr)
    (encoded : encodeList encoderDefault e.args = .ok documents) :
    ∃ s, (handle env (encodeUtf8 requestString)).exec Thread.start = (.ok (), s) ∧
      s.calls = [(request.args, request.kwargs)] ∧
      s.written = encodeUtf8 (Json.dumps (exceptionDocument env e documents stdout stderr)) := by
  obtain ⟨records, called⟩ := exec_privilegedCall_of_caught Thread.start before outcome caught
    hStdout hStderr
  have served : (catchException (serveRequest env requestString) (refuseRequest env)).exec
      Thread.start = (.ok (.value (exceptionReply env e stdout stderr)), _) :=
    exec_catchException_of_ok (exec_serveRequest_of_value parsed called)
  have handled := exec_privilegedHandle_of_value served
  have replied : encode encoderDefault (exceptionReply env e stdout stderr) =
      .ok (exceptionDocument env e documents stdout stderr) := by
    rw [encode_exceptionReply, encoded]
    rfl
  rw [replied] at handled
  exact ⟨_, exec_handle_of_ok ((exec_answerRequest env read Thread.start).trans handled), rfl, rfl⟩

end Daemon

/-! ## The service -/

theorem readFromServer_dumps (key : String) (value : Json) (members : List (String × Json)) :
    readFromServer ⟨encodeUtf8 (Json.dumps (.obj ((key, value) :: members))), none⟩ =
      ofJson (.obj ((key, value) :: members)) := by
  have nonempty : encodeUtf8 (Json.dumps (.obj ((key, value) :: members))) ≠ [] := by
    intro h
    have empty : Json.dumps (.obj ((key, value) :: members)) = "" := encodeUtf8_inj h
    have chars := congrArg String.toList empty
    simp [Json.dumps, Json.print] at chars
  simp only [readFromServer, if_neg nonempty]
  exact loadsBytes_dumps key value members

theorem ofJson_success {document : Json} {value : Value} (h : ofJson document = .ok value) :
    ofJson (.obj [("result", .str "success"), ("return", document)]) =
      .ok (.dict [(.str "result", .str "success"), (.str "return", value)]) := by
  simp only [ofJson, ofMembers, h, bind, Except.bind, pure, Except.pure]
  rfl

def exceptionDetails (env : Environment) (e : Exception) (stdout stderr : String) : Value :=
  .dict [(.str "module", .str e.cls.module), (.str "name", .str e.cls.name),
    (.str "args", .list e.args), (.str "traceback", .list ((env.formatTb e).map .str)),
    (.str "stdout", .str stdout), (.str "stderr", .str stderr)]

theorem ofElements_strings (texts : List String) :
    ofElements (texts.map .str) = .ok (texts.map .str) := by
  induction texts with
  | nil => rfl
  | cons text texts ih =>
    rw [List.map_cons, ofElements, ih]
    rfl

theorem ofJson_exceptionDocument (env : Environment) {e : Exception} {documents : List Json}
    (stdout stderr : String) (h : ofElements documents = .ok e.args) :
    ofJson (exceptionDocument env e documents stdout stderr) =
      .ok (.dict [(.str "result", .str "exception"),
        (.str "exception", exceptionDetails env e stdout stderr)]) := by
  simp only [exceptionDocument, ofJson, ofMembers, h, ofElements_strings, bind, Except.bind, pure,
    Except.pure]
  rfl

/-! ## Logging the exception -/

theorem dumpsAll_ok {values : List Value} (data : ∀ value ∈ values, JsonData value) :
    ∃ texts, dumpsAll values = .ok texts := by
  induction values with
  | nil => exact ⟨[], rfl⟩
  | cons value values ih =>
    obtain ⟨text, dumped, -⟩ := (data value List.mem_cons_self).loads_dumps jsonDefault
    obtain ⟨texts, rest⟩ := ih fun v member => data v (List.mem_cons_of_mem _ member)
    exact ⟨text :: texts, bind_of_ok dumped (bind_of_ok rest rfl)⟩

theorem formatOutput_ok (mark title text : String) :
    ∃ formatted, formatOutput mark title (encodeUtf8 text) = .ok formatted := by
  have decoded : decode (encodeUtf8 text) = .ok text := by
    rw [decode, decodeUtf8_encodeUtf8]
  unfold formatOutput
  rw [decoded]
  by_cases empty : text = ""
  · exact ⟨_, by simp only [bind, Except.bind, if_pos empty]; rfl⟩
  · exact ⟨_, by simp only [bind, Except.bind, if_neg empty]; rfl⟩

theorem tracebackLines_ok (texts : List String) :
    ∃ lines, tracebackLines (texts.map .str) = .ok lines := by
  induction texts with
  | nil => exact ⟨[], rfl⟩
  | cons text texts ih =>
    obtain ⟨lines, rest⟩ := ih
    exact ⟨_, bind_of_ok rest rfl⟩

theorem formatTraceback_ok (texts : List String) :
    ∃ formatted, formatTraceback (.list (texts.map .str)) = .ok formatted := by
  obtain ⟨lines, formatted⟩ := tracebackLines_ok texts
  unfold formatTraceback
  cases (Value.list (texts.map .str)).truthy with
  | false => exact ⟨_, rfl⟩
  | true =>
    refine ⟨_, bind_of_ok (a := texts.map .str) rfl (bind_of_ok formatted rfl)⟩

theorem formatError_ok (env : Environment) (e e' : Exception) (stdout stderr : String)
    (data : ∀ value ∈ e'.args, JsonData value) :
    ∃ formatted, formatError e' (encodeUtf8 stdout) (encodeUtf8 stderr)
      (.dict [(.str "result", .str "exception"),
        (.str "exception", exceptionDetails env e stdout stderr)]) = .ok formatted := by
  obtain ⟨texts, dumped⟩ := dumpsAll_ok data
  obtain ⟨out, formattedOut⟩ := formatOutput_ok "│ " "Stdout:\n" stdout
  obtain ⟨err, formattedErr⟩ := formatOutput_ok "║ " "Stderr:\n" stderr
  obtain ⟨traceback, formatted⟩ := formatTraceback_ok (env.formatTb e)
  unfold formatError
  exact ⟨_, bind_of_ok dumped (bind_of_ok formattedOut (bind_of_ok formattedErr
    (bind_of_ok (a := exceptionDetails env e stdout stderr) rfl
      (bind_of_ok (a := .list ((env.formatTb e).map .str)) rfl (bind_of_ok formatted rfl)))))⟩

/-! ## The response -/

section Wait

variable {func : Function} {moduleName actionName : String} {args : List Value}
  {kwargs : Kwargs} {logError : Bool} {clientSocket : Stream}

theorem exec_wait_of_success (client : Client) {value : Value} (read : readFromServer clientSocket =
      .ok (.dict [(.str "result", .str "success"), (.str "return", value)])) (s : Thread) :
    (waitForServerResponse client (some func) moduleName actionName args kwargs logError
      clientSocket).exec s = (.ok value, s) := by
  simp only [waitForServerResponse, exec_bind, exec_tryCatch, exec_lift, read]
  rfl

variable {env : Environment} {e e' : Exception} {stdout stderr text : String} {module : Namespace}
  {constructor : Constructor}
  (read : readFromServer clientSocket = .ok (.dict [(.str "result", .str "exception"),
    (.str "exception", exceptionDetails env e stdout stderr)]))

include read

theorem exec_wait_eq (client : Client) (s : Thread) :
    (waitForServerResponse client (some func) moduleName actionName args kwargs logError
      clientSocket).exec s = (raiseException client (some func) moduleName actionName args kwargs
        logError (.dict [(.str "result", .str "exception"),
          (.str "exception", exceptionDetails env e stdout stderr)])).exec s := by
  simp only [waitForServerResponse, exec_bind, exec_tryCatch, exec_lift, read]
  rfl

theorem exec_wait_of_unknown (client : Client)
    (imported : client.importModule e.cls.module = .ok module)
    (missing : module.attributes e.cls.name = none) (s : Thread) :
    (waitForServerResponse client (some func) moduleName actionName args kwargs logError
      clientSocket).exec s = (.error (AttributeError
        ("module '" ++ module.name ++ "' has no attribute '" ++ e.cls.name ++ "'")), s) := by
  have details : getItem (.dict [(.str "result", .str "exception"),
      (.str "exception", exceptionDetails env e stdout stderr)]) "exception" =
        .ok (exceptionDetails env e stdout stderr) := rfl
  have moduleItem : getItem (exceptionDetails env e stdout stderr) "module" =
      .ok (.str e.cls.module) := rfl
  have nameItem : getItem (exceptionDetails env e stdout stderr) "name" =
      .ok (.str e.cls.name) := rfl
  rw [exec_wait_eq read]
  simp only [raiseException, exec_bind, exec_lift, details, moduleItem, importModule, imported,
    nameItem, getAttribute, missing]

theorem exec_wait_of_exception (client : Client) (formatted : formatArgs func args kwargs = .ok text)
    (imported : client.importModule e.cls.module = .ok module)
    (found : module.attributes e.cls.name = some constructor)
    (built : constructor e.args = .ok e') (data : ∀ value ∈ e'.args, JsonData value) (s : Thread) :
    ∃ s', (waitForServerResponse client (some func) moduleName actionName args kwargs logError
      clientSocket).exec s = (.error e', s') := by
  obtain ⟨formattedError, logged⟩ := formatError_ok env e e' stdout stderr data
  have moduleItem : getItem (exceptionDetails env e stdout stderr) "module" =
      .ok (.str e.cls.module) := rfl
  have nameItem : getItem (exceptionDetails env e stdout stderr) "name" =
      .ok (.str e.cls.name) := rfl
  have argsItem : getItem (exceptionDetails env e stdout stderr) "args" = .ok (.list e.args) := rfl
  have stdoutItem : getEncoded (exceptionDetails env e stdout stderr) "stdout" =
      .ok (encodeUtf8 stdout) := rfl
  have stderrItem : getEncoded (exceptionDetails env e stdout stderr) "stderr" =
      .ok (encodeUtf8 stderr) := rfl
  have details : getItem (.dict [(.str "result", .str "exception"),
      (.str "exception", exceptionDetails env e stdout stderr)]) "exception" =
        .ok (exceptionDetails env e stdout stderr) := rfl
  have looked : getAttribute module (.str e.cls.name) = .ok constructor := by
    rw [getAttribute, found]
  rw [exec_wait_eq read]
  simp only [raiseException, exec_bind, exec_lift, details, moduleItem, importModule, imported,
    nameItem, looked, argsItem, iterate, built, stdoutItem, stderrItem]
  cases logError with
  | false =>
    rw [when_of_not Bool.false_ne_true]
    exact ⟨_, rfl⟩
  | true =>
    rw [when_of rfl]
    simp only [exec_bind, exec_lift, formatted, logged]
    exact ⟨_, rfl⟩

end Wait

/-! ## The call -/

section Run

variable {env : Environment} {func : Function} {moduleName actionName : String}
  {args : List Value} {kwargs : OrderedDict String Value}
  {requestString : String}

theorem exec_run (importModule : String → Except Exception Namespace)
    (valid : ValidCall env func moduleName actionName args kwargs)
    (dumped : dumps jsonDefault (request moduleName actionName args (withoutOptions kwargs).entries
      (popOption kwargs "_raw_output" false) (popOption kwargs "_log_error" true)) =
        .ok requestString) (s : Thread) :
    ∃ s₁, (runPrivilegedMethod (connected env importModule) (some func) moduleName actionName args
        kwargs).exec s =
      match (waitForServerResponse (connected env importModule) (some func) moduleName actionName
        args (withoutOptions kwargs).entries (popOption kwargs "_log_error" true).truthy
        ⟨((handle env (encodeUtf8 requestString)).exec Thread.start).2.written, none⟩).exec s₁ with
      | (.ok value, s') => (.ok (.value value), s')
      | (.error e, s') => (.error e, s') := by
  obtain ⟨text, formatted, -⟩ := valid.beforeCall
  obtain ⟨record, logged⟩ : ∃ record, (logAction func moduleName actionName args
      (withoutOptions kwargs).entries false).exec s =
        (.ok (), { s with log := s.log ++ [record] }) := by
    simp only [logAction, exec_bind, exec_lift, formatted]
    exact ⟨_, rfl⟩
  refine ⟨{ s with log := s.log ++ [record] }, ?_⟩
  simp only [runPrivilegedMethod, exec_bind, exec_lift, valid.waits.1, valid.waits.2, logged,
    dumped, connected, Bool.false_eq_true, if_false, exec_pure]
  generalize exec (waitForServerResponse _ _ _ _ _ _ _ _) _ = outcome
  obtain ⟨e | value, s'⟩ := outcome <;> rfl

end Run

/-- `def echo(name: str, numbers: list[int] = None)`, with what it does. -/
def echo (outcome : List Value → Outcome) : Function where
  argspec := {
    args := ["name", "numbers"]
    varargs := none
    varkw := none
    defaults := [.none]
    kwonlyargs := []
    kwonlydefaults := []
    annotations := ⟨[("name", .str), ("numbers", .list .int)], by decide⟩
    nodup := by decide }
  behaviour args _ := ⟨[], [], outcome args⟩

def echoEnvironment (outcome : List Value → Outcome) : Environment where
  cfgRead := .ok ()
  getModuleImportPath _ := .ok "plinth.modules.sample"
  importModule _ := .ok fun _ => some (.privileged (echo outcome))
  formatTb _ := []
  str := Value.className

theorem validCall_echo (outcome : List Value → Outcome) :
    ValidCall (echoEnvironment outcome) (echo outcome) "sample" "echo"
      [.str "one", .list [.int 1]] .empty where
  found := rfl
  accepts := {
    length := Nat.le_refl 2
    provided := by simp [echo]
    known := by simp [withoutOptions, OrderedDict.filter, OrderedDict.empty]
    keywords := by simp [withoutOptions, OrderedDict.filter, OrderedDict.empty]
    positionals := by
      rintro ⟨name, value⟩ member
      simp only [echo, List.zip_cons_cons, List.zip_nil_left, List.mem_cons, Prod.mk.injEq,
        List.not_mem_nil, or_false] at member
      obtain ⟨rfl, rfl⟩ | ⟨rfl, rfl⟩ := member
      · exact ⟨.str, rfl, .str _⟩
      · exact ⟨.list .int, rfl, .list (by simpa using Inhabits.int 1)⟩ }
  args_data := by
    have list : JsonData (.list [.int 1]) := .list _ (by simpa using JsonData.int 1 rfl)
    simpa using ⟨JsonData.str "one", list⟩
  kwargs_data := by simp [withoutOptions, OrderedDict.filter, OrderedDict.empty]
  waits := ⟨rfl, rfl⟩
  short := by
    rintro requestString ⟨⟩
    decide

def builtins (name : String) : Except Exception Namespace :=
  .ok ⟨name, fun found =>
    if found = "ValueError" then some fun args => .ok ⟨builtin "ValueError" [.exception], args⟩
    else none⟩

/-- An exception of `class Outer: class Inner(Exception)`. -/
def nested : Exception := ⟨⟨"plinth.modules.sample", "Inner", "Outer.Inner", [.exception]⟩, []⟩

theorem calls_of_long (env : Environment) {requestData : Bytes}
    (long : maxRequestLength < requestData.length) :
    ((handle env requestData).exec Thread.start).2.calls = [] := by
  have read : readRequest requestData = .error (ValueError "Request too large") := if_pos long
  have unreadable : (answerRequest env requestData).exec Thread.start = _ :=
    exec_answerRequest_of_unreadable read Thread.start
  obtain ⟨⟨stdout, hStdout⟩, stderr, hStderr⟩ := reportable_start
  have reply := exec_getReturnValue env (ValueError "Request too large")
    (s := logged (ValueError "Request too large") Thread.start) hStdout hStderr
  have dumped : dumps jsonDefault (exceptionReply env (ValueError "Request too large") stdout
      stderr) = .ok (Json.dumps (exceptionDocument env (ValueError "Request too large")
        [.str "Request too large"] stdout stderr)) := by
    rw [dumps, encode_exceptionReply]
    rfl
  rw [exec_handle_of_caught unreadable rfl, exec_bind, reply]
  simp only [exec_bind, exec_lift, dumped]
  rfl

def longName : String := String.ofList (List.replicate maxRequestLength 'a')

theorem length_request (name : String) :
    ∃ requestString, dumps jsonDefault (request "sample" "echo" [.str name, .list [.int 1]] []
      (.bool false) (.bool true)) = .ok requestString ∧
        name.toList.length < (encodeUtf8 requestString).length := by
  have encoded : encode jsonDefault (request "sample" "echo" [.str name, .list [.int 1]] []
      (.bool false) (.bool true)) = .ok (.obj [("module", .str "sample"), ("action", .str "echo"),
        ("args", .arr [.str name, .arr [.int 1]]), ("kwargs", .obj [])]) := rfl
  refine ⟨_, by rw [dumps, encoded]; rfl, ?_⟩
  have printed := Json.length_le_printString name
  rw [Json.dumps, encodeUtf8_ofList (Json.ascii_print _), List.length_map]
  simp only [Json.print, Json.printMembers, Json.printElements, List.length_append,
    List.length_cons]
  omega

theorem exec_run_nested :
    ∃ s, (runPrivilegedMethod (connected (echoEnvironment fun _ => .raises nested) builtins)
      (some (echo fun _ => .raises nested)) "sample" "echo" [.str "one", .list [.int 1]]
      .empty).exec Thread.start = (.error (AttributeError
        "module 'plinth.modules.sample' has no attribute 'Inner'"), s) := by
  have valid := validCall_echo fun _ => .raises nested
  obtain ⟨requestString, dumped, read, parsed⟩ := valid.requested
  obtain ⟨text, formatted, before⟩ := valid.beforeCall
  obtain ⟨s₁, run⟩ := exec_run builtins valid dumped Thread.start
  have encoded : encodeList encoderDefault nested.args = .ok [] := rfl
  have silent : decode [] = .ok "" := rfl
  obtain ⟨s₂, handled, -, written⟩ := exec_handle_of_raises read parsed before (e := nested)
    rfl rfl silent silent encoded
  have decoded : ofElements [] = .ok nested.args := rfl
  have received := (readFromServer_dumps "result" (.str "exception") _).trans
    (ofJson_exceptionDocument (echoEnvironment fun _ => .raises nested) "" "" decoded)
  rw [handled] at run
  rw [← exceptionDocument, ← written] at received
  rw [run, exec_wait_of_unknown received _ rfl rfl]
  exact ⟨s₁, rfl⟩

end Plinth.Actions
