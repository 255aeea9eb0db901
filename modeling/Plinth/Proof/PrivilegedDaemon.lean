import Mathlib.Data.List.Induction
import Plinth.Model.PrivilegedDaemon
import Plinth.Proof.Actions.Server

/-!
# Every request is answered

A connection is answered unless the function ends in a way that cannot be reported: its value or
the arguments of its exception have no form in JSON, its exception is none of the class
`Exception`, the captured output is not UTF-8 when an exception is reported, or reading the
stream that it returned fails.
-/

namespace Plinth.PrivilegedDaemon

open Effect Python Exception Actions

/-! ## The statement -/

inductive IsResponse : Json → Prop
  | success (value : Json) : IsResponse (.obj [("result", .str "success"), ("return", value)])
  | exception (module name stdout stderr : String) (args traceback : List Json) :
      IsResponse (.obj [("result", .str "exception"),
        ("exception", .obj [("module", .str module), ("name", .str name), ("args", .arr args),
          ("traceback", .arr traceback), ("stdout", .str stdout), ("stderr", .str stderr)])])

inductive Fate
  | refused (exception : Exception)
  | invoked (rawOutput : Bool) (behaviour : Behaviour)

def fate (env : Environment) (requestData : Bytes) : Fate :=
  match readRequest requestData >>= parseRequest with
  | .error e => .refused e
  | .ok request =>
    match beforeCall env request with
    | .error e => .refused e
    | .ok (func, _) => .invoked request.rawOutput (request.behaviour func)

def Answered (env : Environment) (requestData : Bytes) : Prop :=
  match (handle env requestData).exec Thread.start with
  | (.ok _, s) =>
    (∃ text document, s.written = encodeUtf8 text ∧ Json.loads text = some document ∧
      IsResponse document) ∨
    (∃ behaviour stream, fate env requestData = .invoked true behaviour ∧
      behaviour.outcome = .reader stream ∧ s.written = stream.content)
  | (.error _, _) => False

def Encodable (value : Value) : Prop :=
  ∃ document, encode encoderDefault value = .ok document

def CapturesText (behaviour : Behaviour) : Prop :=
  (∃ stdout, decode behaviour.stdout = .ok stdout) ∧ ∃ stderr, decode behaviour.stderr = .ok stderr

def Answerable : Fate → Prop
  | .refused e => e.isinstance .exception = true ∧ Encodable (.tuple e.args)
  | .invoked rawOutput behaviour =>
    match behaviour.outcome with
    | .returns value => Encodable value
    | .reader stream =>
      if rawOutput = true then stream.failure = none else CapturesText behaviour
    | .raises e => e.isinstance .exception = true ∧ CapturesText behaviour ∧
        Encodable (.tuple e.args)

/-! ## Replies -/

theorem isResponse_exceptionDocument (env : Environment) (e : Exception) (args : List Json)
    (stdout stderr : String) : IsResponse (exceptionDocument env e args stdout stderr) :=
  .exception ..

theorem encodable_exceptionReply (env : Environment) (e : Exception) (stdout stderr : String) :
    Encodable (exceptionReply env e stdout stderr) ↔ Encodable (.tuple e.args) := by
  simp only [Encodable, encode_exceptionReply, encode_tuple]
  cases encodeList encoderDefault e.args <;> simp [Except.map]

theorem isResponse_of_exceptionReply {env : Environment} {e : Exception} {stdout stderr : String}
    {document : Json} (h : encode encoderDefault (exceptionReply env e stdout stderr) =
      .ok document) : IsResponse document := by
  rw [encode_exceptionReply] at h
  cases encoded : encodeList encoderDefault e.args with
  | error e' =>
    rw [encoded] at h
    cases h
  | ok args =>
    rw [encoded] at h
    cases h
    exact isResponse_exceptionDocument ..

theorem encodable_successReply (value : Value) :
    Encodable (successReply value) ↔ Encodable value := by
  simp only [Encodable, encode_successReply]
  cases encode encoderDefault value <;> simp [Except.map]

theorem isResponse_of_successReply {value : Value} {document : Json}
    (h : encode encoderDefault (successReply value) = .ok document) : IsResponse document := by
  rw [encode_successReply] at h
  cases encoded : encode encoderDefault value with
  | error e =>
    rw [encoded] at h
    cases h
  | ok document =>
    rw [encoded] at h
    cases h
    exact .success document

/-! ## Endings -/

def Escapes (env : Environment) (requestData : Bytes) : Prop :=
  ∃ e s, (handle env requestData).exec Thread.start = (.error e, s)

theorem Escapes.not_answered {env : Environment} {requestData : Bytes}
    (escapes : Escapes env requestData) : ¬ Answered env requestData := by
  obtain ⟨e, s, h⟩ := escapes
  rw [Answered, h]
  exact id

section Endings

variable {env : Environment} {requestData : Bytes}

theorem exec_answerRequest_of_unreadable {e : Exception} (h : readRequest requestData = .error e)
    (s : Thread) : (answerRequest env requestData).exec s = (.error e, s) := by
  simp only [answerRequest, exec_bind, exec_lift, h]

theorem exec_answerRequest (env : Environment) {requestString : String}
    (read : readRequest requestData = .ok requestString) (s : Thread) :
    (answerRequest env requestData).exec s =
      (privilegedHandleJsonRequest env requestString).exec s := by
  simp only [answerRequest, exec_bind, exec_lift, read]

theorem exec_handle_of_ok {response : Response} {s : Thread}
    (h : (answerRequest env requestData).exec Thread.start = (.ok response, s)) :
    (handle env requestData).exec Thread.start = (writeResponse response).exec s := by
  rw [handle, exec_bind, exec_catchException_of_ok h]

theorem exec_handle_of_uncaught {e : Exception} {s : Thread}
    (h : (answerRequest env requestData).exec Thread.start = (.error e, s))
    (uncaught : e.isinstance .exception = false) :
    (handle env requestData).exec Thread.start = (.error e, s) := by
  rw [handle, exec_bind, exec_catchException_of_uncaught h uncaught]

def logged (e : Exception) (s : Thread) : Thread :=
  { s with log := s.log ++
    [⟨.error, .text "Error running privileged request: %s", [.exception e]⟩] }

theorem exec_handle_of_caught {e : Exception} {s : Thread}
    (h : (answerRequest env requestData).exec Thread.start = (.error e, s))
    (caught : e.isinstance .exception = true) :
    (handle env requestData).exec Thread.start = (do
      let reply ← getReturnValueFromException env e
      let response ← lift (dumps jsonDefault reply)
      writeResponse (.text response) : Call Unit).exec (logged e s) := by
  have log : (log ⟨.error, .text "Error running privileged request: %s", [.exception e]⟩).exec s =
      (.ok (), logged e s) := rfl
  rw [handle, exec_bind, exec_catchException_of_caught h caught]
  simp only [handleFailure, exec_bind, log]
  obtain ⟨e' | reply, s'⟩ := (getReturnValueFromException env e).exec (logged e s)
  · rfl
  · simp only [exec_lift]
    cases dumps jsonDefault reply <;> rfl

theorem escapes_of_not_reportable {e : Exception} {s : Thread}
    (h : (answerRequest env requestData).exec Thread.start = (.error e, s))
    (notReportable : e.isinstance .exception = true → ¬ s.Reportable) :
    Escapes env requestData := by
  cases caught : e.isinstance .exception with
  | false => exact ⟨e, s, exec_handle_of_uncaught h caught⟩
  | true =>
    have same : ¬ (logged e s).Reportable := notReportable caught
    obtain ⟨e', raised⟩ := exec_getReturnValue_of_not_reportable env e same
    refine ⟨e', logged e s, ?_⟩
    rw [exec_handle_of_caught h caught, exec_bind, raised]

theorem answered_of_written {text : String} {document : Json} {s : Thread}
    (h : (handle env requestData).exec Thread.start = (.ok (), s))
    (written : s.written = encodeUtf8 text) (parsed : Json.loads text = some document)
    (response : IsResponse document) : Answered env requestData := by
  rw [Answered, h]
  exact .inl ⟨text, document, written, parsed, response⟩

theorem answered_of_reportable {e : Exception} {s : Thread} {args : List Json}
    (h : (answerRequest env requestData).exec Thread.start = (.error e, s))
    (caught : e.isinstance .exception = true) (reportable : s.Reportable) (nothing : s.written = [])
    (encoded : encodeList jsonDefault e.args = .ok args) : Answered env requestData := by
  obtain ⟨⟨stdout, hStdout⟩, stderr, hStderr⟩ := reportable
  have reply := exec_getReturnValue env e (s := logged e s) hStdout hStderr
  have dumped : dumps jsonDefault (exceptionReply env e stdout stderr) =
      .ok (Json.dumps (exceptionDocument env e args stdout stderr)) := by
    rw [dumps, encode_exceptionReply, encoded]
    rfl
  have handled : (handle env requestData).exec Thread.start = (.ok (), { logged e s with
      written := s.written ++
        encodeUtf8 (Json.dumps (exceptionDocument env e args stdout stderr)) }) := by
    rw [exec_handle_of_caught h caught, exec_bind, reply]
    simp only [exec_bind, exec_lift, dumped]
    rfl
  have response := isResponse_exceptionDocument env e args stdout stderr
  refine answered_of_written handled ?_ (Json.loads_dumps _) response
  rw [nothing, List.nil_append]

variable {requestString : String} (read : readRequest requestData = .ok requestString)

include read

theorem answered_iff_of_value {value : Value} {s : Thread}
    (h : (catchException (serveRequest env requestString) (refuseRequest env)).exec Thread.start =
      (.ok (.value value), s)) (nothing : s.written = [])
    (response : ∀ document, encode encoderDefault value = .ok document → IsResponse document) :
    Answered env requestData ↔ Encodable value := by
  have answer := (exec_answerRequest env read Thread.start).trans (exec_privilegedHandle_of_value h)
  cases encoded : encode encoderDefault value with
  | error e =>
    rw [encoded] at answer
    have escapes := escapes_of_not_reportable answer fun _ => s.clear_not_reportable
    refine iff_of_false escapes.not_answered ?_
    rintro ⟨document, same⟩
    rw [encoded] at same
    cases same
  | ok document =>
    rw [encoded] at answer
    refine iff_of_true ?_ ⟨document, encoded⟩
    refine answered_of_written (exec_handle_of_ok answer) ?_ (Json.loads_dumps document)
      (response document encoded)
    show s.clear.written ++ _ = _
    rw [Thread.clear, nothing, List.nil_append]

theorem answered_iff_of_error {e : Exception} {s : Thread}
    (h : (serveRequest env requestString).exec Thread.start = (.error e, s))
    (nothing : s.written = []) :
    Answered env requestData ↔
      e.isinstance .exception = true ∧ s.Reportable ∧ Encodable (.tuple e.args) := by
  have answer := exec_answerRequest env read Thread.start
  cases caught : e.isinstance .exception with
  | false =>
    have raised : (catchException (serveRequest env requestString) (refuseRequest env)).exec
        Thread.start = (.error e, s) := exec_catchException_of_uncaught h caught
    have handled := exec_privilegedHandle_of_error raised
    refine iff_of_false (Escapes.not_answered ?_) (by simp)
    refine escapes_of_not_reportable (answer.trans handled) fun h => ?_
    rw [caught] at h
    cases h
  | true =>
    have handler : (catchException (serveRequest env requestString) (refuseRequest env)).exec
        Thread.start = (refuseRequest env e).exec s := exec_catchException_of_caught h caught
    by_cases reportable : s.Reportable
    · obtain ⟨⟨stdout, hStdout⟩, stderr, hStderr⟩ := id reportable
      obtain ⟨records, replied | ⟨none, raised⟩⟩ := exec_refuseRequest env e hStdout hStderr
      · rw [answered_iff_of_value read (handler.trans replied) nothing
          fun _ => isResponse_of_exceptionReply, encodable_exceptionReply]
        simp only [reportable, true_and]
      · have handled := exec_privilegedHandle_of_error (handler.trans raised)
        refine iff_of_true ?_ ⟨rfl, reportable, .arr [], ?_⟩
        · exact answered_of_reportable (answer.trans handled) rfl reportable nothing rfl
        · rw [none]
          rfl
    · obtain ⟨e', s', raised, notReportable⟩ :=
        exec_refuseRequest_of_not_reportable env e reportable
      have handled := exec_privilegedHandle_of_error (handler.trans raised)
      refine iff_of_false (Escapes.not_answered ?_) (by simp [reportable])
      exact escapes_of_not_reportable (answer.trans handled) fun _ => notReportable

end Endings

/-! ## Requests that are refused -/

theorem reportable_start : Thread.start.Reportable :=
  ⟨⟨"", rfl⟩, "", rfl⟩

theorem reportable_setup : Thread.start.setup.Reportable :=
  ⟨⟨"", rfl⟩, "", rfl⟩

theorem readRequest_error {requestData : Bytes} {e : Exception}
    (h : readRequest requestData = .error e) : ∃ message, e = ValueError message := by
  unfold readRequest at h
  split at h
  · cases h
    exact ⟨_, rfl⟩
  · split at h
    · cases h
    · cases h
      exact ⟨_, rfl⟩

theorem answered_iff_of_unreadable (env : Environment) {requestData : Bytes} {e : Exception}
    (h : readRequest requestData = .error e) :
    Answered env requestData ↔ Answerable (.refused e) := by
  obtain ⟨message, rfl⟩ := readRequest_error h
  exact iff_of_true (answered_of_reportable (exec_answerRequest_of_unreadable h Thread.start) rfl
    reportable_start rfl rfl) ⟨rfl, _, rfl⟩

section Requests

variable {env : Environment} {requestData : Bytes} {requestString : String}
  (read : readRequest requestData = .ok requestString)

include read

theorem answered_iff_of_refused {e : Exception} {s : Thread}
    (h : (serveRequest env requestString).exec Thread.start = (.error e, s))
    (reportable : s.Reportable) (nothing : s.written = []) :
    Answered env requestData ↔ Answerable (.refused e) := by
  rw [answered_iff_of_error read h nothing, Answerable]
  simp only [reportable, true_and]

/-! ## Requests that are run -/

variable {request : Request} {func : Function} {formattedArgs : String}
  (parsed : parseRequest requestString = .ok request)
  (before : beforeCall env request = .ok (func, formattedArgs))

omit read in
theorem reportable_called : (Thread.start.called request func formattedArgs).Reportable ↔
    CapturesText (request.behaviour func) :=
  Iff.rfl

include parsed before

theorem answered_iff_of_returns {value : Value}
    (outcome : (request.behaviour func).outcome = .returns value) :
    Answered env requestData ↔ Encodable value := by
  have result : (request.behaviour func).outcome.result =
      .ok (.value (successReply value)) := by
    rw [outcome]
    rfl
  have served := exec_serveRequest_of_value parsed
    (exec_privilegedCall_of_ok Thread.start before result)
  rw [answered_iff_of_value read (exec_catchException_of_ok served) rfl
    fun _ => isResponse_of_successReply, encodable_successReply]

theorem answered_iff_of_raises {e : Exception}
    (outcome : (request.behaviour func).outcome = .raises e) :
    Answered env requestData ↔ e.isinstance .exception = true ∧
      CapturesText (request.behaviour func) ∧ Encodable (.tuple e.args) := by
  cases caught : e.isinstance .exception with
  | false =>
    have served := exec_serveRequest_of_error parsed
      (exec_privilegedCall_of_uncaught Thread.start before outcome caught)
    rw [answered_iff_of_error read served rfl, caught]
    simp
  | true =>
    by_cases text : CapturesText (request.behaviour func)
    · obtain ⟨⟨stdout, hStdout⟩, stderr, hStderr⟩ := id text
      obtain ⟨records, called⟩ := exec_privilegedCall_of_caught Thread.start before outcome caught
        hStdout hStderr
      have served := exec_serveRequest_of_value parsed called
      rw [answered_iff_of_value read (exec_catchException_of_ok served) rfl
        fun _ => isResponse_of_exceptionReply, encodable_exceptionReply]
      simp only [text, true_and]
    · have notReportable : ¬ (Thread.start.called request func formattedArgs).Reportable := text
      obtain ⟨e', called⟩ := exec_privilegedCall_of_not_reportable Thread.start before outcome
        caught notReportable
      have served := exec_serveRequest_of_error parsed called
      rw [answered_iff_of_error read served rfl]
      simp [notReportable, text]

theorem answered_iff_of_reader {stream : Stream}
    (outcome : (request.behaviour func).outcome = .reader stream) :
    Answered env requestData ↔
      if request.rawOutput = true then stream.failure = none
      else CapturesText (request.behaviour func) := by
  have result : (request.behaviour func).outcome.result = .ok (.reader stream) := by
    rw [outcome]
    rfl
  have served := exec_serveRequest_of_reader parsed
    (exec_privilegedCall_of_ok Thread.start before result)
  split
  · rename_i raw
    rw [if_pos raw] at served
    have answer := (exec_answerRequest env read Thread.start).trans
      (exec_privilegedHandle_of_reader served)
    have handled := exec_handle_of_ok answer
    cases failure : stream.failure with
    | some e =>
      refine iff_of_false (Escapes.not_answered ?_) (by simp)
      refine ⟨e, { Thread.start.called request func formattedArgs with
        written := stream.content }, handled.trans ?_⟩
      simp only [writeResponse, failure]
      rfl
    | none =>
      refine iff_of_true ?_ rfl
      have written : (writeResponse (.reader stream)).exec
          (Thread.start.called request func formattedArgs) =
            (.ok (), { Thread.start.called request func formattedArgs with
              written := stream.content }) := by
        simp only [writeResponse, failure]
        rfl
      have invoked : fate env requestData = .invoked true (request.behaviour func) := by
        have parsed' : (readRequest requestData >>= parseRequest) = .ok request := by
          rw [read]
          exact parsed
        simp only [fate, parsed', before, raw]
      rw [Answered, handled, written]
      exact .inr ⟨_, stream, invoked, outcome, rfl⟩
  · rename_i raw
    rw [if_neg raw] at served
    rw [answered_iff_of_error read served rfl, reportable_called]
    have encodable : Encodable (.tuple (TypeError "Invalid call to raw output API.").args) :=
      ⟨_, rfl⟩
    simp only [encodable, and_true]
    exact and_iff_right rfl

end Requests

/-! ## The statement -/

theorem answered_iff (env : Environment) (requestData : Bytes) :
    Answered env requestData ↔ Answerable (fate env requestData) := by
  cases read : readRequest requestData with
  | error e =>
    have refused : fate env requestData = .refused e := by
      rw [fate, read]
      rfl
    rw [refused]
    exact answered_iff_of_unreadable env read
  | ok requestString =>
    cases parsed : parseRequest requestString with
    | error e =>
      have refused : fate env requestData = .refused e := by
        simp only [fate, read, bind, Except.bind, parsed]
      rw [refused]
      exact answered_iff_of_refused read (exec_serveRequest_of_invalid parsed) reportable_start
        rfl
    | ok request =>
      cases before : beforeCall env request with
      | error e =>
        have refused : fate env requestData = .refused e := by
          simp only [fate, read, bind, Except.bind, parsed, before]
        rw [refused]
        exact answered_iff_of_refused read (exec_serveRequest_of_refused parsed before)
          reportable_setup rfl
      | ok found =>
        obtain ⟨func, formattedArgs⟩ := found
        have invoked : fate env requestData =
            .invoked request.rawOutput (request.behaviour func) := by
          simp only [fate, read, bind, Except.bind, parsed, before]
        rw [invoked, Answerable]
        cases outcome : (request.behaviour func).outcome with
        | returns value => exact answered_iff_of_returns read parsed before outcome
        | reader stream => exact answered_iff_of_reader read parsed before outcome
        | raises e => exact answered_iff_of_raises read parsed before outcome

/-! ## A request without an answer -/

def soleFunction (behaviour : Behaviour) : Environment where
  cfgRead := .ok ()
  getModuleImportPath _ := .ok "plinth.modules.sample"
  importModule _ := .ok fun _ => some (.privileged {
    argspec := {
      args := []
      varargs := none
      varkw := none
      defaults := []
      kwonlyargs := []
      kwonlydefaults := []
      annotations := .empty
      nodup := List.nodup_nil }
    behaviour := fun _ _ => behaviour })
  formatTb _ := []
  str := Value.className

def soleRequest : Json :=
  .obj [("module", .str "sample"), ("action", .str "run"), ("args", .arr []), ("kwargs", .obj [])]

def soleRequestData : Bytes :=
  encodeUtf8 (Json.dumps soleRequest)

theorem soleRequest_read : readRequest soleRequestData = .ok (Json.dumps soleRequest) := by
  have short : ¬ maxRequestLength < soleRequestData.length := by decide
  rw [readRequest, if_neg short, soleRequestData, decodeUtf8_encodeUtf8]

theorem soleRequest_parsed :
    parseRequest (Json.dumps soleRequest) = .ok ⟨"sample", "run", [], [], false, true⟩ := by
  rw [parseRequest, loads, Json.loads_dumps]
  rfl

theorem soleRequest_unanswered :
    ¬ Answered (soleFunction ⟨[], [], .returns (.bytes [0x41])⟩) soleRequestData ∧
      ¬ Answered (soleFunction ⟨[0xff], [], .raises (ValueError "failed")⟩) soleRequestData := by
  constructor
  · rw [answered_iff_of_returns soleRequest_read soleRequest_parsed rfl rfl]
    rintro ⟨document, encoded⟩
    cases encoded
  · rw [answered_iff_of_raises soleRequest_read soleRequest_parsed rfl rfl]
    rintro ⟨-, ⟨⟨stdout, decoded⟩, -⟩, -⟩
    have invalid : decodeUtf8 [0xff] = none := by decide
    have decoded' : decode [0xff] = .ok stdout := decoded
    rw [decode, invalid] at decoded'
    cases decoded'

end Plinth.PrivilegedDaemon

/-!
## When the privileged daemon exits

The list of threads does not exist before the first accepted request, and without it the loop is
never left.
-/

namespace Plinth.PrivilegedDaemon.Idle

variable {allowedPeerUids : List Nat} {idle start now : Rat} {s s' : System}
variable {past events : List (Rat × Event)} {event : Rat × Event} {thread : Nat}

/-! ## The threads that are alive -/

theorem isAccepted_connection (uid : Nat) (starts : Bool) :
    isAccepted allowedPeerUids (now, .connection uid starts) = decide (uid ∈ allowedPeerUids) :=
  rfl

theorem alive_append_iff : Alive allowedPeerUids (past ++ [event]) thread ↔
    (Alive allowedPeerUids past thread ∧ event.2 ≠ .threadEnds thread) ∨
    (∃ uid ∈ allowedPeerUids, event.2 = .connection uid true) ∧
      past.countP (isAccepted allowedPeerUids) = thread := by
  constructor
  · rintro ⟨earlier, now, uid, later, split, allowed, count, kept⟩
    rcases List.eq_nil_or_concat later with rfl | ⟨later, last, rfl⟩
    · right
      obtain ⟨rfl, same⟩ := List.append_inj' split rfl
      obtain rfl := (List.cons.inj same).1
      exact ⟨⟨uid, allowed, rfl⟩, count⟩
    · left
      rw [List.concat_eq_append, ← List.cons_append, ← List.append_assoc] at split
      obtain ⟨rfl, same⟩ := List.append_inj' split rfl
      obtain rfl := (List.cons.inj same).1
      rw [List.concat_eq_append] at kept
      obtain ⟨before, ends⟩ := List.forall_mem_append.mp kept
      exact ⟨⟨earlier, now, uid, later, rfl, allowed, count, before⟩,
        ends event (List.mem_singleton_self event)⟩
  · rintro (⟨⟨earlier, now, uid, later, rfl, allowed, count, kept⟩, ends⟩ |
      ⟨⟨uid, allowed, same⟩, count⟩)
    · refine ⟨earlier, now, uid, later ++ [event], by simp, allowed, count, ?_⟩
      exact List.forall_mem_append.mpr ⟨kept, List.forall_mem_singleton.mpr ends⟩
    · exact ⟨past, event.1, uid, [], by rw [← same], allowed, count, nofun⟩

theorem not_alive_of_denied (denied : ∀ event ∈ events, isAccepted allowedPeerUids event = false)
    (thread : Nat) : ¬ Alive allowedPeerUids events thread := by
  rintro ⟨earlier, now, uid, later, rfl, allowed, -, -⟩
  have accepted := denied (now, .connection uid true) (by simp)
  rw [isAccepted_connection, decide_eq_false_iff_not] at accepted
  exact accepted allowed

/-! ## What the system knows of the past -/

structure Remembers (allowedPeerUids : List Nat) (idle : Option Rat) (start : Rat)
    (past : List (Rat × Event)) (s : System) : Prop where
  uids : s.server.allowedPeerUids = allowedPeerUids
  idle : s.server.idleShutdownTime = idle
  lastRequestTime : s.server.lastRequestTime = lastAccepted allowedPeerUids start past
  next : s.next = past.countP (isAccepted allowedPeerUids)
  threads : s.server.threads = none ↔ ∀ event ∈ past, isAccepted allowedPeerUids event = false
  alive : ∀ thread, thread ∈ s.alive ↔ Alive allowedPeerUids past thread
  known : ∀ thread ∈ s.alive, thread ∈ s.server.threads.getD []

theorem remembers_initial (allowedPeerUids : List Nat) (idle : Option Rat) (start : Rat) :
    Remembers allowedPeerUids idle start [] (initial allowedPeerUids idle start) where
  uids := rfl
  idle := rfl
  lastRequestTime := rfl
  next := rfl
  threads := by simp [initial]
  alive := fun thread =>
    ⟨nofun, fun alive => absurd alive (not_alive_of_denied (List.forall_mem_nil _) thread)⟩
  known := nofun

theorem lastAccepted_append (accepted : isAccepted allowedPeerUids event = true) :
    lastAccepted allowedPeerUids start (past ++ [event]) = event.1 := by
  rw [lastAccepted, List.filter_append, List.filter_cons_of_pos accepted, List.filter_nil,
    List.getLast?_concat]
  rfl

theorem lastAccepted_append_of_denied (denied : isAccepted allowedPeerUids event = false) :
    lastAccepted allowedPeerUids start (past ++ [event]) =
      lastAccepted allowedPeerUids start past := by
  rw [lastAccepted, List.filter_append, List.filter_cons_of_neg (by simp [denied]), List.filter_nil,
    List.append_nil]
  rfl

theorem countP_append (accepted : isAccepted allowedPeerUids event = true) :
    (past ++ [event]).countP (isAccepted allowedPeerUids) =
      past.countP (isAccepted allowedPeerUids) + 1 := by
  rw [List.countP_append, List.countP_singleton, if_pos accepted]

theorem countP_append_of_denied (denied : isAccepted allowedPeerUids event = false) :
    (past ++ [event]).countP (isAccepted allowedPeerUids) =
      past.countP (isAccepted allowedPeerUids) := by
  rw [List.countP_append, List.countP_singleton, if_neg (by simp [denied])]
  rfl

theorem Remembers.denied {idle : Option Rat} (knows : Remembers allowedPeerUids idle start past s)
    (denied : isAccepted allowedPeerUids event = false) (alive' : List Nat)
    (alive : ∀ thread, thread ∈ alive' ↔ Alive allowedPeerUids (past ++ [event]) thread)
    (fewer : ∀ thread ∈ alive', thread ∈ s.alive) :
    Remembers allowedPeerUids idle start (past ++ [event]) { s with alive := alive' } where
  uids := knows.uids
  idle := knows.idle
  lastRequestTime := by
    rw [lastAccepted_append_of_denied denied]
    exact knows.lastRequestTime
  next := by
    rw [countP_append_of_denied denied]
    exact knows.next
  threads := by
    rw [List.forall_mem_append, List.forall_mem_singleton]
    exact knows.threads.trans ⟨fun all => ⟨all, denied⟩, And.left⟩
  alive := alive
  known := fun thread member => knows.known thread (fewer thread member)

theorem Remembers.handleRequest {idle : Option Rat} {uid : Nat}
    (knows : Remembers allowedPeerUids idle start past s) (starts : Bool) (now : Rat) :
    Remembers allowedPeerUids idle start (past ++ [(now, .connection uid starts)])
      (handleRequest uid starts now s) := by
  by_cases allowed : uid ∈ allowedPeerUids
  · have accepted : isAccepted allowedPeerUids (now, .connection uid starts) = true :=
      decide_eq_true allowed
    rw [Idle.handleRequest, verifyRequest, knows.uids, if_pos allowed]
    dsimp only [processRequest]
    refine ⟨rfl, knows.idle, ?_, ?_, ?_, ?_, ?_⟩
    · rw [lastAccepted_append accepted]
    · rw [countP_append accepted, ← knows.next]
    · rw [List.forall_mem_append, List.forall_mem_singleton, accepted]
      exact ⟨nofun, fun denied => nomatch denied.2⟩
    · intro thread
      rw [alive_append_iff, ← knows.alive thread, ← knows.next, and_iff_left nofun]
      cases starts with
      | false => exact ⟨.inl, fun member => member.resolve_right nofun⟩
      | true =>
        rw [and_iff_right ⟨uid, allowed, rfl⟩, or_comm, eq_comm (b := thread)]
        exact List.mem_cons
    · intro thread member
      rw [Option.getD_some, List.mem_append, List.mem_singleton]
      have old (member : thread ∈ s.alive) :
          thread ∈ (s.server.threads.getD []).filter (fun thread => thread ∈ s.alive) :=
        List.mem_filter.mpr ⟨knows.known thread member, decide_eq_true member⟩
      cases starts with
      | false => exact .inl (old member)
      | true =>
        rcases List.mem_cons.mp member with rfl | member
        · exact .inr rfl
        · exact .inl (old member)
  · have denied : isAccepted allowedPeerUids (now, .connection uid starts) = false :=
      decide_eq_false allowed
    have other : ¬ ∃ uid' ∈ allowedPeerUids, Event.connection uid starts = .connection uid' true := by
      rintro ⟨uid', allowed', ⟨⟩⟩
      exact allowed allowed'
    rw [Idle.handleRequest, verifyRequest, knows.uids, if_neg allowed]
    apply knows.denied denied s.alive _ fun _ member => member
    intro thread
    rw [alive_append_iff, and_iff_left nofun, or_iff_left fun h => other h.1]
    exact knows.alive thread

theorem Remembers.step {idle : Option Rat} (knows : Remembers allowedPeerUids idle start past s)
    (moved : step s event = some s') :
    Remembers allowedPeerUids idle start (past ++ [event]) s' := by
  obtain ⟨now, connection | ended | _⟩ := event
  · cases moved
    exact knows.handleRequest _ now
  · cases moved
    apply knows.denied rfl
    · intro thread
      rw [alive_append_iff, ← knows.alive thread, List.mem_filter, decide_eq_true_eq,
        or_iff_left nofun]
      exact and_congr_right fun _ => ⟨fun other same => other (Event.threadEnds.inj same).symm,
        fun other same => other (congrArg _ same.symm)⟩
    · exact fun thread member => (List.mem_filter.mp member).1
  · rw [Idle.step] at moved
    split at moved
    · cases moved
    · cases moved
      apply knows.denied rfl s.alive _ fun _ member => member
      intro thread
      rw [alive_append_iff, and_iff_left nofun, or_iff_left nofun]
      exact knows.alive thread

theorem Remembers.serve {idle : Option Rat} (knows : Remembers allowedPeerUids idle start past s)
    (ran : serve s events = some s') :
    Remembers allowedPeerUids idle start (past ++ events) s' := by
  induction events generalizing past s with
  | nil =>
    cases ran
    rw [List.append_nil]
    exact knows
  | cons event events ih =>
    obtain ⟨middle, moved, ran⟩ := Option.bind_eq_some_iff.mp ran
    have later := ih (knows.step moved) ran
    rwa [List.append_assoc] at later

theorem remembers_serve {idle : Option Rat}
    (ran : serve (initial allowedPeerUids idle start) events = some s) :
    Remembers allowedPeerUids idle start events s :=
  (remembers_initial allowedPeerUids idle start).serve ran

/-! ## The exit -/

theorem Remembers.serviceActions_iff
    (knows : Remembers allowedPeerUids (some idle) start past s) (now : Rat) :
    serviceActions now s = true ↔
      (∃ event ∈ past, isAccepted allowedPeerUids event = true) ∧
      idle ≤ now - lastAccepted allowedPeerUids start past ∧
      ∀ thread, ¬ Alive allowedPeerUids past thread := by
  rw [serviceActions, knows.idle, ← knows.lastRequestTime]
  cases threads : s.server.threads with
  | none =>
    have denied := knows.threads.mp threads
    refine ⟨nofun, ?_⟩
    rintro ⟨⟨event, member, accepted⟩, -⟩
    rw [denied event member] at accepted
    cases accepted
  | some threads' =>
    have accepted : ∃ event ∈ past, isAccepted allowedPeerUids event = true := by
      by_contra denied
      have none := knows.threads.mpr fun event member =>
        eq_false_of_ne_true fun accepted => denied ⟨event, member, accepted⟩
      rw [threads] at none
      cases none
    have dead : (!threads'.any fun thread => thread ∈ s.alive) = true ↔
        ∀ thread, ¬ Alive allowedPeerUids past thread := by
      rw [Bool.not_eq_true', List.any_eq_false]
      constructor
      · intro dead thread alive
        have member := (knows.alive thread).mpr alive
        have known := knows.known thread member
        rw [threads] at known
        exact dead thread known (decide_eq_true member)
      · intro dead thread _ alive
        exact dead thread ((knows.alive thread).mp (of_decide_eq_true alive))
    dsimp only
    rw [Bool.and_eq_true, decide_eq_true_eq, dead]
    exact ⟨fun idle => ⟨accepted, idle⟩, And.right⟩

theorem serve_of_denied (denied : ∀ event ∈ events, isAccepted allowedPeerUids event = false) :
    ∃ s, serve (initial allowedPeerUids (some idle) start) events = some s := by
  induction events using List.reverseRecOn with
  | nil => exact ⟨_, rfl⟩
  | append_singleton events event ih =>
    obtain ⟨before, last⟩ := List.forall_mem_append.mp denied
    obtain ⟨s, ran⟩ := ih before
    have knows := remembers_serve ran
    have moves : ∃ s', step s event = some s' := by
      obtain ⟨now, connection | ended | _⟩ := event
      · exact ⟨_, rfl⟩
      · exact ⟨_, rfl⟩
      · refine ⟨s, if_neg fun raises => ?_⟩
        obtain ⟨event, member, accepted⟩ := ((knows.serviceActions_iff now).mp raises).1
        rw [before event member] at accepted
        cases accepted
    obtain ⟨s', moved⟩ := moves
    refine ⟨s', ?_⟩
    rw [serve, List.foldlM_append]
    exact Option.bind_eq_some_iff.mpr ⟨s, ran, Option.bind_eq_some_iff.mpr ⟨s', moved, rfl⟩⟩

/-- Each tick that is reached ends the loop if and only if the daemon has been idle for long
enough. -/
def ExitsWhenIdle (allowedPeerUids : List Nat) (idle start : Rat)
    (events : List (Rat × Event)) : Prop :=
  ∀ before now after, events = before ++ (now, .tick) :: after →
    ∀ s, serve (initial allowedPeerUids (some idle) start) before = some s →
      (serviceActions now s = true ↔ idle ≤ now - lastAccepted allowedPeerUids start before ∧
        ∀ thread, ¬ Alive allowedPeerUids before thread)

theorem lastAccepted_of_denied
    (denied : ∀ event ∈ events, isAccepted allowedPeerUids event = false) :
    lastAccepted allowedPeerUids start events = start := by
  have none : events.filter (isAccepted allowedPeerUids) = [] :=
    List.filter_eq_nil_iff.mpr fun event member => by simp [denied event member]
  rw [lastAccepted, none]
  rfl

theorem exits_when_idle_iff (allowedPeerUids : List Nat) (idle start : Rat)
    (events : List (Rat × Event)) :
    (ExitsWhenIdle allowedPeerUids idle start events ↔
      ∀ before now after, events = before ++ (now, .tick) :: after →
        (∀ event ∈ before, isAccepted allowedPeerUids event = false) → now - start < idle) ∧
    ∀ s now, serve (initial allowedPeerUids (some idle) start) events = some s →
      serviceActions now s = true → ∀ thread, ¬ Alive allowedPeerUids events thread := by
  refine ⟨⟨?_, ?_⟩, ?_⟩
  · intro exits before now after split denied
    obtain ⟨s, ran⟩ := serve_of_denied denied
    have exit := exits before now after split s ran
    rw [(remembers_serve ran).serviceActions_iff, lastAccepted_of_denied denied] at exit
    by_contra late
    obtain ⟨⟨event, member, accepted⟩, -⟩ :=
      exit.mpr ⟨not_lt.mp late, not_alive_of_denied denied⟩
    rw [denied event member] at accepted
    cases accepted
  · intro early before now after split s ran
    rw [(remembers_serve ran).serviceActions_iff]
    refine ⟨And.right, fun idle => ⟨?_, idle⟩⟩
    by_contra none
    have denied : ∀ event ∈ before, isAccepted allowedPeerUids event = false :=
      fun event member => eq_false_of_ne_true fun accepted => none ⟨event, member, accepted⟩
    rw [lastAccepted_of_denied denied] at idle
    exact absurd (early before now after split denied) (not_lt.mpr idle.1)
  · intro s now ran raises
    exact (((remembers_serve ran).serviceActions_iff now).mp raises).2.2

theorem denied_daemon_stays :
    ¬ ExitsWhenIdle [0, 998] 300 0 [(1, .connection 1000 true), (3600, .tick)] := by
  intro exits
  have exit := exits [(1, .connection 1000 true)] 3600 [] rfl _ rfl
  have idle : (300 : Rat) ≤ 3600 - lastAccepted [0, 998] 0 [(1, .connection 1000 true)] := by
    decide +kernel
  have dead (thread : Nat) : ¬ Alive [0, 998] [((1 : Rat), Event.connection 1000 true)] thread :=
    not_alive_of_denied (by simp [isAccepted]) thread
  exact nomatch exit.mpr ⟨idle, dead⟩

end Plinth.PrivilegedDaemon.Idle
