import Mathlib.Data.List.Forall2
import Plinth.Lib.Python.Codec
import Plinth.Model.Actions

/-! # Secrets in the logs of the service -/

namespace Plinth.Actions

open Effect Python Exception

/-! ## The statement -/

def IsSecret (func : Function) (argName : String) : Prop :=
  ∃ hint, func.argspec.annotations.get? argName = some hint ∧
    hint.isSecret = true

inductive SecretValue : Value → Prop
  | none : SecretValue .none
  | str (s : String) : SecretValue (.str s)

inductive SameArgs (func : Function) : List String → List Value → List Value → Prop
  | nil (names : List String) : SameArgs func names [] []
  | unnamed (values : List Value) : SameArgs func [] values values
  | same {name : String} {names : List String} (value : Value) {values values' : List Value}
      (rest : SameArgs func names values values') :
      SameArgs func (name :: names) (value :: values) (value :: values')
  | secret {name : String} {names : List String} {value value' : Value}
      {values values' : List Value} (isSecret : IsSecret func name) (left : SecretValue value)
      (right : SecretValue value') (rest : SameArgs func names values values') :
      SameArgs func (name :: names) (value :: values) (value' :: values')

inductive SameEntry (func : Function) : String × Value → String × Value → Prop
  | same (entry : String × Value) : SameEntry func entry entry
  | secret {name : String} {value value' : Value} (isParameter : name ∉ options)
      (isSecret : IsSecret func name) (left : SecretValue value) (right : SecretValue value') :
      SameEntry func (name, value) (name, value')

structure SameButSecrets (func : Function) (args args' : List Value)
    (kwargs kwargs' : OrderedDict String Value) : Prop where
  positional : SameArgs func func.argspec.args args args'
  keywords : List.Forall₂ (SameEntry func) kwargs.entries kwargs'.entries

def replying (reply : Except Exception Stream)
    (importModule : String → Except Exception Namespace) : Client where
  requestToServer _ := reply
  importModule := importModule

def emitted (client : Client) (func : Function) (moduleName actionName : String)
    (args : List Value) (kwargs : OrderedDict String Value) : List LogRecord :=
  ((runPrivilegedMethod client (some func) moduleName actionName args kwargs).exec
    Thread.start).2.log

/-- What is received is text but no JSON. (No socket raises a `JSONDecodeError`.) -/
def Broken (clientSocket : Stream) : Prop :=
  match clientSocket.failure with
  | some e => e.isinstance .jsonDecodeError = true
  | none => clientSocket.content ≠ [] ∧
      ∃ text, decodeJson clientSocket.content = some text ∧ Json.loads text = none

def Awaits (func : Function) (moduleName actionName : String) (args : List Value)
    (kwargs : OrderedDict String Value) : Prop :=
  (∃ text, formatArgs func args (withoutOptions kwargs).entries = .ok text) ∧
    (∃ text, dumps jsonDefault (request moduleName actionName args (withoutOptions kwargs).entries
      (popOption kwargs "_raw_output" false) (popOption kwargs "_log_error" true)) = .ok text) ∧
    (popOption kwargs "_raw_output" false).truthy = false

/-! ## Masking -/

section Masking

variable {func : Function}

theorem formatArg_secret {name : String} (isSecret : IsSecret func name) (value : Value) :
    formatArg func.argspec name value = .ok "****" := by
  obtain ⟨hint, found, secret⟩ := isSecret
  simp only [formatArg, annotationOf, found, bind, Except.bind, secret, if_true]
  rfl

theorem formatPositional_congr {names : List String} {args args' : List Value}
    (same : SameArgs func names args args') :
    formatPositional func.argspec (names.zip args) =
      formatPositional func.argspec (names.zip args') := by
  induction same with
  | nil names => rfl
  | unnamed values => rfl
  | same value rest ih => simp only [List.zip_cons_cons, formatPositional, ih]
  | secret isSecret left right rest ih =>
    simp only [List.zip_cons_cons, formatPositional, formatArg_secret isSecret, ih]

theorem formatKeywords_congr {kwargs kwargs' : Kwargs}
    (same : List.Forall₂ (SameEntry func) kwargs kwargs') :
    formatKeywords func.argspec kwargs = formatKeywords func.argspec kwargs' := by
  induction same with
  | nil => rfl
  | cons entry rest ih =>
    cases entry with
    | same entry => simp only [formatKeywords, ih]
    | secret isParameter isSecret left right =>
      simp only [formatKeywords, formatArg_secret isSecret, ih]

theorem length_of_sameArgs {names : List String} {args args' : List Value}
    (same : SameArgs func names args args') : args.length = args'.length := by
  induction same with
  | nil names => rfl
  | unnamed values => rfl
  | same value rest ih => simp only [List.length_cons, ih]
  | secret isSecret left right rest ih => simp only [List.length_cons, ih]

theorem formatArgs_congr {args args' : List Value} {kwargs kwargs' : Kwargs}
    (positional : SameArgs func func.argspec.args args args')
    (keywords : List.Forall₂ (SameEntry func) kwargs kwargs') :
    formatArgs func args kwargs = formatArgs func args' kwargs' := by
  simp only [formatArgs, length_of_sameArgs positional, formatPositional_congr positional,
    formatKeywords_congr keywords]

end Masking

/-! ## The request -/

section Request

variable {func : Function}

theorem isOk_encodeList_cons (value : Value) (values : List Value) :
    (encodeList jsonDefault (value :: values)).isOk =
      ((encode jsonDefault value).isOk && (encodeList jsonDefault values).isOk) := by
  rw [encodeList]
  cases encode jsonDefault value with
  | error e => rfl
  | ok document => cases encodeList jsonDefault values <;> rfl

theorem isOk_encodeItems_cons (name : String) (value : Value) (items : List (Value × Value)) :
    (encodeItems jsonDefault ((.str name, value) :: items)).isOk =
      ((encode jsonDefault value).isOk && (encodeItems jsonDefault items).isOk) := by
  rw [encodeItems, encodeKey]
  cases encode jsonDefault value with
  | error e => rfl
  | ok document => cases encodeItems jsonDefault items <;> rfl

theorem SecretValue.isOk {value : Value} (secret : SecretValue value) :
    (encode jsonDefault value).isOk = true := by
  cases secret <;> rfl

theorem isOk_encodeList_congr {names : List String} {args args' : List Value}
    (same : SameArgs func names args args') :
    (encodeList jsonDefault args).isOk = (encodeList jsonDefault args').isOk := by
  induction same with
  | nil names => rfl
  | unnamed values => rfl
  | same value rest ih => rw [isOk_encodeList_cons, isOk_encodeList_cons, ih]
  | secret isSecret left right rest ih =>
    rw [isOk_encodeList_cons, isOk_encodeList_cons, ih, left.isOk, right.isOk]

def kwargsItems (kwargs : Kwargs) : List (Value × Value) :=
  kwargs.map fun (key, value) => (.str key, value)

theorem isOk_encodeItems_congr {kwargs kwargs' : Kwargs}
    (same : List.Forall₂ (SameEntry func) kwargs kwargs') :
    (encodeItems jsonDefault (kwargsItems kwargs)).isOk =
      (encodeItems jsonDefault (kwargsItems kwargs')).isOk := by
  induction same with
  | nil => rfl
  | cons entry rest ih =>
    cases entry with
    | same entry =>
      simp only [kwargsItems, List.map_cons, isOk_encodeItems_cons] at ih ⊢
      rw [ih]
    | secret isParameter isSecret left right =>
      simp only [kwargsItems, List.map_cons, isOk_encodeItems_cons] at ih ⊢
      rw [ih, left.isOk, right.isOk]

theorem isOk_dumps (value : Value) :
    (dumps jsonDefault value).isOk = (encode jsonDefault value).isOk := by
  rw [dumps]
  cases encode jsonDefault value <;> rfl

theorem isOk_request (moduleName actionName : String) (args : List Value) (kwargs : Kwargs)
    (rawOutput logError : Value) :
    (dumps jsonDefault (request moduleName actionName args kwargs rawOutput logError)).isOk =
      ((encodeList jsonDefault args).isOk && ((encodeItems jsonDefault (kwargsItems kwargs)).isOk &&
        (encodeItems jsonDefault ((if rawOutput.truthy then [(.str "raw_output", rawOutput)] else []) ++
          (if logError.truthy then [] else [(.str "log_error", .bool false)]))).isOk)) := by
  generalize options : (if rawOutput.truthy then [(Value.str "raw_output", rawOutput)] else []) ++
    (if logError.truthy then [] else [(Value.str "log_error", Value.bool false)]) = rest
  have shape : request moduleName actionName args kwargs rawOutput logError =
      .dict ((.str "module", .str moduleName) :: (.str "action", .str actionName) ::
        (.str "args", .tuple args) :: (.str "kwargs", .dict (kwargsItems kwargs)) :: rest) := by
    rw [← options]
    simp [request, kwargsItems]
  have isOk_dict (items : List (Value × Value)) : (encode jsonDefault (.dict items)).isOk =
      (encodeItems jsonDefault items).isOk := by
    rw [encode]
    cases encodeItems jsonDefault items <;> rfl
  have isOk_tuple : (encode jsonDefault (.tuple args)).isOk =
      (encodeList jsonDefault args).isOk := by
    rw [encode]
    cases encodeList jsonDefault args <;> rfl
  rw [isOk_dumps, shape, isOk_dict, isOk_encodeItems_cons, isOk_encodeItems_cons,
    isOk_encodeItems_cons, isOk_encodeItems_cons, isOk_tuple, isOk_dict]
  rfl

end Request

/-! ## The options -/

theorem get?_congr {func : Function} {kwargs kwargs' : OrderedDict String Value}
    (same : List.Forall₂ (SameEntry func) kwargs.entries kwargs'.entries) {key : String}
    (isOption : key ∈ options) : kwargs.get? key = kwargs'.get? key := by
  rw [OrderedDict.get?, OrderedDict.get?]
  generalize kwargs.entries = entries at same ⊢
  generalize kwargs'.entries = entries' at same ⊢
  induction same with
  | nil => rfl
  | cons entry rest ih =>
    cases entry with
    | same entry => rw [List.find?_cons, List.find?_cons]; split <;> simp [ih]
    | secret isParameter isSecret left right =>
      rename_i name value value'
      have other : decide (name = key) = false := by
        rw [decide_eq_false_iff_not]
        rintro rfl
        exact isParameter isOption
      simpa [List.find?_cons, other] using ih

theorem withoutOptions_congr {func : Function} {kwargs kwargs' : OrderedDict String Value}
    (same : List.Forall₂ (SameEntry func) kwargs.entries kwargs'.entries) :
    List.Forall₂ (SameEntry func) (withoutOptions kwargs).entries
      (withoutOptions kwargs').entries := by
  simp only [withoutOptions, OrderedDict.filter]
  generalize kwargs.entries = entries at same ⊢
  generalize kwargs'.entries = entries' at same ⊢
  induction same with
  | nil => exact .nil
  | cons entry rest ih =>
    cases entry with
    | same entry =>
      rw [List.filter_cons, List.filter_cons]
      split
      · exact .cons (.same _) ih
      · exact ih
    | secret isParameter isSecret left right =>
      rw [List.filter_cons, List.filter_cons]
      split
      · exact .cons (.secret isParameter isSecret left right) ih
      · exact ih

/-! ## The response -/

theorem readFromServer_iff (clientSocket : Stream) :
    (∃ e, readFromServer clientSocket = .error e ∧ e.isinstance .jsonDecodeError = true) ↔
      Broken clientSocket := by
  obtain ⟨content, failure⟩ := clientSocket
  cases failure with
  | some e =>
    refine ⟨?_, fun h => ⟨e, rfl, h⟩⟩
    rintro ⟨_, ⟨⟩, h⟩
    exact h
  | none =>
    simp only [Broken]
    constructor
    · rintro ⟨e, raised, decodeError⟩
      cases content with
      | nil =>
        cases raised
        cases decodeError
      | cons byte content =>
        refine ⟨List.cons_ne_nil _ _, ?_⟩
        have loaded : loadsBytes (byte :: content) = .error e := raised
        rw [loadsBytes] at loaded
        split at loaded
        · rename_i text decoded
          refine ⟨text, decoded, ?_⟩
          rw [loads] at loaded
          split at loaded
          · rw [ofJson_error loaded] at decodeError
            cases decodeError
          · assumption
        · cases loaded
          cases decodeError
    · rintro ⟨nonempty, text, decoded, parsed⟩
      refine ⟨JSONDecodeError, ?_, rfl⟩
      simp only [readFromServer, if_neg nonempty, loadsBytes, decoded, loads, parsed]

def brokenRecord (moduleName actionName : String) (args : List Value) (kwargs : Kwargs) :
    LogRecord :=
  ⟨.error, .text "Error decoding action return value %s..%s(*%s, **%s)",
    [.text moduleName, .text actionName, .value (.tuple args),
      .value (.dict (kwargsItems kwargs))]⟩

theorem kwargsItems_injective : Function.Injective kwargsItems := by
  refine List.map_injective_iff.mpr ?_
  rintro ⟨key, value⟩ ⟨key', value'⟩ h
  simpa using h

theorem brokenRecord_inj {moduleName actionName : String} {args args' : List Value}
    {kwargs kwargs' : Kwargs} (h : brokenRecord moduleName actionName args kwargs =
      brokenRecord moduleName actionName args' kwargs') : args = args' ∧ kwargs = kwargs' := by
  simp only [brokenRecord, LogRecord.mk.injEq, List.cons.injEq, LogValue.value.injEq,
    Value.tuple.injEq, Value.dict.injEq, true_and, and_true] at h
  exact ⟨h.1, kwargsItems_injective h.2⟩

section Wait

variable {client : Client} {func : Function} {moduleName actionName : String}
  {args args' : List Value} {kwargs kwargs' : Kwargs} {logError : Bool} {clientSocket : Stream}

theorem log_wait_of_broken (broken : Broken clientSocket) (s : Thread) :
    ((waitForServerResponse client (some func) moduleName actionName args kwargs logError
      clientSocket).exec s).2.log = s.log ++ [brokenRecord moduleName actionName args kwargs] := by
  obtain ⟨e, raised, decodeError⟩ := (readFromServer_iff clientSocket).mpr broken
  simp only [waitForServerResponse, exec_bind, exec_tryCatch, exec_lift, raised,
    when_of decodeError, log, exec_modify, exec_throw]
  rfl

theorem exec_wait_congr (sound : ¬ Broken clientSocket)
    (formatted : formatArgs func args kwargs = formatArgs func args' kwargs') (s : Thread) :
    (waitForServerResponse client (some func) moduleName actionName args kwargs logError
      clientSocket).exec s =
    (waitForServerResponse client (some func) moduleName actionName args' kwargs' logError
      clientSocket).exec s := by
  simp only [waitForServerResponse]
  rw [exec_bind, exec_bind, exec_tryCatch, exec_tryCatch, exec_lift]
  cases read : readFromServer clientSocket with
  | ok returnValue => simp only [raiseException, formatted]
  | error e =>
    have other : ¬ e.isinstance .jsonDecodeError = true :=
      fun h => sound ((readFromServer_iff clientSocket).mp ⟨e, read, h⟩)
    simp only [when_of_not other, exec_bind, exec_pure, exec_throw]

end Wait

/-! ## The call -/

def callRecord (moduleName actionName text : String) (runInBackground : Bool) : LogRecord :=
  ⟨.info, .text "%s %s..%s(%s) %s", [.text "»", .text moduleName, .text actionName, .text text,
    .text (if runInBackground then "&" else "")]⟩

theorem exec_logAction (func : Function) (moduleName actionName : String) (args : List Value)
    (kwargs : Kwargs) (runInBackground : Bool) (s : Thread) :
    (logAction func moduleName actionName args kwargs runInBackground).exec s =
      match formatArgs func args kwargs with
      | .error e => (.error e, s)
      | .ok text => (.ok (), { s with
          log := s.log ++ [callRecord moduleName actionName text runInBackground] }) := by
  simp only [logAction, exec_bind, exec_lift]
  cases formatArgs func args kwargs <;> rfl

theorem log_background (m : Call Value) (s : Thread) : ((do
    tryCatch (do let _ ← m) fun _ => pure ()
    return .value .none : Call Result).exec s).2.log = (m.exec s).2.log := by
  rw [exec_bind, exec_tryCatch, exec_bind]
  obtain ⟨e | value, s'⟩ := m.exec s <;> rfl

theorem log_foreground (m : Call Value) (s : Thread) :
    ((do return .value (← m) : Call Result).exec s).2.log = (m.exec s).2.log := by
  rw [exec_bind]
  obtain ⟨e | value, s'⟩ := m.exec s <;> rfl

theorem emitted_eq (client : Client) (func : Function) (moduleName actionName : String)
    (args : List Value) (kwargs : OrderedDict String Value) :
    emitted client func moduleName actionName args kwargs =
      match formatArgs func args (withoutOptions kwargs).entries with
      | .error _ => []
      | .ok text =>
        let called := callRecord moduleName actionName text
          (popOption kwargs "_run_in_background" false).truthy
        match dumps jsonDefault (request moduleName actionName args
          (withoutOptions kwargs).entries (popOption kwargs "_raw_output" false)
          (popOption kwargs "_log_error" true)) with
        | .error _ => [called]
        | .ok requestString =>
          match client.requestToServer (encodeUtf8 requestString) with
          | .error _ => [called]
          | .ok clientSocket =>
            if (popOption kwargs "_raw_output" false).truthy then [called]
            else ((waitForServerResponse client (some func) moduleName actionName args
              (withoutOptions kwargs).entries (popOption kwargs "_log_error" true).truthy
              clientSocket).exec { Thread.start with log := [called] }).2.log := by
  simp only [emitted, runPrivilegedMethod, exec_bind, exec_lift, exec_logAction]
  cases formatArgs func args (withoutOptions kwargs).entries with
  | error e => rfl
  | ok text =>
    simp only
    cases dumps jsonDefault (request moduleName actionName args (withoutOptions kwargs).entries
      (popOption kwargs "_raw_output" false) (popOption kwargs "_log_error" true)) with
    | error e => rfl
    | ok requestString =>
      simp only
      cases client.requestToServer (encodeUtf8 requestString) with
      | error e => rfl
      | ok clientSocket =>
        simp only
        split
        · rfl
        · split
          · exact log_background _ _
          · exact log_foreground _ _

theorem emitted_of_broken (importModule : String → Except Exception Namespace) {func : Function}
    {moduleName actionName : String} {args : List Value} {kwargs : OrderedDict String Value}
    {clientSocket : Stream} {text : String} (broken : Broken clientSocket)
    (formatted : formatArgs func args (withoutOptions kwargs).entries = .ok text)
    (dumped : ∃ text, dumps jsonDefault (request moduleName actionName args
      (withoutOptions kwargs).entries (popOption kwargs "_raw_output" false)
        (popOption kwargs "_log_error" true)) = .ok text)
    (read : (popOption kwargs "_raw_output" false).truthy = false) :
    emitted (replying (.ok clientSocket) importModule) func moduleName actionName args kwargs =
      [callRecord moduleName actionName text
        (popOption kwargs "_run_in_background" false).truthy,
        brokenRecord moduleName actionName args (withoutOptions kwargs).entries] := by
  obtain ⟨requestString, dumped⟩ := dumped
  rw [emitted_eq, formatted]
  simp only [dumped, replying, read, Bool.false_eq_true, if_false, log_wait_of_broken broken]
  rfl

section Statement

variable {func : Function} {args args' : List Value} {kwargs kwargs' : OrderedDict String Value}

theorem SameButSecrets.formatArgs (same : SameButSecrets func args args' kwargs kwargs') :
    formatArgs func args (withoutOptions kwargs).entries =
      Actions.formatArgs func args' (withoutOptions kwargs').entries :=
  formatArgs_congr same.positional (withoutOptions_congr same.keywords)

theorem SameButSecrets.popOption (same : SameButSecrets func args args' kwargs kwargs')
    (key : String) (isOption : key ∈ options) (default : Bool) :
    popOption kwargs key default = Actions.popOption kwargs' key default := by
  rw [Actions.popOption, Actions.popOption, get?_congr same.keywords isOption]

theorem SameButSecrets.isOk_request (same : SameButSecrets func args args' kwargs kwargs')
    (moduleName actionName : String) (rawOutput logError : Value) :
    (dumps jsonDefault (request moduleName actionName args (withoutOptions kwargs).entries
      rawOutput logError)).isOk =
    (dumps jsonDefault (request moduleName actionName args' (withoutOptions kwargs').entries
      rawOutput logError)).isOk := by
  rw [Actions.isOk_request, Actions.isOk_request, isOk_encodeList_congr same.positional,
    isOk_encodeItems_congr (withoutOptions_congr same.keywords)]

end Statement

/-- The logs of the two calls differ exactly if a reply that is no JSON is waited for, and the
calls do not pass the same arguments. -/
theorem emitted_eq_iff (reply : Except Exception Stream)
    (importModule : String → Except Exception Namespace) (func : Function)
    (moduleName actionName : String) (args args' : List Value)
    (kwargs kwargs' : OrderedDict String Value)
    (same : SameButSecrets func args args' kwargs kwargs') :
    emitted (replying reply importModule) func moduleName actionName args kwargs =
        emitted (replying reply importModule) func moduleName actionName args' kwargs' ↔
      (Awaits func moduleName actionName args kwargs →
        (∃ clientSocket, reply = .ok clientSocket ∧ Broken clientSocket) →
          args = args' ∧ (withoutOptions kwargs).entries = (withoutOptions kwargs').entries) := by
  have raw := same.popOption "_raw_output" (by decide) false
  have logError := same.popOption "_log_error" (by decide) true
  have background := same.popOption "_run_in_background" (by decide) false
  have sent := same.isOk_request moduleName actionName (popOption kwargs' "_raw_output" false)
    (popOption kwargs' "_log_error" true)
  have format := same.formatArgs
  rw [emitted_eq, emitted_eq, Awaits, raw, logError, background, format]
  cases formatted : formatArgs func args' (withoutOptions kwargs').entries with
  | error e => simp
  | ok text =>
    simp only
    cases dumped : dumps jsonDefault (request moduleName actionName args
        (withoutOptions kwargs).entries (popOption kwargs' "_raw_output" false)
        (popOption kwargs' "_log_error" true)) with
    | error e =>
      rw [dumped] at sent
      cases dumped' : dumps jsonDefault (request moduleName actionName args'
          (withoutOptions kwargs').entries (popOption kwargs' "_raw_output" false)
          (popOption kwargs' "_log_error" true)) with
      | error e' => simp
      | ok requestString' =>
        rw [dumped'] at sent
        cases sent
    | ok requestString =>
      rw [dumped] at sent
      cases dumped' : dumps jsonDefault (request moduleName actionName args'
          (withoutOptions kwargs').entries (popOption kwargs' "_raw_output" false)
          (popOption kwargs' "_log_error" true)) with
      | error e' =>
        rw [dumped'] at sent
        cases sent
      | ok requestString' =>
        cases reply with
        | error e => simp [replying]
        | ok clientSocket =>
          simp only [replying]
          cases truthy : (popOption kwargs' "_raw_output" false).truthy with
          | true => simp
          | false =>
            by_cases broken : Broken clientSocket
            · simp only [Bool.false_eq_true, if_false, log_wait_of_broken broken,
                List.append_cancel_left_eq, List.cons.injEq, and_true]
              refine ⟨fun h _ _ => brokenRecord_inj h, fun h => ?_⟩
              obtain ⟨rfl, sameKwargs⟩ := h ⟨⟨text, rfl⟩, requestString, rfl⟩
                ⟨clientSocket, rfl, broken⟩
              rw [sameKwargs]
            · refine iff_of_true ?_ ?_
              · simp only [Bool.false_eq_true, if_false]
                rw [exec_wait_congr broken format]
              · rintro - ⟨_, ⟨⟩, h⟩
                exact absurd h broken

/-! ## A secret in the log -/

/-- `def set_password(username: str, password: secret_str)` -/
def setPassword : Function where
  argspec := {
    args := ["username", "password"]
    varargs := none
    varkw := none
    defaults := []
    kwonlyargs := []
    kwonlydefaults := []
    annotations := ⟨[("username", .str), ("password", .secretStr)], by decide⟩
    nodup := by decide }
  behaviour _ _ := ⟨[], [], .returns .none⟩

theorem setPassword_accepted : (checkPrivilegedActionArguments setPassword).isOk = true := by
  decide +kernel

theorem setPassword_same (secret secret' : String) :
    SameButSecrets setPassword [.str "admin", .str secret] [.str "admin", .str secret'] .empty
      .empty where
  positional := .same _ (.secret ⟨.secretStr, rfl, rfl⟩ (.str secret) (.str secret') (.nil _))
  keywords := .nil

theorem emitted_eq_setPassword :
    emitted (replying (.ok ⟨[], none⟩) fun _ => .error (ValueError "")) setPassword "users"
        "set_password" [.str "admin", .str "first"] .empty =
      emitted (replying (.ok ⟨[], none⟩) fun _ => .error (ValueError "")) setPassword "users"
        "set_password" [.str "admin", .str "second"] .empty := by
  refine (emitted_eq_iff (.ok ⟨[], none⟩) (fun _ => .error (ValueError "")) setPassword "users"
    "set_password" _ _ .empty .empty (setPassword_same "first" "second")).mpr ?_
  rintro - ⟨_, ⟨⟩, nonempty, -⟩
  exact absurd rfl nonempty

theorem broken_letter : Broken ⟨[0x78], none⟩ := by
  refine ⟨List.cons_ne_nil _ _, "x", by decide, ?_⟩
  simp only [Json.loads, Option.bind_eq_bind, Option.bind_eq_none_iff]
  rintro ⟨document, rest⟩ h
  cases h

theorem emitted_broken (secret : String) :
    emitted (replying (.ok ⟨[0x78], none⟩) fun _ => .error (ValueError "")) setPassword "users"
        "set_password" [.str "admin", .str secret] .empty =
      [callRecord "users" "set_password" "\"admin\", ****" false,
        brokenRecord "users" "set_password" [.str "admin", .str secret] []] := by
  exact emitted_of_broken _ broken_letter rfl ⟨_, rfl⟩ rfl

theorem emitted_ne_setPassword :
    (checkPrivilegedActionArguments setPassword).isOk = true ∧
    SameButSecrets setPassword [.str "admin", .str "first"] [.str "admin", .str "second"] .empty
      .empty ∧
    emitted (replying (.ok ⟨[0x78], none⟩) fun _ => .error (ValueError "")) setPassword "users"
        "set_password" [.str "admin", .str "first"] .empty ≠
      emitted (replying (.ok ⟨[0x78], none⟩) fun _ => .error (ValueError "")) setPassword "users"
        "set_password" [.str "admin", .str "second"] .empty := by
  refine ⟨setPassword_accepted, setPassword_same "first" "second", ?_⟩
  rw [emitted_broken, emitted_broken]
  intro h
  have records := (List.cons_eq_cons.mp (List.cons_eq_cons.mp h).2).1
  have secrets := (brokenRecord_inj records).1
  simp at secrets

end Plinth.Actions
