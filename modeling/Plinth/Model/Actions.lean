import Plinth.Lib.Effect
import Plinth.Lib.Python.Value

/-!
# Privileged actions

`plinth/actions.py`: what the decorator accepts, the calls that the service makes, and how the
privileged daemon runs them.
-/

namespace Plinth.Actions

open Effect Python Exception

/-! ## Functions -/

/-- The annotations of parameters, where `none` is the class of `None`. -/
inductive Annotation
  | any
  | none
  | bool
  | int
  | str
  | float
  | secretStr
  | union (members : List Annotation)
  | list (element : Annotation)
  | dict (key value : Annotation)
  | unsupported
  deriving Repr

/-- The members of a union are distinct, and their order does not count when it is compared. -/
def Annotation.isSecret : Annotation → Bool
  | secretStr => true
  | union [secretStr, none] => true
  | union [none, secretStr] => true
  | _ => false

/-- `inspect.getfullargspec` -/
structure ArgSpec where
  args : List String
  varargs : Option String
  varkw : Option String
  defaults : List Value
  kwonlyargs : List String
  kwonlydefaults : List (String × Value)
  annotations : OrderedDict String Annotation
  nodup : args.Nodup

structure Stream where
  content : Bytes
  failure : Option Exception

inductive Outcome
  | returns (value : Value)
  /-- an `io.BufferedReader` -/
  | reader (stream : Stream)
  | raises (exception : Exception)

/-- What a function does, with what `action_utils.run` captures of the processes it runs. -/
structure Behaviour where
  stdout : Bytes
  stderr : Bytes
  outcome : Outcome

abbrev Kwargs := List (String × Value)

structure Function where
  argspec : ArgSpec
  behaviour : List Value → Kwargs → Behaviour

def checkPrivilegedActionArguments (func : Function) : Except Exception Unit := do
  let argspec := func.argspec
  if argspec.varargs.isSome ∨ argspec.varkw.isSome ∨ argspec.kwonlyargs ≠ [] ∨
      !argspec.kwonlydefaults.isEmpty then
    throw (SyntaxError "Actions must not have variable args")
  argspec.args.forM fun arg => do
    if arg ∉ argspec.annotations.keys then
      throw (SyntaxError "All arguments must be annotated")
  argspec.annotations.entries.forM fun (argName, annotation) => do
    ["password", "passphrase", "secret"].forM fun keyword => do
      if keyword.toList <:+: argName.toList ∧ annotation.isSecret = false then
        throw (SyntaxError ("Argument " ++ argName ++ " should likely be a \"secret_str\""))

/-! ## Threads -/

inductive Level
  | info
  | error
  deriving DecidableEq, Repr

inductive LogValue
  | text (s : String)
  | value (v : Value)
  | exception (e : Exception)
  deriving Repr

structure LogRecord where
  level : Level
  message : LogValue
  args : List LogValue
  deriving Repr

/-- An attribute of `thread_storage`. -/
inductive Storage
  | unset
  | none
  | bytes (b : Bytes)
  deriving DecidableEq, Repr

/-- A thread of the service, or the thread of the daemon that serves a connection: it has called
privileged functions and has written to its client. -/
structure Thread where
  stdout : Storage
  stderr : Storage
  log : List LogRecord
  calls : List (List Value × Kwargs)
  written : Bytes

def Thread.start : Thread where
  stdout := .unset
  stderr := .unset
  log := []
  calls := []
  written := []

abbrev Call := Effect Thread Exception

def log (record : LogRecord) : Call Unit :=
  modify fun thread => { thread with log := thread.log ++ [record] }

/-! ## Logging of calls -/

def annotationOf (argspec : ArgSpec) (argName : String) : Except Exception Annotation :=
  match argspec.annotations.get? argName with
  | some annotation => .ok annotation
  | none => .error (KeyError (.str argName))

def formatArg (argspec : ArgSpec) (argName : String) (value : Value) : Except Exception String := do
  if (← annotationOf argspec argName).isSecret then return "****"
  dumps jsonDefault value

def formatPositional (argspec : ArgSpec) :
    List (String × Value) → Except Exception (List String)
  | [] => .ok []
  | (argName, value) :: rest => do
      let text ← formatArg argspec argName value
      return text :: (← formatPositional argspec rest)

def formatKeywords (argspec : ArgSpec) : Kwargs → Except Exception (List String)
  | [] => .ok []
  | (argName, value) :: rest => do
      let text ← formatArg argspec argName value
      return (argName ++ "=" ++ text) :: (← formatKeywords argspec rest)

def formatArgs (func : Function) (args : List Value) (kwargs : Kwargs) :
    Except Exception String := do
  let argspec := func.argspec
  if argspec.args.length < args.length then throw (SyntaxError "Too many arguments")
  let argsStrList ← formatPositional argspec (argspec.args.zip args)
  let kwargsStrList ← formatKeywords argspec kwargs
  return ", ".intercalate (argsStrList ++ kwargsStrList)

def logAction (func : Function) (moduleName actionName : String) (args : List Value)
    (kwargs : Kwargs) (runInBackground : Bool) : Call Unit := do
  let suffix := if runInBackground then "&" else ""
  let formattedArgs ← lift (formatArgs func args kwargs)
  log ⟨.info, .text "%s %s..%s(%s) %s",
    [.text "»", .text moduleName, .text actionName, .text formattedArgs, .text suffix]⟩

/-! ## Validation of arguments -/

/-- `str` is the interpreter's text of a value in a message. -/
def assertBasic (argName typeName : String) (holds : Bool) : Except Exception Unit :=
  if holds then .ok ()
  else .error (TypeError ("Expected type " ++ typeName ++ " for " ++ argName))

section Validation

variable (str : Value → String)

mutual

def assertValidType : Annotation → String → Value → Except Exception Unit
  | .any, _, _ => .ok ()
  | .none, _, value =>
    match value with
    | .none => .ok ()
    | _ => .error (TypeError "Expected None for \x7barg_name\x7d")
  | .bool, argName, value => assertBasic argName "bool" (value matches .bool _)
  -- a boolean is an integer
  | .int, argName, value => assertBasic argName "int" (value matches .int _ | .bool _)
  | .str, argName, value => assertBasic argName "str" (value matches .str _)
  | .float, argName, value => assertBasic argName "float" (value matches .float _)
  | .secretStr, argName, value => assertBasic argName "str" (value matches .str _)
  | .union members, argName, value => assertAny members argName value
  | .list element, argName, value =>
    match value with
    | .list elements =>
      elements.zipIdx.forM fun (innerItem, index) =>
        assertValidType element (argName ++ "[" ++ toString index ++ "]") innerItem
    | _ => .error (TypeError ("Expected type list for " ++ argName))
  | .dict key value, argName, dict =>
    match dict with
    | .dict items =>
      items.forM fun (innerKey, innerValue) => do
        assertValidType key (argName ++ "[" ++ str innerKey ++ "]") innerKey
        assertValidType value (argName ++ "[" ++ str innerValue ++ "]") innerValue
    | _ => .error (TypeError ("Expected type dict for " ++ argName))
  | .unsupported, _, _ => .error (TypeError "Unsupported annotation type")

def assertAny : List Annotation → String → Value → Except Exception Unit
  | [], argName, _ => .error (TypeError ("Expected one of unioned types for " ++ argName))
  | member :: rest, argName, value =>
    match assertValidType member argName value with
    | .ok () => .ok ()
    | .error e => if e.isinstance .typeError then assertAny rest argName value else .error e

end

/-- The format of the arguments, which the source checks first, is their type here. -/
def assertValidArguments (func : Function) (args : List Value) (kwargs : Kwargs) :
    Except Exception Unit := do
  let argspec := func.argspec
  if argspec.args.length < args.length + kwargs.length then
    throw (SyntaxError "Too many arguments")
  let noDefaults := argspec.args.length - argspec.defaults.length
  ((argspec.args.take noDefaults).drop args.length).forM fun key => do
    if key ∉ kwargs.map Prod.fst then throw (SyntaxError ("Argument not provided: " ++ key))
  kwargs.forM fun (key, value) => do
    if key ∉ argspec.args then throw (SyntaxError ("Unknown argument: " ++ key))
    if argspec.args.idxOf key < args.length then
      throw (SyntaxError ("Duplicate argument: " ++ key))
    assertValidType str (← annotationOf argspec key) ("arg " ++ key) value
  (argspec.args.zip args).zipIdx.forM fun ((argName, arg), index) => do
    assertValidType str (← annotationOf argspec argName) ("arg #" ++ toString index) arg

end Validation

/-! ## The daemon -/

inductive Attribute
  | privileged (func : Function)
  | other

abbrev Module := String → Option Attribute

/-- What the daemon finds on the system, and what the interpreter makes of values and stacks. -/
structure Environment where
  cfgRead : Except Exception Unit
  /-- `module_loader.get_module_import_path` -/
  getModuleImportPath : String → Except Exception String
  importModule : String → Except Exception Module
  /-- `traceback.format_tb` of the stack of an exception -/
  formatTb : Exception → List String
  str : Value → String

/-- `JSONEncoder.default` -/
def encoderDefault : Value → Except Exception Json
  | .path s => .ok (.str s)
  | value => jsonDefault value

def setupThreadStorage : Call Unit :=
  modify fun thread => { thread with stdout := .bytes [], stderr := .bytes [] }

def clearThreadStorage : Call Unit :=
  modify fun thread => { thread with stdout := .none, stderr := .none }

/-- `getattr(thread_storage, name, b'').decode()` -/
def Storage.decode : Storage → Except Exception String
  | unset => Python.decode []
  | none => .error (AttributeError "'NoneType' object has no attribute 'decode'")
  | bytes b => Python.decode b

def Storage.append : Storage → Bytes → Storage
  | bytes b, captured => bytes (b ++ captured)
  | storage, _ => storage

def exceptionReply (env : Environment) (exception : Exception) (stdout stderr : String) : Value :=
  .dict [(.str "result", .str "exception"),
    (.str "exception", .dict [
      (.str "module", .str exception.cls.module),
      (.str "name", .str exception.cls.name),
      (.str "args", .tuple exception.args),
      (.str "traceback", .list ((env.formatTb exception).map .str)),
      (.str "stdout", .str stdout),
      (.str "stderr", .str stderr)])]

def successReply (value : Value) : Value :=
  .dict [(.str "result", .str "success"), (.str "return", value)]

def getReturnValueFromException (env : Environment) (exception : Exception) : Call Value := do
  let thread ← get
  let stdout ← lift thread.stdout.decode
  let stderr ← lift thread.stderr.decode
  return exceptionReply env exception stdout stderr

structure Request where
  module : String
  action : String
  args : List Value
  kwargs : Kwargs
  rawOutput : Bool
  logError : Bool

def stringItems (items : List (Value × Value)) : Kwargs :=
  items.filterMap fun
    | (.str key, value) => some (key, value)
    | _ => none

def getParameter (request : Value) (parameter typeName : String) (get : Value → Option α) :
    Except Exception α := do
  if !(← contains request parameter) then
    throw (TypeError ("Missing required parameter \"" ++ parameter ++ "\""))
  match get (← getItem request parameter) with
  | some value => return value
  | none => throw (TypeError ("Parameter \"" ++ parameter ++ "\" must be of type" ++ typeName))

def getOption (request : Value) (parameter : String) (default : Bool) : Except Exception Bool := do
  if ← contains request parameter then
    match ← getItem request parameter with
    | .bool value => return value
    | _ => throw (TypeError ("Incorrect \"" ++ parameter ++ "\" parameter"))
  return default

def parseRequest (requestString : String) : Except Exception Request := do
  let request ← match loads requestString with
    | .ok request => pure request
    | .error e =>
      if e.isinstance .jsonDecodeError then throw (SyntaxError "Invalid JSON in request")
      else throw e
  let module ← getParameter request "module" "str" fun | .str s => some s | _ => none
  let action ← getParameter request "action" "str" fun | .str s => some s | _ => none
  let args ← getParameter request "args" "list" fun | .list elements => some elements | _ => none
  let kwargs ← getParameter request "kwargs" "dict" fun
    | .dict items => some (stringItems items)
    | _ => none
  let rawOutput ← getOption request "raw_output" false
  let logError ← getOption request "log_error" true
  return ⟨module, action, args, kwargs, rawOutput, logError⟩

def raiseAs (result : Except Exception α) (base : Base) (other : Exception) : Except Exception α :=
  match result with
  | .ok a => .ok a
  | .error e => .error (if e.isinstance base then other else e)

/-- The first part of `_privileged_call`. -/
def findAction (env : Environment) (moduleName actionName : String) :
    Except Exception Function := do
  if '.' ∈ moduleName.toList then throw (SyntaxError "Invalid module name")
  env.cfgRead
  let notFound := SyntaxError "Specified module not found"
  let importPath ←
    if moduleName = "plinth" then pure "plinth"
    else raiseAs (env.getModuleImportPath moduleName) .fileNotFoundError notFound
  let module ← raiseAs (env.importModule (importPath ++ ".privileged")) .moduleNotFoundError notFound
  match module actionName with
  | none => throw (SyntaxError "Specified action not found")
  | some .other => throw (SyntaxError "Specified action is not privileged action")
  | some (.privileged func) => return func

inductive Return
  | value (v : Value)
  | reader (stream : Stream)

def runFunction (func : Function) (args : List Value) (kwargs : Kwargs) : Call Return := do
  let behaviour := func.behaviour args kwargs
  modify fun thread =>
    { thread with
      stdout := thread.stdout.append behaviour.stdout
      stderr := thread.stderr.append behaviour.stderr
      calls := thread.calls ++ [(args, kwargs)] }
  match behaviour.outcome with
  | .returns value => return .value (successReply value)
  | .reader stream => return .reader stream
  | .raises exception => throw exception

/-- A handler for the class `Exception`. -/
def catchException {α : Type} (m : Call α) (handle : Exception → Call α) : Call α :=
  tryCatch m fun exception =>
    if exception.isinstance .exception then handle exception else throw exception

def reportError (env : Environment) (moduleName actionName : String) (logError : Bool)
    (exception : Exception) : Call Return := do
  let returnValue ← getReturnValueFromException env exception
  let details ← lift (getItem returnValue "exception")
  let stdout ← lift (getItem details "stdout")
  let stderr ← lift (getItem details "stderr")
  when (logError = true) do
    log ⟨.error, .text "Error running action: %s..%s(..): %s\nstdout:\n%s\nstderr:\n%s\n",
      [.text moduleName, .text actionName, .exception exception, .value stdout, .value stderr]⟩
  return .value returnValue

def privilegedCall (env : Environment) (moduleName actionName : String) (args : List Value)
    (kwargs : Kwargs) (logError : Bool) : Call Return := do
  let func ← lift (findAction env moduleName actionName)
  lift (assertValidArguments env.str func args kwargs)
  logAction func moduleName actionName args kwargs false
  catchException (runFunction func args kwargs) (reportError env moduleName actionName logError)

def logFailure (exception : Exception) : Call Unit :=
  if exception.isinstance .permissionError ∨ exception.isinstance .syntaxError ∨
      exception.isinstance .typeError then
    match exception.args with
    | message :: _ => log ⟨.error, .value message, []⟩
    | [] => throw (IndexError "tuple index out of range")
  else log ⟨.error, .exception exception, []⟩

inductive Response
  | text (s : String)
  | reader (stream : Stream)

/-- The part of `privileged_handle_json_request` whose exceptions are caught. -/
def serveRequest (env : Environment) (requestString : String) : Call Return := do
  let request ← lift (parseRequest requestString)
  setupThreadStorage
  let returnValue ← privilegedCall env request.module request.action request.args
    request.kwargs request.logError
  match returnValue with
  | .reader stream =>
    if request.rawOutput then return .reader stream
    else throw (TypeError "Invalid call to raw output API.")
  | .value value => return .value value

def refuseRequest (env : Environment) (exception : Exception) : Call Return := do
  logFailure exception
  return .value (← getReturnValueFromException env exception)

def privilegedHandleJsonRequest (env : Environment) (requestString : String) : Call Response := do
  match ← catchException (serveRequest env requestString) (refuseRequest env) with
  | .reader stream => return .reader stream
  | .value value => do
      clearThreadStorage
      return .text (← lift (dumps encoderDefault value))

/-! ## The service -/

abbrev Constructor := List Value → Except Exception Exception

structure Namespace where
  name : String
  attributes : String → Option Constructor

structure Client where
  /-- `_request_to_server`, with what is received from the socket -/
  requestToServer : Bytes → Except Exception Stream
  importModule : String → Except Exception Namespace

def readFromServer (clientSocket : Stream) : Except Exception Value := do
  match clientSocket.failure with
  | some e => throw e
  | none =>
    if clientSocket.content = [] then throw (ConnectionError "Server returned empty response")
    loadsBytes clientSocket.content

/-- `importlib.import_module` -/
def importModule (client : Client) : Value → Except Exception Namespace
  | .str name => client.importModule name
  | other =>
    .error (AttributeError ("'" ++ other.className ++ "' object has no attribute 'startswith'"))

/-- `getattr` of a module -/
def getAttribute (module : Namespace) : Value → Except Exception Constructor
  | .str name =>
    match module.attributes name with
    | some constructor => .ok constructor
    | none =>
      .error (AttributeError ("module '" ++ module.name ++ "' has no attribute '" ++ name ++ "'"))
  | other =>
    .error (TypeError ("attribute name must be string, not '" ++ other.className ++ "'"))

/-- `value.get(key, b'').encode()` -/
def getEncoded (value : Value) (key : String) : Except Exception Bytes := do
  let found ← match value with
    | .dict items => pure ((lookup key items).getD (.bytes []))
    | other => throw (AttributeError ("'" ++ other.className ++ "' object has no attribute 'get'"))
  match found with
  | .str s => return encodeUtf8 s
  | other => throw (AttributeError ("'" ++ other.className ++ "' object has no attribute 'encode'"))

def dropLastEmpty (lines : List String) : List String :=
  if lines.getLast? = some "" then lines.dropLast else lines

def formatOutput (mark title : String) (output : Bytes) : Except Exception String := do
  let text ← decode output
  if text = "" then return text
  let lines := (dropLastEmpty (text.splitOn "\n")).map (mark ++ ·)
  return title ++ "\n".intercalate lines ++ "\n"

def dumpsAll : List Value → Except Exception (List String)
  | [] => .ok []
  | value :: rest => do
      let text ← dumps jsonDefault value
      return text :: (← dumpsAll rest)

def tracebackLines : List Value → Except Exception (List String)
  | [] => .ok []
  | .str entry :: rest => do
      return dropLastEmpty (entry.splitOn "\n") ++ (← tracebackLines rest)
  | other :: _ =>
    .error (AttributeError ("'" ++ other.className ++ "' object has no attribute 'split'"))

def formatTraceback (traceback : Value) : Except Exception LogValue := do
  if !traceback.truthy then return .value traceback
  let lines ← tracebackLines (← iterate traceback)
  return .text
    ("Action traceback:\n" ++ "\n".intercalate (lines.map ("╞ " ++ ·)) ++ "\n")

def formatError (exception : Exception) (stdout stderr : Bytes) (returnValue : Value) :
    Except Exception (List LogValue) := do
  let exceptionArgs := ", ".intercalate (← dumpsAll exception.args)
  let stdout ← formatOutput "│ " "Stdout:\n" stdout
  let stderr ← formatOutput "║ " "Stderr:\n" stderr
  let traceback ← formatTraceback (← getItem (← getItem returnValue "exception") "traceback")
  return [.text exceptionArgs, .text stdout, .text stderr, traceback]

def raiseException (client : Client) (func : Option Function) (moduleName actionName : String)
    (args : List Value) (kwargs : Kwargs) (logError : Bool) (returnValue : Value) :
    Call Value := do
  let details ← lift (getItem returnValue "exception")
  let module ← lift (importModule client (← lift (getItem details "module")))
  let exceptionClass ← lift (getAttribute module (← lift (getItem details "name")))
  let exceptionArgs ← lift (iterate (← lift (getItem details "args")))
  let exception ← lift (exceptionClass exceptionArgs)
  let stdout ← lift (getEncoded details "stdout")
  let stderr ← lift (getEncoded details "stderr")
  match func with
  | some func =>
    when (logError = true) do
      let formattedArgs ← lift (formatArgs func args kwargs)
      let formattedError ← lift (formatError exception stdout stderr returnValue)
      let name ← lift (getItem details "name")
      log ⟨.error, .text "Error running action %s..%s(%s): %s(%s)\n%s%s%s",
        [.text moduleName, .text actionName, .text formattedArgs, .value name] ++
          formattedError⟩
  | none => pure ()
  throw exception

def waitForServerResponse (client : Client) (func : Option Function)
    (moduleName actionName : String) (args : List Value) (kwargs : Kwargs) (logError : Bool)
    (clientSocket : Stream) : Call Value := do
  let returnValue ← tryCatch (lift (readFromServer clientSocket)) fun exception => do
    when (exception.isinstance .jsonDecodeError = true) do
      log ⟨.error, .text "Error decoding action return value %s..%s(*%s, **%s)",
        [.text moduleName, .text actionName, .value (.tuple args),
          .value (.dict (kwargs.map fun (key, value) => (.str key, value)))]⟩
    throw exception
  if (← lift (getItem returnValue "result")) matches .str "success" then
    lift (getItem returnValue "return")
  else raiseException client func moduleName actionName args kwargs logError returnValue

/-- The keyword arguments that are meant for `run_privileged_method`. -/
def options : List String :=
  ["_run_in_background", "_raw_output", "_log_error"]

def popOption (kwargs : OrderedDict String Value) (key : String) (default : Bool) : Value :=
  (kwargs.get? key).getD (.bool default)

def withoutOptions (kwargs : OrderedDict String Value) : OrderedDict String Value :=
  kwargs.filter fun entry => entry.1 ∉ options

def request (moduleName actionName : String) (args : List Value) (kwargs : Kwargs)
    (rawOutput logError : Value) : Value :=
  .dict ([(.str "module", .str moduleName), (.str "action", .str actionName),
    (.str "args", .tuple args),
    (.str "kwargs", .dict (kwargs.map fun (key, value) => (.str key, value)))] ++
      (if rawOutput.truthy then [(.str "raw_output", rawOutput)] else []) ++
      (if logError.truthy then [] else [(.str "log_error", .bool false)]))

inductive Result
  | value (v : Value)
  | reader (stream : Stream)

def runPrivilegedMethod (client : Client) (func : Option Function)
    (moduleName actionName : String) (args : List Value) (kwargs : OrderedDict String Value) :
    Call Result := do
  let runInBackground := popOption kwargs "_run_in_background" false
  let rawOutput := popOption kwargs "_raw_output" false
  let logError := popOption kwargs "_log_error" true
  let kwargs := (withoutOptions kwargs).entries
  match func with
  | some func => logAction func moduleName actionName args kwargs runInBackground.truthy
  | none => pure ()
  let requestString ← lift
    (dumps jsonDefault (request moduleName actionName args kwargs rawOutput logError))
  let clientSocket ← lift (client.requestToServer (encodeUtf8 requestString))
  if rawOutput.truthy then return .reader clientSocket
  let wait := waitForServerResponse client func moduleName actionName args kwargs logError.truthy
    clientSocket
  if runInBackground.truthy then
    -- the exception ends the thread
    tryCatch (do let _ ← wait) fun _ => pure ()
    return .value .none
  return .value (← wait)

end Plinth.Actions
