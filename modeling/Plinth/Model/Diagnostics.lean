import Plinth.Model.Package

/-!
# Results of diagnostics

How `plinth/modules/diagnostics/__init__.py` keeps the results of a run, and how
`plinth/diagnostic_check.py`, lines 46 to 73, writes and reads them. A check is an object with a tag
among its members.
-/

namespace Plinth.Diagnostics

open Python Exception
open DiagnosticCheck (Result)

/-! ## Checks -/

inductive Parameter
  | str (s : String)
  | int (n : Int)
  | bool (b : Bool)
  | none
  deriving DecidableEq

structure Check where
  checkId : String
  description : String
  result : Result
  parameters : OrderedDict String Parameter
  componentId : Option String

def resultValue : Result → String
  | .notDone => "not_done"
  | .skipped => "skipped"
  | .passed => "passed"
  | .warning => "warning"
  | .failed => "failed"
  | .error => "error"

/-! ## What is written and read -/

inductive Data
  | none
  | bool (b : Bool)
  | int (n : Int)
  | float (f : Json.Float)
  | str (s : String)
  | list (elements : List Data)
  | dict (members : List (String × Data))
  | check (checkId description result parameters componentId : Data)

/-! ### The encoder -/

mutual

/-- `CheckJSONEncoder`, whose `default` gives a check as a dictionary with a tag. -/
def encode : Data → Except Exception Json
  | .none => .ok .null
  | .bool b => .ok (.bool b)
  | .int n => if tooLong n then .error intError else .ok (.int n)
  | .float f => .ok (.float f)
  | .str s => .ok (.str s)
  | .list elements => do return .arr (← encodeElements elements)
  | .dict members => do return .obj (← encodeMembers members)
  | .check checkId description result parameters componentId => do
      let checkId ← encode checkId
      let description ← encode description
      let result ← encode result
      let parameters ← encode parameters
      let componentId ← encode componentId
      return .obj [("check_id", checkId), ("description", description), ("result", result),
        ("parameters", parameters), ("component_id", componentId),
        ("__class__", .str "DiagnosticCheck")]

def encodeElements : List Data → Except Exception (List Json)
  | [] => .ok []
  | value :: rest => do
      let value ← encode value
      return value :: (← encodeElements rest)

def encodeMembers : List (String × Data) → Except Exception (List (String × Json))
  | [] => .ok []
  | (key, value) :: rest => do
      let value ← encode value
      return (key, value) :: (← encodeMembers rest)

end

/-! ### The decoder -/

def member (key : String) (members : List (String × Data)) : Option Data :=
  (members.find? (·.1 = key)).map Prod.snd

def isTag : Option Data → Bool
  | some (.str s) => s = "DiagnosticCheck"
  | _ => false

/-- `data[key]` -/
def getItem (key : String) (members : List (String × Data)) : Except Exception Data :=
  match member key members with
  | some value => .ok value
  | none => .error (KeyError (.str key))

/-- `CheckJSONDecoder.from_dict` -/
def fromDict (members : List (String × Data)) : Except Exception Data :=
  if isTag (member "__class__" members) then do
    let checkId ← getItem "check_id" members
    let description ← getItem "description" members
    let result ← getItem "result" members
    let parameters ← getItem "parameters" members
    return .check checkId description result parameters
      ((member "component_id" members).getD .none)
  else .ok (.dict members)

def uniqueKeys (members : List (String × Data)) : List (String × Data) :=
  members.foldl (fun entries member => OrderedDict.setEntry member.1 member.2 entries) []

mutual

/-- `CheckJSONDecoder`, which asks `from_dict` at every object. -/
def decode : Json → Except Exception Data
  | .null => .ok .none
  | .bool b => .ok (.bool b)
  | .int n => if tooLong n then .error intError else .ok (.int n)
  | .float f => .ok (.float f)
  | .str s => .ok (.str s)
  | .arr elements => do return .list (← decodeElements elements)
  | .obj members => do
      let members ← decodeMembers members
      fromDict (uniqueKeys members)

def decodeElements : List Json → Except Exception (List Data)
  | [] => .ok []
  | element :: rest => do
      let value ← decode element
      return value :: (← decodeElements rest)

def decodeMembers : List (String × Json) → Except Exception (List (String × Data))
  | [] => .ok []
  | (key, element) :: rest => do
      let value ← decode element
      return (key, value) :: (← decodeMembers rest)

end

/-- `json.dumps(data, cls=CheckJSONEncoder)` -/
def dumps (data : Data) : Except Exception String :=
  (encode data).map Json.dumps

/-- `json.loads(text, cls=CheckJSONDecoder)` -/
def loads (text : String) : Except Exception Data :=
  match Json.loads text with
  | some document => decode document
  | none => .error JSONDecodeError

/-! ## A run -/

/-- What `diagnose` of each app has given: its checks, or the text of what it has raised. -/
abbrev Diagnosed := OrderedDict String (Except String (List Check))

def parameterData : Parameter → Data
  | .str s => .str s
  | .int n => .int n
  | .bool b => .bool b
  | .none => .none

def parametersData (check : Check) : List (String × Data) :=
  check.parameters.entries.map fun parameter => (parameter.1, parameterData parameter.2)

def optionData : Option String → Data
  | some s => .str s
  | none => .none

def checkData (check : Check) : Data :=
  .check (.str check.checkId) (.str check.description) (.str (resultValue check.result))
    (.dict (parametersData check)) (optionData check.componentId)

def checks : Except String (List Check) → List Check
  | .ok checks => checks
  | .error _ => []

def raised : Except String (List Check) → Option String
  | .ok _ => none
  | .error message => some message

def showRepair (outcome : Except String (List Check)) : Bool :=
  (checks outcome).any fun check => check.result = .failed ∨ check.result = .warning

def appResults (appId : String) (outcome : Except String (List Check)) : List (String × Data) :=
  [("id", .str appId), ("diagnosis", .list ((checks outcome).map checkData)),
    ("exception", optionData (raised outcome)), ("show_repair", .bool (showRepair outcome))]

def runResults (diagnosed : Diagnosed) : Data :=
  .dict (diagnosed.entries.map fun app => (app.1, .dict (appResults app.1 app.2)))

/-- `current_results`, or what is given out of it -/
structure Results where
  results : Data
  progressPercentage : Nat
  /-- The entry is only there when the results have not been read from the database. -/
  exception : Option (Option String)

def current (diagnosed : Diagnosed) : Results where
  results := runResults diagnosed
  progressPercentage := if diagnosed.entries = [] then 0 else 100
  exception := some none

/-- The text that `_run_diagnostics` stores. -/
def store (diagnosed : Diagnosed) : Except Exception String :=
  dumps (runResults diagnosed)

/-! ## Giving results out -/

structure Info where
  name : Option String

structure App where
  info : Option Info

abbrev Registry := String → Option App

/-- `app.info.name or app_id` -/
def appName (registry : Registry) (appId : String) : Except Exception String :=
  match registry appId with
  | none => .error (KeyError (.str appId))
  | some app =>
    match app.info with
    | none => .error (KeyError (.str (appId ++ "-info")))
    | some info => .ok (if info.name.getD "" = "" then appId else info.name.getD "")

def setName (name : String) : Data → Except Exception Data
  | .dict members => .ok (.dict (OrderedDict.setEntry "name" (.str name) members))
  | _ => .error (TypeError "object does not support item assignment")

def addName (registry : Registry) (app : String × Data) : Except Exception (String × Data) := do
  let name ← appName registry app.1
  let data ← setName name app.2
  return (app.1, data)

/-- The loop over the apps. What is no dictionary has nothing to loop over, or no items to set. -/
def addNames (registry : Registry) : Data → Except Exception Data
  | .dict apps => do return .dict (← apps.mapM (addName registry))
  | .list [] => .ok (.list [])
  | .str "" => .ok (.str "")
  | _ => .error (TypeError "object is not subscriptable")

def latest (memory : Option Results) (stored : Option String) : Except Exception Results :=
  match memory with
  | some results => .ok results
  | none => do return ⟨← loads (stored.getD "\x7b\x7d"), 100, none⟩

def getResults (registry : Registry) (memory : Option Results) (stored : Option String) :
    Except Exception Results := do
  let found ← latest memory stored
  let named ← addNames registry found.results
  return { found with results := named }

/-! ## What is asked for -/

def Survives (registry : Registry) (diagnosed : Diagnosed) : Prop :=
  ∃ text before after, store diagnosed = .ok text ∧
    getResults registry (some (current diagnosed)) (some text) = .ok before ∧
    getResults registry none (some text) = .ok after ∧ after.results = before.results

def Registered (registry : Registry) (appId : String) : Prop :=
  ∃ app info, registry appId = some app ∧ app.info = some info

def Tagged (check : Check) : Prop :=
  ("__class__", Parameter.str "DiagnosticCheck") ∈ check.parameters.entries

def Printable (check : Check) : Prop :=
  ∀ parameter ∈ check.parameters.entries, ∀ n, parameter.2 = .int n → tooLong n = false

/-! ## The documents that are written -/

def encodeMember (entry : String × Data) : Except Exception (String × Json) :=
  (encode entry.2).map fun document => (entry.1, document)

def decodeMember (entry : String × Json) : Except Exception (String × Data) :=
  (decode entry.2).map fun value => (entry.1, value)

def parameterJson : Parameter → Json
  | .str s => .str s
  | .int n => .int n
  | .bool b => .bool b
  | .none => .null

def optionJson : Option String → Json
  | some s => .str s
  | none => .null

def checkJson (check : Check) : Json :=
  .obj [("check_id", .str check.checkId), ("description", .str check.description),
    ("result", .str (resultValue check.result)),
    ("parameters", .obj (check.parameters.entries.map fun parameter =>
      (parameter.1, parameterJson parameter.2))),
    ("component_id", optionJson check.componentId), ("__class__", .str "DiagnosticCheck")]

end Plinth.Diagnostics
