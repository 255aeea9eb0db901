import Plinth.Lib.Augeas
import Plinth.Lib.Effect
import Plinth.Lib.Python.Text
import Plinth.Lib.Python.Value

/-!
# Shares of the web server

`plinth/modules/sharing/privileged.py`. A share is a directive `Alias` and a block `Location` in
one configuration file.
-/

namespace Plinth.Sharing

open Augeas Effect Python Exception

/-- What `_list` returns of a share. -/
structure Share where
  name : String
  path : String
  url : String
  /-- `groups` and `is_public`, unless there is no `Location` -/
  access : Option (List (Option String) × Bool)
  deriving DecidableEq, Repr

/-! ## Values -/

def shareUrl (name : String) : String :=
  "/share/" ++ name

def quote (path : String) : String :=
  "\"" ++ String.ofList (Text.replace ['"'] ['\\', '"'] path.toList) ++ "\""

def unquote (path : String) : String :=
  String.ofList (Text.replace ['\\', '"'] ['"']
    (Text.removeprefix (Text.removesuffix path.toList ['"']) ['"']))

/-- `[a-z0-9\-]` -/
def isNameChar (c : Char) : Bool :=
  ('a' ≤ c ∧ c ≤ 'z') ∨ ('0' ≤ c ∧ c ≤ '9') ∨ c = '-'

def getNameFromUrl (url : String) : Option String :=
  if "/share/".toList.isPrefixOf url.toList then
    some (String.ofList ((url.toList.drop "/share/".length).takeWhile isNameChar))
  else none

/-- The value of `aug.get`, with what the path matches. -/
def get : List Node → Except Exception (Option String)
  | [] => .ok none
  | [node] => .ok node.value
  | _ => .error (ValueError "path expression has too many matches")

def arg (i : Nat) (directive : Node) : Option String :=
  (directive.nth "arg" (i - 1)).bind Node.value

/-! ## Adding and removing -/

def setArgs (conf : Node) : Nat → List (Option String) → Node
  | _, [] => conf
  | i, value :: values =>
    setArgs (conf.set value [⟨"Location", .last⟩, ⟨"directive", .last⟩, ⟨"arg", .nth i⟩])
      (i + 1) values

/-- A directive in the last `Location`. The path `arg` stands for the only one, which is added. -/
def addDirective (conf : Node) (directive : String) (args : List (Option String)) : Node :=
  setArgs (conf.set (some directive) [⟨"Location", .last⟩, ⟨"directive", .new⟩]) 1 args

/-- `_add` -/
def addShare (name path : String) (groups : List (Option String)) (isPublic : Bool) (conf : Node) :
    Node :=
  let path := quote path
  let url := shareUrl name
  let conf := conf.set (some "Alias") [⟨"directive", .new⟩]
  let conf := conf.set (some url) [⟨"directive", .last⟩, ⟨"arg", .nth 1⟩]
  let conf := conf.set (some path) [⟨"directive", .last⟩, ⟨"arg", .nth 2⟩]
  let conf := conf.set (some url) [⟨"Location", .new⟩, ⟨"arg", .nth 1⟩]
  let conf := addDirective conf "Include" [some "includes/freedombox-sharing.conf"]
  if ¬ isPublic then
    let conf := addDirective conf "Use" [some "AuthOpenIDConnect"]
    groups.foldl (fun conf groupName =>
      addDirective conf "Use" [some "RequireGroup", groupName]) conf
  else addDirective conf "Require" [some "all", some "granted"]

def isAliasOf (url : String) (directive : Node) : Bool :=
  directive.value = some "Alias" ∧ arg 1 directive = some url

def isLocationOf (url : String) (location : Node) : Except Exception Bool := do
  return (← get (location.labelled "arg")) = some url

/-- `_remove` -/
def removeShare (name : String) (conf : Node) : Except Exception Node := do
  let conf ← conf.removeWhere "directive" fun directive => .ok (isAliasOf (shareUrl name) directive)
  conf.removeWhere "Location" (isLocationOf (shareUrl name))

/-! ## Listing -/

def readAlias (directive : Node) : Except Exception (Option Share) :=
  if directive.value ≠ some "Alias" then .ok none
  else match arg 2 directive, arg 1 directive with
    | none, _ => .error (AttributeError "'NoneType' object has no attribute 'removesuffix'")
    | _, none => .error (TypeError "expected string or bytes-like object, got 'NoneType'")
    | some path, some url => .ok ((getNameFromUrl url).map fun name =>
      { name := name, path := unquote path, url := shareUrl name, access := none })

/-- `//directive[value]` -/
def directives (value : String) (node : Node) : List Node :=
  node.beneath.filter fun node => node.label = "directive" ∧ node.value = some value

/-- Of the groups of an old share and of those of a new one. A text that is not empty is true, so
that the name of the directive is not looked at. -/
def readGroups (location : Node) : List (Option String) :=
  ((directives "TKTAuthToken" location).flatMap (Node.labelled "arg")).map Node.value ++
    (location.beneath.filter fun node =>
      node.label = "directive" ∧ arg 1 node = some "RequireGroup").map (arg 2)

def getRequire (i : Nat) (location : Node) : Except Exception (Option String) :=
  get ((directives "Require" location).filterMap (Node.nth "arg" (i - 1)))

def readIsPublic (location : Node) : Except Exception Bool := do
  if directives "Require" location = [] then return false
  if (← getRequire 1 location) ≠ some "all" then return false
  return (← getRequire 2 location) = some "granted"

def readLocation (shares : List Share) (location : Node) : Except Exception (List Share) := do
  match ← get (location.labelled "arg") with
  | none => throw (TypeError "expected string or bytes-like object, got 'NoneType'")
  | some url =>
    match getNameFromUrl url with
    | none => return shares
    | some name =>
      if shares.any fun share => share.name = name then
        let isPublic ← readIsPublic location
        return shares.map fun share =>
          if share.name = name then
            { share with access := some (readGroups location, isPublic) }
          else share
      else return shares

def listShares (conf : Node) : Except Exception (List Share) := do
  let shares ← (conf.labelled "directive").mapM readAlias
  (conf.labelled "Location").foldlM readLocation shares.reduceOption

/-! ## Calls -/

def alreadyPresent : Exception :=
  ⟨builtin "Exception" [.exception], [.str "Share already present"]⟩

def add (name path : String) (groups : List String) (isPublic : Bool) (conf : Node) :
    Except Exception Node := do
  let shares ← listShares conf
  if shares.any fun share => share.name = name then throw alreadyPresent
  else return addShare name path (groups.map some) isPublic conf

def remove (name : String) (conf : Node) : Except Exception Node :=
  removeShare name conf

def readd (conf : Node) (share : Share) : Except Exception Node :=
  match share.access with
  | none => .error (KeyError (.str "groups"))
  | some (groups, isPublic) => .ok (addShare share.name share.path groups isPublic conf)

def migrateOldStyleAuth (conf : Node) : Except Exception Node := do
  if directives "TKTAuthToken" conf = [] then return conf
  let shares ← listShares conf
  let conf ← shares.foldlM (fun conf share => removeShare share.name conf) conf
  shares.foldlM readd conf

inductive Call
  | add (name path : String) (groups : List String) (isPublic : Bool)
  | remove (name : String)
  | migrateOldStyleAuth
  deriving DecidableEq, Repr

def call (conf : Node) : Call → Except Exception Node
  | .add name path groups isPublic => add name path groups isPublic conf
  | .remove name => remove name conf
  | .migrateOldStyleAuth => migrateOldStyleAuth conf

def step (conf : Node) (event : Call) : Node :=
  match call conf event with
  | .ok conf => conf
  | .error _ => conf

/-- The configuration file as `add` creates it. -/
def emptyConf : Node :=
  ⟨"sharing-freedombox.conf", none, []⟩

end Plinth.Sharing
