import Plinth.Lib.OrderedDict
import Plinth.Lib.Python.Regex
import Plinth.Lib.Python.Text

/-!
# Mail aliases

`plinth/modules/email/aliases.py` with `AliasCreateForm`, `AliasListForm` and `AliasView`, and the
check of a new user name by `ValidNewUsernameCheckMixin`. A request is validated in one step and
stored in another one, and other requests may come in between.
-/

namespace Plinth.Email.Aliases

open Python Regex

abbrev Name := List Char

structure Environment where
  /-- `str.lower` -/
  lower : List Char → List Char
  isUsernameReserved : Name → Bool

inductive Request
  | createAlias (username : Name) (data : List Char)
  | deleteAliases (username : Name) (aliases : List Name)
  | createUser (username : Name)
  deriving DecidableEq, Repr

inductive Submission
  | put (username name : Name)
  | delete (username : Name) (aliases : List Name)
  | addUser (username : Name)
  deriving DecidableEq, Repr

structure System where
  /-- the names of `pwd` -/
  accounts : List Name
  /-- the table `alias`, in which each name has one value -/
  table : OrderedDict Name Name
  valid : List Submission

variable (env : Environment)

/-! ## The table -/

def get (username : Name) (s : System) : List Name :=
  (s.table.filter fun row => row.2 = username).keys

def exists? (name : Name) (s : System) : Bool :=
  name ∈ s.accounts || (s.table.get? name).isSome

/-- An `IntegrityError` is passed over. -/
def put (username name : Name) (s : System) : System :=
  if (s.table.get? name).isSome then s else { s with table := s.table.set name username }

def delete (username : Name) (aliases : List Name) (s : System) : System :=
  { s with table := s.table.filter fun row => !(row.2 = username && row.1 ∈ aliases) }

def addUser (username : Name) (s : System) : System :=
  if username ∈ s.accounts then s else { s with accounts := s.accounts ++ [username] }

/-! ## The forms -/

/-- `$` -/
def atEnd : Pattern Unit := fun s =>
  if s = [] ∨ s = ['\n'] then [((), s)] else []

def isLowerOrDigit (c : Char) : Bool :=
  'a' ≤ c ∧ c ≤ 'z' ∨ '0' ≤ c ∧ c ≤ '9'

/-- `^[a-z0-9-_\.]+$` -/
def legal : Pattern Unit := do
  let _ ← many1 fun c => isLowerOrDigit c || c ∈ ['-', '_', '.']
  atEnd

/-- `^[a-z0-9].*[a-z0-9]$` -/
def enclosed : Pattern Unit := do
  let _ ← char isLowerOrDigit
  let _ ← many notNewline
  let _ ← char isLowerOrDigit
  atEnd

/-- `^[0-9]+$` -/
def number : Pattern Unit := do
  let _ ← many1 Char.isDigit
  atEnd

/-- The value of the field and then `clean_alias`. -/
def cleanAlias (data : List Char) (s : System) : Option Name :=
  let field := Text.strip data
  let value := env.lower (Text.strip data)
  if field.length < 2 ∨ 50 < field.length ∨ '\x00' ∈ field then none
  else if (match? legal value).isNone then none
  else if (match? enclosed value).isNone then none
  else if (match? number value).isSome then none
  else if exists? value s then none
  else some value

/-- `[\w.@]` -/
def isUsernameStart (c : Char) : Bool :=
  c.isAlphanum || c ∈ ['_', '.', '@']

/-- `^[\w.@][\w.@-]+\Z`, of at most 150 characters -/
def isUsername (username : Name) : Bool :=
  username.length ≤ 150 && fullmatch (do
    let _ ← char isUsernameStart
    many1 fun c => isUsernameStart c || c = '-') username

def isValidNewUsername (username : Name) (s : System) : Bool :=
  env.lower username ∉ s.accounts.map env.lower && !env.isUsernameReserved (env.lower username)

def validate (s : System) : Request → Option Submission
  | .createAlias username data => (cleanAlias env data s).map (.put username)
  | .deleteAliases username aliases =>
    if aliases ≠ [] ∧ ∀ name ∈ aliases, name ∈ get username s then some (.delete username aliases)
    else none
  | .createUser username =>
    if isUsername username ∧ isValidNewUsername env username s then some (.addUser username)
    else none

def store (s : System) : Submission → System
  | .put username name => put username name s
  | .delete username aliases => delete username aliases s
  | .addUser username => addUser username s

/-! ## Runs -/

inductive Step
  | validate (request : Request)
  | store (index : Nat)
  deriving DecidableEq, Repr

def step (s : System) : Step → System
  | .validate request => { s with valid := s.valid ++ (validate env s request).toList }
  | .store index =>
    match s.valid[index]? with
    | some submission => store { s with valid := s.valid.eraseIdx index } submission
    | none => s

def run (s : System) (steps : List Step) : System :=
  steps.foldl (step env) s

/-! ## What is to be kept -/

def NoTakeover (s : System) : Prop :=
  ∀ name owner, s.table.get? name = some owner → name ∈ s.accounts → name = owner

/-- What storing a submission does: an alias belongs to the one who has asked for it, and only
aliases of the one who has asked for it are removed. -/
def IsServed (s s' : System) : Submission → Prop
  | .put username name => s'.table.get? name = some username
  | .delete username _ => ∀ name owner, s.table.get? name = some owner →
      s'.table.get? name = some owner ∨ owner = username
  | .addUser _ => True

/-- A step after which no alias takes over mail, and in which a submission is served. -/
def IsSafeStep (s : System) (made : Step) : Prop :=
  NoTakeover (step env s made) ∧ ∀ index submission, made = .store index →
    s.valid[index]? = some submission → IsServed s (step env s made) submission

/-- What has to hold when a submission is stored: an alias is not another user's, or, if there is
none yet, not another user's name; a user name is not an alias of someone else. -/
def IsFree (s : System) : Submission → Prop
  | .put username name =>
    match s.table.get? name with
    | some owner => owner = username
    | none => name ∈ s.accounts → name = username
  | .delete _ _ => True
  | .addUser username => ∀ owner, s.table.get? username = some owner → username = owner

end Plinth.Email.Aliases
