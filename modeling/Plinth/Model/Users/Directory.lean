import Plinth.Lib.Effect
import Plinth.Lib.Python.Text
import Plinth.Lib.Python.Value

/-!
# The directory of users

The privileged actions of `plinth/modules/users/privileged.py`, on an LDAP directory that tells
names apart up to `fold`. A command fails when its input does not fit the directory, and may fail
for reasons of its own.
-/

namespace Plinth.Users.Ldap

open Python Exception Effect

structure Account where
  /-- `uid` -/
  name : String
  password : Option String
  /-- `pwdAccountLockedTime` is set. -/
  isLocked : Bool
  /-- the directory below `/home` -/
  home : String
  deriving DecidableEq, Repr

structure Group where
  /-- `cn` -/
  name : String
  /-- `memberUid` -/
  members : List String
  deriving DecidableEq, Repr

structure Machine where
  accounts : List Account
  groups : List Group
  samba : List String
  homes : OrderedDict String String
  /-- Whether each of the next commands fails for a reason of its own. -/
  faults : List Bool

def PermissionError (message : String) : Exception :=
  ⟨builtin "PermissionError" [.exception, .permissionError], [.str message]⟩

def OSError : Exception :=
  ⟨builtin "OSError" [.exception], []⟩

def CalledProcessError : Exception :=
  ⟨⟨"subprocess", "CalledProcessError", "CalledProcessError", [.exception]⟩, []⟩

abbrev Action := Effect Machine Exception

/-! ## Commands -/

def fails : Action Bool := do
  let m ← get
  set { m with faults := m.faults.tail }
  return m.faults.head? = some true

def command (failure : Exception) (change : Machine → Option Machine) : Action Unit := do
  if (← fails) then throw failure
  else
    match change (← get) with
    | none => throw failure
    | some m => set m

def lookUp : Action Unit :=
  command CalledProcessError some

section Names

variable (fold : String → String)

def Group.has (group : Group) (username : String) : Bool :=
  group.members.any fun member => fold member = fold username

namespace Machine

def account? (m : Machine) (username : String) : Option Account :=
  m.accounts.find? fun account => fold account.name = fold username

def group? (m : Machine) (groupname : String) : Option Group :=
  m.groups.find? fun group => fold group.name = fold groupname

def members (m : Machine) (groupname : String) : List String :=
  match m.group? fold groupname with
  | none => []
  | some group => group.members

def groupsOf (m : Machine) (username : String) : List String :=
  (m.groups.filter fun group => group.has fold username).map Group.name

def mapAccount (username : String) (change : Account → Account) (m : Machine) : Option Machine :=
  if (m.account? fold username).isSome then
    some { m with
      accounts := m.accounts.map fun account =>
        if fold account.name = fold username then change account else account }
  else none

def mapGroup (groupname : String) (change : Group → Group) (m : Machine) : Machine :=
  { m with
    groups := m.groups.map fun group =>
      if fold group.name = fold groupname then change group else group }

def isAuthenticated (m : Machine) (username : String) (password : Option String) : Bool :=
  match m.account? fold username with
  | none => false
  | some account => account.password.isSome ∧ account.password = password ∧ ¬ account.isLocked

end Machine

def ldapadduser (username : String) (m : Machine) : Option Machine :=
  if (m.account? fold username).isSome then none
  else some { m with accounts := m.accounts ++ [⟨username, none, false, username⟩] }

def ldapsetpasswd (username password : String) : Machine → Option Machine :=
  Machine.mapAccount fold username fun account => { account with password := some password }

def ldapdeleteuser (username : String) (m : Machine) : Option Machine :=
  if (m.account? fold username).isSome then
    some { m with accounts := m.accounts.filter fun account => fold account.name ≠ fold username }
  else none

def ldaprenameuser (oldUsername newUsername : String) (m : Machine) : Option Machine :=
  if (m.account? fold newUsername).isSome then none
  else m.mapAccount fold oldUsername fun account => { account with name := newUsername }

def setHome (username home : String) : Machine → Option Machine :=
  Machine.mapAccount fold username fun account => { account with home := home }

def setLocked (username : String) (isLocked : Bool) : Machine → Option Machine :=
  Machine.mapAccount fold username fun account => { account with isLocked := isLocked }

def ldapaddgroup (groupname : String) (m : Machine) : Option Machine :=
  if (m.group? fold groupname).isSome then none
  else some { m with groups := m.groups ++ [⟨groupname, []⟩] }

def ldaprenamegroup (oldGroupname newGroupname : String) (m : Machine) : Option Machine :=
  if (m.group? fold newGroupname).isSome ∨ m.group? fold oldGroupname = none then none
  else some (m.mapGroup fold oldGroupname fun group => { group with name := newGroupname })

def ldapdeletegroup (groupname : String) (m : Machine) : Option Machine :=
  if (m.group? fold groupname).isSome then
    some { m with groups := m.groups.filter fun group => fold group.name ≠ fold groupname }
  else none

def ldapaddusertogroup (username groupname : String) (m : Machine) : Option Machine :=
  match m.group? fold groupname with
  | none => none
  | some group =>
    if group.has fold username then none
    else some (m.mapGroup fold groupname fun group =>
      { group with members := group.members ++ [username] })

def ldapdeleteuserfromgroup (username groupname : String) (m : Machine) : Option Machine :=
  match m.group? fold groupname with
  | none => none
  | some group =>
    if group.has fold username then
      some (m.mapGroup fold groupname fun group =>
        { group with members := group.members.filter fun member => fold member ≠ fold username })
    else none

def run (change : Machine → Option Machine) : Action Unit :=
  command CalledProcessError change

/-! ## Checks -/

/-- `_get_admin_users` -/
def getAdminUsers : Action (List String) := do
  lookUp
  return (← get).members fold "admin"

/-- `_validate_password` -/
def validatePassword (username : String) (password : Option String) : Action Unit := do
  if (← get).isAuthenticated fold username password then return ()
  else throw (PermissionError "Invalid credentials")

def givenName (username : Option String) : Action String :=
  match username with
  | none => throw (PermissionError "Authentication user is required")
  | some username =>
    if username = "" then throw (PermissionError "Authentication user is required")
    else return username

/-- `_validate_user` -/
def validateUser (username password : Option String) (mustBeAdmin : Bool) : Action Unit := do
  if mustBeAdmin then
    let admins ← getAdminUsers fold
    if admins = [] then return ()
    else
      let username ← givenName username
      if username ∉ admins then
        throw (PermissionError ("\"" ++ username ++ "\" is not authorized to perform this action"))
      else validatePassword fold username password
  else
    let username ← givenName username
    validatePassword fold username password

/-- `pathlib.Path(username).parts` -/
def pathParts (username : List Char) : List (List Char) :=
  let parts := (username.splitOn '/').filter fun part => part ≠ [] ∧ part ≠ ['.']
  if username.head? = some '/' then
    (if username = ['/', '/'] then ['/', '/'] else ['/']) :: parts
  else parts

/-- `_validate_username` -/
def validateUsername (username : String) : Action Unit :=
  match (pathParts username.toList).getLast? with
  | none => throw (IndexError "tuple index out of range")
  | some part =>
    if part ≠ username.toList then throw (ValueError "Invalid username") else return ()

/-! ## Actions -/

/-- `_get_samba_users` -/
def getSambaUsers : Action (List String) := do
  lookUp
  return (← get).samba

/-- `_disconnect_samba_user` -/
def disconnectSambaUser : Action Unit :=
  lookUp

/-- `_delete_samba_user` -/
def deleteSambaUser (username : String) : Action Unit := do
  let users ← getSambaUsers
  if username ∈ users then
    run fun m => some { m with samba := m.samba.filter (· ≠ username) }
    disconnectSambaUser

/-- `_set_samba_user` -/
def setSambaUser (username : String) : Action Unit :=
  command (RuntimeError "Unable to add Samba user: ") fun m =>
    some { m with samba := if username ∈ m.samba then m.samba else m.samba ++ [username] }

/-- `_user_exists` -/
def userExists (username : String) : Action Bool := do
  lookUp
  return ((← get).account? fold username).isSome

/-- `_get_user_groups` -/
def getUserGroups (username : String) : Action (List String) := do
  lookUp
  let m ← get
  match m.account? fold username with
  | none => return []
  | some _ => return m.groupsOf fold username

/-- `_get_user_home` -/
def getUserHome (username : String) : Action String := do
  lookUp
  match (← get).account? fold username with
  | none => throw CalledProcessError
  | some account => return account.home

/-- `_set_user_password` -/
def setPassword (username password : String) : Action Unit := do
  lookUp
  run (ldapsetpasswd fold username password)

/-- `_group_exists` -/
def groupExists (groupname : String) : Action Bool := do
  if (← fails) then return false
  else return ((← get).group? fold groupname).isSome

/-- `_create_group` -/
def ensureGroup (groupname : String) : Action Unit := do
  let found ← groupExists fold groupname
  if found then return () else run (ldapaddgroup fold groupname)

/-- `_add_user_to_group` -/
def addMember (username groupname : String) : Action Unit := do
  ensureGroup fold groupname
  run (ldapaddusertogroup fold username groupname)

/-- `_remove_user_from_group` -/
def removeMember (username groupname : String) : Action Unit :=
  run (ldapdeleteuserfromgroup fold username groupname)

def createUser (username password : String) (authUser authPassword : Option String) :
    Action Unit := do
  validateUsername username
  validateUser fold authUser authPassword true
  run (ldapadduser fold username)
  setPassword fold username password
  setSambaUser username

def removeUser (username authUser authPassword : String) : Action Unit := do
  validateUsername username
  validateUser fold (some authUser) (some authPassword) true
  let groups ← getUserGroups fold username
  deleteSambaUser username
  forEach groups fun group => removeMember fold username group
  if (← userExists fold username) then
    let _ ← getUserHome fold username
    run (ldapdeleteuser fold username)

/-- `old_home.with_name(new_username)`, moved there unless something is in the way. -/
def moveHome (oldHome newUsername : String) : Action (Option String) := do
  if '/' ∈ newUsername.toList then throw (ValueError "Invalid name")
  else
    let m ← get
    if (m.homes.get? newUsername).isSome then return none
    else
      match m.homes.get? oldHome with
      | none => return some newUsername
      | some keys => do
          command OSError fun m =>
            some { m with homes := (m.homes.erase oldHome).set newUsername keys }
          return some newUsername

/-- `_rename_ldap_user` -/
def renameLdapUser (oldUsername newUsername : String) (newHome : Option String) : Action Unit := do
  run (ldaprenameuser fold oldUsername newUsername)
  run fun m =>
    match newHome with
    | none => Machine.mapAccount fold newUsername id m
    | some home => setHome fold newUsername home m

def renameUser (oldUsername newUsername : String) : Action Unit := do
  validateUsername oldUsername
  validateUsername newUsername
  let groups ← getUserGroups fold oldUsername
  deleteSambaUser oldUsername
  forEach groups fun group => removeMember fold oldUsername group
  let oldHome ← getUserHome fold oldUsername
  let newHome ← moveHome oldHome newUsername
  renameLdapUser fold oldUsername newUsername newHome
  forEach groups fun group => addMember fold newUsername group

def setUserPassword (username password authUser authPassword : String) : Action Unit := do
  validateUser fold (some authUser) (some authPassword) (username ≠ authUser)
  setPassword fold username password
  setSambaUser username

def createGroup (groupname : String) : Action Unit :=
  ensureGroup fold groupname

def renameGroup (oldGroupname newGroupname : String) : Action Unit := do
  if oldGroupname = "admin" ∨ newGroupname = "admin" then
    throw (ValueError "Can't rename the group \"admin\"")
  else if (← groupExists fold oldGroupname) then
    run (ldaprenamegroup fold oldGroupname newGroupname)

def removeGroup (groupname : String) : Action Unit := do
  if groupname = "admin" then throw (ValueError "Can't remove the group 'admin'")
  else if (← groupExists fold groupname) then
    run (ldapdeletegroup fold groupname)

def addUserToGroup (username groupname : String) (authUser authPassword : Option String) :
    Action Unit := do
  Effect.when (groupname = "admin") (validateUser fold authUser authPassword true)
  addMember fold username groupname

def removeUserFromGroup (username groupname authUser authPassword : String) : Action Unit := do
  Effect.when (groupname = "admin") (validateUser fold (some authUser) (some authPassword) true)
  removeMember fold username groupname
  Effect.when (groupname = "freedombox-share") disconnectSambaUser

/-- `_lock_ldap_user` and `_unlock_ldap_user` -/
def lockLdapUser (username : String) (isLocked : Bool) : Action Unit := do
  if (← userExists fold username) then
    run (setLocked fold username isLocked)

def setUserStatus (username status authUser authPassword : String) : Action Unit := do
  if status ≠ "active" ∧ status ≠ "inactive" then throw (ValueError "Invalid status")
  else
    validateUser fold (some authUser) (some authPassword) true
    lockLdapUser fold username (status = "inactive")
    let users ← getSambaUsers
    Effect.when (username ∈ users) lookUp

/-! ## Calls -/

inductive Call
  | createUser (username password : String) (authUser authPassword : Option String)
  | removeUser (username authUser authPassword : String)
  | renameUser (oldUsername newUsername : String)
  | setUserPassword (username password authUser authPassword : String)
  | createGroup (groupname : String)
  | renameGroup (oldGroupname newGroupname : String)
  | removeGroup (groupname : String)
  | addUserToGroup (username groupname : String) (authUser authPassword : Option String)
  | removeUserFromGroup (username groupname authUser authPassword : String)
  | setUserStatus (username status authUser authPassword : String)
  deriving DecidableEq, Repr

def perform : Call → Action Unit
  | .createUser username password authUser authPassword =>
    createUser fold username password authUser authPassword
  | .removeUser username authUser authPassword => removeUser fold username authUser authPassword
  | .renameUser oldUsername newUsername => renameUser fold oldUsername newUsername
  | .setUserPassword username password authUser authPassword =>
    setUserPassword fold username password authUser authPassword
  | .createGroup groupname => createGroup fold groupname
  | .renameGroup oldGroupname newGroupname => renameGroup fold oldGroupname newGroupname
  | .removeGroup groupname => removeGroup fold groupname
  | .addUserToGroup username groupname authUser authPassword =>
    addUserToGroup fold username groupname authUser authPassword
  | .removeUserFromGroup username groupname authUser authPassword =>
    removeUserFromGroup fold username groupname authUser authPassword
  | .setUserStatus username status authUser authPassword =>
    setUserStatus fold username status authUser authPassword

def Call.credentials : Call → Option String × Option String
  | .createUser _ _ authUser authPassword => (authUser, authPassword)
  | .removeUser _ authUser authPassword => (some authUser, some authPassword)
  | .renameUser _ _ => (none, none)
  | .setUserPassword _ _ authUser authPassword => (some authUser, some authPassword)
  | .createGroup _ => (none, none)
  | .renameGroup _ _ => (none, none)
  | .removeGroup _ => (none, none)
  | .addUserToGroup _ _ authUser authPassword => (authUser, authPassword)
  | .removeUserFromGroup _ _ authUser authPassword => (some authUser, some authPassword)
  | .setUserStatus _ _ authUser authPassword => (some authUser, some authPassword)

def step (m : Machine) (call : Call) : Machine :=
  ((perform fold call).exec m).2

end Names

end Plinth.Users.Ldap
