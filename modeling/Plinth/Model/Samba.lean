import Plinth.Lib.Effect
import Plinth.Lib.Python.Os
import Plinth.Lib.Python.Value

/-!
# Shares of Samba

`plinth/modules/samba/privileged.py`. The shares are kept by name in the registry of Samba, which
`net conf` changes and lists; of the parameters of a share only its path is read again.
-/

namespace Plinth.Samba

open Effect Python Exception

inductive ShareType
  | open_
  | group
  | home
  deriving DecidableEq, Repr

structure Environment where
  /-- `os.path.ismount` of a path in normal form -/
  isMount : List Char → Bool
  /-- The mount point has a directory `var`, which is on the same device. -/
  varOnSameDevice : List Char → Bool
  /-- `net conf addshare` takes the name. -/
  accepts : List Char → Bool
  /-- What names have in common that `net conf` takes for the same. -/
  fold : List Char → List Char

abbrev Registry := List (List Char × List Char)

abbrev Call := Effect Registry Exception Unit

structure Share where
  name : List Char
  mountPoint : List Char
  path : List Char
  shareType : ShareType
  deriving DecidableEq, Repr

def CalledProcessError (command : String) : Exception :=
  ⟨⟨"subprocess", "CalledProcessError", "CalledProcessError", [.exception]⟩, [.str command]⟩

def groupSuffix : List Char := "_group".toList

def homeSuffix : List Char := "_home".toList

def varShares : List Char := "var/lib/freedombox/shares/".toList

def libShares : List Char := "lib/freedombox/shares/".toList

def freedomboxShares : List Char := "FreedomBox/shares/".toList

section Samba

variable (env : Environment)

/-! ## The command `net conf` -/

def delshare (name : List Char) : Call := do
  if (← get).any (fun entry => env.fold entry.1 = env.fold name) then
    modify fun registry => registry.filter fun entry => env.fold entry.1 ≠ env.fold name
  else throw (CalledProcessError "net conf delshare")

def addshare (name path : List Char) : Call := do
  if env.accepts name = true ∧
      ¬ (← get).any (fun entry => env.fold entry.1 = env.fold name) then
    modify fun registry => registry ++ [(name, path)]
  else throw (CalledProcessError "net conf addshare")

/-- The sections that the parser reads of what `net conf list` prints: `DEFAULT` is not one. -/
def sections (registry : Registry) : Registry :=
  registry.filter fun entry => entry.1 ≠ "DEFAULT".toList

/-! ## Names and paths -/

def getSharesPath (mountPoint : List Char) : List Char :=
  if mountPoint = "/var".toList then libShares
  else if env.varOnSameDevice mountPoint then varShares
  else freedomboxShares

def subdir : ShareType → List Char
  | .open_ => "open_share".toList
  | .group => "group_share".toList
  | .home => "homes".toList

def sharePath (mountPoint : List Char) (shareType : ShareType) : List Char :=
  Os.join (Os.join mountPoint (getSharesPath env mountPoint)) (subdir shareType)

def createShareName (mountPoint : List Char) : List Char :=
  if Os.basename mountPoint = [] then "disk".toList else Os.basename mountPoint

def getMountPoint (path : List Char) : List Char :=
  let subpath :=
    if '/' :: varShares <:+: path then
      if env.isMount (Os.normpath (Text.before libShares path)) then libShares else varShares
    else freedomboxShares
  Text.before subpath path

/-! ## Shares -/

def defineShare (name path : List Char) : Call := do
  tryCatch (delshare env name) fun _ => pure ()
  addshare env name path

def defineOpenShare (name path : List Char) : Call :=
  defineShare env name path

def defineGroupShare (name path : List Char) : Call :=
  defineShare env name path

def defineHomesShare (name path : List Char) : Call :=
  defineShare env name (Os.join path "%u".toList)

def createShare (mountPoint : List Char) (shareType : ShareType) : Call :=
  let path := sharePath env mountPoint shareType
  let shareName := createShareName mountPoint
  match shareType with
  | .open_ => defineOpenShare env shareName path
  | .group => defineGroupShare env (shareName ++ groupSuffix) path
  | .home => defineHomesShare env (shareName ++ homeSuffix) path

def shareTypeOf (name : List Char) : ShareType :=
  if groupSuffix.isSuffixOf name then .group
  else if homeSuffix.isSuffixOf name then .home
  else .open_

def readShare (entry : List Char × List Char) : Share where
  name := entry.1
  mountPoint := Os.normpath (getMountPoint env entry.2)
  path := entry.2
  shareType := shareTypeOf entry.1

def getShares (registry : Registry) : List Share :=
  (sections registry).map (readShare env)

def addShare (mountPoint : List Char) (shareType : ShareType) : Call :=
  let mountPoint := Os.normpath mountPoint
  if env.isMount mountPoint then createShare env mountPoint shareType
  else throw (RuntimeError ("Path \"" ++ String.ofList mountPoint ++ "\" is not a mount point."))

def deleteShare (mountPoint : List Char) (shareType : ShareType) : Call := do
  let mountPoint := Os.normpath mountPoint
  let shares := getShares env (← get)
  forEach shares fun share =>
    Effect.when (share.mountPoint = mountPoint ∧ share.shareType = shareType)
      (delshare env share.name)

end Samba

/-! ## Calls in any order -/

structure MountPoint where
  path : List Char
  absolute : path.head? = some '/'
  normal : Os.normpath path = path

instance : DecidableEq MountPoint := fun m m' =>
  decidable_of_iff (m.path = m'.path) (by cases m; cases m'; simp)

inductive Event
  | addShare (mountPoint : MountPoint) (shareType : ShareType)
  | deleteShare (mountPoint : MountPoint) (shareType : ShareType)
  deriving DecidableEq

def call (env : Environment) : Event → Call
  | .addShare mountPoint shareType => addShare env mountPoint.path shareType
  | .deleteShare mountPoint shareType => deleteShare env mountPoint.path shareType

def step (env : Environment) (registry : Registry) (event : Event) : Registry :=
  ((call env event).exec registry).2

end Plinth.Samba
