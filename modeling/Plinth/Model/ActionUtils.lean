import Mathlib.Logic.Function.Basic
import Plinth.Lib.Effect
import Plinth.Lib.Python.Value

/-!
# Holding packages and stopping services

The context managers of `plinth/action_utils.py`. The system is what they change and put back:
which packages are on hold, and which units are enabled and run. A step that raises leaves it as
it was, and a command that is run with `check=False` does not raise.
-/

namespace Plinth.ActionUtils

open Effect Python

structure System where
  held : String → Bool
  /-- `apt_hold_flag.exists()` -/
  aptHoldFlag : Bool
  enabled : String → Bool
  running : String → Bool
  /-- `DISABLE_APT_SNAPSHOT` in the defaults of snapper -/
  disableAptSnapshot : Option String

abbrev Action := Effect System Exception Unit

def attempt (raises : Option Exception) (change : System → System) : Action :=
  match raises with
  | some e => throw e
  | none => modify change

def System.setHeld (s : System) (package : String) (held : Bool) : System :=
  { s with held := Function.update s.held package held }

def System.setService (s : System) (name : String) (on : Bool) : System :=
  { s with
    enabled := Function.update s.enabled name on
    running := Function.update s.running name on }

/-! ## Services -/

def serviceEnable (name : String) (s : System) : System :=
  s.setService name true

def serviceDisable (name : String) (s : System) : System :=
  s.setService name false

def serviceEnsureStopped (name : String) (body : Action) : Action := do
  let startingState := (← get).running name
  Effect.when (startingState = true) (modify (serviceDisable name))
  tryFinally body (Effect.when (startingState = true) (modify (serviceEnable name)))

/-! ## Packages -/

inductive AptStep
  | showhold (package : String)
  | touchFlag
  | hold (package : String)
  | unhold (package : String)
  deriving DecidableEq, Repr

section Apt

variable (raises : AptStep → Option Exception)

/-- The loop that holds packages: those that it has held, and what has stopped it. A package that
cannot be held is passed over. -/
def holdPackages (heldPackages : List String) :
    List String → Effect System Exception (List String × Option Exception)
  | [] => pure (heldPackages, none)
  | package :: rest =>
    match raises (.showhold package) with
    | some e => pure (heldPackages, some e)
    | none => do
        let currentHold := (← get).held package
        if currentHold = true ∨ (raises (.hold package)).isSome then
          holdPackages heldPackages rest
        else do
          modify fun s => s.setHeld package true
          holdPackages (heldPackages ++ [package]) rest

def aptHold (packages : List String) (body : Action) : Action := do
  let (heldPackages, stopped) ← holdPackages raises [] packages
  tryFinally
    (match stopped with
      | some e => throw e
      | none => body)
    (forEach heldPackages fun package =>
      attempt (raises (.unhold package)) fun s => s.setHeld package false)

def freedombox : String := "freedombox"

def aptUnholdFreedombox (s : System) : System :=
  { s.setHeld freedombox false with aptHoldFlag := false }

/-- The `finally` of `apt_hold_freedombox`. -/
def leaveHold (currentHold : Bool) (s : System) : System :=
  if currentHold = false ∨ s.aptHoldFlag = true then aptUnholdFreedombox s else s

def aptHoldFreedombox (body : Action) : Action := do
  attempt (raises (.showhold freedombox)) id
  let currentHold := (← get).held freedombox
  tryFinally
    (do
      Effect.when (currentHold = false) do
        attempt (raises .touchFlag) fun s => { s with aptHoldFlag := true }
        attempt (raises (.hold freedombox)) fun s => s.setHeld freedombox true
      body)
    (modify (leaveHold currentHold))

end Apt

/-! ## Contexts of several processes -/

/-- The entry into `apt_hold_freedombox`, when no step of it raises. -/
def enterHold (s : System) : System :=
  if s.held freedombox then s
  else { s.setHeld freedombox true with aptHoldFlag := true }

/-- The contexts that have been entered and not left, each with the hold that it has found. -/
structure Contexts where
  system : System
  active : List (Nat × Bool)

inductive Contexts.Event
  | enter (context : Nat)
  | leave (context : Nat)
  deriving DecidableEq, Repr

def Contexts.currentHold (c : Contexts) (context : Nat) : Option Bool :=
  (c.active.find? fun entry => entry.1 = context).map Prod.snd

def Contexts.step (c : Contexts) : Contexts.Event → Contexts
  | .enter context =>
    match c.currentHold context with
    | some _ => c
    | none => ⟨enterHold c.system, (context, c.system.held freedombox) :: c.active⟩
  | .leave context =>
    match c.currentHold context with
    | some currentHold =>
      ⟨leaveHold currentHold c.system, c.active.filter fun entry => entry.1 ≠ context⟩
    | none => c

end Plinth.ActionUtils
