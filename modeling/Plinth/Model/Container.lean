import Plinth.Lib.Effect
import Plinth.Lib.Python.Value

/-!
# Containers

`enable`, `disable`, `is_enabled` and `setup` of `plinth/container.py` with what they do through
`plinth/privileged/container.py` and the `podman_` functions of `plinth/action_utils.py`. Of the
`.container` file the values of `WantedBy` in the section `Install` are kept: there are none when
there is no file.
-/

namespace Plinth.Container

open Effect Python

structure System where
  wantedBy : List String
  running : Bool
  deriving DecidableEq, Repr

inductive Step
  | isEnabled
  /-- removing the volume, pulling the image, writing the `.volume` file -/
  | prepare
  | openServiceFile
  | writeServiceFile
  | fallbackServiceFile
  | daemonReload
  | start
  /-- `aug.save` in `podman_disable` -/
  | saveDisabled
  deriving DecidableEq, Repr

structure Failures where
  raises : Step → Option Exception
  /-- the values of `WantedBy` in what has been written when writing the file raises -/
  written : List String

abbrev Action := Effect System Exception

variable (failures : Failures)

def attempt (step : Step) : Action Unit :=
  match failures.raises step with
  | some e => throw e
  | none => pure ()

def defaultTarget : String :=
  "default.target"

def setWantedBy (wantedBy : List String) : Action Unit :=
  modify fun s => { s with wantedBy := wantedBy }

def setRunning (running : Bool) : Action Unit :=
  modify fun s => { s with running := running }

def podmanIsEnabled (s : System) : Bool :=
  s.wantedBy.any (· = defaultTarget)

def podmanEnable (s : System) : System :=
  if podmanIsEnabled s then s else { s with wantedBy := s.wantedBy ++ [defaultTarget] }

/-- `service_file.write_text(contents)` -/
def writeServiceFile : Action Unit := do
  attempt failures .openServiceFile
  setWantedBy (if (failures.raises .writeServiceFile).isSome then failures.written
    else [defaultTarget])
  attempt failures .writeServiceFile

def podmanCreate : Action Unit := do
  setRunning false
  attempt failures .prepare
  writeServiceFile failures
  attempt failures .fallbackServiceFile
  attempt failures .daemonReload

def containerSetup : Action Unit := do
  podmanCreate failures
  attempt failures .start
  setRunning true

def containerDisable : Action Unit := do
  setRunning false
  attempt failures .saveDisabled
  setWantedBy []

def setup (oldVersion : Nat) : Action Unit := do
  attempt failures .isEnabled
  let shouldDisable := oldVersion ≠ 0 ∧ podmanIsEnabled (← get) = false
  containerSetup failures
  when shouldDisable (containerDisable failures)

/-! ## Calls -/

structure Setup where
  oldVersion : Nat
  isAgain : 0 < oldVersion
  failures : Failures

inductive Call
  | enable
  | disable
  | setup (setup : Setup)

def noFailures : Failures where
  raises _ := none
  written := []

def call (s : System) : Call → System
  | .enable => { podmanEnable s with running := true }
  | .disable => ((containerDisable noFailures).exec s).2
  | .setup again => ((setup again.failures again.oldVersion).exec s).2

def calls (s : System) (made : List Call) : System :=
  made.foldl call s

/-- What the last call of `enable` or `disable` has chosen, after an earlier choice. -/
def chosen (earlier : Bool) (made : List Call) : Bool :=
  made.foldl (fun choice call =>
    match call with
    | .enable => true
    | .disable => false
    | .setup _ => choice) earlier

end Plinth.Container
