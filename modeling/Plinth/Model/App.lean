import Plinth.Lib.OrderedDict

/-!
# Ordering the apps

`plinth/app.py`, `_sort_apps` and `_insert_apps`. The dictionary of the remaining apps and the
list of the ordered ones are shared by the whole recursion and keep their changes when it is
left by an exception.
-/

namespace Plinth

structure App.Info where
  depends : List String
  isEssential : Bool
  deriving DecidableEq, Repr

structure App where
  info : App.Info
  deriving DecidableEq, Repr

namespace App

/-- `remaining_apps` and `ordered_apps`. -/
structure Sorting where
  remaining : OrderedDict String App
  ordered : List String

inductive Outcome
  | done
  | keyError
  /-- the recursion bound of the model, which `sortApps` chooses large enough -/
  | outOfFuel
  deriving DecidableEq, Repr

/-- The loop of `_insert_apps` over the dependencies. -/
def insertDependencies (insert : String → App → Sorting → Outcome × Sorting) :
    List String → Sorting → Outcome × Sorting
  | [], s => (.done, s)
  | dependency :: rest, s =>
    if dependency ∈ s.ordered then insertDependencies insert rest s
    else match s.remaining.get? dependency with
      -- not found or circular dependency
      | none => (.keyError, s)
      | some app =>
        match insert dependency app { s with remaining := s.remaining.erase dependency } with
        | (.done, s) => insertDependencies insert rest s
        | failed => failed

def insertApps : Nat → String → App → Sorting → Outcome × Sorting
  | 0, _, _, s => (.outOfFuel, s)
  | fuel + 1, appId, app, s =>
    if appId ∈ s.ordered then (.done, s)
    else match insertDependencies (insertApps fuel) app.info.depends s with
      | (.done, s) => (.done, { s with ordered := s.ordered ++ [appId] })
      | failed => failed

/-- The app ids in the order in which they are visited: sorted by `not is_essential`, which is
stable and puts `False` first. -/
def visitOrder (apps : OrderedDict String App) : List String :=
  apps.keys.filter essential ++ apps.keys.filter (!essential ·)
where
  essential (appId : String) : Bool := (apps.get? appId).any (·.info.isEssential)

def visit (fuel : Nat) (s : Sorting) (appId : String) : Option Sorting :=
  match s.remaining.get? appId with
  | none => some s
  | some app =>
    match insertApps fuel appId app { s with remaining := s.remaining.erase appId } with
    | (.outOfFuel, _) => none
    | (_, s) => some s

/-- The new value of `App._all_apps`; `none` only when the recursion bound is hit. -/
def sortApps (apps : OrderedDict String App) : Option (OrderedDict String App) :=
  let fuel := apps.entries.length + 1
  ((visitOrder apps).foldlM (visit fuel) ⟨apps, []⟩).map fun s =>
    .ofEntries (s.ordered.filterMap fun appId => (apps.get? appId).map fun app => (appId, app))

end App

end Plinth
