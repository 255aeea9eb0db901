import Plinth.Lib.Effect
import Plinth.Lib.Path
import Plinth.Lib.Python.Value

/-!
# File systems with symbolic links

A location is the list of names on the way from the root. The text of a link is read only when it
is followed. A location is direct when no link stands on the way to it: that is what resolving a
path gives.
-/

open Python

namespace FileSystem

abbrev Location := List (List Char)

structure Attributes where
  user : String
  group : String
  permissions : Nat
  deriving DecidableEq

structure File where
  content : List Char
  attributes : Attributes
  deriving DecidableEq

inductive Node
  | file (file : File)
  | directory (attributes : Attributes)
  deriving DecidableEq

inductive Entry
  | node (node : Node)
  | link (target : List Char)
  deriving DecidableEq

end FileSystem

open FileSystem in
@[ext] structure FileSystem where
  entry : Location → Option Entry
  cwd : Location
  direct : ∀ location, location <+: cwd → ∀ target, entry location ≠ some (.link target)

namespace FileSystem

variable (fs : FileSystem)

def Direct (location : Location) : Prop :=
  ∀ before, before <+: location → ∀ target, fs.entry before ≠ some (.link target)

def FileNotFoundError : Exception :=
  ⟨Exception.builtin "FileNotFoundError" [.exception, .fileNotFoundError], []⟩

/-! ## Resolving paths -/

def realStep (strict : Bool) (follow : Location → List Char → Except Exception Location)
    (location : Location) (name : List Char) : Except Exception Location :=
  if name = [] ∨ name = ['.'] then .ok location
  else if name = ['.', '.'] then .ok location.dropLast
  else match fs.entry (location ++ [name]) with
    | some (.link target) => follow location target
    | some (.node _) => .ok (location ++ [name])
    | none => if strict then .error FileNotFoundError else .ok (location ++ [name])

def realpath (strict : Bool) : Nat → Location → List Char → Except Exception Location
  | 0, _, _ => .error (Exception.RuntimeError "Symlink loop")
  | depth + 1, location, path =>
    (path.splitOn '/').foldlM (fs.realStep strict (realpath strict depth))
      (if path.head? = some '/' then [] else location)

/-- `pathlib.Path(path).resolve(strict)` -/
def resolve (strict : Bool) (depth : Nat) (path : List Char) : Except Exception Location :=
  fs.realpath strict depth fs.cwd path

def follow (depth : Nat) (location : Location) : Except Exception Location :=
  match fs.entry location with
  | some (.link target) => fs.realpath false depth location.dropLast target
  | _ => .ok location

def stat (depth : Nat) (location : Location) : Option Node :=
  match fs.follow depth location with
  | .error _ => none
  | .ok target =>
    match fs.entry target with
    | some (.node node) => some node
    | _ => none

def isFile (depth : Nat) (location : Location) : Bool :=
  match fs.stat depth location with
  | some (.file _) => true
  | _ => false

def isDir (depth : Nat) (location : Location) : Bool :=
  match fs.stat depth location with
  | some (.directory _) => true
  | _ => false

/-- `pathlib.Path.exists` -/
def existsAt (depth : Nat) (location : Location) : Bool :=
  (fs.stat depth location).isSome

/-! ## Changes -/

def put (location : Location) (node : Option Node) : FileSystem where
  entry := Function.update fs.entry location (node.map .node)
  cwd := fs.cwd
  direct := by
    intro before onTheWay target
    by_cases same : before = location
    · subst same
      rw [Function.update_self]
      cases node <;> simp
    · rw [Function.update_of_ne same]
      exact fs.direct before onTheWay target

def laidOut (fs : FileSystem) (locations : List Location) : FileSystem where
  entry location :=
    match fs.entry location with
    | some entry => some entry
    | none =>
      if ∃ other ∈ locations, location <+: other then
        some (.node (.directory ⟨"root", "root", 0o755⟩))
      else none
  cwd := fs.cwd
  direct := by
    intro location onTheWay target
    have noLink := fs.direct location onTheWay target
    cases there : fs.entry location with
    | some entry => rwa [there] at noLink
    | none =>
      dsimp only
      split <;> simp

@[simp] theorem entry_put_self (location : Location) (node : Option Node) :
    (fs.put location node).entry location = node.map .node :=
  Function.update_self ..

theorem entry_put_of_ne {location other : Location} (node : Option Node)
    (different : other ≠ location) : (fs.put location node).entry other = fs.entry other :=
  Function.update_of_ne different ..

variable {fs}

theorem ext_entry {fs' : FileSystem}
    (entries : ∀ location, fs.entry location = fs'.entry location)
    (cwd : fs.cwd = fs'.cwd) : fs = fs' :=
  FileSystem.ext (funext entries) cwd

theorem put_same {location : Location} {node : Node}
    (there : fs.entry location = some (.node node)) : fs.put location (some node) = fs := by
  apply ext_entry
  · intro other
    by_cases same : other = location
    · subst same
      rw [entry_put_self, there]
      rfl
    · exact entry_put_of_ne fs _ same
  · rfl

theorem put_put (location : Location) (node node' : Option Node) :
    (fs.put location node).put location node' = fs.put location node' := by
  apply ext_entry
  · intro other
    by_cases same : other = location
    · subst same
      rw [entry_put_self, entry_put_self]
    · rw [entry_put_of_ne _ _ same, entry_put_of_ne _ _ same, entry_put_of_ne _ _ same]
  · rfl

theorem put_comm {location other : Location} (different : location ≠ other)
    (node node' : Option Node) :
    (fs.put location node).put other node' = (fs.put other node').put location node := by
  apply ext_entry
  · intro place
    by_cases first : place = location
    · subst first
      rw [entry_put_of_ne _ _ different, entry_put_self, entry_put_self]
    · rw [entry_put_of_ne _ _ first]
      by_cases second : place = other
      · subst second
        rw [entry_put_self, entry_put_self]
      · rw [entry_put_of_ne _ _ second, entry_put_of_ne _ _ second, entry_put_of_ne _ _ first]
  · rfl

/-! ## Resolved paths are direct -/

theorem Direct.dropLast {location : Location} (direct : fs.Direct location) :
    fs.Direct location.dropLast :=
  fun before onTheWay => direct before (onTheWay.trans (List.dropLast_prefix _))

theorem Direct.append {location : Location} {name : List Char} (direct : fs.Direct location)
    (noLink : ∀ target, fs.entry (location ++ [name]) ≠ some (.link target)) :
    fs.Direct (location ++ [name]) := by
  intro before onTheWay target
  rcases List.prefix_concat_iff.mp onTheWay with rfl | shorter
  · exact noLink target
  · exact direct before shorter target

theorem direct_of_realStep {strict : Bool}
    {follow : Location → List Char → Except Exception Location}
    (followed : ∀ location path result, fs.Direct location → follow location path = .ok result →
      fs.Direct result)
    {location result : Location} {name : List Char} (direct : fs.Direct location)
    (step : fs.realStep strict follow location name = .ok result) : fs.Direct result := by
  unfold realStep at step
  split at step
  · cases step
    exact direct
  · split at step
    · cases step
      exact direct.dropLast
    · split at step
      · exact followed _ _ _ direct step
      · rename_i node there
        cases step
        exact direct.append fun target => by simp [there]
      · rename_i missing
        split at step
        · cases step
        · cases step
          exact direct.append fun target => by simp [missing]

theorem direct_of_steps {strict : Bool}
    {follow : Location → List Char → Except Exception Location}
    (followed : ∀ location path result, fs.Direct location → follow location path = .ok result →
      fs.Direct result)
    {names : List (List Char)} {location result : Location} (direct : fs.Direct location)
    (steps : names.foldlM (fs.realStep strict follow) location = .ok result) :
    fs.Direct result := by
  induction names generalizing location with
  | nil =>
    cases steps
    exact direct
  | cons name rest ih =>
    rw [List.foldlM_cons] at steps
    obtain ⟨next, first, others⟩ := Effect.ok_of_bind steps
    exact ih (direct_of_realStep followed direct first) others

theorem direct_of_realpath {strict : Bool} {depth : Nat} {location result : Location}
    {path : List Char} (root : fs.Direct []) (direct : fs.Direct location)
    (resolved : fs.realpath strict depth location path = .ok result) : fs.Direct result := by
  induction depth generalizing location path result with
  | zero => cases resolved
  | succ depth ih =>
    refine direct_of_steps (fun location path result direct => ih direct) ?_ resolved
    split
    · exact root
    · exact direct

theorem direct_root : fs.Direct [] :=
  fun before onTheWay => fs.direct before (onTheWay.trans List.nil_prefix)

theorem direct_of_resolve {strict : Bool} {depth : Nat} {path : List Char} {result : Location}
    (resolved : fs.resolve strict depth path = .ok result) : fs.Direct result :=
  direct_of_realpath direct_root fs.direct resolved

/-! ## What resolving depends on -/

section Congr

variable {fs' : FileSystem}

structure SameLinks (fs fs' : FileSystem) : Prop where
  cwd : fs.cwd = fs'.cwd
  link : ∀ location target,
    fs.entry location = some (.link target) ↔ fs'.entry location = some (.link target)

theorem SameLinks.refl : SameLinks fs fs :=
  ⟨rfl, fun _ _ => Iff.rfl⟩

theorem SameLinks.symm (same : SameLinks fs fs') : SameLinks fs' fs :=
  ⟨same.cwd.symm, fun location target => (same.link location target).symm⟩

theorem SameLinks.trans {fs'' : FileSystem} (same : SameLinks fs fs')
    (same' : SameLinks fs' fs'') : SameLinks fs fs'' :=
  ⟨same.cwd.trans same'.cwd, fun location target =>
    (same.link location target).trans (same'.link location target)⟩

theorem realpath_congr {strict : Bool} (same : SameLinks fs fs')
    (missing : strict = true → ∀ location, location ≠ [] →
      (fs.entry location = none ↔ fs'.entry location = none))
    (depth : Nat) : fs.realpath strict depth = fs'.realpath strict depth := by
  induction depth with
  | zero =>
    funext location path
    rfl
  | succ depth ih =>
    have step : fs.realStep strict (fs.realpath strict depth) =
        fs'.realStep strict (fs'.realpath strict depth) := by
      funext location name
      rw [realStep, realStep, ih]
      split
      · rfl
      · split
        · rfl
        · cases there : fs.entry (location ++ [name]) with
          | none =>
            cases there' : fs'.entry (location ++ [name]) with
            | none => rfl
            | some entry =>
              cases entry with
              | link target => simp [(same.link _ _).mpr there'] at there
              | node node =>
                cases strict with
                | false => rfl
                | true => simp [(missing rfl _ (by simp)).mp there] at there'
          | some entry =>
            cases entry with
            | link target => rw [(same.link _ _).mp there]
            | node node =>
              cases there' : fs'.entry (location ++ [name]) with
              | none =>
                cases strict with
                | false => rfl
                | true => simp [(missing rfl _ (by simp)).mpr there'] at there
              | some entry' =>
                cases entry' with
                | link target => simp [(same.link _ _).mpr there'] at there
                | node node' => rfl
    funext location path
    rw [realpath, realpath, step]

theorem resolve_congr {strict : Bool} (same : SameLinks fs fs')
    (missing : strict = true → ∀ location, location ≠ [] →
      (fs.entry location = none ↔ fs'.entry location = none))
    (depth : Nat) (path : List Char) :
    fs.resolve strict depth path = fs'.resolve strict depth path := by
  rw [resolve, resolve, realpath_congr same missing, same.cwd]

theorem realStep_of_strict {follow follow' : Location → List Char → Except Exception Location}
    (followed : ∀ location path result, follow location path = .ok result →
      follow' location path = .ok result)
    {location result : Location} {name : List Char}
    (step : fs.realStep true follow location name = .ok result) :
    fs.realStep false follow' location name = .ok result := by
  unfold realStep at step ⊢
  by_cases skipped : name = [] ∨ name = ['.']
  · rw [if_pos skipped] at step ⊢
    exact step
  · rw [if_neg skipped] at step ⊢
    by_cases up : name = ['.', '.']
    · rw [if_pos up] at step ⊢
      exact step
    · rw [if_neg up] at step ⊢
      cases there : fs.entry (location ++ [name]) with
      | none =>
        rw [there] at step
        cases step
      | some entry =>
        rw [there] at step
        cases entry with
        | link target => exact followed _ _ _ step
        | node node => exact step

theorem realpath_of_strict {depth : Nat} {location result : Location} {path : List Char}
    (found : fs.realpath true depth location path = .ok result) :
    fs.realpath false depth location path = .ok result := by
  induction depth generalizing location path result with
  | zero => cases found
  | succ depth ih =>
    unfold realpath at found ⊢
    generalize (if path.head? = some '/' then [] else location) = start at found ⊢
    generalize path.splitOn '/' = names at found ⊢
    induction names generalizing start with
    | nil => exact found
    | cons name names rest =>
      rw [List.foldlM_cons] at found ⊢
      obtain ⟨next, first, later⟩ := Effect.ok_of_bind found
      exact Effect.bind_of_ok
        (realStep_of_strict (fun _ _ _ followed => ih followed) first) (rest next later)

theorem resolve_of_strict {depth : Nat} {path : List Char} {result : Location}
    (found : fs.resolve true depth path = .ok result) : fs.resolve false depth path = .ok result :=
  realpath_of_strict found

end Congr

theorem sameLinks_laidOut (locations : List Location) : SameLinks fs (fs.laidOut locations) := by
  refine ⟨rfl, fun location target => ?_⟩
  simp only [laidOut]
  cases fs.entry location with
  | some entry => exact Iff.rfl
  | none =>
    dsimp only
    split <;> simp

theorem entry_laidOut_eq_none (locations : List Location) (location : Location) :
    (fs.laidOut locations).entry location = none ↔
      fs.entry location = none ∧ ¬ ∃ other ∈ locations, location <+: other := by
  simp only [laidOut]
  cases fs.entry location with
  | some entry => simp
  | none =>
    dsimp only
    split <;> simp_all

/-! ## Status -/

theorem follow_of_direct {depth : Nat} {location : Location}
    (noLink : ∀ target, fs.entry location ≠ some (.link target)) :
    fs.follow depth location = .ok location := by
  unfold follow
  split
  · rename_i target there
    exact absurd there (noLink target)
  · rfl

theorem stat_of_direct {depth : Nat} {location : Location} {node : Node}
    (noLink : ∀ target, fs.entry location ≠ some (.link target)) :
    fs.stat depth location = some node ↔ fs.entry location = some (.node node) := by
  rw [stat, follow_of_direct noLink]
  dsimp only
  constructor
  · intro found
    split at found
    · rename_i node' there
      cases found
      exact there
    · cases found
  · intro there
    rw [there]

end FileSystem
