import Plinth.Lib.Lookup
import Plinth.Lib.Python.Value

/-!
# Sites of ikiwiki

`plinth/modules/ikiwiki/privileged.py`, lines 13 to 20 and 85 to 106: the folders of a site, and how
they are deleted. The program runs as root, so a deletion fails only for what is there.
-/

namespace Plinth.Ikiwiki

open Effect Python Exception Lookup

structure State where
  tree : Tree
  aimed : List (Option Location)

abbrev Action := Effect State Exception

def SITE_PATH : List Char := "/var/www/ikiwiki".toList

def WIKI_PATH : List Char := "/var/lib/ikiwiki".toList

def git : List Char := ".git".toList

def setup : List Char := ".setup".toList

def without (tree : Tree) (locations : List Location) : Tree :=
  fun location => if ∃ removed ∈ locations, removed <+: location then none else tree location

def emptied (tree : Tree) (location : Location) : Tree :=
  fun other => if location <+: other ∧ other ≠ location then none else tree other

/-! ## Paths of Python -/

/-- What has been resolved of a path, and whether no link has led back to itself. -/
def realStep (tree : Tree) (follow : Location → List Char → List Char → Location × Bool)
    (resolved : Location × Bool) (name : List Char) : Location × Bool :=
  match resolved with
  | (location, false) => (location ++ [name], false)
  | (location, true) =>
    if name = [] ∨ name = ['.'] then (location, true)
    else if name = ['.', '.'] then (location.dropLast, true)
    else match tree (location ++ [name]) with
      | some (.link target) => follow location name target
      | _ => (location ++ [name], true)

def joinReal (tree : Tree) : Nat → Location → List Char → List Char → Location × Bool
  | 0, location, name, _ => (location ++ [name], false)
  | depth + 1, location, _, path =>
    (path.splitOn '/').foldl (realStep tree (joinReal tree depth))
      (if path.head? = some '/' then [] else location, true)

/-- `os.path.realpath` of an absolute path -/
def realpath (depth : Nat) (tree : Tree) (path : List Char) : List Char :=
  match (joinReal tree depth [] [] path).1 with
  | [] => ['/']
  | names => Path.join '/' names

def isSafePath (depth : Nat) (tree : Tree) (basedir path : List Char) : Bool :=
  Text.startswith (realpath depth tree path) basedir

/-! ## Deletion -/

section Delete

variable (depth : Nat)

/-- A folder is not removed itself by the names that folders have for themselves and for the one
above. -/
def removed (tree : Tree) (path : List Char) : Except Failure Location → Tree
  | .ok location =>
    if tree location = some .directory then
      if lastName path = ['.'] ∨ lastName path = ['.', '.'] then emptied tree location
      else without tree [location]
    else tree
  | .error _ => tree

/-- `shutil.rmtree(path, ignore_errors=True)` -/
def rmtree (path : List Char) : Action Unit :=
  modify fun s =>
    ⟨removed s.tree path (place s.tree depth [] path),
      s.aimed ++ [(place s.tree depth [] path).toOption]⟩

def OSError : Exception :=
  ⟨builtin "OSError" [.exception], []⟩

def unlinkAt (tree : Tree) : Except Failure Location → Action Unit
  | .ok location =>
    match tree location with
    | some .directory => throw OSError
    | some _ => modify fun s => ⟨without s.tree [location], s.aimed⟩
    | none => pure ()
  | .error .missing => pure ()
  | .error _ => throw OSError

/-- `pathlib.Path(path).unlink(missing_ok=True)` -/
def unlink (path : List Char) : Action Unit := do
  let s ← get
  modify fun s => ⟨s.tree, s.aimed ++ [(place s.tree depth [] path).toOption]⟩
  unlinkAt s.tree (place s.tree depth [] path)

def htmlFolder (name : List Char) : List Char :=
  Os.join SITE_PATH name

def wikiFolder (name : List Char) : List Char :=
  Os.join WIKI_PATH name

def isRefused (tree : Tree) (name : List Char) : Bool :=
  name.contains '\x00' || !(isSafePath depth tree SITE_PATH (htmlFolder name) &&
    isSafePath depth tree WIKI_PATH (wikiFolder name))

def notACorrectName : Exception :=
  ValueError "not a correct wiki/blog name"

def remove (name : List Char) : Action Unit := do
  rmtree depth (htmlFolder name)
  rmtree depth (wikiFolder name)
  rmtree depth (wikiFolder name ++ git)
  unlink depth (wikiFolder name ++ setup)

def delete (name : List Char) : Action Unit := do
  if isRefused depth (← get).tree name then throw notACorrectName else remove depth name

end Delete

/-! ## Sites -/

def siteBase : Location := ["var".toList, "www".toList, "ikiwiki".toList]

def wikiBase : Location := ["var".toList, "lib".toList, "ikiwiki".toList]

def folders (site : List Char) : List Location :=
  [siteBase ++ [site], wikiBase ++ [site], wikiBase ++ [site ++ git]]

def setupFile (site : List Char) : Location :=
  wikiBase ++ [site ++ setup]

def places (site : List Char) : List Location :=
  folders site ++ [setupFile site]

/-- What `get_sites` lists. -/
def IsSite (depth : Nat) (tree : Tree) (site : List Char) : Prop :=
  Path.IsName '.' site ∧
    (tree (siteBase ++ [site]) = some .directory ∨
      ∃ target location, tree (siteBase ++ [site]) = some (.link target) ∧
        walk tree depth siteBase target = .ok location ∧ tree location = some .directory)

def ownFolders (tree : Tree) (site : List Char) : List Location :=
  (folders site).filter fun location => tree location = some .directory

def own (tree : Tree) (site : List Char) : List Location :=
  ownFolders tree site ++ if tree (setupFile site) = none then [] else [setupFile site]

structure Deleted (depth : Nat) (tree tree' : Tree) (site : List Char) : Prop where
  exact_ : tree' = without tree (own tree site)
  gone : ∀ location ∈ folders site, tree' location = none ∨ tree' location = some .file
  others : ∀ other, IsSite depth tree other → other ≠ site → ∀ location ∈ places other,
    ∀ inside, location <+: inside → tree' inside = tree inside

def Confined (depth : Nat) (tree : Tree) (name : List Char) : Prop :=
  (delete depth name).exec ⟨tree, []⟩ = (.error notACorrectName, ⟨tree, []⟩) ∨
    ∃ site tree', Path.IsName '.' site ∧
      (delete depth name).exec ⟨tree, []⟩ = (.ok (), ⟨tree', (places site).map some⟩) ∧
      Deleted depth tree tree' site

/-- The name leads to the places of a site, which are no links and not those of another one. -/
structure Addresses (depth : Nat) (tree : Tree) (name site : List Char) : Prop where
  isName : Path.IsName '.' site
  last : lastName name = site
  html : parent tree depth [] (htmlFolder name) = .ok siteBase
  wiki : parent (without tree (ownFolders tree site)) depth [] (wikiFolder name) = .ok wikiBase
  noLink : ∀ location ∈ folders site, ∀ target, tree location ≠ some (.link target)
  noDirectory : tree (setupFile site) ≠ some .directory
  apart : ∀ other, IsSite depth tree other → other ≠ site → ∀ location ∈ own tree site,
    location ∉ places other

end Plinth.Ikiwiki
