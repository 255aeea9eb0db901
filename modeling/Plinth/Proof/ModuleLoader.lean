import Plinth.Model.ModuleLoader

/-!
# Import paths that requests can reach

The loader and the resolution of a name walk the same directories. They select the same file for a
name in them, but a name may also be a path, and the resolution falls back to the source tree for
every name that it does not find.
-/

namespace Plinth.ModuleLoader

open Python Exception Actions

/-! ## The last directory -/

theorem foldl_last {α β : Type} (p : α → Bool) (value : α → β) (init : β) (l : List α) :
    l.foldl (fun result a => if p a then value a else result) init =
      (l.filter p).getLast?.elim init value := by
  induction l generalizing init with
  | nil => rfl
  | cons a l ih =>
    rw [List.foldl_cons, ih, List.filter_cons]
    cases holds : p a with
    | false => simp
    | true =>
      rw [if_pos rfl, if_pos rfl, List.getLast?_cons]
      cases (l.filter p).getLast? <;> rfl

def lastWhere (p : Location → Bool) : Option Location :=
  (locations.filter p).getLast?

theorem lastWhere_spec {p : Location → Bool} {location : Location}
    (last : lastWhere p = some location) : p location = true :=
  (List.mem_filter.mp (List.mem_of_getLast? last)).2

theorem lastWhere_congr {p q : Location → Bool} {location : Location}
    (last : lastWhere p = some location) (holds : q location = true)
    (sub : ∀ location, q location = true → p location = true) : lastWhere q = some location := by
  rw [lastWhere, List.getLast?_eq_some_iff] at last ⊢
  obtain ⟨before, split⟩ := last
  have filtered : locations.filter q = (locations.filter p).filter q := by
    rw [List.filter_filter]
    apply List.filter_congr
    intro l _
    cases qHolds : q l with
    | false => rfl
    | true => simp [sub l qHolds]
  refine ⟨before.filter q, ?_⟩
  rw [filtered, split, List.filter_append, List.filter_singleton, holds]
  rfl

/-! ## The file that a name selects -/

def Node.isNull : Node → Bool
  | .nullLink => true
  | _ => false

def isThere : Option Node → Bool
  | some .brokenLink | none => false
  | some _ => true

def selected (fs : FileSystem) (name : List Char) : Path :=
  (lastWhere fun location => isThere (fs.node (join location.path name))).elim
    (developmentFile fs name) fun location =>
      if (fs.node (join location.path name)).any Node.isNull then developmentFile fs name
      else join location.path name

theorem selectFile_eq (fs : FileSystem) (name : List Char) :
    selectFile fs name = fun result location =>
      if isThere (fs.node (join location.path name)) then
        if (fs.node (join location.path name)).any Node.isNull then none
        else some (join location.path name)
      else result := by
  funext result location
  rw [selectFile]
  cases found : fs.node (join location.path name) with
  | none => rfl
  | some node => cases node <;> simp [isThere, Node.isNull]

theorem selected_eq (fs : FileSystem) (name : List Char) :
    (locations.foldl (selectFile fs name) none).getD (developmentFile fs name) =
      selected fs name := by
  rw [selectFile_eq, foldl_last, selected, lastWhere]
  cases (locations.filter fun location => isThere (fs.node (join location.path name))).getLast? with
  | none => rfl
  | some location =>
    by_cases null : (fs.node (join location.path name)).any Node.isNull = true <;> simp [null]

def ImportPath (fs : FileSystem) (file : Path) (path : List Char) : Prop :=
  readModuleImportPathsFromFile fs file = .ok (some path)

theorem getModuleImportPath_iff {fs : FileSystem} {name path : List Char} :
    getModuleImportPath fs name = .ok path ↔ ImportPath fs (selected fs name) path := by
  rw [getModuleImportPath, selected_eq, ImportPath]
  cases readModuleImportPathsFromFile fs (selected fs name) with
  | error e => exact ⟨fun h => (by cases h), fun h => (by cases h)⟩
  | ok importPath =>
    cases importPath with
    | none => exact ⟨fun h => (by cases h), fun h => (by cases h)⟩
    | some importPath =>
      constructor
      · intro h
        cases h
        rfl
      · intro h
        cases h
        rfl

/-! ## The files of the loader -/

def Enabled (fs : FileSystem) (file : Path) : Prop :=
  ∃ name location, IsFileName name ∧ isHidden name = false ∧ file = location.path ++ [name] ∧
    (lastWhere fun location => (fs.node (location.path ++ [name])).isSome) = some location ∧
    (fs.node file).any Node.isNull = false

def fileOf (fs : FileSystem) (location : Location) (name : List Char) : Option Path :=
  if (fs.node (location.path ++ [name])).any Node.isNull then none
  else some (location.path ++ [name])

theorem get?_addFile (fs : FileSystem) (location : Location) (name first : List Char)
    (files : OrderedDict (List Char) Path) :
    (addFile fs location files first).get? name =
      if name = first ∧ isHidden name = false then fileOf fs location name else files.get? name := by
  rw [addFile]
  cases hidden : isHidden first with
  | true =>
    have other : ¬ (name = first ∧ isHidden name = false) := by
      rintro ⟨rfl, visible⟩
      rw [hidden] at visible
      cases visible
    rw [if_pos rfl, if_neg other]
  | false =>
    rw [if_neg Bool.false_ne_true]
    by_cases same : name = first
    · subst same
      rw [if_pos ⟨rfl, hidden⟩, fileOf]
      split
      · rename_i found
        rw [OrderedDict.get?_erase, if_pos rfl, found]
        rfl
      · rename_i other
        rw [OrderedDict.get?_set_self, if_neg]
        intro null
        cases found : fs.node (location.path ++ [name]) with
        | none => simp [found] at null
        | some node =>
          cases node with
          | nullLink => exact other found
          | _ => simp [found, Node.isNull] at null
    · rw [if_neg (fun both => same both.1)]
      split
      · rw [OrderedDict.get?_erase, if_neg same]
      · rw [OrderedDict.get?_set, if_neg same]

theorem get?_addFiles (fs : FileSystem) (location : Location) (name : List Char)
    (names : List (List Char)) (files : OrderedDict (List Char) Path) :
    (names.foldl (addFile fs location) files).get? name =
      if name ∈ names ∧ isHidden name = false then fileOf fs location name
      else files.get? name := by
  induction names generalizing files with
  | nil => simp
  | cons first names ih =>
    rw [List.foldl_cons, ih, get?_addFile]
    by_cases later : name ∈ names
    · by_cases visible : isHidden name = false <;> simp [later, visible]
    · simp [later]

theorem get?_moduleFiles (fs : FileSystem) (name : List Char) :
    (moduleFiles fs).get? name =
      (lastWhere fun location => decide (name ∈ fs.glob location ∧ isHidden name = false)).elim none
        fun location => fileOf fs location name := by
  have step : ∀ (files : OrderedDict (List Char) Path) (location : Location),
      (if decide (name ∈ fs.glob location ∧ isHidden name = false) = true then
        fileOf fs location name else files.get? name) =
        ((fs.glob location).foldl (addFile fs location) files).get? name := by
    intro files location
    rw [get?_addFiles]
    simp only [decide_eq_true_eq]
  have looked : (moduleFiles fs).get? name =
      locations.foldl (fun result location =>
        if decide (name ∈ fs.glob location ∧ isHidden name = false) = true then
          fileOf fs location name else result) ((OrderedDict.empty : OrderedDict _ Path).get? name) := by
    rw [moduleFiles]
    symm
    apply List.foldl_hom (OrderedDict.get? · name)
    exact step
  rw [looked, foldl_last, OrderedDict.get?_empty]
  rfl

theorem mem_values_moduleFiles (fs : FileSystem) (file : Path) :
    file ∈ (moduleFiles fs).values ↔ Enabled fs file := by
  have listed : ∀ name, IsFileName name → isHidden name = false →
      (lastWhere fun location => decide (name ∈ fs.glob location ∧ isHidden name = false)) =
        lastWhere fun location => (fs.node (location.path ++ [name])).isSome := by
    intro name isName visible
    apply congrArg lastWhere
    funext location
    rw [Bool.eq_iff_iff, decide_eq_true_eq, fs.listed]
    exact ⟨fun h => h.1.2, fun h => ⟨⟨isName, h⟩, visible⟩⟩
  rw [OrderedDict.mem_values_iff]
  constructor
  · rintro ⟨name, found⟩
    rw [get?_moduleFiles] at found
    cases last : lastWhere fun location =>
        decide (name ∈ fs.glob location ∧ isHidden name = false) with
    | none =>
      rw [last] at found
      cases found
    | some location =>
      have both := decide_eq_true_eq.mp (lastWhere_spec last)
      have isName := ((fs.listed location name).mp both.1).1
      rw [last, Option.elim_some, fileOf] at found
      split at found
      · cases found
      · rename_i unmasked
        cases found
        rw [listed name isName both.2] at last
        exact ⟨name, location, isName, both.2, rfl, last, by simpa using unmasked⟩
  · rintro ⟨name, location, isName, visible, rfl, last, unmasked⟩
    refine ⟨name, ?_⟩
    rw [get?_moduleFiles, listed name isName visible, last, Option.elim_some, fileOf, unmasked,
      if_neg Bool.false_ne_true]

def Read (fs : FileSystem) (file : Path) : Prop :=
  Enabled fs file ∨ (∀ file, ¬ Enabled fs file) ∧ file ∈ fs.development

theorem read_iff (fs : FileSystem) (file : Path) :
    file ∈ getModulesEnabledFilesToRead fs ↔ Read fs file := by
  have none : (moduleFiles fs).entries = [] ↔ ∀ file, ¬ Enabled fs file := by
    simp only [← mem_values_moduleFiles, ← List.eq_nil_iff_forall_not_mem, OrderedDict.values,
      List.map_eq_nil_iff]
  rw [getModulesEnabledFilesToRead, Read]
  split
  · rename_i empty
    rw [none] at empty
    exact ⟨fun mem => .inr ⟨empty, mem⟩, fun h => h.elim (fun found => absurd found (empty file)) (·.2)⟩
  · rename_i some
    rw [none] at some
    rw [mem_values_moduleFiles]
    exact ⟨.inl, fun h => h.elim id fun h => absurd h.1 some⟩

def Readable (fs : FileSystem) (file : Path) : Prop :=
  ∃ path, readModuleImportPathsFromFile fs file = .ok path

theorem loads_iff (fs : FileSystem) (path : List Char) :
    (∃ modules, getModulesToLoad fs = .ok modules ∧ path ∈ modules) ↔
      (∀ file, Read fs file → Readable fs file) ∧ ∃ file, Read fs file ∧ ImportPath fs file path := by
  simp only [← read_iff, Readable, ImportPath]
  rw [← Effect.mapM_returns_iff, getModulesToLoad]
  constructor
  · rintro ⟨modules, loaded, mem⟩
    obtain ⟨results, read, loaded⟩ := Effect.ok_of_bind loaded
    cases loaded
    refine ⟨⟨results, read⟩, ?_⟩
    rw [List.mem_filterMap] at mem
    obtain ⟨_, mem, rfl⟩ := mem
    exact (Effect.mem_mapM_iff read _).mp mem
  · rintro ⟨⟨results, read⟩, named⟩
    refine ⟨results.filterMap id, Effect.bind_of_ok read rfl, ?_⟩
    rw [List.mem_filterMap]
    exact ⟨some path, (Effect.mem_mapM_iff read _).mpr named, rfl⟩

/-! ## Names that are file names -/

theorem join_of_isFileName {name : List Char} (isName : IsFileName name) (directory : Path) :
    join directory name = directory ++ [name] := by
  obtain ⟨nonempty, whole, visible, _⟩ := isName
  have relative : name.head? ≠ some '/' := fun h => whole (List.mem_of_mem_head? h)
  rw [join, if_neg relative, segments, List.splitOn_eq_singleton whole]
  rw [List.filter_singleton, decide_eq_true ⟨nonempty, visible⟩]
  rfl

def Masked (fs : FileSystem) (name : List Char) : Prop :=
  IsFileName name ∧ ∃ location,
    (lastWhere fun location => (fs.node (location.path ++ [name])).isSome) = some location ∧
    fs.node (location.path ++ [name]) = some .nullLink

theorem last_there {fs : FileSystem} {name : List Char} {location : Location}
    (isName : IsFileName name)
    (last : (lastWhere fun location => (fs.node (location.path ++ [name])).isSome) = some location)
    (there : isThere (fs.node (location.path ++ [name])) = true) :
    (lastWhere fun location => isThere (fs.node (join location.path name))) = some location := by
  apply lastWhere_congr last
  · rw [join_of_isFileName isName]
    exact there
  · intro location there
    rw [join_of_isFileName isName] at there
    cases found : fs.node (location.path ++ [name]) with
    | none => simp [found, isThere] at there
    | some node => rfl

theorem selected_of_masked {fs : FileSystem} {name : List Char} (masked : Masked fs name) :
    selected fs name = developmentFile fs name := by
  obtain ⟨isName, location, last, null⟩ := masked
  have there : isThere (fs.node (location.path ++ [name])) = true := by rw [null]; rfl
  rw [selected, last_there isName last there, Option.elim_some, join_of_isFileName isName,
    null]
  rfl

theorem selected_of_enabled {fs : FileSystem} {file : Path} {name : List Char}
    (enabled : Enabled fs file) (named : file.getLast? = some name)
    (there : isThere (fs.node file) = true) : selected fs name = file := by
  obtain ⟨name', location, isName, _, rfl, last, unmasked⟩ := enabled
  rw [List.getLast?_concat] at named
  cases named
  rw [selected, last_there isName last there, Option.elim_some, join_of_isFileName isName, unmasked,
    if_neg Bool.false_ne_true]

theorem isThere_of_importPath {fs : FileSystem} {file : Path} {path : List Char}
    (named : ImportPath fs file path) : isThere (fs.node file) = true := by
  rw [ImportPath, readModuleImportPathsFromFile] at named
  split at named
  · rename_i found
    rw [found]
    rfl
  all_goals cases named

/-! ## What a request can import -/

def importPath (env : Environment) (moduleName : String) : Except Exception String := do
  if '.' ∈ moduleName.toList then throw (SyntaxError "Invalid module name")
  env.cfgRead
  let notFound := SyntaxError "Specified module not found"
  if moduleName = "plinth" then pure "plinth"
  else raiseAs (env.getModuleImportPath moduleName) .fileNotFoundError notFound

/-- A module name that passes the check of `_privileged_call`. -/
abbrev ModuleName := {name : String // '.' ∉ name.toList}

structure Agrees (env : Environment) (fs : FileSystem) (name : ModuleName) : Prop where
  confined : ∀ path, importPath (daemon env fs) name.1 = .ok path →
    name.1 = "plinth" ∨ ∃ modules, getModulesToLoad fs = .ok modules ∧ path.toList ∈ modules
  masked : Masked fs name.1.toList → ∀ path, getModuleImportPath fs name.1.toList ≠ .ok path
  resolved : ∀ file ∈ getModulesEnabledFilesToRead fs, file.getLast? = some name.1.toList →
    ∀ path, readModuleImportPathsFromFile fs file = .ok (some path) →
      getModuleImportPath fs name.1.toList = .ok path

def LooksUp (env : Environment) (name : ModuleName) : Prop :=
  env.cfgRead = .ok () ∧ name.1 ≠ "plinth"

/-- The file that the name selects is one that the loader reads, or else names nothing that the
loader would not load. -/
structure Located (env : Environment) (fs : FileSystem) (name : ModuleName) : Prop where
  readable : LooksUp env name → (∃ path, ImportPath fs (selected fs name.1.toList) path) →
    ∀ file, Read fs file → Readable fs file
  loaded : LooksUp env name → ¬ Read fs (selected fs name.1.toList) →
    ∀ path, ImportPath fs (selected fs name.1.toList) path →
      ∃ file, Read fs file ∧ ImportPath fs file path
  masked : Masked fs name.1.toList → ∀ path, ¬ ImportPath fs (developmentFile fs name.1.toList) path
  development : (∀ file, ¬ Enabled fs file) → ∀ file ∈ fs.development,
    file.getLast? = some name.1.toList → ∀ path, ImportPath fs file path →
      ImportPath fs (selected fs name.1.toList) path

theorem importPath_daemon_iff (env : Environment) (fs : FileSystem) (name : ModuleName)
    (path : String) :
    importPath (daemon env fs) name.1 = .ok path ↔
      env.cfgRead = .ok () ∧ (name.1 = "plinth" ∧ path = "plinth" ∨
        name.1 ≠ "plinth" ∧ ImportPath fs (selected fs name.1.toList) path.toList) := by
  have lookedUp : raiseAs ((daemon env fs).getModuleImportPath name.1) .fileNotFoundError
      (SyntaxError "Specified module not found") = .ok path ↔
      ImportPath fs (selected fs name.1.toList) path.toList := by
    have value : (daemon env fs).getModuleImportPath name.1 =
        String.ofList <$> getModuleImportPath fs name.1.toList := rfl
    rw [← getModuleImportPath_iff, value]
    cases getModuleImportPath fs name.1.toList with
    | error e => exact ⟨fun h => (by cases h), fun h => (by cases h)⟩
    | ok found =>
      constructor
      · intro h
        cases h
        rw [String.toList_ofList]
      · intro h
        cases h
        exact congrArg Except.ok String.ofList_toList
  rw [← lookedUp, importPath, if_neg name.2]
  have same : (daemon env fs).cfgRead = env.cfgRead := rfl
  rw [same]
  cases env.cfgRead with
  | error e => exact ⟨fun h => (by cases h), fun h => (by cases h.1)⟩
  | ok _ =>
    by_cases plinth : name.1 = "plinth"
    · have known : (.ok "plinth" : Except Exception String) = .ok path ↔ path = "plinth" :=
        ⟨fun h => (by cases h; rfl), fun h => (by rw [h])⟩
      simpa [plinth] using known
    · simp only [plinth, ne_eq, not_false_eq_true, false_and, true_and, false_or, if_false]
      exact Iff.rfl

theorem agrees_iff (env : Environment) (fs : FileSystem) (name : ModuleName) :
    Agrees env fs name ↔ Located env fs name := by
  constructor
  · intro agrees
    have loads : LooksUp env name → ∀ path, ImportPath fs (selected fs name.1.toList) path →
        (∀ file, Read fs file → Readable fs file) ∧
          ∃ file, Read fs file ∧ ImportPath fs file path := by
      intro looksUp path found
      have resolved : importPath (daemon env fs) name.1 = .ok (String.ofList path) := by
        rw [importPath_daemon_iff, String.toList_ofList]
        exact ⟨looksUp.1, .inr ⟨looksUp.2, found⟩⟩
      obtain other | loaded := agrees.confined _ resolved
      · exact absurd other looksUp.2
      · rw [String.toList_ofList] at loaded
        exact (loads_iff fs path).mp loaded
    constructor
    · rintro looksUp ⟨path, found⟩
      exact (loads looksUp path found).1
    · intro looksUp _ path found
      exact (loads looksUp path found).2
    · intro masked path found
      rw [← selected_of_masked masked, ← getModuleImportPath_iff] at found
      exact agrees.masked masked path found
    · intro nothing file mem named path found
      rw [← getModuleImportPath_iff]
      exact agrees.resolved file ((read_iff fs file).mpr (.inr ⟨nothing, mem⟩)) named path found
  · intro located
    constructor
    · intro path resolved
      rw [importPath_daemon_iff] at resolved
      obtain ⟨configured, ⟨same, _⟩ | ⟨other, found⟩⟩ := resolved
      · exact .inl same
      · have readable := located.readable ⟨configured, other⟩ ⟨_, found⟩
        refine .inr ((loads_iff fs path.toList).mpr ⟨readable, ?_⟩)
        by_cases read : Read fs (selected fs name.1.toList)
        · exact ⟨_, read, found⟩
        · exact located.loaded ⟨configured, other⟩ read _ found
    · intro masked path resolved
      rw [getModuleImportPath_iff, selected_of_masked masked] at resolved
      exact located.masked masked path resolved
    · intro file read named path found
      rw [getModuleImportPath_iff]
      obtain enabled | ⟨nothing, mem⟩ := (read_iff fs file).mp read
      · rw [selected_of_enabled enabled named (isThere_of_importPath found)]
        exact found
      · exact located.development nothing file mem named path found

/-! ## A name that is a path -/

def outsideNode (path : Path) : Option Node :=
  if path = ["var".toList, "tmp".toList, "x".toList] then some (.file ["evil".toList])
  else if path = Location.usrShare.path ++ ["bind".toList] then
    some (.file ["plinth.modules.bind".toList])
  else none

theorem isSome_outsideNode (location : Location) (name : List Char) :
    (outsideNode (location.path ++ [name])).isSome = true ↔
      location = .usrShare ∧ name = "bind".toList := by
  cases location with
  | usrShare =>
    by_cases bind : name = "bind".toList <;> simp [outsideNode, Location.path, bind]
  | etcPlinth => simp [outsideNode, Location.path]
  | etcFreedombox => simp [outsideNode, Location.path]

def outside : FileSystem where
  node := outsideNode
  glob location := if location = .usrShare then ["bind".toList] else []
  listed location name := by
    have isName : IsFileName "bind".toList := by
      refine ⟨?_, ?_, ?_, ?_⟩ <;> decide
    rw [isSome_outsideNode]
    split
    · rename_i share
      rw [List.mem_singleton]
      exact ⟨fun bind => ⟨bind ▸ isName, share, bind⟩, fun h => h.2.2⟩
    · rename_i other
      exact ⟨fun h => absurd h List.not_mem_nil, fun h => absurd h.2.1 other⟩
  package := []
  development := []

theorem absolute_name_resolves_outside :
    ¬ ∀ (env : Environment) (fs : FileSystem) (name : ModuleName), Agrees env fs name := by
  intro agree
  let env : Environment :=
    { cfgRead := .ok ()
      getModuleImportPath := fun _ => .error FileNotFoundError
      importModule := fun _ => .error FileNotFoundError
      formatTb := fun _ => []
      str := fun _ => "" }
  have agrees := agree env outside ⟨"/var/tmp/x", by decide⟩
  obtain other | ⟨modules, loaded, mem⟩ := agrees.confined "evil" rfl
  · exact absurd other (by decide)
  · have modulesToLoad : getModulesToLoad outside = .ok ["plinth.modules.bind".toList] := rfl
    rw [modulesToLoad] at loaded
    cases loaded
    exact absurd mem (by decide)

end Plinth.ModuleLoader
