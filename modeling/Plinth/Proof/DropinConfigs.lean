import Mathlib.Data.List.Induction
import Plinth.Model.DropinConfigs

/-! # Dropping configuration files in -/

namespace Plinth.DropinConfigs

open Effect Python Exception Lookup
open Pathlib (PurePath)

variable {apps : Apps} {self : DropinConfigs} {tree : Tree} {path : List Char}

/-! ## Paths -/

theorem partsOf_lstrip (path : List Char) : Pathlib.partsOf (lstrip path) = location path := by
  unfold lstrip location
  induction path with
  | nil => rfl
  | cons c path ih =>
    by_cases slash : c = '/'
    · subst slash
      rw [Pathlib.PurePath.partsOf_cons_slash, ← ih]
      rfl
    · rw [Text.lstripChars, List.dropWhile_cons_of_neg (by simpa using slash)]

theorem root_lstrip (path : List Char) : (Pathlib.path (lstrip path)).root = [] := by
  apply (Os.initialSlashes_eq_nil_iff _).mpr
  intro first
  cases stripped : lstrip path with
  | nil => simp [stripped] at first
  | cons c rest =>
    rw [stripped] at first
    have free := Text.not_mem_of_lstripChars stripped
    exact free (by simpa using first)

@[simp] theorem etc_root (path : List Char) : (self.getEtcPath path).root = ['/'] := by
  simp only [getEtcPath, PurePath.join, root_lstrip]
  rfl

@[simp] theorem etc_parts (path : List Char) : (self.getEtcPath path).parts = location path := by
  simp only [getEtcPath, PurePath.join, root_lstrip]
  exact partsOf_lstrip path

@[simp] theorem target_root (path : List Char) : (self.getTargetPath path).root = ['/'] := by
  simp only [getTargetPath, PurePath.join, root_lstrip]
  rfl

@[simp] theorem target_parts (path : List Char) :
    (self.getTargetPath path).parts = shippedRoot ++ location path := by
  simp only [getTargetPath, PurePath.join, root_lstrip]
  rw [← partsOf_lstrip]
  rfl

/-! ## Trees -/

theorem prefix_ne_concat {α : Type} {before names : List α} {name : α} (below : before <+: names) :
    before ≠ names ++ [name] := by
  rintro rfl
  have longer := below.length_le
  rw [List.length_append, List.length_singleton] at longer
  omega

@[simp] theorem kinds_none {location : Location} (none_ : tree location = none) :
    kinds tree location = none := by
  simp [kinds, none_]

theorem kinds_directory_iff {location : Location} :
    kinds tree location = some .directory ↔ tree location = some .directory := by
  rcases there : tree location with _ | _ | _ | _ <;> simp [kinds, there, kind]

theorem kinds_link_iff {location : Location} {text : List Char} :
    kinds tree location = some (.link text) ↔ tree location = some (.link text) := by
  rcases there : tree location with _ | _ | _ | _ <;> simp [kinds, there, kind]

theorem isName_of_isPart {part : List Char} (isPart : Pathlib.IsPart part)
    (noUp : part ≠ ['.', '.']) : Path.IsName '.' part :=
  ⟨isPart.1, isPart.2.1, noUp⟩

structure Names (path : PurePath) (names : Location) (name : List Char) : Prop where
  root : path.root = ['/']
  parts : path.parts = names ++ [name]
  noUp : ['.', '.'] ∉ path.parts

namespace Names

variable {p : PurePath} {names : Location} {name : List Char}

theorem isNames (isNames : Names p names name) : ∀ other ∈ names ++ [name], Path.IsName '.' other := by
  intro other member
  rw [← isNames.parts] at member
  exact isName_of_isPart (p.isPart other member) fun up => isNames.noUp (up ▸ member)

theorem split (isNames : Names p names name) : p.text.splitOn '/' = [] :: names ++ [name] := by
  rw [PurePath.splitOn_text isNames.root (by simp [isNames.parts]), isNames.parts]
  rfl

theorem proper (isNames : Names p names name) : ∀ other ∈ names, Path.IsName '.' other :=
  fun other member => isNames.isNames other (List.mem_append_left _ member)

theorem isName (isNames : Names p names name) : Path.IsName '.' name :=
  isNames.isNames name (by simp)

variable (isNames : Names p names name) (root : tree [] = some .directory)

include isNames root

theorem locate_of_above (above : ∀ before, before <+: names → tree before = some .directory) :
    locate tree p = .ok (names ++ [name]) :=
  place_directories isNames.split (kinds_directory_iff.mpr root) isNames.proper isNames.isName
    fun before below => kinds_directory_iff.mpr (above before below)

theorem locate_of_missing
    (way : ∀ before, before <+: names → tree before = none ∨ tree before = some .directory)
    (missing : ∃ before, before <+: names ∧ tree before = none) :
    locate tree p = .error .missing := by
  apply place_missing isNames.split (kinds_directory_iff.mpr root) isNames.proper isNames.isName
  · exact fun before below => (way before below).imp kinds_none kinds_directory_iff.mpr
  · obtain ⟨before, below, none_⟩ := missing
    exact ⟨before, below, kinds_none none_⟩

theorem find_of_above (above : ∀ before, before <+: names → tree before = some .directory)
    (plain : ∀ text, tree (names ++ [name]) ≠ some (.link text)) :
    find tree p = .ok (names ++ [name]) := by
  rw [find, depth, walk_of_split isNames.split (kinds_directory_iff.mpr root)]
  apply descend_directories isNames.isNames
  · intro before below different
    rcases List.prefix_concat_iff.mp below with rfl | shorter
    · exact absurd rfl different
    · exact kinds_directory_iff.mpr (above before shorter)
  · exact fun text linked => plain text (kinds_link_iff.mp linked)

theorem find_of_missing
    (way : ∀ before, before <+: names → tree before = none ∨ tree before = some .directory)
    (missing : ∃ before, before <+: names ∧ tree before = none) :
    find tree p = .error .missing := by
  rw [find, depth, walk_of_split isNames.split (kinds_directory_iff.mpr root)]
  apply descend_missing isNames.isNames
  · intro before below different
    rcases List.prefix_concat_iff.mp below with rfl | shorter
    · exact absurd rfl different
    · exact (way before shorter).imp kinds_none kinds_directory_iff.mpr
  · obtain ⟨before, below, none_⟩ := missing
    exact ⟨before, below.trans (List.prefix_append names [name]), prefix_ne_concat below,
      kinds_none none_⟩

end Names

/-! ## Making directories -/

def directories (tree : Tree) (names : Location) : Tree := fun other =>
  if other <+: names then some .directory else tree other

theorem directories_concat (tree : Tree) (names : Location) (name : List Char) :
    Function.update (directories tree names) (names ++ [name]) (some .directory) =
      directories tree (names ++ [name]) := by
  funext other
  unfold directories
  by_cases last : other = names ++ [name]
  · subst last
    rw [Function.update_self, if_pos List.prefix_rfl]
  · rw [Function.update_of_ne last]
    by_cases above : other <+: names
    · rw [if_pos above, if_pos (above.trans (List.prefix_append _ _))]
    · rw [if_neg above, if_neg]
      exact fun below => (List.prefix_concat_iff.mp below).elim last above

theorem directories_self {names : Location}
    (above : ∀ before, before <+: names → tree before = some .directory) :
    directories tree names = tree := by
  funext other
  unfold directories
  split
  · rename_i below
    exact (above other below).symm
  · rfl

theorem exec_tolerate_exists {p : PurePath} (isDir : isDir tree p = true) :
    (tolerate p FileExistsError).exec tree = (.ok (), tree) := by
  rw [tolerate, exec_bind_of_ok (exec_get tree), when_of_not (by rw [isDir]; decide)]
  rfl

section Make

variable {p : PurePath} {names : Location} {name : List Char} (isNames : Names p names name)
  (root : tree [] = some .directory)

include isNames root

theorem exec_make (above : ∀ before, before <+: names → tree before = some .directory)
    (none_ : tree (names ++ [name]) = none) (entry : Entry) :
    (make entry p).exec tree =
      (.ok (), Function.update tree (names ++ [name]) (some entry)) := by
  have located : (locate tree p).mapError osError = .ok (names ++ [name]) := by
    rw [isNames.locate_of_above root above]
    rfl
  rw [make, exec_bind_of_ok (exec_get tree), located, exec_bind_of_ok (exec_lift _ tree),
    when_of_not (by simp [none_])]
  rfl

theorem exec_make_again (above : ∀ before, before <+: names → tree before = some .directory)
    {there : Entry} (some_ : tree (names ++ [name]) = some there) (entry : Entry) :
    (make entry p).exec tree = (.error FileExistsError, tree) := by
  have located : (locate tree p).mapError osError = .ok (names ++ [name]) := by
    rw [isNames.locate_of_above root above]
    rfl
  rw [make, exec_bind_of_ok (exec_get tree), located, exec_bind_of_ok (exec_lift _ tree),
    when_of (by simp [some_])]
  rfl

theorem exec_make_missing
    (way : ∀ before, before <+: names → tree before = none ∨ tree before = some .directory)
    (missing : ∃ before, before <+: names ∧ tree before = none) (entry : Entry) :
    (make entry p).exec tree = (.error FileNotFoundError, tree) := by
  rw [make, exec_bind_of_ok (exec_get tree), isNames.locate_of_missing root way missing]
  rfl

theorem exec_make_tolerate (above : ∀ before, before <+: names → tree before = some .directory)
    (last : tree (names ++ [name]) = none ∨ tree (names ++ [name]) = some .directory) :
    (tryCatch (make .directory p) (tolerate p)).exec tree =
      (.ok (), Function.update tree (names ++ [name]) (some .directory)) := by
  rw [exec_tryCatch]
  rcases last with none_ | directory
  · rw [exec_make isNames root above none_]
  · rw [exec_make_again isNames root above directory, Function.update_eq_self_iff.mpr directory.symm]
    apply exec_tolerate_exists
    rw [isDir, isNames.find_of_above root above (by simp [directory])]
    exact decide_eq_true directory

end Make

theorem exec_mkdir_root {p : PurePath} (isRoot : p.root = ['/']) (parts : p.parts = [])
    (root : tree [] = some .directory) : (mkdir 0 p).exec tree = (.ok (), tree) := by
  have text : p.text = ['/'] := by simp [PurePath.text, isRoot, parts]
  have walked : find tree p = .ok [] := by
    have entered : enter (kinds tree) [] = .ok [] :=
      enter_eq_ok_iff.mpr ⟨kinds_directory_iff.mpr root, rfl⟩
    rw [find, text, depth, walk_succ]
    change (step _ _ [] [] >>= fun reached => step _ _ reached [] >>= pure) = _
    rw [step_nil, entered]
    change (step _ _ [] [] >>= pure) = _
    rw [step_nil, entered]
    rfl
  have located : (locate tree p).mapError osError = .ok [] := by
    have noName : ¬ Path.IsName '.' (lastName ['/']) := by decide
    rw [locate, place, text, if_neg noName, ← text]
    exact congrArg (Except.mapError osError) walked
  have made : (make .directory p).exec tree = (.error FileExistsError, tree) := by
    rw [make, exec_bind_of_ok (exec_get tree), located, exec_bind_of_ok (exec_lift _ tree),
      when_of (by simp [root])]
    rfl
  rw [mkdir, exec_tryCatch, made]
  apply exec_tolerate_exists
  rw [isDir, walked]
  exact decide_eq_true root

theorem parent_ne {p : PurePath} {names : Location} {name : List Char}
    (parts : p.parts = names ++ [name]) : p.parent ≠ p := by
  intro same
  have fewer := congrArg (fun q => q.parts.length) same
  simp [PurePath.parent, parts] at fewer

theorem exec_mkdir {p : PurePath} {names : Location} (isRoot : p.root = ['/'])
    (parts : p.parts = names) (noUp : ['.', '.'] ∉ names) (root : tree [] = some .directory)
    (way : ∀ before, before <+: names → tree before = none ∨ tree before = some .directory) :
    (mkdir names.length p).exec tree = (.ok (), directories tree names) := by
  induction names using List.reverseRecOn generalizing p with
  | nil =>
    rw [directories_self fun before below => by rw [List.prefix_nil.mp below, root]]
    exact exec_mkdir_root isRoot parts root
  | append_singleton names name ih =>
    have isNames : Names p names name := ⟨isRoot, parts, parts ▸ noUp⟩
    have way' : ∀ before, before <+: names → tree before = none ∨ tree before = some .directory :=
      fun before below => way before (below.trans (List.prefix_append _ _))
    have last := way _ List.prefix_rfl
    rw [List.length_append, List.length_singleton, mkdir, ← directories_concat]
    by_cases above : ∀ before, before <+: names → tree before = some .directory
    · rw [directories_self above, exec_tryCatch]
      rcases last with none_ | directory
      · rw [exec_make isNames root above none_]
      · have made := exec_make_tolerate isNames root above (.inr directory)
        rw [exec_tryCatch, exec_make_again isNames root above directory] at made
        rw [exec_make_again isNames root above directory]
        exact made
    · have missing : ∃ before, before <+: names ∧ tree before = none := by
        push Not at above
        obtain ⟨before, below, not_⟩ := above
        exact ⟨before, below, (way' before below).resolve_right not_⟩
      have parent : p.parent.parts = names := by simp [PurePath.parent, parts]
      have first := ih (p := p.parent) isRoot parent
        (fun up => noUp (List.mem_append_left _ up)) way'
      have made : ∀ before, before <+: names →
          directories tree names before = some .directory :=
        fun before below => if_pos below
      have self_ : directories tree names (names ++ [name]) = tree (names ++ [name]) :=
        if_neg fun below => prefix_ne_concat below rfl
      rw [exec_tryCatch, exec_make_missing isNames root way' missing]
      change (ite _ _ _ : Action Unit).exec tree = _
      rw [if_pos ⟨by decide, parent_ne parts⟩, exec_bind_of_ok first]
      exact exec_make_tolerate isNames (made [] List.nil_prefix) made (by rwa [self_])

/-! ## Making an entry -/

theorem update_directories {names : Location} {name : List Char}
    (isPath : location path = names ++ [name]) (entry : Entry) (tree : Tree) :
    Function.update (directories (Function.update tree (location path) none) names)
      (location path) (some entry) = install entry tree path := by
  funext other
  unfold install
  by_cases last : other = location path
  · rw [last, Function.update_self, if_pos rfl]
  · rw [Function.update_of_ne last, if_neg last, directories, Function.update_of_ne last]
    by_cases above : other <+: names
    · rw [if_pos above, if_pos (isPath ▸ above.trans (List.prefix_append _ _))]
    · rw [if_neg above, if_neg]
      intro below
      rw [isPath] at below
      exact (List.prefix_concat_iff.mp below).elim (fun same => last (isPath ▸ same)) above

theorem bytesOf_of_content {entry : Option Entry} {found : Bytes}
    (there : content entry = some found) : bytesOf entry = .ok found := by
  rcases entry with _ | _ | _ | _ <;> cases there
  rfl

theorem readBytes_of_content {p : PurePath} {found : Bytes}
    (there : content (entryAt tree (find tree p)) = some found) : readBytes tree p = .ok found := by
  rw [readBytes]
  cases walked : find tree p with
  | error failure =>
    rw [walked] at there
    cases there
  | ok location =>
    rw [walked] at there
    exact bytesOf_of_content there

def textOrError (content : Bytes) : Except Exception (List Char) :=
  match textOf content with
  | some text => .ok text
  | none => .error (UnicodeDecodeError content)

theorem readText_of_content {p : PurePath} {found : Bytes}
    (there : content (entryAt tree (find tree p)) = some found) :
    readText tree p = textOrError found := by
  refine bind_of_ok (readBytes_of_content there) ?_
  unfold textOrError textOf
  cases decoded : decodeUtf8 found with
  | none => exact bind_of_error (by rw [decode, decoded])
  | some text => exact bind_of_ok (by rw [decode, decoded]) rfl

section Copy

variable {names targetNames : Location} {name targetName : List Char} {p target : PurePath}
  (isNames : Names p names name) (isTarget : Names target targetNames targetName)
  (root : tree [] = some .directory)
  (above : ∀ before, before <+: names → tree before = some .directory)
  (targetAbove : ∀ before, before <+: targetNames → tree before = some .directory)

include isNames isTarget root above targetAbove

theorem exec_copyfile (none_ : tree (names ++ [name]) = none) {shipped : Bytes}
    (there : tree (targetNames ++ [targetName]) = some (.file shipped)) :
    (copyfile target p).exec tree =
      (.ok (), Function.update tree (names ++ [name]) (some (.file shipped))) := by
  have found := isNames.find_of_above root above (by simp [none_])
  have located : (find tree p).mapError osError = .ok (names ++ [name]) := by
    rw [found]
    rfl
  have source : content (entryAt tree (find tree target)) = some shipped := by
    rw [isTarget.find_of_above root targetAbove (by simp [there]), entryAt, there]
    rfl
  have absent : «exists» tree p = false := by
    rw [«exists», found, entryAt, none_]
    rfl
  have other : ¬ sameFile tree target p = true := by simp [sameFile, absent]
  rw [copyfile, exec_bind_of_ok (exec_get tree), when_of_not other,
    exec_bind_of_ok (exec_pure () tree), readBytes_of_content source,
    exec_bind_of_ok (exec_lift _ tree), located, exec_bind_of_ok (exec_lift _ tree), writeAt, none_]
  rfl

end Copy

/-! ## One path in a prepared tree -/

theorem Prepared.above (prepared : Prepared self tree) {location before : Location}
    (there : tree location ≠ none) (below : before <+: location) (different : before ≠ location) :
    tree before = some .directory := by
  induction location using List.reverseRecOn with
  | nil => exact absurd (List.prefix_nil.mp below) different
  | append_singleton location name ih =>
    have parent := prepared.rooted location name there
    rcases List.prefix_concat_iff.mp below with same | shorter
    · exact absurd same different
    · by_cases same : before = location
      · rw [same, parent]
      · exact ih (by simp [parent]) shorter same

structure Ready (component : DropinConfigs) (tree : Tree) (path : List Char) (names : Location)
    (name : List Char) : Prop where
  isPath : location path = names ++ [name]
  noUp : ['.', '.'] ∉ location path
  root : tree [] = some .directory
  way : ∀ before, before <+: names → tree before = none ∨ tree before = some .directory
  above : tree (location path) ≠ none → ∀ before, before <+: names → tree before = some .directory
  plain : tree (location path) ≠ some .directory
  shippedAbove : ∀ before, before <+: shippedRoot ++ names → tree before = some .directory

theorem ready_of_prepared (prepared : Prepared self tree) (member : path ∈ self.etcPaths) :
    ∃ names name, Ready self tree path names name := by
  obtain ⟨rest, some_, inEtc⟩ := prepared.inEtc path member
  obtain ⟨names, name, isPath⟩ : ∃ names name, location path = names ++ [name] := by
    have nonempty : location path ≠ [] := by simp [inEtc]
    exact ⟨_, _, (List.dropLast_append_getLast nonempty).symm⟩
  refine ⟨names, name, ⟨isPath, prepared.proper path member, prepared.root, ?_, ?_,
    prepared.plain path member, ?_⟩⟩
  · intro before below
    refine prepared.way path member before ?_ ?_
    · exact isPath ▸ below.trans (List.prefix_append _ _)
    · exact isPath ▸ prefix_ne_concat below
  · intro there before below
    refine prepared.above there ?_ ?_
    · exact isPath ▸ below.trans (List.prefix_append _ _)
    · exact isPath ▸ prefix_ne_concat below
  · intro before below
    obtain ⟨content, shipped⟩ := prepared.shipped path member
    rw [isPath, ← List.append_assoc] at shipped
    refine prepared.above (by rw [shipped]; nofun) ?_ ?_
    · exact below.trans (List.prefix_append _ _)
    · exact prefix_ne_concat below

namespace Ready

variable {names : Location} {name : List Char} (ready : Ready self tree path names name)

include ready

theorem isNames : Names (self.getEtcPath path) names name :=
  ⟨etc_root path, (etc_parts path).trans ready.isPath, (etc_parts path).symm ▸ ready.noUp⟩

theorem isTarget : Names (self.getTargetPath path) (shippedRoot ++ names) name := by
  refine ⟨target_root path, ?_, ?_⟩
  · rw [target_parts, ready.isPath, List.append_assoc]
  · rw [target_parts, List.mem_append, not_or]
    exact ⟨by decide, ready.noUp⟩

theorem above_or_missing : (∀ before, before <+: names → tree before = some .directory) ∨
    tree (location path) = none ∧ ∃ before, before <+: names ∧ tree before = none := by
  by_cases above : ∀ before, before <+: names → tree before = some .directory
  · exact .inl above
  · refine .inr ⟨?_, ?_⟩
    · by_contra there
      exact above (ready.above there)
    · push Not at above
      obtain ⟨before, below, not_⟩ := above
      exact ⟨before, below, (ready.way before below).resolve_right not_⟩

theorem entryAt_locate : entryAt tree (locate tree (self.getEtcPath path)) = tree (location path) := by
  rcases ready.above_or_missing with above | ⟨none_, missing⟩
  · rw [ready.isNames.locate_of_above ready.root above, ready.isPath]
    rfl
  · rw [ready.isNames.locate_of_missing ready.root ready.way missing, none_]
    rfl

theorem entryAt_find (noLink : ∀ text, tree (location path) ≠ some (.link text)) :
    entryAt tree (find tree (self.getEtcPath path)) = tree (location path) := by
  rcases ready.above_or_missing with above | ⟨none_, missing⟩
  · rw [ready.isNames.find_of_above ready.root above (ready.isPath ▸ noLink), ready.isPath]
    rfl
  · rw [ready.isNames.find_of_missing ready.root ready.way missing, none_]
    rfl

theorem locate_of_there (there : tree (location path) ≠ none) :
    locate tree (self.getEtcPath path) = .ok (location path) := by
  rw [ready.isNames.locate_of_above ready.root (ready.above there), ready.isPath]

theorem isSymlink_eq : isSymlink tree (self.getEtcPath path) =
    (target (tree (location path))).isSome := by
  rw [isSymlink, ready.entryAt_locate]

theorem exists_or_isSymlink : («exists» tree (self.getEtcPath path) ||
    isSymlink tree (self.getEtcPath path)) = (tree (location path)).isSome := by
  rw [ready.isSymlink_eq, «exists»]
  rcases there : tree (location path) with _ | content | _ | text
  · rw [ready.entryAt_find (by simp [there]), there]
    rfl
  · rw [ready.entryAt_find (by simp [there]), there]
    rfl
  · rw [ready.entryAt_find (by simp [there]), there]
    rfl
  · simp [target]

theorem find_target {shipped : Bytes}
    (there : tree (shippedRoot ++ location path) = some (.file shipped)) :
    find tree (self.getTargetPath path) = .ok (shippedRoot ++ location path) := by
  rw [ready.isPath, ← List.append_assoc] at there ⊢
  exact ready.isTarget.find_of_above ready.root ready.shippedAbove (by rw [there]; nofun)

/-! ### Whether a path is in place -/

theorem isInPlace_link (link : self.copyOnly = false) :
    isInPlace tree (self.getEtcPath path) (self.getTargetPath path) self.copyOnly =
      .ok (decide (∃ text, LinksTo self tree path text)) := by
  rw [isInPlace, if_pos link, ready.isSymlink_eq]
  rcases there : tree (location path) with _ | content | _ | text
  · simp [target, LinksTo, there]
  · simp [target, LinksTo, there]
  · simp [target, LinksTo, there]
  · rw [if_pos (by rfl)]
    have read : readlink tree (self.getEtcPath path) = .ok (Pathlib.path text) := by
      have located : (locate tree (self.getEtcPath path)).mapError osError =
          .ok (location path) := by
        rw [ready.locate_of_there (by simp [there])]
        rfl
      exact bind_of_ok located (by rw [there]; rfl)
    refine bind_of_ok read ?_
    simp [LinksTo, there, pure, Except.pure]

omit ready in
theorem isInPlace_absent (copy : self.copyOnly = true)
    (none_ : content (entryAt tree (find tree (self.getEtcPath path))) = none) :
    isInPlace tree (self.getEtcPath path) (self.getTargetPath path) self.copyOnly = .ok false := by
  rw [isInPlace, copy, if_neg (by decide), isFile, none_]
  rfl

theorem isInPlace_copy (copy : self.copyOnly = true) {found shipped : Bytes}
    (there : content (entryAt tree (find tree (self.getEtcPath path))) = some found)
    (source : tree (shippedRoot ++ location path) = some (.file shipped)) :
    isInPlace tree (self.getEtcPath path) (self.getTargetPath path) self.copyOnly =
      textOrError found >>= fun text => textOrError shipped >>= fun text' =>
        .ok (decide (text = text')) := by
  have target : content (entryAt tree (find tree (self.getTargetPath path))) = some shipped := by
    rw [ready.find_target source, entryAt, source]
    rfl
  rw [isInPlace, copy, if_neg (by decide), if_pos (by rw [isFile, there]; rfl),
    readText_of_content there, readText_of_content target]
  rfl

theorem isInPlace_of_none (none_ : tree (location path) = none) :
    isInPlace tree (self.getEtcPath path) (self.getTargetPath path) self.copyOnly = .ok false := by
  rcases Bool.eq_false_or_eq_true self.copyOnly with copy | link
  · apply isInPlace_absent copy
    rw [ready.entryAt_find (by simp [none_]), none_]
    rfl
  · rw [ready.isInPlace_link link]
    simp [LinksTo, none_]

/-! ### One turn -/

variable (managed : ∃ component, getManagedDropinConfig apps self.appId path = .ok component)

theorem exec_unlink (there : tree (location path) ≠ none) (missingOk : Bool) :
    (unlink missingOk (self.getEtcPath path)).exec tree =
      (.ok (), Function.update tree (location path) none) := by
  rw [unlink, exec_bind_of_ok (exec_get tree), ready.locate_of_there there]
  rcases found : tree (location path) with _ | content | _ | text
  · exact absurd found there
  · rw [unlinkAt, found]
    rfl
  · exact absurd found ready.plain
  · rw [unlinkAt, found]
    rfl

include managed

def afterCheck (tree : Tree) (path : List Char) (unlinkInvalid : Bool) :
    Except Exception Bool → Tree
  | .ok false => if unlinkInvalid then Function.update tree (location path) none else tree
  | _ => tree

theorem exec_dropinIsValid (unlinkInvalid : Bool) :
    (dropinIsValid apps self.appId path self.copyOnly unlinkInvalid).exec tree =
      (isInPlace tree (self.getEtcPath path) (self.getTargetPath path) self.copyOnly,
        afterCheck tree path unlinkInvalid
          (isInPlace tree (self.getEtcPath path) (self.getTargetPath path) self.copyOnly)) := by
  obtain ⟨component, found⟩ := managed
  have seen : («exists» tree (component.getEtcPath path) ||
      isSymlink tree (component.getEtcPath path)) = (tree (location path)).isSome :=
    ready.exists_or_isSymlink
  have same : isInPlace tree (component.getEtcPath path) (component.getTargetPath path)
      self.copyOnly = isInPlace tree (self.getEtcPath path) (self.getTargetPath path)
        self.copyOnly := rfl
  rw [dropinIsValid, found, exec_bind_of_ok (exec_lift _ tree), exec_bind_of_ok (exec_get tree),
    seen, same]
  by_cases there : tree (location path) = none
  · rw [if_neg (by simp [there]), ready.isInPlace_of_none there, afterCheck,
      Function.update_eq_self_iff.mpr there.symm, ite_self]
    rfl
  · rw [if_pos (Option.isSome_iff_ne_none.mpr there)]
    cases isInPlace tree (self.getEtcPath path) (self.getTargetPath path) self.copyOnly with
    | error e => rfl
    | ok valid =>
      rw [exec_bind_of_ok (exec_lift _ tree)]
      cases valid with
      | true => rfl
      | false =>
        cases unlinkInvalid with
        | false => rfl
        | true =>
          have removed : (unlink true (component.getEtcPath path)).exec tree = _ :=
            ready.exec_unlink there true
          rw [dropInvalid, when_of rfl, exec_bind_of_ok removed]
          rfl

end Ready

def Wanted (self : DropinConfigs) (tree : Tree) (path : List Char) (entry : Entry) : Prop :=
  if self.copyOnly then ∃ content, tree (shippedRoot ++ location path) = some (.file content) ∧
    entry = .file content
  else entry = .link (self.getTargetPath path).text

namespace Ready

variable {names : Location} {name : List Char} (ready : Ready self tree path names name)
  (managed : ∃ component, getManagedDropinConfig apps self.appId path = .ok component)

include ready

theorem location_ne {before : Location} (shorter : before.length ≤ names.length) :
    before ≠ location path := by
  rintro rfl
  have longer := congrArg List.length ready.isPath
  simp at longer
  omega

omit ready in
theorem not_location_below {other : Location} (longer : names.length < other.length) :
    ¬ other <+: names :=
  fun below => absurd below.length_le (by omega)

theorem length_location : (location path).length = names.length + 1 := by
  rw [ready.isPath, List.length_append, List.length_singleton]

include managed

theorem exec_dropinLink {entry : Entry} (wanted : Wanted self tree path entry) :
    (dropinLink apps self.appId path self.copyOnly).exec
        (Function.update tree (location path) none) = (.ok (), install entry tree path) := by
  obtain ⟨component, found⟩ := managed
  have long := ready.length_location
  -- The tree without the entry, and then with the directories for it
  obtain ⟨removed, isRemoved⟩ : ∃ removed, removed = Function.update tree (location path) none :=
    ⟨_, rfl⟩
  have kept : ∀ other, other ≠ location path → removed other = tree other :=
    fun other different => isRemoved ▸ Function.update_of_ne different _ _
  have root : removed [] = some .directory :=
    (kept [] (ready.location_ne (Nat.zero_le _))).trans ready.root
  have way : ∀ before, before <+: names → removed before = none ∨
      removed before = some .directory := by
    intro before below
    rw [kept before (ready.location_ne below.length_le)]
    exact ready.way before below
  have parents : (component.getEtcPath path).parent.parts = names := by
    have parts : (component.getEtcPath path).parts = names ++ [name] :=
      (etc_parts path).trans ready.isPath
    change (component.getEtcPath path).parts.dropLast = names
    rw [parts, List.dropLast_concat]
  have isRoot : (component.getEtcPath path).parent.root = ['/'] := by
    change (component.getEtcPath path).root = ['/']
    exact etc_root path
  have made := exec_mkdir isRoot parents
    (fun up => ready.noUp (by rw [ready.isPath]; exact List.mem_append_left _ up)) root way
  have above : ∀ before, before <+: names → directories removed names before = some .directory :=
    fun before below => if_pos below
  have beyond : ∀ other, names.length < other.length →
      directories removed names other = removed other :=
    fun other longer => if_neg (not_location_below longer)
  have none_ : directories removed names (names ++ [name]) = none := by
    rw [← ready.isPath, beyond _ (by omega), isRemoved, Function.update_self]
  have targetAbove : ∀ before, before <+: shippedRoot ++ names →
      directories removed names before = some .directory := by
    intro before below
    unfold directories
    split
    · rfl
    · have directory := ready.shippedAbove before below
      rw [kept before ?_, directory]
      rintro rfl
      exact ready.plain directory
  rw [← isRemoved, dropinLink, found, exec_bind_of_ok (exec_lift _ _)]
  change (mkdir (component.getEtcPath path).parent.parts.length _ >>= _ : Action Unit).exec _ = _
  rw [parents, exec_bind_of_ok made, ← update_directories ready.isPath, ← isRemoved, ready.isPath]
  unfold Wanted at wanted
  split at wanted
  · rename_i copy
    obtain ⟨content, there, rfl⟩ := wanted
    rw [if_pos copy]
    apply exec_copyfile ready.isNames ready.isTarget (above [] List.nil_prefix) above targetAbove
      none_
    rw [List.append_assoc, ← ready.isPath, beyond _ (by simp; omega), kept _ ?_, there]
    intro same
    have longer := congrArg List.length same
    simp [shippedRoot] at longer
    omega
  · rename_i link
    subst wanted
    rw [if_neg link]
    exact exec_make ready.isNames (above [] List.nil_prefix) above none_ _

theorem exec_linkInvalid_true
    (inPlace : isInPlace tree (self.getEtcPath path) (self.getTargetPath path) self.copyOnly =
      .ok true) : (linkInvalid apps self path).exec tree = (.ok (), tree) := by
  have checked := ready.exec_dropinIsValid managed true
  rw [inPlace] at checked
  rw [linkInvalid, exec_bind_of_ok checked, when_of_not (by decide)]
  rfl

theorem exec_linkInvalid_false
    (invalid : isInPlace tree (self.getEtcPath path) (self.getTargetPath path) self.copyOnly =
      .ok false) {entry : Entry} (wanted : Wanted self tree path entry) :
    (linkInvalid apps self path).exec tree = (.ok (), install entry tree path) := by
  have checked := ready.exec_dropinIsValid managed true
  rw [invalid] at checked
  rw [linkInvalid, exec_bind_of_ok checked, when_of rfl]
  exact ready.exec_dropinLink managed wanted

theorem exec_linkInvalid_error {e : Exception}
    (raised : isInPlace tree (self.getEtcPath path) (self.getTargetPath path) self.copyOnly =
      .error e) : (linkInvalid apps self path).exec tree = (.error e, tree) := by
  have checked := ready.exec_dropinIsValid managed true
  rw [raised] at checked
  exact exec_bind_of_error checked

end Ready

/-! ## The tree after a turn -/

section Install

variable {entry : Entry} {path' : List Char} (prepared : Prepared self tree)
  (member : path ∈ self.etcPaths)

@[simp] theorem install_self (entry : Entry) (tree : Tree) (path : List Char) :
    install entry tree path (location path) = some entry :=
  if_pos rfl

include prepared member

theorem head_location : (location path).head? = some "etc".toList := by
  obtain ⟨rest, _, inEtc⟩ := prepared.inEtc path member
  rw [inEtc]
  rfl

theorem install_shipped (other : Location) :
    install entry tree path (shippedRoot ++ other) = tree (shippedRoot ++ other) := by
  have head := head_location prepared member
  unfold install
  rw [if_neg, if_neg]
  · intro below
    obtain ⟨rest, same⟩ := below
    rw [← same] at head
    change some "usr".toList = some "etc".toList at head
    exact absurd head (by decide)
  · intro same
    rw [← same] at head
    change some "usr".toList = some "etc".toList at head
    exact absurd head (by decide)

theorem eq_of_prefix_location (member' : path' ∈ self.etcPaths)
    (below : location path <+: location path') : location path = location path' := by
  by_contra different
  obtain ⟨content, shipped⟩ := prepared.shipped path member
  obtain ⟨content', shipped'⟩ := prepared.shipped path' member'
  have there : tree (shippedRoot ++ location path') ≠ none := by simp [shipped']
  have directory := prepared.above there ((List.prefix_append_right_inj shippedRoot).mpr below)
    (by simpa using different)
  rw [shipped] at directory
  cases directory

theorem install_of_there (member' : path' ∈ self.etcPaths)
    (different : location path' ≠ location path) :
    install entry tree path (location path') = tree (location path') := by
  unfold install
  rw [if_neg different, if_neg]
  exact fun below => different (eq_of_prefix_location prepared member' member below)

theorem prepared_install (notDirectory : entry ≠ .directory) :
    Prepared self (install entry tree path) := by
  have head := head_location prepared member
  constructor
  · unfold install
    rw [if_neg, if_pos List.nil_prefix]
    intro same
    rw [← same] at head
    cases head
  · intro above name there
    unfold install at there ⊢
    by_cases onTheWay : above <+: location path ∧ above ≠ location path
    · rw [if_neg onTheWay.2, if_pos onTheWay.1]
    · have notLast : above ++ [name] ≠ location path :=
        fun same => onTheWay ⟨same ▸ List.prefix_append _ _, by
          rw [← same]
          simp⟩
      have notAbove : ¬ above ++ [name] <+: location path := by
        intro below
        refine onTheWay ⟨(List.prefix_append _ _).trans below, ?_⟩
        rintro rfl
        exact prefix_ne_concat below rfl
      rw [if_neg notLast, if_neg notAbove] at there
      have directory := prepared.rooted above name there
      have different : above ≠ location path := by
        rintro rfl
        exact prepared.plain path member directory
      rw [if_neg different, if_neg fun below => onTheWay ⟨below, different⟩, directory]
  · exact prepared.inEtc
  · exact prepared.proper
  · intro path' member' before below different
    unfold install
    by_cases last : before = location path
    · subst last
      exact absurd (eq_of_prefix_location prepared member member' below) different
    · rw [if_neg last]
      split
      · exact .inr rfl
      · exact prepared.way path' member' before below different
  · intro path' member'
    by_cases same : location path' = location path
    · rw [same, install_self]
      simpa using notDirectory
    · rw [install_of_there prepared member member' same]
      exact prepared.plain path' member'
  · intro path' member'
    obtain ⟨content, shipped⟩ := prepared.shipped path' member'
    exact ⟨content, (install_shipped prepared member _).trans shipped⟩

end Install

/-! ## Paths that are as they should be -/

def Settled (self : DropinConfigs) (tree : Tree) (path : List Char) : Prop :=
  if self.copyOnly then ∃ shipped text,
    tree (shippedRoot ++ location path) = some (.file shipped) ∧ textOf shipped = some text ∧
    tree (location path) = some (.file shipped)
  else ∃ text, LinksTo self tree path text ∧ lastName text ≠ [] ∧ lastName text ≠ ['.']

section Settle

variable {path' : List Char} (prepared : Prepared self tree) (member : path ∈ self.etcPaths)

theorem settle_copy (copy : self.copyOnly = true) {shipped : Bytes}
    (there : tree (shippedRoot ++ location path) = some (.file shipped)) :
    settle self tree path = install (.file shipped) tree path := by
  rw [settle, if_pos copy, there]

theorem settle_link (link : self.copyOnly = false) (not_ : ¬ ∃ text, LinksTo self tree path text) :
    settle self tree path = install (.link (self.getTargetPath path).text) tree path := by
  rw [settle, if_neg (by simp [link]), if_neg not_]

theorem settle_linked (link : self.copyOnly = false) (linked : ∃ text, LinksTo self tree path text) :
    settle self tree path = tree := by
  rw [settle, if_neg (by simp [link]), if_pos linked]

include prepared member

theorem settle_cases : settle self tree path = tree ∨ ∃ entry, entry ≠ .directory ∧
    settle self tree path = install entry tree path := by
  rcases Bool.eq_false_or_eq_true self.copyOnly with copy | link
  · obtain ⟨shipped, there⟩ := prepared.shipped path member
    exact .inr ⟨_, by simp, settle_copy copy there⟩
  · by_cases linked : ∃ text, LinksTo self tree path text
    · exact .inl (settle_linked link linked)
    · exact .inr ⟨_, by simp, settle_link link linked⟩

theorem prepared_settle : Prepared self (settle self tree path) := by
  rcases settle_cases prepared member with same | ⟨entry, notDirectory, made⟩
  · rwa [same]
  · rw [made]
    exact prepared_install prepared member notDirectory

theorem settle_shipped (other : Location) :
    settle self tree path (shippedRoot ++ other) = tree (shippedRoot ++ other) := by
  rcases settle_cases prepared member with same | ⟨entry, _, made⟩
  · rw [same]
  · rw [made]
    exact install_shipped prepared member other

theorem settle_of_there (member' : path' ∈ self.etcPaths)
    (different : location path' ≠ location path) :
    settle self tree path (location path') = tree (location path') := by
  rcases settle_cases prepared member with same | ⟨entry, _, made⟩
  · rw [same]
  · rw [made]
    exact install_of_there prepared member member' different

omit member in
theorem install_eq_self {entry : Entry} (there : tree (location path) = some entry) :
    install entry tree path = tree := by
  funext other
  unfold install
  by_cases last : other = location path
  · rw [if_pos last, last, there]
  · rw [if_neg last]
    split
    · rename_i below
      exact (prepared.above (by simp [there]) below last).symm
    · rfl

theorem lastName_target : lastName (self.getTargetPath path).text ≠ [] ∧
    lastName (self.getTargetPath path).text ≠ ['.'] := by
  obtain ⟨names, name, ready⟩ := ready_of_prepared prepared member
  rw [lastName_of_split ready.isTarget.split]
  exact ⟨ready.isTarget.isName.1, ready.isTarget.isName.2.1⟩

theorem settled_settle (fits : Fits self tree path) : Settled self (settle self tree path) path := by
  unfold Fits at fits
  unfold Settled
  rcases Bool.eq_false_or_eq_true self.copyOnly with copy | link
  · rw [if_pos copy] at fits ⊢
    obtain ⟨shipped, text, there, decoded, _⟩ := fits
    refine ⟨shipped, text, (settle_shipped prepared member _).trans there, decoded, ?_⟩
    rw [settle_copy copy there, install_self]
  · rw [if_neg (by simp [link])] at fits ⊢
    by_cases linked : ∃ text, LinksTo self tree path text
    · rw [settle_linked link linked]
      obtain ⟨text, isLink⟩ := linked
      exact ⟨text, isLink, fits text isLink⟩
    · rw [settle_link link linked]
      exact ⟨_, ⟨install_self .., PurePath.path_text _⟩, lastName_target prepared member⟩

theorem settled_settle_of_settled (member' : path' ∈ self.etcPaths)
    (settled : Settled self tree path') : Settled self (settle self tree path) path' := by
  have same : settle self tree path (location path') = tree (location path') := by
    by_cases different : location path' = location path
    · unfold Settled at settled
      rcases Bool.eq_false_or_eq_true self.copyOnly with copy | link
      · rw [if_pos copy] at settled
        obtain ⟨shipped, text, there, _, here⟩ := settled
        rw [different] at there here ⊢
        rw [settle_copy copy there, install_self, here]
      · rw [if_neg (by simp [link])] at settled
        obtain ⟨text, ⟨here, target⟩, _⟩ := settled
        have sameTarget : self.getTargetPath path' = self.getTargetPath path := by
          apply PurePath.ext'
          · rw [target_root, target_root]
          · rw [target_parts, target_parts, different]
        rw [settle_linked link ⟨text, different ▸ here, target.trans sameTarget⟩]
    · exact settle_of_there prepared member member' different
  have kept := settle_shipped prepared member (location path')
  unfold Settled LinksTo at settled ⊢
  rwa [same, kept]

end Settle

section Valid

variable (prepared : Prepared self tree) (member : path ∈ self.etcPaths)

include prepared member

theorem isInPlace_of_settled (settled : Settled self tree path) :
    isInPlace tree (self.getEtcPath path) (self.getTargetPath path) self.copyOnly = .ok true := by
  obtain ⟨names, name, ready⟩ := ready_of_prepared prepared member
  unfold Settled at settled
  rcases Bool.eq_false_or_eq_true self.copyOnly with copy | link
  · rw [if_pos copy] at settled
    obtain ⟨shipped, text, there, decoded, here⟩ := settled
    have found : content (entryAt tree (find tree (self.getEtcPath path))) = some shipped := by
      rw [ready.entryAt_find (by simp [here]), here]
      rfl
    have read : textOrError shipped = .ok text := by rw [textOrError, decoded]
    rw [ready.isInPlace_copy copy found there]
    exact bind_of_ok read (bind_of_ok read (by simp))
  · rw [if_neg (by simp [link])] at settled
    obtain ⟨text, linked, _⟩ := settled
    rw [ready.isInPlace_link link, decide_eq_true ⟨text, linked⟩]

theorem find_of_linksTo {text : List Char} (linked : LinksTo self tree path text) :
    find tree (self.getEtcPath path) = .ok (shippedRoot ++ location path) ↔
      lastName text ≠ [] ∧ lastName text ≠ ['.'] := by
  obtain ⟨names, name, ready⟩ := ready_of_prepared prepared member
  obtain ⟨shipped, there⟩ := prepared.shipped path member
  obtain ⟨here, target⟩ := linked
  have absolute : text.head? = some '/' := by
    by_contra relative
    have root := congrArg PurePath.root target
    rw [target_root] at root
    change Os.initialSlashes text = ['/'] at root
    rw [(Os.initialSlashes_eq_nil_iff text).mpr relative] at root
    cases root
  have parts : Pathlib.partsOf text = shippedRoot ++ location path :=
    (congrArg PurePath.parts target).trans (target_parts path)
  have start_ : start names text = [] := by rw [start, if_pos absolute]
  have last : (text.splitOn '/').getLast? = some (lastName text) :=
    List.getLast?_eq_some_getLast _
  have above := ready.above (by simp [here])
  rw [ready.isPath] at here
  have followed : find tree (self.getEtcPath path) = descend (kinds tree) 39 [] (text.splitOn '/') := by
    rw [find, depth, walk_link ready.isNames.split (kinds_directory_iff.mpr ready.root)
      ready.isNames.proper ready.isNames.isName
      (fun before below => kinds_directory_iff.mpr (above before below))
      (kinds_link_iff.mpr here), walk_succ, start_]
  have noUp : ['.', '.'] ∉ shippedRoot ++ location path := by
    rw [List.mem_append, not_or]
    exact ⟨by decide, ready.noUp⟩
  have above' : ∀ before, before <+: shippedRoot ++ location path →
      before ≠ shippedRoot ++ location path → kinds tree ([] ++ before) = some .directory :=
    fun before below different =>
      kinds_directory_iff.mpr (prepared.above (by simp [there]) below different)
  have file : kinds tree ([] ++ (shippedRoot ++ location path)) = some .file := by
    rw [List.nil_append, kinds, there]
    rfl
  have reached : descend (kinds tree) 39 [] (text.splitOn '/') = _ ↔ _ :=
    descend_file parts (by simp [ready.isPath]) noUp above' file
  rw [List.nil_append, last] at reached
  rw [followed, reached]
  simp

theorem isValid_of_settled (settled : Settled self tree path) : IsValid self tree path := by
  unfold Settled at settled
  unfold IsValid
  split
  · rename_i copy
    rw [if_pos copy] at settled
    obtain ⟨shipped, text, there, _, here⟩ := settled
    exact ⟨shipped, there, here⟩
  · rename_i link
    rw [if_neg link] at settled
    obtain ⟨text, linked, ends⟩ := settled
    exact ⟨⟨text, linked.1⟩, (find_of_linksTo prepared member linked).mpr ends⟩

end Valid

/-! ## Runs -/

theorem exists_managed (managed : self ∈ apps self.appId) (member : path ∈ self.etcPaths) :
    ∃ component, getManagedDropinConfig apps self.appId path = .ok component := by
  have some_ : ((apps self.appId).find? (path ∈ ·.etcPaths)).isSome = true :=
    List.find?_isSome.mpr ⟨self, managed, by simpa using member⟩
  obtain ⟨component, found⟩ := Option.isSome_iff_exists.mp some_
  exact ⟨component, by rw [getManagedDropinConfig, found]⟩

section Enable

variable (managed : self ∈ apps self.appId)

include managed

theorem exec_linkInvalid_of_fits (prepared : Prepared self tree) (member : path ∈ self.etcPaths)
    (fits : Fits self tree path) :
    (linkInvalid apps self path).exec tree = (.ok (), settle self tree path) := by
  obtain ⟨names, name, ready⟩ := ready_of_prepared prepared member
  have found := exists_managed managed member
  unfold Fits at fits
  rcases Bool.eq_false_or_eq_true self.copyOnly with copy | link
  · rw [if_pos copy] at fits
    obtain ⟨shipped, text, there, decoded, readable⟩ := fits
    have wanted : Wanted self tree path (.file shipped) := by
      rw [Wanted, if_pos copy]
      exact ⟨shipped, there, rfl⟩
    rw [settle_copy copy there]
    cases here : content (entryAt tree (find tree (self.getEtcPath path))) with
    | none => exact ready.exec_linkInvalid_false found (Ready.isInPlace_absent copy here) wanted
    | some other =>
      obtain ⟨text', decoded', same⟩ := readable other here
      have read : textOrError shipped = .ok text := by rw [textOrError, decoded]
      have read' : textOrError other = .ok text' := by rw [textOrError, decoded']
      have checked := ready.isInPlace_copy copy here there
      rw [read', read] at checked
      by_cases equal : text' = text
      · rw [install_eq_self prepared (same equal)]
        exact ready.exec_linkInvalid_true found (checked.trans (congrArg _ (decide_eq_true equal)))
      · exact ready.exec_linkInvalid_false found
          (checked.trans (congrArg _ (decide_eq_false equal))) wanted
  · have checked := ready.isInPlace_link link
    by_cases linked : ∃ text, LinksTo self tree path text
    · rw [settle_linked link linked]
      exact ready.exec_linkInvalid_true found (checked.trans (congrArg _ (decide_eq_true linked)))
    · rw [settle_link link linked]
      refine ready.exec_linkInvalid_false found
        (checked.trans (congrArg _ (decide_eq_false linked))) ?_
      rw [Wanted, if_neg (by simp [link])]

theorem exec_enable_of_allFit {paths : List (List Char)} (sub : ∀ path ∈ paths, path ∈ self.etcPaths)
    (prepared : Prepared self tree) (fit : AllFit self tree paths) :
    ∃ enabled, (forEach paths (linkInvalid apps self)).exec tree = (.ok (), enabled) ∧
      Prepared self enabled ∧ ∀ path ∈ self.etcPaths, path ∈ paths ∨ Settled self tree path →
        Settled self enabled path := by
  induction paths generalizing tree with
  | nil =>
    refine ⟨tree, rfl, prepared, fun path member settled => ?_⟩
    exact settled.resolve_left List.not_mem_nil
  | cons path paths ih =>
    obtain ⟨member, sub⟩ := List.forall_mem_cons.mp sub
    obtain ⟨fits, later⟩ := fit
    obtain ⟨enabled, ran, prepared', settles⟩ := ih sub (prepared_settle prepared member) later
    refine ⟨enabled, ?_, prepared', ?_⟩
    · exact (exec_bind_of_ok (exec_linkInvalid_of_fits managed prepared member fits)).trans ran
    · intro path' member' settled
      apply settles path' member'
      rcases settled with listed | settled
      · rcases List.mem_cons.mp listed with rfl | listed
        · exact .inr (settled_settle prepared member fits)
        · exact .inl listed
      · exact .inr (settled_settle_of_settled prepared member member' settled)

theorem exec_diagnose (prepared : Prepared self tree) : (self.diagnose apps).exec tree =
    (self.etcPaths.mapM fun path =>
      (isInPlace tree (self.getEtcPath path) (self.getTargetPath path) self.copyOnly).map
        (self.check path), tree) := by
  apply exec_mapM
  intro path member
  obtain ⟨names, name, ready⟩ := ready_of_prepared prepared member
  rw [exec_bind, ready.exec_dropinIsValid (exists_managed managed member) false]
  rcases isInPlace tree (self.getEtcPath path) (self.getTargetPath path) self.copyOnly with
    e | _ | _ <;> rfl

/-! ### Disabling -/

omit managed in
structure Removable (component : DropinConfigs) (tree : Tree) : Prop where
  root : tree [] = some .directory
  noUp : ∀ path ∈ component.etcPaths, ['.', '.'] ∉ location path
  some_ : ∀ path ∈ component.etcPaths, location path ≠ []
  above : ∀ path ∈ component.etcPaths, ∀ before, before <+: location path →
    before ≠ location path → tree before = some .directory
  plain : ∀ path ∈ component.etcPaths, tree (location path) ≠ some .directory

omit managed in
theorem removable_update (removable : Removable self tree) (member : path ∈ self.etcPaths) :
    Removable self (Function.update tree (location path) none) := by
  refine ⟨?_, removable.noUp, removable.some_, ?_, ?_⟩
  · rw [Function.update_of_ne (removable.some_ path member).symm, removable.root]
  · intro path' member' before below different
    have directory := removable.above path' member' before below different
    rw [Function.update_of_ne, directory]
    rintro rfl
    exact removable.plain path member directory
  · intro path' member'
    by_cases same : location path' = location path
    · rw [same, Function.update_self]
      nofun
    · rw [Function.update_of_ne same]
      exact removable.plain path' member'

theorem exec_dropinUnlink (removable : Removable self tree) (member : path ∈ self.etcPaths) :
    (dropinUnlink apps self.appId path true).exec tree =
      (.ok (), Function.update tree (location path) none) := by
  obtain ⟨component, found⟩ := exists_managed managed member
  have nonempty := removable.some_ path member
  obtain ⟨names, name, isPath⟩ : ∃ names name, location path = names ++ [name] :=
    ⟨_, _, (List.dropLast_append_getLast nonempty).symm⟩
  have isNames : Names (component.getEtcPath path) names name :=
    ⟨etc_root path, (etc_parts path).trans isPath,
      (etc_parts path).symm ▸ removable.noUp path member⟩
  have located : locate tree (component.getEtcPath path) = .ok (location path) := by
    rw [isPath]
    apply isNames.locate_of_above removable.root
    intro before below
    exact removable.above path member before (isPath ▸ below.trans (List.prefix_append _ _))
      (isPath ▸ prefix_ne_concat below)
  rw [dropinUnlink, found, exec_bind_of_ok (exec_lift _ tree), unlink,
    exec_bind_of_ok (exec_get tree), located]
  rcases there : tree (location path) with _ | content | _ | text
  · rw [unlinkAt, there, Function.update_eq_self_iff.mpr there.symm]
    rfl
  · rw [unlinkAt, there]
    rfl
  · exact absurd there (removable.plain path member)
  · rw [unlinkAt, there]
    rfl

theorem exec_disable {paths : List (List Char)} (sub : ∀ path ∈ paths, path ∈ self.etcPaths)
    (removable : Removable self tree) :
    ∃ without, (forEach paths fun path => dropinUnlink apps self.appId path true).exec tree =
      (.ok (), without) ∧ ∀ path, path ∈ paths ∨ tree (location path) = none →
        without (location path) = none := by
  induction paths generalizing tree with
  | nil => exact ⟨tree, rfl, fun path none_ => none_.resolve_left List.not_mem_nil⟩
  | cons path paths ih =>
    obtain ⟨member, sub⟩ := List.forall_mem_cons.mp sub
    obtain ⟨without, ran, gone⟩ := ih sub (removable_update removable member)
    refine ⟨without, (exec_bind_of_ok (exec_dropinUnlink managed removable member)).trans ran, ?_⟩
    intro path' none_
    apply gone path'
    by_cases same : location path' = location path
    · rw [same, Function.update_self]
      exact .inr rfl
    · rw [Function.update_of_ne same]
      rcases none_ with listed | none_
      · rcases List.mem_cons.mp listed with rfl | listed
        · exact absurd rfl same
        · exact .inl listed
      · exact .inr none_

theorem enabled_of_settled (prepared : Prepared self tree)
    (settled : ∀ path ∈ self.etcPaths, Settled self tree path) : Enabled apps self tree := by
  have inPlace : ∀ path ∈ self.etcPaths, isInPlace tree (self.getEtcPath path)
      (self.getTargetPath path) self.copyOnly = .ok true :=
    fun path member => isInPlace_of_settled prepared member (settled path member)
  have there : ∀ path ∈ self.etcPaths, tree (location path) ≠ none := by
    intro path member none_
    obtain ⟨names, name, ready⟩ := ready_of_prepared prepared member
    have absent := ready.isInPlace_of_none none_
    rw [inPlace path member] at absent
    cases absent
  refine ⟨fun path member => isValid_of_settled prepared member (settled path member), ?_, ?_, ?_⟩
  · obtain ⟨checks, found⟩ := mapM_returns_iff.mpr fun path member =>
      (⟨self.check path true, by rw [inPlace path member]; rfl⟩ :
        ∃ check, (isInPlace tree (self.getEtcPath path) (self.getTargetPath path)
          self.copyOnly).map (self.check path) = .ok check)
    refine ⟨checks, (exec_diagnose managed prepared).trans (by rw [found]), ?_⟩
    intro check member
    obtain ⟨path, listed, checked⟩ := (mem_mapM_iff found check).mp member
    rw [inPlace path listed] at checked
    cases checked
    rfl
  · apply exec_forEach_of_unchanged
    intro path member
    obtain ⟨names, name, ready⟩ := ready_of_prepared prepared member
    exact ready.exec_linkInvalid_true (exists_managed managed member) (inPlace path member)
  · have removable : Removable self tree := by
      refine ⟨prepared.root, prepared.proper, ?_, ?_, prepared.plain⟩
      · intro path member empty
        obtain ⟨rest, _, inEtc⟩ := prepared.inEtc path member
        rw [inEtc] at empty
        cases empty
      · exact fun path member before below different =>
          prepared.above (there path member) below different
    obtain ⟨without, ran, gone⟩ := exec_disable managed (fun _ member => member) removable
    exact ⟨without, ran, fun path member => gone path (.inl member)⟩

end Enable

/-! ## What a run shows of the tree before it -/

section Converse

variable (managed : self ∈ apps self.appId)

include managed

theorem turn_cases (prepared : Prepared self tree) (member : path ∈ self.etcPaths) {after : Tree}
    (ran : (linkInvalid apps self path).exec tree = (.ok (), after)) :
    after = tree ∨ ∃ entry, entry ≠ .directory ∧ after = install entry tree path := by
  obtain ⟨names, name, ready⟩ := ready_of_prepared prepared member
  have found := exists_managed managed member
  obtain ⟨entry, notDirectory, wanted⟩ : ∃ entry, entry ≠ .directory ∧
      Wanted self tree path entry := by
    unfold Wanted
    split
    · obtain ⟨shipped, there⟩ := prepared.shipped path member
      exact ⟨.file shipped, by simp, shipped, there, rfl⟩
    · exact ⟨_, by simp, rfl⟩
  cases inPlace : isInPlace tree (self.getEtcPath path) (self.getTargetPath path) self.copyOnly with
  | error e =>
    rw [ready.exec_linkInvalid_error found inPlace] at ran
    cases ran
  | ok valid =>
    cases valid with
    | true =>
      rw [ready.exec_linkInvalid_true found inPlace] at ran
      cases ran
      exact .inl rfl
    | false =>
      rw [ready.exec_linkInvalid_false found inPlace wanted] at ran
      cases ran
      exact .inr ⟨entry, notDirectory, rfl⟩

theorem run_frame {paths : List (List Char)} (sub : ∀ path ∈ paths, path ∈ self.etcPaths)
    (prepared : Prepared self tree) {after : Tree}
    (ran : (forEach paths (linkInvalid apps self)).exec tree = (.ok (), after)) :
    Prepared self after ∧
      (∀ other, after (shippedRoot ++ other) = tree (shippedRoot ++ other)) ∧
      ∀ path ∈ self.etcPaths, location path ∉ paths.map location →
        after (location path) = tree (location path) := by
  induction paths generalizing tree with
  | nil =>
    cases ran
    exact ⟨prepared, fun _ => rfl, fun _ _ _ => rfl⟩
  | cons first paths ih =>
    obtain ⟨member, sub⟩ := List.forall_mem_cons.mp sub
    obtain ⟨⟨⟩, next, turn, later⟩ := returns_of_bind ran
    have kept : Prepared self next ∧
        (∀ other, next (shippedRoot ++ other) = tree (shippedRoot ++ other)) ∧
        ∀ path ∈ self.etcPaths, location path ≠ location first →
          next (location path) = tree (location path) := by
      rcases turn_cases managed prepared member turn with rfl | ⟨entry, notDirectory, rfl⟩
      · exact ⟨prepared, fun _ => rfl, fun _ _ _ => rfl⟩
      · exact ⟨prepared_install prepared member notDirectory,
          install_shipped prepared member,
          fun path member' different => install_of_there prepared member member' different⟩
    obtain ⟨prepared', shipped, entries⟩ := ih sub kept.1 later
    refine ⟨prepared', fun other => (shipped other).trans (kept.2.1 other), ?_⟩
    intro path member' notListed
    rw [List.map_cons, List.mem_cons, not_or] at notListed
    rw [entries path member' notListed.2, kept.2.2 path member' notListed.1]

theorem fits_of_run {paths : List (List Char)} (sub : ∀ path ∈ paths, path ∈ self.etcPaths)
    (prepared : Prepared self tree) (member : path ∈ self.etcPaths)
    (once : location path ∉ paths.map location) {after : Tree}
    (ran : (forEach (path :: paths) (linkInvalid apps self)).exec tree = (.ok (), after))
    (valid : IsValid self after path)
    (readable : self.copyOnly = true → ∀ shipped,
      tree (shippedRoot ++ location path) = some (.file shipped) →
        ∃ text, textOf shipped = some text) : Fits self tree path := by
  obtain ⟨names, name, ready⟩ := ready_of_prepared prepared member
  have found := exists_managed managed member
  obtain ⟨⟨⟩, next, turn, later⟩ := returns_of_bind ran
  -- A path that is taken to be in place is left alone by its turn and by the later ones
  have leftAlone : isInPlace tree (self.getEtcPath path) (self.getTargetPath path)
      self.copyOnly = .ok true → Prepared self after ∧
        (∀ other, after (shippedRoot ++ other) = tree (shippedRoot ++ other)) ∧
        after (location path) = tree (location path) := by
    intro inPlace
    rw [ready.exec_linkInvalid_true found inPlace] at turn
    cases turn
    obtain ⟨prepared', shipped, entries⟩ := run_frame managed sub prepared later
    exact ⟨prepared', shipped, entries path member once⟩
  unfold IsValid at valid
  unfold Fits
  rcases Bool.eq_false_or_eq_true self.copyOnly with copy | link
  · rw [if_pos copy] at valid ⊢
    obtain ⟨shipped, there⟩ := prepared.shipped path member
    obtain ⟨text, decoded⟩ := readable copy shipped there
    refine ⟨shipped, text, there, decoded, fun other here => ?_⟩
    have checked := ready.isInPlace_copy copy here there
    have read : textOrError shipped = .ok text := by rw [textOrError, decoded]
    cases decoded' : textOf other with
    | none =>
      have failed : textOrError other = .error (UnicodeDecodeError other) := by
        rw [textOrError, decoded']
      rw [failed] at checked
      rw [ready.exec_linkInvalid_error found checked] at turn
      cases turn
    | some text' =>
      refine ⟨text', rfl, fun same => ?_⟩
      have read' : textOrError other = .ok text' := by rw [textOrError, decoded']
      rw [read', read] at checked
      obtain ⟨_, kept, entry⟩ := leftAlone (checked.trans (congrArg _ (decide_eq_true same)))
      obtain ⟨content, shipped', here'⟩ := valid
      rw [kept, there] at shipped'
      cases shipped'
      rw [← entry, here']
  · rw [if_neg (by simp [link])] at valid ⊢
    intro text linked
    have checked := ready.isInPlace_link link
    obtain ⟨prepared', _, entry⟩ :=
      leftAlone (checked.trans (congrArg _ (decide_eq_true ⟨text, linked⟩)))
    have linked' : LinksTo self after path text := ⟨entry.trans linked.1, linked.2⟩
    exact (find_of_linksTo prepared' member linked').mp valid.2

theorem allFit_of_run {paths : List (List Char)} (sub : ∀ path ∈ paths, path ∈ self.etcPaths)
    (distinct : (paths.map location).Nodup) (prepared : Prepared self tree) {after : Tree}
    (ran : (forEach paths (linkInvalid apps self)).exec tree = (.ok (), after))
    (valid : ∀ path ∈ paths, IsValid self after path)
    (readable : self.copyOnly = true → ∀ path ∈ paths, ∀ shipped,
      tree (shippedRoot ++ location path) = some (.file shipped) →
        ∃ text, textOf shipped = some text) : AllFit self tree paths := by
  induction paths generalizing tree with
  | nil => trivial
  | cons path paths ih =>
    obtain ⟨member, sub⟩ := List.forall_mem_cons.mp sub
    obtain ⟨firstValid, valid⟩ := List.forall_mem_cons.mp valid
    rw [List.map_cons, List.nodup_cons] at distinct
    have fits := fits_of_run managed sub prepared member distinct.1 ran firstValid
      fun copy => readable copy path List.mem_cons_self
    have turn := exec_linkInvalid_of_fits managed prepared member fits
    have later : (forEach paths (linkInvalid apps self)).exec (settle self tree path) =
        (.ok (), after) := (exec_bind_of_ok turn).symm.trans ran
    refine ⟨fits, ih sub distinct.2 (prepared_settle prepared member) later valid ?_⟩
    intro copy other listed shipped there
    rw [settle_shipped prepared member] at there
    exact readable copy other (List.mem_cons_of_mem path listed) shipped there

theorem readable_of_diagnosed (prepared : Prepared self tree)
    (valid : ∀ path ∈ self.etcPaths, IsValid self tree path) {checks : List DiagnosticCheck}
    (diagnosed : (self.diagnose apps).exec tree = (.ok checks, tree)) (copy : self.copyOnly = true)
    (member : path ∈ self.etcPaths) {shipped : Bytes}
    (there : tree (shippedRoot ++ location path) = some (.file shipped)) :
    ∃ text, textOf shipped = some text := by
  obtain ⟨names, name, ready⟩ := ready_of_prepared prepared member
  rw [exec_diagnose managed prepared] at diagnosed
  obtain ⟨check, checked⟩ := mapM_returns_iff.mp ⟨checks, congrArg Prod.fst diagnosed⟩ path member
  have isValid := valid path member
  rw [IsValid, if_pos copy] at isValid
  obtain ⟨content_, shipped', here⟩ := isValid
  rw [there] at shipped'
  cases shipped'
  have found : content (entryAt tree (find tree (self.getEtcPath path))) = some shipped := by
    rw [ready.entryAt_find (by simp [here]), here]
    rfl
  rw [ready.isInPlace_copy copy found there] at checked
  cases decoded : textOf shipped with
  | some text => exact ⟨text, rfl⟩
  | none =>
    have failed : textOrError shipped = .error (UnicodeDecodeError shipped) := by
      rw [textOrError, decoded]
    rw [failed] at checked
    cases checked

theorem allFit_of_converges (prepared : Prepared self tree)
    (distinct : (self.etcPaths.map location).Nodup) (converges : Converges apps self tree) :
    AllFit self tree self.etcPaths := by
  obtain ⟨enabled, ran, isEnabled⟩ := converges
  obtain ⟨prepared', kept, _⟩ := run_frame managed (fun _ member => member) prepared ran
  obtain ⟨checks, diagnosed, _⟩ := isEnabled.diagnosed
  refine allFit_of_run managed (fun _ member => member) distinct prepared ran isEnabled.valid ?_
  intro copy path member shipped there
  exact readable_of_diagnosed managed prepared' isEnabled.valid diagnosed copy member
    ((kept _).trans there)

end Converse

/-- Enabling brings all paths in place, and they stay so until they are disabled, exactly if no path
is taken to be in place that is not, and what is compared is text. -/
theorem enable_converges_iff (apps : Apps) (self : DropinConfigs) (tree : Tree)
    (managed : self ∈ apps self.appId) (prepared : Prepared self tree) :
    (AllFit self tree self.etcPaths → Converges apps self tree) ∧
      ((self.etcPaths.map location).Nodup → Converges apps self tree →
        AllFit self tree self.etcPaths) := by
  refine ⟨fun fit => ?_, allFit_of_converges managed prepared⟩
  obtain ⟨enabled, ran, prepared', settles⟩ :=
    exec_enable_of_allFit managed (fun _ member => member) prepared fit
  exact ⟨enabled, ran, enabled_of_settled managed prepared' fun path member =>
    settles path member (.inl member)⟩

def onOff : Bytes := encodeUtf8 "on"

def confPath : List Char := "/etc/a.conf".toList

def confNames : Location := ["etc".toList, "a.conf".toList]

def copies : DropinConfigs where
  appId := "a"
  componentId := "dropin-a"
  etcPaths := [confPath]
  copyOnly := true

def copiesApps : Apps := fun _ => [copies]

def entries (more : List (Location × Entry)) : List (Location × Entry) :=
  [([], .directory), (["etc".toList], .directory), (["usr".toList], .directory),
    (["usr".toList, "share".toList], .directory), (shippedRoot, .directory),
    (shippedRoot ++ ["etc".toList], .directory),
    (shippedRoot ++ confNames, .file onOff)] ++ more

def treeOf (listed : List (Location × Entry)) : Tree :=
  fun location => listed.lookup location

theorem mem_of_lookup {listed : List (Location × Entry)} {location : Location} {entry : Entry}
    (found : listed.lookup location = some entry) : (location, entry) ∈ listed := by
  induction listed with
  | nil => cases found
  | cons first rest ih =>
    rw [List.lookup_cons] at found
    split at found
    · rename_i same
      cases found
      rw [eq_of_beq same]
      exact List.mem_cons_self
    · exact List.mem_cons_of_mem first (ih found)

theorem prepared_treeOf {listed : List (Location × Entry)}
    (rooted : ∀ entry ∈ listed, entry.1 ≠ [] → treeOf listed entry.1.dropLast = some .directory)
    (root : treeOf listed [] = some .directory)
    (way : treeOf listed ["etc".toList] = some .directory)
    (plain : treeOf listed confNames ≠ some .directory)
    (shipped : treeOf listed (shippedRoot ++ confNames) = some (.file onOff)) :
    Prepared copies (treeOf listed) := by
  have isNames : location confPath = confNames := by decide
  have only : ∀ path ∈ copies.etcPaths, location path = confNames := by
    intro path member
    rw [List.mem_singleton.mp member, isNames]
  constructor
  · exact root
  · intro location name there
    obtain ⟨entry, found⟩ := Option.ne_none_iff_exists'.mp there
    have directory := rooted _ (mem_of_lookup found) (by simp)
    simpa using directory
  · intro path member
    exact ⟨["a.conf".toList], by decide, only path member⟩
  · intro path member
    rw [only path member]
    decide
  · intro path member before below different
    rw [only path member] at below different
    change before <+: ["etc".toList] ++ ["a.conf".toList] at below
    rcases List.prefix_concat_iff.mp below with rfl | below
    · exact absurd rfl different
    · change before <+: [] ++ ["etc".toList] at below
      rcases List.prefix_concat_iff.mp below with rfl | below
      · exact .inr way
      · rw [List.prefix_nil.mp below]
        exact .inr root
  · intro path member
    rw [only path member]
    exact plain
  · intro path member
    rw [only path member]
    exact ⟨onOff, shipped⟩

theorem missing_converges : Converges copiesApps copies (treeOf (entries [])) := by
  have prepared : Prepared copies (treeOf (entries [])) := by
    apply prepared_treeOf
    · decide
    · decide
    · decide
    · decide
    · rfl
  refine (enable_converges_iff copiesApps copies _ List.mem_cons_self prepared).1 ⟨?_, trivial⟩
  refine ⟨onOff, "on".toList, rfl, ?_, ?_⟩
  · rw [textOf, onOff, decodeUtf8_encodeUtf8]
    decide
  · intro found there
    have none_ : content (entryAt (treeOf (entries []))
        (find (treeOf (entries [])) (copies.getEtcPath confPath))) = none := by decide +kernel
    rw [none_] at there
    cases there

def linkedEntries : List (Location × Entry) :=
  entries [(confNames, .link "/srv".toList), (["srv".toList], .file onOff)]

theorem link_not_replaced : Prepared copies (treeOf linkedEntries) ∧
    ¬ Converges copiesApps copies (treeOf linkedEntries) := by
  have prepared : Prepared copies (treeOf linkedEntries) := by
    apply prepared_treeOf
    · decide
    · decide
    · decide
    · decide
    · rfl
  refine ⟨prepared, fun converges => ?_⟩
  obtain ⟨fits, _⟩ := allFit_of_converges List.mem_cons_self prepared (by decide) converges
  obtain ⟨shipped, text, there, decoded, readable⟩ := fits
  cases there
  have walked : find (treeOf linkedEntries) (copies.getEtcPath confPath) = .ok ["srv".toList] := by
    decide +kernel
  have found : content (entryAt (treeOf linkedEntries)
      (find (treeOf linkedEntries) (copies.getEtcPath confPath))) = some onOff := by
    rw [walked]
    rfl
  obtain ⟨text', decoded', same⟩ := readable onOff found
  rw [decoded] at decoded'
  cases decoded'
  have here := same rfl
  cases here

end Plinth.DropinConfigs
