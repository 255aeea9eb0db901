import Plinth.Lib.Effect
import Plinth.Lib.Python.Os

/-!
# Looking up paths

How a system finds what a path stands for: from one directory to the next, and through links. A
location is the list of names on the way from the root. The last name may be missing.
-/

namespace Lookup

abbrev Location := List (List Char)

inductive Kind
  | file
  | directory
  | link (target : List Char)
  deriving DecidableEq, Repr

abbrev Tree := Location → Option Kind

inductive Failure
  | missing
  | notADirectory
  | loop
  deriving DecidableEq, Repr

def enter (tree : Tree) (location : Location) : Except Failure Location :=
  match tree location with
  | none => .error .missing
  | some .directory => .ok location
  | some _ => .error .notADirectory

def pass (tree : Tree) (follow : Location → List Char → Except Failure Location)
    (location : Location) (name : List Char) : Except Failure Location :=
  if name = [] ∨ name = ['.'] then .ok location
  else if name = ['.', '.'] then .ok location.dropLast
  else match tree (location ++ [name]) with
    | some (.link target) => follow location target
    | _ => .ok (location ++ [name])

def step (tree : Tree) (follow : Location → List Char → Except Failure Location)
    (location : Location) (name : List Char) : Except Failure Location :=
  enter tree location >>= fun directory => pass tree follow directory name

def start (location : Location) (path : List Char) : Location :=
  if path.head? = some '/' then [] else location

def walk (tree : Tree) : Nat → Location → List Char → Except Failure Location
  | 0, _, _ => .error .loop
  | depth + 1, location, path =>
    (path.splitOn '/').foldlM (step tree (walk tree depth)) (start location path)

def descend (tree : Tree) (depth : Nat) (location : Location) (names : List (List Char)) :
    Except Failure Location :=
  names.foldlM (step tree (walk tree depth)) location

theorem splitOn_slash_ne_nil (path : List Char) : path.splitOn '/' ≠ [] :=
  List.splitOn_ne_nil '/' path

def lastName (path : List Char) : List Char :=
  (path.splitOn '/').getLast (splitOn_slash_ne_nil path)

def parent (tree : Tree) : Nat → Location → List Char → Except Failure Location
  | 0, _, _ => .error .loop
  | depth + 1, location, path => do
      let reached ← descend tree depth (start location path) (path.splitOn '/').dropLast
      enter tree reached

def place (tree : Tree) (depth : Nat) (location : Location) (path : List Char) :
    Except Failure Location :=
  if Path.IsName '.' (lastName path) then do
    let directory ← parent tree depth location path
    return directory ++ [lastName path]
  else walk tree depth location path

variable {tree tree' : Tree} {depth : Nat}

theorem walk_succ (location : Location) (path : List Char) : walk tree (depth + 1) location path =
    descend tree depth (start location path) (path.splitOn '/') :=
  rfl

theorem descend_append (location : Location) (names names' : List (List Char)) :
    descend tree depth location (names ++ names') =
      descend tree depth location names >>= fun reached => descend tree depth reached names' := by
  rw [descend, List.foldlM_append]
  rfl

theorem descend_singleton (location : Location) (name : List Char) :
    descend tree depth location [name] = step tree (walk tree depth) location name := by
  rw [descend, List.foldlM_cons]
  cases step tree (walk tree depth) location name <;> rfl

theorem enter_eq_ok_iff {location found : Location} :
    enter tree location = .ok found ↔ tree location = some .directory ∧ found = location := by
  unfold enter
  cases tree location with
  | none => simp
  | some kind =>
    cases kind with
    | file => simp
    | directory => simp [eq_comm]
    | link target => simp

theorem step_of_directory {follow : Location → List Char → Except Failure Location}
    {location : Location} (directory : tree location = some .directory) (name : List Char) :
    step tree follow location name = pass tree follow location name :=
  Effect.bind_of_ok (enter_eq_ok_iff.mpr ⟨directory, rfl⟩) rfl

theorem directory_of_step {follow : Location → List Char → Except Failure Location}
    {location found : Location} {name : List Char}
    (ok : step tree follow location name = .ok found) :
    tree location = some .directory ∧ pass tree follow location name = .ok found := by
  obtain ⟨directory, entered, passed⟩ := Effect.ok_of_bind ok
  obtain ⟨there, rfl⟩ := enter_eq_ok_iff.mp entered
  exact ⟨there, passed⟩

theorem step_nil (follow : Location → List Char → Except Failure Location) (location : Location) :
    step tree follow location [] = enter tree location := by
  unfold step
  cases enter tree location <;> rfl

theorem step_nil_step (follow : Location → List Char → Except Failure Location)
    (location : Location) (name : List Char) :
    (step tree follow location [] >>= fun reached => step tree follow reached name) =
      step tree follow location name := by
  rw [step_nil, step]
  cases entered : enter tree location with
  | error failure => rfl
  | ok reached =>
    obtain ⟨directory, rfl⟩ := enter_eq_ok_iff.mp entered
    exact step_of_directory directory name

theorem pass_of_isName {follow : Location → List Char → Except Failure Location}
    {name : List Char} (proper : Path.IsName '.' name) (location : Location) :
    pass tree follow location name = match tree (location ++ [name]) with
      | some (.link target) => follow location target
      | _ => .ok (location ++ [name]) := by
  rw [pass, if_neg (not_or.mpr ⟨proper.1, proper.2.1⟩), if_neg proper.2.2]

/-! ## Where a walk ends -/

structure Reached (tree : Tree) (location : Location) : Prop where
  above : ∀ before, before <+: location → before ≠ location → tree before = some .directory
  noLink : ∀ target, tree location ≠ some (.link target)

theorem Reached.noLink_of_prefix {location before : Location} (reached : Reached tree location)
    (onTheWay : before <+: location) (target : List Char) : tree before ≠ some (.link target) := by
  by_cases same : before = location
  · rw [same]
    exact reached.noLink target
  · rw [reached.above before onTheWay same]
    nofun

theorem Reached.dropLast {location : Location} (reached : Reached tree location) :
    Reached tree location.dropLast := by
  constructor
  · intro before onTheWay different
    apply reached.above before (onTheWay.trans (List.dropLast_prefix _))
    rintro rfl
    exact different (onTheWay.eq_of_length_le (by simp))
  · exact reached.noLink_of_prefix (List.dropLast_prefix _)

theorem Reached.append {location : Location} {name : List Char} (reached : Reached tree location)
    (directory : tree location = some .directory)
    (noLink : ∀ target, tree (location ++ [name]) ≠ some (.link target)) :
    Reached tree (location ++ [name]) := by
  refine ⟨fun before onTheWay different => ?_, noLink⟩
  rcases List.prefix_concat_iff.mp onTheWay with rfl | shorter
  · exact absurd rfl different
  · by_cases same : before = location
    · rw [same, directory]
    · exact reached.above before shorter same

theorem reached_root (directory : tree [] = some .directory) : Reached tree [] := by
  constructor
  · intro before onTheWay different
    exact absurd (List.prefix_nil.mp onTheWay) different
  · intro target
    rw [directory]
    nofun

theorem reached_of_pass {follow : Location → List Char → Except Failure Location}
    (followed : ∀ location path found, Reached tree location → follow location path = .ok found →
      Reached tree found)
    {location found : Location} {name : List Char} (reached : Reached tree location)
    (directory : tree location = some .directory)
    (passed : pass tree follow location name = .ok found) : Reached tree found := by
  unfold pass at passed
  split at passed
  · cases passed
    exact reached
  · split at passed
    · cases passed
      exact reached.dropLast
    · split at passed
      · exact followed _ _ _ reached passed
      · rename_i noLink
        cases passed
        exact reached.append directory noLink

theorem reached_of_descend
    (followed : ∀ location path found, Reached tree location →
      walk tree depth location path = .ok found → Reached tree found)
    {names : List (List Char)} {location found : Location}
    (from_ : location = [] ∧ names ≠ [] ∨ Reached tree location)
    (ok : descend tree depth location names = .ok found) : Reached tree found := by
  induction names generalizing location with
  | nil =>
    cases ok
    rcases from_ with ⟨_, some⟩ | reached
    · exact absurd rfl some
    · exact reached
  | cons name names ih =>
    rw [descend, List.foldlM_cons] at ok
    obtain ⟨next, first, later⟩ := Effect.ok_of_bind ok
    obtain ⟨directory, passed⟩ := directory_of_step first
    have reached : Reached tree location := by
      rcases from_ with ⟨rfl, _⟩ | reached
      · exact reached_root directory
      · exact reached
    exact ih (.inr (reached_of_pass followed reached directory passed)) later

theorem reached_of_walk {location found : Location} {path : List Char}
    (from_ : location = [] ∨ Reached tree location)
    (ok : walk tree depth location path = .ok found) : Reached tree found := by
  induction depth generalizing location path found with
  | zero => cases ok
  | succ depth ih =>
    apply reached_of_descend (fun _ _ _ reached => ih (.inr reached)) ?_ ok
    unfold start
    split
    · exact .inl ⟨rfl, List.splitOn_ne_nil '/' path⟩
    · rcases from_ with rfl | reached
      · exact .inl ⟨rfl, List.splitOn_ne_nil '/' path⟩
      · exact .inr reached

/-! ## What a walk depends on -/

structure Extends (tree tree' : Tree) : Prop where
  directory : ∀ location, Reached tree location → tree location = some .directory →
    tree' location = some .directory
  link : ∀ location name target, Reached tree location → tree location = some .directory →
    (tree (location ++ [name]) = some (.link target) ↔
      tree' (location ++ [name]) = some (.link target))

theorem pass_of_extends (extends_ : Extends tree tree')
    {follow follow' : Location → List Char → Except Failure Location}
    (followed : ∀ location path found, Reached tree location → follow location path = .ok found →
      follow' location path = .ok found)
    {location found : Location} {name : List Char} (reached : Reached tree location)
    (directory : tree location = some .directory)
    (ok : pass tree follow location name = .ok found) :
    pass tree' follow' location name = .ok found := by
  have link := extends_.link location name
  unfold pass at ok ⊢
  by_cases skipped : name = [] ∨ name = ['.']
  · rw [if_pos skipped] at ok ⊢
    exact ok
  · rw [if_neg skipped] at ok ⊢
    by_cases up : name = ['.', '.']
    · rw [if_pos up] at ok ⊢
      exact ok
    · rw [if_neg up] at ok ⊢
      split at ok
      · rename_i target there
        rw [(link target reached directory).mp there]
        exact followed _ _ _ reached ok
      · rename_i noLink
        split
        · rename_i target there
          exact absurd ((link target reached directory).mpr there) (noLink target)
        · exact ok

theorem descend_of_extends (extends_ : Extends tree tree')
    (followed : ∀ location path found, Reached tree location →
      walk tree depth location path = .ok found → walk tree' depth location path = .ok found)
    {names : List (List Char)} {location found : Location}
    (from_ : location = [] ∨ Reached tree location)
    (ok : descend tree depth location names = .ok found) :
    descend tree' depth location names = .ok found := by
  induction names generalizing location with
  | nil => exact ok
  | cons name names ih =>
    rw [descend, List.foldlM_cons] at ok ⊢
    obtain ⟨next, first, later⟩ := Effect.ok_of_bind ok
    obtain ⟨directory, passed⟩ := directory_of_step first
    have reached : Reached tree location := by
      rcases from_ with rfl | reached
      · exact reached_root directory
      · exact reached
    have same := pass_of_extends extends_ followed reached directory passed
    rw [← step_of_directory (extends_.directory _ reached directory)] at same
    have nextReached : Reached tree next :=
      reached_of_pass (fun _ _ _ reached => reached_of_walk (.inr reached)) reached directory
        passed
    exact Effect.bind_of_ok same (ih (.inr nextReached) later)

theorem walk_of_extends (extends_ : Extends tree tree') {location found : Location}
    {path : List Char} (from_ : location = [] ∨ Reached tree location)
    (ok : walk tree depth location path = .ok found) :
    walk tree' depth location path = .ok found := by
  induction depth generalizing location path found with
  | zero => cases ok
  | succ depth ih =>
    apply descend_of_extends extends_ (fun _ _ _ reached => ih (.inr reached)) ?_ ok
    unfold start
    split
    · exact .inl rfl
    · exact from_

theorem parent_of_extends (extends_ : Extends tree tree') {found : Location} {path : List Char}
    (ok : parent tree depth [] path = .ok found) : parent tree' depth [] path = .ok found := by
  cases depth with
  | zero => cases ok
  | succ depth =>
    rw [parent] at ok ⊢
    obtain ⟨reached, before, entered⟩ := Effect.ok_of_bind ok
    obtain ⟨directory, rfl⟩ := enter_eq_ok_iff.mp entered
    have root : start [] path = [] := by
      unfold start
      split <;> rfl
    rw [root] at before ⊢
    have same := descend_of_extends extends_
      (fun _ _ _ reached => walk_of_extends extends_ (.inr reached)) (.inl rfl) before
    apply Effect.bind_of_ok same
    by_cases some_ : (path.splitOn '/').dropLast = []
    · rw [some_] at before
      cases before
      exact enter_eq_ok_iff.mpr ⟨extends_.directory _ (reached_root directory) directory, rfl⟩
    · have isReached := reached_of_descend (fun _ _ _ reached => reached_of_walk (.inr reached))
        (.inl ⟨rfl, some_⟩) before
      exact enter_eq_ok_iff.mpr ⟨extends_.directory _ isReached directory, rfl⟩

/-! ## Directories one below the other -/

theorem step_of_plain {follow : Location → List Char → Except Failure Location}
    {location : Location} {name : List Char} (here : tree location = some .directory)
    (isName : Path.IsName '.' name)
    (plain : ∀ target, tree (location ++ [name]) ≠ some (.link target)) :
    step tree follow location name = .ok (location ++ [name]) := by
  rw [step_of_directory here, pass_of_isName isName]
  split
  · rename_i target linked
    exact absurd linked (plain target)
  · rfl

theorem descend_directories {names : List (List Char)} {location : Location}
    (proper : ∀ name ∈ names, Path.IsName '.' name)
    (above : ∀ before, before <+: names → before ≠ names →
      tree (location ++ before) = some .directory)
    (noLink : ∀ target, tree (location ++ names) ≠ some (.link target)) :
    descend tree depth location names = .ok (location ++ names) := by
  induction names generalizing location with
  | nil =>
    rw [List.append_nil]
    rfl
  | cons name names ih =>
    have here := above [] List.nil_prefix (List.cons_ne_nil name names).symm
    rw [List.append_nil] at here
    have plain : ∀ target, tree (location ++ [name]) ≠ some (.link target) := by
      intro target
      by_cases last : names = []
      · rw [last] at noLink
        exact noLink target
      · rw [above [name] (by simp) (by simpa using Ne.symm last)]
        nofun
    rw [List.append_cons] at noLink ⊢
    rw [descend, List.foldlM_cons, step_of_plain here (proper name List.mem_cons_self) plain]
    apply ih (fun other member => proper other (List.mem_cons_of_mem name member))
    · intro before way different
      rw [← List.append_cons]
      exact above (name :: before) (by simpa using way) (by simpa using different)
    · exact noLink

theorem descend_missing {names : List (List Char)} {location : Location}
    (proper : ∀ name ∈ names, Path.IsName '.' name)
    (way : ∀ before, before <+: names → before ≠ names →
      tree (location ++ before) = none ∨ tree (location ++ before) = some .directory)
    (missing : ∃ before, before <+: names ∧ before ≠ names ∧ tree (location ++ before) = none) :
    descend tree depth location names = .error .missing := by
  induction names generalizing location with
  | nil =>
    obtain ⟨before, prefix_, different, _⟩ := missing
    exact absurd (List.prefix_nil.mp prefix_) different
  | cons name names ih =>
    rw [descend, List.foldlM_cons]
    rcases way [] List.nil_prefix (List.cons_ne_nil name names).symm with none_ | here
    · rw [List.append_nil] at none_
      have failed : step tree (walk tree depth) location name = .error .missing := by
        rw [step, enter, none_]
        rfl
      rw [failed]
      rfl
    · rw [List.append_nil] at here
      obtain ⟨before, below, different, none_⟩ := missing
      obtain ⟨before, rfl⟩ : ∃ later, before = name :: later := by
        cases before with
        | nil => simp [here] at none_
        | cons first later =>
          obtain ⟨rfl, _⟩ := List.cons_prefix_cons.mp below
          exact ⟨later, rfl⟩
      rw [List.append_cons] at none_
      have below' : before <+: names := (List.cons_prefix_cons.mp below).2
      have different' : before ≠ names := fun same => different (congrArg _ same)
      have some_ : names ≠ [] := by
        rintro rfl
        exact different' (List.prefix_nil.mp below')
      have plain : ∀ target, tree (location ++ [name]) ≠ some (.link target) := by
        intro target
        rcases way [name] (by simp) (by simpa using some_.symm) with none_ | directory
        · rw [none_]
          nofun
        · rw [directory]
          nofun
      rw [step_of_plain here (proper name List.mem_cons_self) plain]
      apply ih (fun other member => proper other (List.mem_cons_of_mem name member))
      · intro before way' different
        rw [← List.append_cons]
        exact way (name :: before) (by simpa using way') (by simpa using different)
      · exact ⟨before, below', different', none_⟩

theorem descend_file {names kept : List (List Char)} {location : Location}
    (filtered : names.filter (fun name => name ≠ [] ∧ name ≠ ['.']) = kept) (some_ : kept ≠ [])
    (noUp : ['.', '.'] ∉ kept)
    (above : ∀ before, before <+: kept → before ≠ kept →
      tree (location ++ before) = some .directory)
    (file : tree (location ++ kept) = some .file) :
    descend tree depth location names = .ok (location ++ kept) ↔
      names.getLast? ≠ some [] ∧ names.getLast? ≠ some ['.'] := by
  induction names generalizing location kept with
  | nil => exact absurd filtered.symm some_
  | cons name names ih =>
    have here := above [] List.nil_prefix some_.symm
    rw [List.append_nil] at here
    rw [descend, List.foldlM_cons, step_of_directory here]
    by_cases skipped : name = [] ∨ name = ['.']
    · rw [List.filter_cons_of_neg (by simpa [or_iff_not_imp_left] using skipped)] at filtered
      have more : names ≠ [] := by
        rintro rfl
        exact some_ filtered.symm
      rw [pass, if_pos skipped, List.getLast?_cons_of_ne_nil more]
      exact ih filtered some_ noUp above file
    · obtain ⟨notEmpty, notDot⟩ := not_or.mp skipped
      rw [List.filter_cons_of_pos (by simp [notEmpty, notDot])] at filtered
      obtain ⟨rest, isRest⟩ : ∃ rest, rest = names.filter fun name => name ≠ [] ∧ name ≠ ['.'] :=
        ⟨_, rfl⟩
      rw [← isRest] at filtered
      subst filtered
      have isName : Path.IsName '.' name :=
        ⟨notEmpty, notDot, fun up => noUp (up ▸ List.mem_cons_self)⟩
      rw [List.append_cons] at file ⊢
      rw [← step_of_directory here]
      by_cases last : rest = []
      · subst last
        rw [List.append_nil] at file ⊢
        rw [step_of_plain here isName (by simp [file])]
        cases names with
        | nil => exact iff_of_true rfl ⟨by simpa using notEmpty, by simpa using notDot⟩
        | cons next names =>
          have stuck : step tree (walk tree depth) (location ++ [name]) next =
              .error .notADirectory := by
            rw [step, enter, file]
            rfl
          apply iff_of_false
          · change (step tree (walk tree depth) (location ++ [name]) next >>= _) ≠ _
            rw [stuck]
            nofun
          · rw [List.getLast?_cons_cons, List.getLast?_eq_some_getLast (by simp)]
            have dropped := List.filter_eq_nil_iff.mp isRest.symm _
              (List.getLast_mem (List.cons_ne_nil next names))
            simpa [or_iff_not_imp_left] using dropped
      · have directory := above [name] (by simp) (by simpa using Ne.symm last)
        have more : names ≠ [] := by
          rintro rfl
          exact last isRest
        rw [step_of_plain here isName (by simp [directory]), List.getLast?_cons_of_ne_nil more]
        apply ih isRest.symm last (fun up => noUp (List.mem_cons_of_mem name up)) _ file
        intro before way different
        rw [← List.append_cons]
        exact above (name :: before) (by simpa using way) (by simpa using different)

/-! ## What a path names -/

theorem place_of_isName {location : Location} {path : List Char}
    (proper : Path.IsName '.' (lastName path)) : place tree depth location path =
      parent tree depth location path >>= fun directory => pure (directory ++ [lastName path]) :=
  if_pos proper

theorem splitOn_append_of_not_mem {path suffix : List Char} (free : '/' ∉ suffix) :
    (path ++ suffix).splitOn '/' = (path.splitOn '/').dropLast ++ [lastName path ++ suffix] := by
  obtain ⟨before, last, split, append⟩ := Path.splitOn_append '/' path
  have single : suffix.splitOn '/' = [suffix] := List.splitOn_eq_singleton free
  simp [append suffix suffix [] single, lastName, split]

theorem lastName_append {path suffix : List Char} (free : '/' ∉ suffix) :
    lastName (path ++ suffix) = lastName path ++ suffix := by
  simp [lastName, splitOn_append_of_not_mem free]

theorem parent_append {path suffix : List Char} (free : '/' ∉ suffix) (nonempty : path ≠ [])
    (location : Location) :
    parent tree depth location (path ++ suffix) = parent tree depth location path := by
  have same : start location (path ++ suffix) = start location path := by
    cases path with
    | nil => exact absurd rfl nonempty
    | cons c path => rfl
  cases depth with
  | zero => rfl
  | succ depth => rw [parent, parent, splitOn_append_of_not_mem free, List.dropLast_concat, same]

/-! ## Absolute paths through directories -/

section Absolute

variable {path name : List Char} {names : List (List Char)}
  (split : path.splitOn '/' = [] :: names ++ [name]) (root : tree [] = some .directory)
  (proper : ∀ other ∈ names, Path.IsName '.' other)

theorem start_root (path : List Char) : start [] path = [] := by
  unfold start
  split <;> rfl

include split root in
theorem walk_of_split : walk tree (depth + 1) [] path = descend tree depth [] (names ++ [name]) := by
  rw [walk_succ, start_root, split, descend, List.cons_append, List.foldlM_cons, step_nil, enter,
    root]
  rfl

include split in
theorem lastName_of_split : lastName path = name := by
  simp [lastName, split]

include split root in
theorem place_of_split (isName : Path.IsName '.' name) :
    place tree (depth + 1) [] path = descend tree depth [] names >>= fun reached =>
      enter tree reached >>= fun directory => pure (directory ++ [name]) := by
  have last := lastName_of_split split
  rw [place_of_isName (last ▸ isName), last, parent, start_root, split, List.dropLast_concat,
    descend, List.foldlM_cons, step_nil, enter, root]
  exact bind_assoc _ _ _

include split root proper

theorem walk_link (isName : Path.IsName '.' name)
    (above : ∀ before, before <+: names → tree before = some .directory) {target : List Char}
    (linked : tree (names ++ [name]) = some (.link target)) :
    walk tree (depth + 1) [] path = walk tree depth names target := by
  have here := above names List.prefix_rfl
  rw [walk_of_split split root, descend_append,
    descend_directories proper (fun before way _ => above before way) (by simp [here])]
  change descend tree depth names [name] = _
  rw [descend_singleton, step_of_directory here, pass_of_isName isName, linked]

theorem place_directories (isName : Path.IsName '.' name)
    (above : ∀ before, before <+: names → tree before = some .directory) :
    place tree (depth + 1) [] path = .ok (names ++ [name]) := by
  have here := above names List.prefix_rfl
  rw [place_of_split split root isName,
    descend_directories proper (fun before way _ => above before way) (by simp [here])]
  change (enter tree names >>= _) = _
  rw [enter, here]
  rfl

theorem place_missing (isName : Path.IsName '.' name)
    (way : ∀ before, before <+: names → tree before = none ∨ tree before = some .directory)
    (missing : ∃ before, before <+: names ∧ tree before = none) :
    place tree (depth + 1) [] path = .error .missing := by
  rw [place_of_split split root isName]
  by_cases above : ∀ before, before <+: names → before ≠ names → tree before = some .directory
  · have last : tree names = none := by
      obtain ⟨before, below, none_⟩ := missing
      by_cases same : before = names
      · rwa [← same]
      · rw [above before below same] at none_
        cases none_
    rw [descend_directories proper above (by simp [last])]
    change (enter tree names >>= _) = _
    rw [enter, last]
    rfl
  · push Not at above
    obtain ⟨before, below, different, not_⟩ := above
    rw [descend_missing proper (fun before below _ => way before below)
      ⟨before, below, different, (way before below).resolve_right not_⟩]
    rfl

end Absolute

/-! ## Joined paths -/

section Join

variable {name : List Char} (proper : Python.Os.Proper name)

include proper

theorem splitOn_join (path : List Char) :
    ∃ before, (Python.Os.join path name).splitOn '/' = before ++ [name] ∧
      (path.splitOn '/' = before ∨ path.splitOn '/' = before ++ [[]]) := by
  have relative : name.head? ≠ some '/' :=
    fun first => proper.2 (List.mem_of_mem_head? first)
  unfold Python.Os.join
  rw [if_neg relative]
  split
  · rename_i closed
    rcases closed with rfl | closed
    · refine ⟨[], ?_, .inr (List.splitOn_nil '/')⟩
      rw [List.nil_append, List.splitOn_eq_singleton proper.2]
      rfl
    · obtain ⟨front, rfl⟩ := List.getLast?_eq_some_iff.mp closed
      refine ⟨front.splitOn '/', ?_, .inr ?_⟩
      · rw [List.append_assoc, List.singleton_append, List.splitOn_append_cons_self,
          List.splitOn_eq_singleton proper.2]
      · rw [List.splitOn_append_cons_self, List.splitOn_nil]
  · refine ⟨path.splitOn '/', ?_, .inl rfl⟩
    rw [List.splitOn_append_cons_self, List.splitOn_eq_singleton proper.2]

theorem start_join (location : Location) (path : List Char) :
    start location (Python.Os.join path name) = start location path := by
  have relative : name.head? ≠ some '/' :=
    fun first => proper.2 (List.mem_of_mem_head? first)
  unfold start Python.Os.join
  rw [if_neg relative]
  cases path with
  | nil => simp [relative]
  | cons c path => split <;> simp

theorem walk_join (location : Location) (path : List Char) :
    walk tree (depth + 1) location (Python.Os.join path name) =
      walk tree (depth + 1) location path >>= fun reached =>
        step tree (walk tree depth) reached name := by
  obtain ⟨before, joined, bare | slash⟩ := splitOn_join proper path
  · rw [walk_succ, walk_succ, start_join proper, joined, bare, descend_append]
    simp only [descend_singleton]
  · rw [walk_succ, walk_succ, start_join proper, joined, slash, descend_append, descend_append,
      bind_assoc]
    simp only [descend_singleton, step_nil_step]

theorem lastName_join (path : List Char) : lastName (Python.Os.join path name) = name := by
  obtain ⟨before, joined, _⟩ := splitOn_join proper path
  simp [lastName, joined]

theorem place_join (location : Location) (path : List Char) :
    place tree (depth + 1) location (Python.Os.join path name) =
      walk tree (depth + 1) location path >>= fun reached =>
        enter tree reached >>= fun directory => pure (directory ++ [name]) := by
  obtain ⟨before, joined, bare | slash⟩ := splitOn_join proper path
  · rw [place, lastName_join proper, if_pos proper.1, parent, walk_succ, start_join proper, joined,
      bare, List.dropLast_concat, bind_assoc]
  · rw [place, lastName_join proper, if_pos proper.1, parent, walk_succ, start_join proper, joined,
      slash, List.dropLast_concat, descend_append, bind_assoc, bind_assoc]
    congr 1
    funext reached
    rw [descend_singleton, step_nil]
    cases entered : enter tree reached with
    | error failure => rfl
    | ok directory =>
      obtain ⟨_, rfl⟩ := enter_eq_ok_iff.mp entered
      change _ = enter tree directory >>= fun parent => pure (parent ++ [name])
      rw [entered]

end Join

theorem walk_of_append_slashes {location found : Location} {path slashes : List Char}
    (nonempty : path ≠ []) (only : ∀ c ∈ slashes, c = '/')
    (ok : walk tree (depth + 1) location (path ++ slashes) = .ok found) :
    walk tree (depth + 1) location path = .ok found := by
  induction slashes using List.reverseRecOn with
  | nil => simpa using ok
  | append_singleton slashes c ih =>
    obtain rfl := only c (by simp)
    apply ih fun c member => only c (by simp [member])
    rw [← List.append_assoc, walk_succ, List.splitOn_append_cons_self, List.splitOn_nil,
      descend_append] at ok
    obtain ⟨reached, before, later⟩ := Effect.ok_of_bind ok
    rw [descend_singleton, step_nil] at later
    obtain ⟨_, rfl⟩ := enter_eq_ok_iff.mp later
    have same : start location (path ++ slashes ++ ['/']) = start location (path ++ slashes) := by
      cases path with
      | nil => exact absurd rfl nonempty
      | cons c path => rfl
    rw [walk_succ, ← same]
    exact before

end Lookup
