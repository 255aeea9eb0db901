import Plinth.Model.Ssh

/-! # Where the keys are written -/

namespace Plinth.Ssh

open Effect Python Exception Lookup
open FileSystem (Entry Node File Attributes)

variable {host : Host} {tree : Tree}

/-! ## Kinds of entries -/

theorem kinds_link_iff {location : Location} {target : List Char} :
    kinds tree location = some (.link target) ↔ tree location = some (.link target) := by
  unfold kinds
  cases tree location with
  | none => simp
  | some entry =>
    cases entry with
    | node node => cases node <;> simp [kind]
    | link other => simp [kind]

theorem kinds_directory_iff {location : Location} :
    kinds tree location = some .directory ↔
      ∃ attributes, tree location = some (.node (.directory attributes)) := by
  unfold kinds
  cases tree location with
  | none => simp
  | some entry =>
    cases entry with
    | node node => cases node <;> simp [kind]
    | link other => simp [kind]

theorem kinds_congr {tree' : Tree} {location : Location} (same : tree' location = tree location) :
    kinds tree' location = kinds tree location := by
  rw [kinds, kinds, same]

theorem find_eq_ok_iff {path : List Char} {location : Location} :
    find host tree path = .ok location ↔ walk (kinds tree) host.depth [] path = .ok location := by
  unfold find
  cases walk (kinds tree) host.depth [] path <;> simp [Except.mapError]

theorem depth_of_find {path : List Char} {location : Location}
    (found : find host tree path = .ok location) : ∃ depth, host.depth = depth + 1 := by
  rw [find_eq_ok_iff] at found
  cases deep : host.depth with
  | zero =>
    rw [deep] at found
    cases found
  | succ depth => exact ⟨depth, rfl⟩

theorem reached_of_find {path : List Char} {location : Location}
    (found : find host tree path = .ok location) : Reached (kinds tree) location :=
  reached_of_walk (.inl rfl) (find_eq_ok_iff.mp found)

theorem existsAt_iff {path : List Char} : existsAt host tree path = true ↔
    ∃ location, find host tree path = .ok location ∧ tree location ≠ none := by
  unfold existsAt
  cases find host tree path with
  | error e => simp
  | ok location => simp [Option.isSome_iff_ne_none]

/-! ## Changed trees -/

theorem extends_update {location : Location} {file : File}
    (noDirectory : kinds tree location ≠ some .directory)
    (noLink : ∀ target, kinds tree location ≠ some (.link target)) :
    Extends (kinds tree) (kinds (Function.update tree location (some (.node (.file file))))) := by
  have other : ∀ place, place ≠ location →
      kinds (Function.update tree location (some (.node (.file file)))) place =
        kinds tree place :=
    fun place different => kinds_congr (Function.update_of_ne different _ _)
  have self : kinds (Function.update tree location (some (.node (.file file)))) location =
      some .file := by
    rw [kinds, Function.update_self]
    rfl
  constructor
  · intro place _ directory
    rw [other place fun same => noDirectory (same ▸ directory)]
    exact directory
  · intro place name target _ _
    by_cases same : place ++ [name] = location
    · rw [same, self]
      exact iff_of_false (noLink target) nofun
    · rw [other _ same]

theorem not_prefix_of_reached {location place : Location} (missing : tree location = none)
    (reached : Reached (kinds tree) place) (directory : kinds tree place = some .directory) :
    ¬ location <+: place := by
  intro below
  have none_ : kinds tree location = none := by
    rw [kinds, missing]
    rfl
  by_cases same : location = place
  · rw [← same, none_] at directory
    cases directory
  · have above := reached.above location below same
    rw [none_] at above
    cases above

theorem kinds_withDirectory_self (location : Location) (attributes : Attributes) :
    kinds (withDirectory tree location attributes) location = some .directory := by
  rw [kinds, withDirectory, if_pos rfl]
  rfl

theorem extends_withDirectory {location : Location} (attributes : Attributes)
    (missing : tree location = none) :
    Extends (kinds tree) (kinds (withDirectory tree location attributes)) := by
  have other : ∀ place, ¬ location <+: place →
      kinds (withDirectory tree location attributes) place = kinds tree place := by
    intro place outside
    have different : place ≠ location := by
      rintro rfl
      exact outside List.prefix_rfl
    apply kinds_congr
    rw [withDirectory, if_neg different, if_neg outside]
  constructor
  · intro place reached directory
    rw [other place (not_prefix_of_reached missing reached directory)]
    exact directory
  · intro place name target reached directory
    by_cases same : place ++ [name] = location
    · rw [same, kinds_withDirectory_self, kinds, missing]
      exact iff_of_false nofun nofun
    · rw [other]
      intro below
      rcases List.prefix_concat_iff.mp below with equal | shorter
      · exact same equal.symm
      · exact not_prefix_of_reached missing reached directory shorter

theorem find_of_extends {tree' : Tree} (extends_ : Extends (kinds tree) (kinds tree'))
    {path : List Char} {location : Location} (found : find host tree path = .ok location) :
    find host tree' path = .ok location :=
  find_eq_ok_iff.mpr (walk_of_extends extends_ (.inl rfl) (find_eq_ok_iff.mp found))

/-! ## The paths of the folder and the file -/

theorem proper_ssh : Os.Proper ssh := by
  refine ⟨?_, ?_⟩ <;> decide

theorem proper_authorizedKeys : Os.Proper authorizedKeys := by
  refine ⟨?_, ?_⟩ <;> decide

variable {homedir : List Char} {home : Location}

theorem find_join {path name : List Char} {location : Location} (proper : Os.Proper name)
    (found : find host tree path = .ok location)
    (directory : kinds tree location = some .directory)
    (noLink : ∀ target, tree (location ++ [name]) ≠ some (.link target)) :
    find host tree (Os.join path name) = .ok (location ++ [name]) := by
  obtain ⟨depth, deep⟩ := depth_of_find found
  rw [find_eq_ok_iff, deep] at found ⊢
  rw [walk_join proper, found]
  change step _ _ _ _ = _
  rw [step_of_directory directory, pass_of_isName proper.1]
  split
  · rename_i target there
    exact absurd (kinds_link_iff.mp there) (noLink target)
  · rfl

theorem directory_of_find_join {path name : List Char} {location : Location}
    (proper : Os.Proper name) (found : find host tree (Os.join path name) = .ok location) :
    ∃ directory, find host tree path = .ok directory ∧
      kinds tree directory = some .directory := by
  obtain ⟨depth, deep⟩ := depth_of_find found
  rw [find_eq_ok_iff, deep, walk_join proper] at found
  obtain ⟨directory, first, later⟩ := ok_of_bind found
  refine ⟨directory, ?_, (directory_of_step later).1⟩
  rw [find_eq_ok_iff, deep]
  exact first

theorem keyLocation_eq (home : Location) :
    keyLocation home = folderLocation home ++ [authorizedKeys] := by
  simp [keyLocation, folderLocation]

theorem plain_of_find (atHome : find host tree homedir = .ok home)
    {path : List Char} (found : find host tree path = .ok (keyLocation home)) :
    Plain host tree homedir := by
  intro home' atHome' target
  obtain rfl : home = home' := by
    rw [atHome] at atHome'
    exact Except.ok.inj atHome'
  have reached := reached_of_find found
  constructor
  · rw [Ne, ← kinds_link_iff]
    apply reached.noLink_of_prefix
    rw [keyLocation_eq]
    exact List.prefix_append ..
  · rintro _
    rw [Ne, ← kinds_link_iff]
    exact reached.noLink target

theorem find_keyFile_of_plain (atHome : find host tree homedir = .ok home)
    (plain : Plain host tree homedir) (there : existsAt host tree (sshFolder homedir) = true)
    {location : Location} (found : find host tree (keyFilePath homedir) = .ok location) :
    location = keyLocation home := by
  obtain ⟨folder, atFolder, present⟩ := existsAt_iff.mp there
  obtain ⟨home', atHome', directory⟩ := directory_of_find_join proper_ssh atFolder
  obtain rfl : home = home' := by
    rw [atHome] at atHome'
    exact Except.ok.inj atHome'
  have noLink := fun target => (plain home atHome target).1
  obtain rfl : folder = folderLocation home := by
    have direct := find_join proper_ssh atHome directory noLink
    rw [sshFolder, direct] at atFolder
    exact (Except.ok.inj atFolder).symm
  obtain ⟨folder', atFolder', isDirectory⟩ := directory_of_find_join proper_authorizedKeys found
  obtain rfl : folderLocation home = folder' := by
    rw [atFolder] at atFolder'
    exact Except.ok.inj atFolder'
  have direct := find_join proper_authorizedKeys atFolder isDirectory fun target => by
    rw [← keyLocation_eq]
    exact (plain home atHome target).2 present
  rw [keyFilePath, direct, ← keyLocation_eq] at found
  exact (Except.ok.inj found).symm

/-! ## The folder -/

theorem split_append_ssh {front : List Char} (closed : front = [] ∨ front.getLast? = some '/') :
    split (front ++ ssh) =
      (if front.all (· = '/') then front else front.rdropWhile (· = '/'), ssh) := by
  have letters : front ++ ssh = front ++ ['.'] ++ ['s'] ++ ['s'] ++ ['h'] := by
    simp [ssh]
  have head : (front ++ ssh).rdropWhile (fun c => decide (c ≠ '/')) = front := by
    rw [letters, List.rdropWhile_concat_pos _ _ _ (by decide),
      List.rdropWhile_concat_pos _ _ _ (by decide), List.rdropWhile_concat_pos _ _ _ (by decide),
      List.rdropWhile_concat_pos _ _ _ (by decide)]
    rcases closed with rfl | closed
    · rfl
    · obtain ⟨shorter, rfl⟩ := List.getLast?_eq_some_iff.mp closed
      exact List.rdropWhile_concat_neg _ _ _ (by decide)
  have tail : (front ++ ssh).rtakeWhile (fun c => decide (c ≠ '/')) = ssh := by
    have whole : (front ++ ssh).rdropWhile (fun c => decide (c ≠ '/')) ++
        (front ++ ssh).rtakeWhile (fun c => decide (c ≠ '/')) = front ++ ssh :=
      List.rdropWhile_append_rtakeWhile
    rw [head] at whole
    exact List.append_cancel_left whole
  rw [split, head, tail]

theorem existsAt_without_slashes {path : List Char} (nonempty : path.rdropWhile (· = '/') ≠ [])
    (there : existsAt host tree path = true) :
    existsAt host tree (path.rdropWhile (· = '/')) = true := by
  obtain ⟨location, found, present⟩ := existsAt_iff.mp there
  obtain ⟨depth, deep⟩ := depth_of_find found
  refine existsAt_iff.mpr ⟨location, ?_, present⟩
  rw [find_eq_ok_iff, deep] at found ⊢
  have whole : walk (kinds tree) (depth + 1) []
      (path.rdropWhile (· = '/') ++ path.rtakeWhile (· = '/')) = .ok location := by
    rw [List.rdropWhile_append_rtakeWhile]
    exact found
  apply walk_of_append_slashes nonempty ?_ whole
  intro c member
  simpa using List.mem_rtakeWhile_imp member

theorem head_folder (there : existsAt host tree homedir = true) :
    (headAndTail (sshFolder homedir)).1 = [] ∨
      existsAt host tree (headAndTail (sshFolder homedir)).1 = true := by
  have relative : ssh.head? ≠ some '/' := by decide
  have named : ssh ≠ [] := by decide
  unfold sshFolder Os.join
  rw [if_neg relative]
  split
  · rename_i closed
    rw [headAndTail, split_append_ssh closed, if_neg named]
    dsimp only
    split
    · exact .inr there
    · rename_i notOnly
      right
      apply existsAt_without_slashes ?_ there
      intro empty
      apply notOnly
      rw [List.all_eq_true]
      exact List.rdropWhile_eq_nil_iff.mp empty
  · rename_i open_
    rw [not_or] at open_
    have front : homedir ++ '/' :: ssh = homedir ++ ['/'] ++ ssh := by simp
    have last : ∀ nonempty : homedir ≠ [], ¬ decide (homedir.getLast nonempty = '/') = true := by
      intro nonempty same
      apply open_.2
      rw [List.getLast?_eq_some_getLast nonempty, of_decide_eq_true same]
    have notOnly : ¬ (homedir ++ ['/']).all (fun c => decide (c = '/')) = true := by
      intro only
      rw [List.all_append, Bool.and_eq_true, List.all_eq_true] at only
      exact last open_.1 (only.1 _ (List.getLast_mem open_.1))
    rw [front, headAndTail, split_append_ssh (.inr (by simp)), if_neg named, if_neg notOnly,
      List.rdropWhile_concat_pos _ _ _ (by decide), List.rdropWhile_eq_self_iff.mpr last]
    exact .inr there

theorem exec_makedirs (there : existsAt host tree homedir = true) (touched : List Location)
    (length : Nat) : (makedirs host length (sshFolder homedir)).exec ⟨tree, touched⟩ =
      (mkdir host (sshFolder homedir)).exec ⟨tree, touched⟩ := by
  cases length with
  | zero => rfl
  | succ length =>
    rw [makedirs, exec_bind_of_ok (exec_get _)]
    dsimp only
    rw [if_neg]
    rintro ⟨some_, _, missing⟩
    rcases head_folder there with empty | present
    · exact some_ empty
    · simp [present] at missing

theorem exec_mkdir (atHome : find host tree homedir = .ok home) (touched : List Location) :
    (mkdir host (sshFolder homedir)).exec ⟨tree, touched⟩ =
      (lift ((enter (kinds tree) home).mapError osError) >>= fun directory =>
        mkdirAt tree (directory ++ [ssh])).exec ⟨tree, touched⟩ := by
  obtain ⟨depth, deep⟩ := depth_of_find atHome
  rw [find_eq_ok_iff, deep] at atHome
  rw [mkdir, exec_bind_of_ok (exec_get _), deep, sshFolder, place_join proper_ssh, atHome]
  change (lift ((enter (kinds tree) home >>= fun directory => pure (directory ++ [ssh])).mapError
    osError) >>= _).exec _ = _
  cases enter (kinds tree) home <;> rfl

/-! ## What is written -/

variable {touched : List Location} {location : Location} {path : List Char}

theorem exec_setAttributes {node : Node} (touched : List Location)
    (update : Attributes → Attributes)
    (found : find host tree path = .ok location) (there : tree location = some (.node node)) :
    (setAttributes host update path).exec ⟨tree, touched⟩ =
      (.ok (), ⟨Function.update tree location (some (.node (change update node))),
        touched ++ [location]⟩) := by
  rw [setAttributes, exec_bind_of_ok (exec_get _), found]
  change (setAttributesAt tree update location).exec _ = _
  rw [setAttributesAt, there]
  rfl

theorem exec_write_of_error {e : Exception} (text : List Char)
    (failed : find host tree path = .error e) :
    (write host path text).exec ⟨tree, touched⟩ = (.error e, ⟨tree, touched⟩) := by
  rw [write, exec_bind_of_ok (exec_get _), failed]
  rfl

theorem exec_write_of_directory (text : List Char) (found : find host tree path = .ok location)
    (directory : kinds tree location = some .directory) :
    (write host path text).exec ⟨tree, touched⟩ = (.error IsADirectoryError, ⟨tree, touched⟩) := by
  obtain ⟨attributes, there⟩ := kinds_directory_iff.mp directory
  rw [write, exec_bind_of_ok (exec_get _), found]
  change (writeAt tree text location).exec _ = _
  rw [writeAt, there]
  rfl

theorem exec_write (touched : List Location) (text : List Char)
    (found : find host tree path = .ok location)
    (noDirectory : kinds tree location ≠ some .directory) :
    ∃ attributes, (write host path text).exec ⟨tree, touched⟩ =
      (.ok (), ⟨Function.update tree location (some (.node (.file ⟨text, attributes⟩))),
        touched ++ [location]⟩) := by
  have noLink := (reached_of_find found).noLink
  rw [write, exec_bind_of_ok (exec_get _), found]
  change ∃ attributes, (writeAt tree text location).exec _ = _
  rw [writeAt]
  split
  · rename_i attributes there
    exact absurd (kinds_directory_iff.mpr ⟨attributes, there⟩) noDirectory
  · rename_i file there
    exact ⟨file.attributes, rfl⟩
  · rename_i target there
    exact absurd (kinds_link_iff.mpr there) (noLink target)
  · exact ⟨_, rfl⟩

def withKeys (tree : Tree) (location : Location) (user : String) (keys : List Char) : Tree :=
  Function.update tree location (some (.node (.file ⟨keys, ⟨user, "users", 0o600⟩⟩)))

theorem find_update (file : File) (found : find host tree path = .ok location)
    (noDirectory : kinds tree location ≠ some .directory) :
    find host (Function.update tree location (some (.node (.file file)))) path = .ok location :=
  find_of_extends (extends_update noDirectory (reached_of_find found).noLink) found

theorem exec_writeFile (touched : List Location) (user : String) (keys : List Char)
    (found : find host tree path = .ok location)
    (noDirectory : kinds tree location ≠ some .directory) :
    (do write host path keys
        chown host path user "users"
        chmod host path 0o600 : Action Unit).exec ⟨tree, touched⟩ =
      (.ok (), ⟨withKeys tree location user keys, touched ++ [location, location, location]⟩) := by
  obtain ⟨attributes, written⟩ := exec_write touched keys found noDirectory
  rw [exec_bind_of_ok written]
  have again := find_update ⟨keys, attributes⟩ found noDirectory
  have owned := exec_setAttributes (touched ++ [location])
    (fun attributes => ⟨user, "users", attributes.permissions⟩) again (Function.update_self ..)
  rw [Function.update_idem] at owned
  rw [chown, exec_bind_of_ok owned]
  have last := find_update ⟨keys, ⟨user, "users", attributes.permissions⟩⟩ found noDirectory
  have moded := exec_setAttributes (touched ++ [location] ++ [location])
    (fun attributes => ⟨attributes.user, attributes.group, 0o600⟩) last (Function.update_self ..)
  rw [Function.update_idem] at moded
  simp only [change] at moded ⊢
  rw [chmod, moded, withKeys]
  simp only [List.append_assoc, List.cons_append, List.nil_append]

/-! ## The folder is made -/

theorem exec_makeFolder_of_there (user : String)
    (there : existsAt host tree (sshFolder homedir) = true) :
    (makeFolder host user (sshFolder homedir)).exec ⟨tree, touched⟩ =
      (.ok (), ⟨tree, touched⟩) := by
  rw [makeFolder, exec_bind_of_ok (exec_get _), when_of_not (by simp [there])]
  rfl

def withFolder (tree : Tree) (home : Location) (user : String) : Tree :=
  withDirectory tree (folderLocation home) ⟨user, "users", 0o755⟩

theorem update_withDirectory (attributes attributes' : Attributes) :
    Function.update (withDirectory tree location attributes) location
      (some (.node (.directory attributes'))) = withDirectory tree location attributes' := by
  funext other
  by_cases same : other = location
  · subst same
    rw [Function.update_self, withDirectory, if_pos rfl]
  · rw [Function.update_of_ne same, withDirectory, withDirectory, if_neg same, if_neg same]

section Missing

variable (atHome : find host tree homedir = .ok home)
  (missing : ¬ existsAt host tree (sshFolder homedir) = true)

include atHome

theorem existsAt_home (directory : kinds tree home = some .directory) :
    existsAt host tree homedir = true := by
  obtain ⟨attributes, there⟩ := kinds_directory_iff.mp directory
  exact existsAt_iff.mpr ⟨home, atHome, by simp [there]⟩

theorem find_withFolder (directory : kinds tree home = some .directory)
    (absent : tree (folderLocation home) = none) (attributes : Attributes) :
    find host (withDirectory tree (folderLocation home) attributes) (sshFolder homedir) =
      .ok (folderLocation home) := by
  have extends_ := extends_withDirectory attributes absent
  apply find_join proper_ssh (find_of_extends extends_ atHome)
  · exact extends_.directory _ (reached_of_find atHome) directory
  · intro target
    rw [← folderLocation, withDirectory, if_pos rfl]
    nofun

include missing

theorem exec_makeFolder_of_absent (user : String) (directory : kinds tree home = some .directory)
    (absent : tree (folderLocation home) = none) :
    (makeFolder host user (sshFolder homedir)).exec ⟨tree, touched⟩ =
      (.ok (), ⟨withFolder tree home user,
        touched ++ [folderLocation home, folderLocation home]⟩) := by
  rw [makeFolder, exec_bind_of_ok (exec_get _), when_of (by simpa using missing)]
  have made : (makedirs host (sshFolder homedir).length (sshFolder homedir)).exec
      ⟨tree, touched⟩ = (.ok (), ⟨withDirectory tree (folderLocation home)
        ⟨"root", "root", 0o755⟩, touched ++ [folderLocation home]⟩) := by
    rw [exec_makedirs (existsAt_home atHome directory), exec_mkdir atHome,
      enter_eq_ok_iff.mpr ⟨directory, rfl⟩]
    change (mkdirAt tree (folderLocation home)).exec _ = _
    rw [mkdirAt, if_neg (by simp [absent])]
    rfl
  rw [exec_bind_of_ok made, chown]
  have present : withDirectory tree (folderLocation home) ⟨"root", "root", 0o755⟩
      (folderLocation home) = some (.node (.directory ⟨"root", "root", 0o755⟩)) := by
    rw [withDirectory, if_pos rfl]
  have owned := exec_setAttributes (touched ++ [folderLocation home])
    (fun attributes => ⟨user, "users", attributes.permissions⟩)
    (find_withFolder atHome directory absent ⟨"root", "root", 0o755⟩) present
  rw [owned, change, update_withDirectory, List.append_assoc]
  rfl

theorem exec_makeFolder_of_blocked (touched : List Location) (user : String) (there : tree home ≠ none)
    (blocked : kinds tree home ≠ some .directory ∨ tree (folderLocation home) ≠ none) :
    ∃ e, (makeFolder host user (sshFolder homedir)).exec ⟨tree, touched⟩ =
      (.error e, ⟨tree, touched⟩) := by
  rw [makeFolder, exec_bind_of_ok (exec_get _), when_of (by simpa using missing)]
  have failed : ∃ e, (makedirs host (sshFolder homedir).length (sshFolder homedir)).exec
      ⟨tree, touched⟩ = (.error e, ⟨tree, touched⟩) := by
    rw [exec_makedirs (existsAt_iff.mpr ⟨home, atHome, there⟩), exec_mkdir atHome]
    cases entered : enter (kinds tree) home with
    | error failure => exact ⟨osError failure, rfl⟩
    | ok directory =>
      obtain ⟨isDirectory, rfl⟩ := enter_eq_ok_iff.mp entered
      refine ⟨FileExistsError, ?_⟩
      change (mkdirAt tree (folderLocation directory)).exec _ = _
      rw [mkdirAt, if_pos]
      · rfl
      · rw [Option.isSome_iff_ne_none]
        exact blocked.resolve_left fun noDirectory => noDirectory isDirectory
  obtain ⟨e, raised⟩ := failed
  exact ⟨e, exec_bind_of_error raised⟩

end Missing

/-! ## The file -/

inductive Opened (host : Host) (tree : Tree) (user : String) (homedir : List Char)
    (home : Location) : Location → Tree → List Location → Prop
  | there {location : Location} (there : existsAt host tree (sshFolder homedir) = true)
      (found : find host tree (keyFilePath homedir) = .ok location)
      (noDirectory : kinds tree location ≠ some .directory) :
      Opened host tree user homedir home location tree [location, location, location]
  | made (directory : kinds tree home = some .directory)
      (absent : tree (folderLocation home) = none) :
      Opened host tree user homedir home (keyLocation home) (withFolder tree home user)
        [folderLocation home, folderLocation home, keyLocation home, keyLocation home,
          keyLocation home]

section Opened

variable {user : String} {keys : List Char} {tree' : Tree} {own : List Location}

theorem find_keyFile_withFolder (user : String) (atHome : find host tree homedir = .ok home)
    (directory : kinds tree home = some .directory) (absent : tree (folderLocation home) = none) :
    find host (withFolder tree home user) (keyFilePath homedir) = .ok (keyLocation home) ∧
      withFolder tree home user (keyLocation home) = none := by
  have empty : withFolder tree home user (folderLocation home ++ [authorizedKeys]) = none := by
    rw [withFolder, withDirectory, if_neg (by simp), if_pos (List.prefix_append ..)]
  rw [keyLocation_eq]
  refine ⟨?_, empty⟩
  apply find_join proper_authorizedKeys (find_withFolder atHome directory absent _)
  · exact kinds_withDirectory_self _ _
  · intro target
    rw [← withFolder, empty]
    nofun

theorem Opened.found (opened : Opened host tree user homedir home location tree' own)
    (atHome : find host tree homedir = .ok home) :
    find host tree' (keyFilePath homedir) = .ok location ∧
      kinds tree' location ≠ some .directory := by
  cases opened with
  | there _ found noDirectory => exact ⟨found, noDirectory⟩
  | made directory absent =>
    obtain ⟨found, empty⟩ := find_keyFile_withFolder user atHome directory absent
    refine ⟨found, ?_⟩
    rw [kinds, empty]
    nofun

theorem Opened.mem (opened : Opened host tree user homedir home location tree' own) :
    location ∈ own := by
  cases opened <;> simp

theorem Opened.own_cases (opened : Opened host tree user homedir home location tree' own)
    {other : Location} (member : other ∈ own) :
    other = location ∨ other = folderLocation home ∧ tree other = none := by
  cases opened with
  | there => exact .inl (by simpa using member)
  | made directory absent =>
    rcases (by simpa using member : other = folderLocation home ∨ other = keyLocation home) with
      rfl | rfl
    · exact .inr ⟨rfl, absent⟩
    · exact .inl rfl

theorem Opened.untouched (opened : Opened host tree user homedir home location tree' own)
    {place : Location} (outside : ∀ other ∈ own, ¬ other <+: place) :
    withKeys tree' location user keys place = tree place := by
  have different : place ≠ location := by
    rintro rfl
    exact outside _ opened.mem List.prefix_rfl
  rw [withKeys, Function.update_of_ne different]
  cases opened with
  | there => rfl
  | made =>
    have outsideFolder := outside (folderLocation home) (by simp)
    rw [withFolder, withDirectory, if_neg, if_neg outsideFolder]
    rintro rfl
    exact outsideFolder List.prefix_rfl

theorem getKeys_of_read {passwd : Passwd} {text : List Char}
    (known : host.getpwnam user = some passwd)
    (text_ : read host tree (keyFilePath passwd.pwDir) = .ok text) :
    getKeys host user tree = .ok text := by
  have homedir_ : getUserHomedir host user = .ok passwd.pwDir := by
    rw [getUserHomedir, known]
  rw [getKeys]
  apply bind_of_ok homedir_
  rw [text_]

theorem Opened.readBack {passwd : Passwd}
    (opened : Opened host tree user passwd.pwDir home location tree' own)
    (atHome : find host tree passwd.pwDir = .ok home)
    (known : host.getpwnam user = some passwd) :
    getKeys host user (withKeys tree' location user keys) =
      .ok (Text.universalNewlines keys) := by
  obtain ⟨found, noDirectory⟩ := opened.found atHome
  have again := find_update ⟨keys, ⟨user, "users", 0o600⟩⟩ found noDirectory
  apply getKeys_of_read known
  rw [read, withKeys, again]
  change readAt _ location = _
  rw [readAt, Function.update_self]

theorem Opened.eq_keyLocation (opened : Opened host tree user homedir home location tree' own)
    (atHome : find host tree homedir = .ok home) (plain : Plain host tree homedir) :
    location = keyLocation home := by
  cases opened with
  | there there found => exact find_keyFile_of_plain atHome plain there found
  | made => rfl

theorem folder_of_existsAt (atHome : find host tree homedir = .ok home)
    (there : existsAt host tree (sshFolder homedir) = true) :
    tree (folderLocation home) ≠ none := by
  intro absent
  obtain ⟨folder, atFolder, present⟩ := existsAt_iff.mp there
  obtain ⟨home', atHome', directory⟩ := directory_of_find_join proper_ssh atFolder
  obtain rfl : home = home' := by
    rw [atHome] at atHome'
    exact Except.ok.inj atHome'
  have direct := find_join proper_ssh atHome directory fun target => by
    rw [← folderLocation, absent]
    nofun
  rw [sshFolder, direct] at atFolder
  obtain rfl := Except.ok.inj atFolder
  exact present absent

theorem Opened.plain (opened : Opened host tree user homedir home location tree' own)
    (atHome : find host tree homedir = .ok home) (atPlace : location = keyLocation home ∨
      location = folderLocation home ∧ tree location = none) : Plain host tree homedir := by
  cases opened with
  | there there found =>
    rcases atPlace with rfl | ⟨rfl, absent⟩
    · exact plain_of_find atHome found
    · exact absurd absent (folder_of_existsAt atHome there)
  | made _ absent =>
    intro home' atHome' target
    obtain rfl : home = home' := by
      rw [atHome] at atHome'
      exact Except.ok.inj atHome'
    rw [absent]
    exact ⟨nofun, fun some_ => absurd rfl some_⟩

theorem exec_writeKeys_of_blocked (user : String) (keys : List Char)
    (there : existsAt host tree homedir = true) (blocked : Blocked host tree homedir) :
    ∃ e, (writeKeys host user keys homedir).exec ⟨tree, touched⟩ = (.error e, ⟨tree, touched⟩) := by
  obtain ⟨home, atHome, present⟩ := existsAt_iff.mp there
  unfold Blocked at blocked
  split at blocked
  · rename_i folder
    have failed : ∃ e, (write host (keyFilePath homedir) keys).exec ⟨tree, touched⟩ =
        (.error e, ⟨tree, touched⟩) := by
      cases found : find host tree (keyFilePath homedir) with
      | error e => exact ⟨e, exec_write_of_error keys found⟩
      | ok location =>
        exact ⟨IsADirectoryError, exec_write_of_directory keys found (blocked location found)⟩
    obtain ⟨e, raised⟩ := failed
    refine ⟨e, ?_⟩
    rw [writeKeys, exec_bind_of_ok (exec_makeFolder_of_there user folder)]
    exact exec_bind_of_error raised
  · rename_i missing
    obtain ⟨e, raised⟩ := exec_makeFolder_of_blocked atHome missing touched user
      present (blocked home atHome)
    exact ⟨e, exec_bind_of_error raised⟩

theorem exec_writeKeys_of_open (touched : List Location) (user : String) (keys : List Char)
    (atHome : find host tree homedir = .ok home) (open_ : ¬ Blocked host tree homedir) :
    ∃ location tree' own, Opened host tree user homedir home location tree' own ∧
      (writeKeys host user keys homedir).exec ⟨tree, touched⟩ =
        (.ok (), ⟨withKeys tree' location user keys, touched ++ own⟩) := by
  unfold Blocked at open_
  split at open_
  · rename_i folder
    push Not at open_
    obtain ⟨location, found, noDirectory⟩ := open_
    refine ⟨location, tree, _, .there folder found noDirectory, ?_⟩
    rw [writeKeys, exec_bind_of_ok (exec_makeFolder_of_there user folder)]
    exact exec_writeFile touched user keys found noDirectory
  · rename_i missing
    push Not at open_
    obtain ⟨home', atHome', directory, absent⟩ := open_
    obtain rfl : home = home' := by
      rw [atHome] at atHome'
      exact Except.ok.inj atHome'
    have opened : Opened host tree user homedir home (keyLocation home)
      (withFolder tree home user) _ := .made directory absent
    refine ⟨_, _, _, opened, ?_⟩
    obtain ⟨found, noDirectory⟩ := opened.found atHome
    rw [writeKeys, exec_bind_of_ok (exec_makeFolder_of_absent atHome missing user directory absent)]
    have written := exec_writeFile (touched ++ [folderLocation home, folderLocation home])
      user keys found noDirectory
    rw [written, List.append_assoc]
    rfl

end Opened

/-! ## The whole program -/

section SetKeys

variable {user : String} {keys : List Char} {authUser authPassword : String} {passwd : Passwd}

theorem exec_setKeys_of_denied (keys : List Char) (tree : Tree)
    (denied : Denied host user authUser authPassword) :
    ∃ e, (setKeys host user keys authUser authPassword).exec ⟨tree, []⟩ =
      (.error e, ⟨tree, []⟩) := by
  cases valid : validateUser host authUser authPassword (user ≠ authUser) with
  | error e =>
    refine ⟨e, ?_⟩
    rw [setKeys, valid]
    rfl
  | ok =>
    rcases denied with ⟨other, noAdmin⟩ | wrong | unknown
    · rw [validateUser, if_pos ⟨by simpa using other, noAdmin⟩] at valid
      cases valid
    · rw [validateUser, if_pos wrong] at valid
      split at valid <;> cases valid
    · refine ⟨ValueError "Username not found", ?_⟩
      rw [setKeys, valid, getUserHomedir, unknown]
      rfl

theorem exec_setKeys_of_allowed (keys : List Char) (tree : Tree)
    (allowed : ¬ Denied host user authUser authPassword)
    (known : host.getpwnam user = some passwd) :
    (setKeys host user keys authUser authPassword).exec ⟨tree, []⟩ =
      (mkhomedir host user >>= fun _ => writeKeys host user keys passwd.pwDir).exec
        ⟨tree, []⟩ := by
  unfold Denied at allowed
  push Not at allowed
  obtain ⟨admin, right, _⟩ := allowed
  have valid : validateUser host authUser authPassword (user ≠ authUser) = .ok () := by
    rw [validateUser, if_neg, if_neg right]
    rintro ⟨other, noAdmin⟩
    exact noAdmin (admin (of_decide_eq_true other))
  rw [setKeys, valid, getUserHomedir, known]
  rfl

theorem exec_mkhomedir_of_failed (tree : Tree)
    (failed : (host.mkhomedirHelper user tree).succeeded = false) :
    (mkhomedir host user).exec ⟨tree, []⟩ = (.error CalledProcessError,
      ⟨(host.mkhomedirHelper user tree).tree, (host.mkhomedirHelper user tree).touched⟩) := by
  rw [mkhomedir, exec_bind_of_ok (exec_get _)]
  dsimp only
  rw [when_of failed]
  rfl

theorem exec_mkhomedir_of_succeeded (tree : Tree)
    (succeeded : (host.mkhomedirHelper user tree).succeeded = true) :
    (mkhomedir host user).exec ⟨tree, []⟩ = (.ok (),
      ⟨(host.mkhomedirHelper user tree).tree, (host.mkhomedirHelper user tree).touched⟩) := by
  rw [mkhomedir, exec_bind_of_ok (exec_get _)]
  dsimp only
  rw [when_of_not (by simp [succeeded])]
  rfl

theorem exec_setKeys_of_stopped (keys : List Char) (makes : MakesHomes host)
    (allowed : ¬ Denied host user authUser authPassword)
    (known : host.getpwnam user = some passwd)
    (stopped : (host.mkhomedirHelper user tree).succeeded = false ∨
      Blocked host (host.mkhomedirHelper user tree).tree passwd.pwDir) :
    ∃ e, (setKeys host user keys authUser authPassword).exec ⟨tree, []⟩ = (.error e,
      ⟨(host.mkhomedirHelper user tree).tree, (host.mkhomedirHelper user tree).touched⟩) := by
  rw [exec_setKeys_of_allowed keys tree allowed known]
  cases succeeded : (host.mkhomedirHelper user tree).succeeded with
  | false => exact ⟨_, exec_bind_of_error (exec_mkhomedir_of_failed tree succeeded)⟩
  | true =>
    have blocked := stopped.resolve_left (by simp [succeeded])
    rw [exec_bind_of_ok (exec_mkhomedir_of_succeeded tree succeeded)]
    exact exec_writeKeys_of_blocked user keys (makes.made user passwd tree known succeeded)
      blocked

theorem exec_setKeys_of_open (keys : List Char) (makes : MakesHomes host)
    (allowed : ¬ Denied host user authUser authPassword)
    (known : host.getpwnam user = some passwd)
    (open_ : ¬ ((host.mkhomedirHelper user tree).succeeded = false ∨
      Blocked host (host.mkhomedirHelper user tree).tree passwd.pwDir)) :
    ∃ home location tree' own,
      find host (host.mkhomedirHelper user tree).tree passwd.pwDir = .ok home ∧
      Opened host (host.mkhomedirHelper user tree).tree user passwd.pwDir home location tree' own ∧
      (setKeys host user keys authUser authPassword).exec ⟨tree, []⟩ =
        (.ok (), ⟨withKeys tree' location user keys,
          (host.mkhomedirHelper user tree).touched ++ own⟩) := by
  rw [not_or, Bool.not_eq_false] at open_
  obtain ⟨home, atHome, _⟩ := existsAt_iff.mp (makes.made user passwd tree known open_.1)
  obtain ⟨location, tree', own, opened, ran⟩ :=
    exec_writeKeys_of_open (host.mkhomedirHelper user tree).touched user keys atHome open_.2
  refine ⟨home, location, tree', own, atHome, opened, ?_⟩
  rw [exec_setKeys_of_allowed keys tree allowed known,
    exec_bind_of_ok (exec_mkhomedir_of_succeeded tree open_.1)]
  exact ran

theorem managedUser_iff (known : host.getpwnam user = some passwd) :
    managedUser host user = .ok user ↔ passwd.pwGid ≠ 0 := by
  rw [managedUser, known]
  dsimp only
  split
  · rename_i root
    exact iff_of_false nofun (fun other => other root)
  · rename_i other
    exact iff_of_true rfl other

theorem isHome_iff (known : host.getpwnam user = some passwd) (home : Location) :
    IsHome host tree user home ↔ find host tree passwd.pwDir = .ok home := by
  unfold IsHome
  rw [known]
  constructor
  · rintro ⟨passwd', same, found⟩
    cases same
    exact found
  · exact fun found => ⟨passwd, rfl, found⟩

theorem user_of_unprivileged (allowed : ¬ Denied host user authUser authPassword)
    (unprivileged : authUser ∉ host.admins.getD []) : user = authUser := by
  by_contra other
  exact allowed (.inl ⟨other, unprivileged⟩)

theorem staysWithin_of_denied (keys : List Char) (tree : Tree)
    (denied : Denied host user authUser authPassword) :
    StaysWithin host user keys authUser authPassword tree := by
  obtain ⟨e, ran⟩ := exec_setKeys_of_denied keys tree denied
  constructor
  · intro e' s raised
    cases ran.symm.trans raised
    simp
  · intro s returned
    cases ran.symm.trans returned
  · simp [ran]
  · simp [ran]
  · intro s returned
    cases ran.symm.trans returned
  · simp [ran]

theorem staysWithin_of_stopped (makes : MakesHomes host)
    (allowed : ¬ Denied host user authUser authPassword)
    (known : host.getpwnam user = some passwd)
    (stopped : (host.mkhomedirHelper user tree).succeeded = false ∨
      Blocked host (host.mkhomedirHelper user tree).tree passwd.pwDir)
    (untouched : passwd.pwGid = 0 → (host.mkhomedirHelper user tree).touched = []) :
    StaysWithin host user keys authUser authPassword tree := by
  obtain ⟨e, ran⟩ := exec_setKeys_of_stopped keys makes allowed known stopped
  constructor
  · intro e' s raised
    cases ran.symm.trans raised
    exact makes.inside user tree
  · intro s returned
    cases ran.symm.trans returned
  · intro unprivileged
    rw [ran, ← user_of_unprivileged allowed unprivileged]
    exact makes.inside user tree
  · intro unmanaged
    rw [ran]
    apply untouched
    by_contra other
    exact unmanaged ((managedUser_iff known).mpr other)
  · intro s returned
    cases ran.symm.trans returned
  · rw [ran]
    exact makes.untouched user tree

theorem staysWithin_of_plain (makes : MakesHomes host)
    (allowed : ¬ Denied host user authUser authPassword)
    (known : host.getpwnam user = some passwd)
    (open_ : ¬ ((host.mkhomedirHelper user tree).succeeded = false ∨
      Blocked host (host.mkhomedirHelper user tree).tree passwd.pwDir))
    (managed : passwd.pwGid ≠ 0)
    (plain : Plain host (host.mkhomedirHelper user tree).tree passwd.pwDir)
    (noReturn : '\r' ∉ keys) : StaysWithin host user keys authUser authPassword tree := by
  obtain ⟨home, location, tree', own, atHome, opened, ran⟩ :=
    exec_setKeys_of_open keys makes allowed known open_
  obtain rfl := opened.eq_keyLocation atHome plain
  have isHome := (isHome_iff known home).mpr atHome
  constructor
  · intro e s raised
    cases ran.symm.trans raised
  · intro s returned
    cases ran.symm.trans returned
    exact ⟨home, own, isHome, rfl, fun other member => opened.own_cases member,
      Function.update_self ..⟩
  · intro unprivileged
    rw [ran, ← user_of_unprivileged allowed unprivileged]
    intro other member
    rcases List.mem_append.mp member with made | written
    · exact makes.inside user tree other made
    · refine ⟨home, isHome, ?_⟩
      rcases opened.own_cases written with rfl | ⟨rfl, _⟩
      · exact List.prefix_append ..
      · exact List.prefix_append ..
  · intro unmanaged
    exact absurd ((managedUser_iff known).mpr managed) unmanaged
  · intro s returned
    cases ran.symm.trans returned
    rw [opened.readBack atHome known, (Text.universalNewlines_eq_iff keys).mpr noReturn]
  · rw [ran]
    intro place outside
    dsimp only at outside ⊢
    rw [List.forall_mem_append] at outside
    rw [opened.untouched outside.2]
    exact makes.untouched user tree place outside.1

theorem harmless_of_staysWithin (makes : MakesHomes host)
    (allowed : ¬ Denied host user authUser authPassword)
    (known : host.getpwnam user = some passwd)
    (stays : StaysWithin host user keys authUser authPassword tree) :
    Harmless host keys passwd (host.mkhomedirHelper user tree) := by
  have unmanaged : passwd.pwGid = 0 → managedUser host user ≠ .ok user :=
    fun root managed => (managedUser_iff known).mp managed root
  by_cases stopped : (host.mkhomedirHelper user tree).succeeded = false ∨
      Blocked host (host.mkhomedirHelper user tree).tree passwd.pwDir
  · obtain ⟨e, ran⟩ := exec_setKeys_of_stopped keys makes allowed known stopped
    refine .inl ⟨stopped, fun root => ?_⟩
    have nothing := stays.unmanaged (unmanaged root)
    rwa [ran] at nothing
  · obtain ⟨home, location, tree', own, atHome, opened, ran⟩ :=
      exec_setKeys_of_open keys makes allowed known stopped
    right
    refine ⟨fun root => ?_, ?_, ?_⟩
    · have nothing := stays.unmanaged (unmanaged root)
      rw [ran] at nothing
      exact List.ne_nil_of_mem opened.mem (List.append_eq_nil_iff.mp nothing).2
    · obtain ⟨home', own', isHome, same, only, _⟩ := stays.returned _ ran
      obtain rfl : home = home' := by
        rw [isHome_iff known, atHome] at isHome
        exact Except.ok.inj isHome
      obtain rfl := List.append_cancel_left same
      exact opened.plain atHome (only location opened.mem)
    · have text := stays.readBack _ ran
      rw [opened.readBack atHome known] at text
      exact (Text.universalNewlines_eq_iff keys).mp (Except.ok.inj text)

/-- The program stays within the file of the user exactly when nobody may call it, when it cannot
write anything, or when neither the folder nor the file is a link, the account is a managed one and
the text has no other line breaks than those of the system. -/
theorem set_keys_stays_within_iff (host : Host) (makes : MakesHomes host) (user : String)
    (keys : List Char) (authUser authPassword : String) (tree : Tree) :
    StaysWithin host user keys authUser authPassword tree ↔
      Denied host user authUser authPassword ∨ ∃ passwd, host.getpwnam user = some passwd ∧
        Harmless host keys passwd (host.mkhomedirHelper user tree) := by
  constructor
  · intro stays
    by_cases denied : Denied host user authUser authPassword
    · exact .inl denied
    · cases known : host.getpwnam user with
      | none => exact absurd (.inr (.inr known)) denied
      | some passwd =>
        exact .inr ⟨passwd, rfl, harmless_of_staysWithin makes denied known stays⟩
  · intro condition
    by_cases denied : Denied host user authUser authPassword
    · exact staysWithin_of_denied keys tree denied
    · obtain ⟨passwd, known, harmless⟩ := condition.resolve_left denied
      by_cases stopped : (host.mkhomedirHelper user tree).succeeded = false ∨
          Blocked host (host.mkhomedirHelper user tree).tree passwd.pwDir
      · refine staysWithin_of_stopped makes denied known stopped fun root => ?_
        rcases harmless with ⟨_, untouched⟩ | ⟨managed, _⟩
        · exact untouched root
        · exact absurd root managed
      · obtain ⟨managed, plain, noReturn⟩ := harmless.resolve_left fun h => stopped h.1
        exact staysWithin_of_plain makes denied known stopped managed plain noReturn

end SetKeys

/-! ## A machine with one user -/

def accounts (user : String) : Option Passwd :=
  if user = "alice" then some ⟨"/home/alice".toList, 1000⟩ else none

def emptyHost : Host :=
  ⟨40, accounts, some ["carol"], fun _ password => password = "secret",
    fun _ tree => ⟨false, tree, []⟩⟩

def machine : Host :=
  ⟨40, accounts, some ["carol"], fun _ password => password = "secret", fun user tree =>
    ⟨(accounts user).any fun passwd => existsAt emptyHost tree passwd.pwDir, tree, []⟩⟩

theorem machine_makes_homes : MakesHomes machine := by
  constructor
  · intro user passwd tree known succeeded
    have known' : accounts user = some passwd := known
    change (accounts user).any (fun passwd => existsAt emptyHost tree passwd.pwDir) = true
      at succeeded
    rw [known'] at succeeded
    exact succeeded
  · intro user tree location member
    cases member
  · intro user tree location _
    rfl

def directory : Entry :=
  .node (.directory ⟨"root", "root", 0o755⟩)

def aliceHome : Location :=
  ["home".toList, "alice".toList]

def shadow : Location :=
  ["etc".toList, "shadow".toList]

def treeWith (authorizedKeys : Entry) : Tree := fun location =>
  [([], directory), (["home".toList], directory), (aliceHome, directory),
    (folderLocation aliceHome, directory), (keyLocation aliceHome, authorizedKeys),
    (["etc".toList], directory),
    (shadow, .node (.file ⟨"root:*".toList, ⟨"root", "shadow", 0o640⟩⟩))].lookup location

def aliceKeys : List Char :=
  "ssh-ed25519 AAAA alice\n".toList

theorem find_alice (authorizedKeys : Entry) :
    find machine (treeWith authorizedKeys) "/home/alice".toList = .ok aliceHome := by
  rfl

theorem alice_keys_set : StaysWithin machine "alice" aliceKeys "alice" "secret"
    (treeWith (.node (.file ⟨[], ⟨"alice", "users", 0o600⟩⟩))) := by
  apply (set_keys_stays_within_iff machine machine_makes_homes _ _ _ _ _).mpr
  refine .inr ⟨⟨"/home/alice".toList, 1000⟩, rfl, .inr ⟨by decide, ?_, by decide⟩⟩
  intro home atHome target
  have found := find_alice (.node (.file ⟨[], ⟨"alice", "users", 0o600⟩⟩))
  obtain rfl : aliceHome = home := Except.ok.inj (found.symm.trans atHome)
  constructor
  · nofun
  · rintro _
    nofun

theorem linked_shadow_overwritten : ¬ StaysWithin machine "alice" aliceKeys "alice" "secret"
    (treeWith (.link "/etc/shadow".toList)) := by
  intro stays
  have touched : ((setKeys machine "alice" aliceKeys "alice" "secret").exec
      ⟨treeWith (.link "/etc/shadow".toList), []⟩).2.touched = [shadow, shadow, shadow] := by
    rfl
  have inside := stays.unprivileged (by decide)
  rw [touched] at inside
  obtain ⟨home, ⟨passwd, known, atHome⟩, below⟩ := inside shadow (by simp)
  obtain rfl : ⟨"/home/alice".toList, 1000⟩ = passwd := Option.some.inj known
  have found := find_alice (.link "/etc/shadow".toList)
  obtain rfl : aliceHome = home := Except.ok.inj (found.symm.trans atHome)
  exact absurd below (by decide)

end Plinth.Ssh
