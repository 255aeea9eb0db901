import Plinth.Model.Backups.Api
import Plinth.Model.Backups.Privileged

/-! # What an exported archive restores -/

namespace Plinth.Backups

def Named (directories files : List String) (path : String) : Prop :=
  (∃ file ∈ files, Path.components '/' '.' file.toList = Path.components '/' '.' path.toList) ∨
    ∃ directory ∈ directories, Path.Inside '/' '.' directory.toList path.toList

def RunsPast (directory path : String) : Prop :=
  ¬ Path.HasUp '/' '.' path.toList ∧
    (∃ last ∈ (directory.toList.splitOn '/').getLast?, Path.IsName '.' last) ∧
      ∃ c rest, path.toList = directory.toList ++ c :: rest ∧ c ≠ '/'

def ClimbsOut (directory path : String) : Prop :=
  Path.HasUp '/' '.' path.toList ∧ startswith path directory = true ∧
    ¬ Path.Inside '/' '.' directory.toList path.toList

def Misspelt (location path : String) : Prop :=
  ¬ Path.Clean '/' '.' path.toList ∨ location.toList = path.toList ++ ['/'] ∨
    ¬ Path.Clean '/' '.' location.toList ∧
      ∀ location', location.toList = location' ++ ['/'] → ¬ Path.Clean '/' '.' location'

structure Fits (directories files : List String) (path : String) : Prop where
  outside : ∀ directory ∈ directories, RunsPast directory path ∨ ClimbsOut directory path →
    Named directories files path
  inside : ∀ location, Misspelt location path →
    (location ∈ files ∧
        Path.components '/' '.' location.toList = Path.components '/' '.' path.toList ∨
      location ∈ directories ∧ Path.Inside '/' '.' location.toList path.toList) →
    path ∈ files ∨ ∃ directory ∈ directories, startswith path directory = true

instance (directories files : List String) (path : String) :
    Decidable (Named directories files path) :=
  inferInstanceAs (Decidable (_ ∨ _))

theorem startswith_iff (path directory : String) :
    startswith path directory = true ↔ directory.toList <+: path.toList := by
  rw [startswith, List.isPrefixOf_iff_prefix]

theorem restoreExportedArchive_eq (directories files : List String) (members : List TarInfo) :
    restoreExportedArchive directories files members = members.filter fun member =>
      member.path ∈ files ∨ ∃ directory ∈ directories, startswith member.path directory = true := by
  induction members with
  | nil => rfl
  | cons member rest ih =>
    rw [restoreExportedArchive, List.filter_cons, ih]
    by_cases file : member.path ∈ files
    · simp [file]
    · by_cases below : ∃ directory ∈ directories, startswith member.path directory = true
      · simp [file, below]
      · simp [file, below]

theorem runsPast_or_climbsOut {directory path : String}
    (starts : startswith path directory = true)
    (outside : ¬ Path.Inside '/' '.' directory.toList path.toList) :
    RunsPast directory path ∨ ClimbsOut directory path := by
  by_cases up : Path.HasUp '/' '.' path.toList
  · exact .inr ⟨up, starts, outside⟩
  · left
    obtain ⟨rest, same⟩ := (startswith_iff path directory).mp starts
    rw [← same] at up outside
    obtain ⟨name, c, tail, rfl, other⟩ := (Path.inside_append up).resolve_left outside
    exact ⟨same ▸ up, name, c, tail, same.symm, other⟩

theorem startswith_of_runsPast {directory path : String}
    (past : RunsPast directory path ∨ ClimbsOut directory path) :
    startswith path directory = true := by
  obtain ⟨-, -, c, rest, same, -⟩ | climbs := past
  · rw [startswith_iff, same]
    exact List.prefix_append ..
  · exact climbs.2.1

theorem startswith_of_inside {location path : String} (spelt : ¬ Misspelt location path)
    (inside : Path.Inside '/' '.' location.toList path.toList) :
    startswith path location = true := by
  rw [Misspelt, not_or, not_or, not_not, not_and_or, not_not] at spelt
  obtain ⟨cleanPath, noSlash, clean | clean⟩ := spelt
  · exact (startswith_iff ..).mpr (Path.prefix_of_inside clean cleanPath inside)
  · simp only [not_forall, not_not] at clean
    obtain ⟨location', same, clean⟩ := clean
    rw [same] at inside noSlash
    obtain starts | rfl := Path.prefix_of_inside_append_sep clean cleanPath inside
    · rw [startswith_iff, same]
      exact starts
    · exact absurd rfl noSlash

theorem eq_of_spelt {file path : String} (spelt : ¬ Misspelt file path)
    (same : Path.components '/' '.' file.toList = Path.components '/' '.' path.toList) :
    file = path := by
  rw [Misspelt, not_or, not_or, not_not, not_and_or, not_not] at spelt
  obtain ⟨cleanPath, noSlash, clean | clean⟩ := spelt
  · exact String.toList_inj.mp (Path.eq_of_components clean cleanPath same)
  · simp only [not_forall, not_not] at clean
    obtain ⟨file', slash, clean⟩ := clean
    rw [slash, Path.components_append_sep] at same
    exact absurd (Path.eq_of_components clean cleanPath same ▸ slash) noSlash

theorem fits_iff (directories files : List String) (path : String) :
    ((path ∈ files ∨ ∃ directory ∈ directories, startswith path directory = true) ↔
        Named directories files path) ↔ Fits directories files path := by
  constructor
  · intro agrees
    refine ⟨fun directory member past => ?_, fun location _ listed => ?_⟩
    · exact agrees.mp (.inr ⟨directory, member, startswith_of_runsPast past⟩)
    · exact agrees.mpr (listed.imp (fun h => ⟨location, h⟩) fun h => ⟨location, h⟩)
  · intro fits
    constructor
    · rintro (file | ⟨directory, member, starts⟩)
      · exact .inl ⟨path, file, rfl⟩
      · by_cases inside : Path.Inside '/' '.' directory.toList path.toList
        · exact .inr ⟨directory, member, inside⟩
        · exact fits.outside directory member (runsPast_or_climbsOut starts inside)
    · rintro (⟨file, member, same⟩ | ⟨directory, member, inside⟩)
      · by_cases misspelt : Misspelt file path
        · exact fits.inside file misspelt (.inl ⟨member, same⟩)
        · exact .inl (eq_of_spelt misspelt same ▸ member)
      · by_cases misspelt : Misspelt directory path
        · exact fits.inside directory misspelt (.inr ⟨member, inside⟩)
        · exact .inr ⟨directory, member, startswith_of_inside misspelt inside⟩

/-- The members that are extracted are those that the manifests name, if and only if every member
fits the comparison of strings. -/
theorem restoreExportedArchive_iff (directories files : List String) (members : List TarInfo) :
    restoreExportedArchive directories files members =
        members.filter (fun member => Named directories files member.path) ↔
      ∀ member ∈ members, Fits directories files member.path := by
  rw [restoreExportedArchive_eq]
  constructor
  · intro same member listed
    have extracted := congrArg (member ∈ ·) same
    rw [← fits_iff]
    simpa [listed] using extracted
  · intro fits
    refine List.filter_congr fun member listed => ?_
    rw [decide_eq_decide]
    exact (fits_iff ..).mpr (fits member listed)

def strayMembers : List TarInfo :=
  [⟨"var/lib/foobar"⟩, ⟨"var/lib/foo/../../../etc/passwd"⟩]

theorem strayMembers_extracted :
    restoreExportedArchive ["/var/lib/foo"] [] strayMembers = strayMembers ∧
      strayMembers.filter (fun member => Named ["/var/lib/foo"] [] member.path) = [] ∧
      ¬ restoreExportedArchive ["/var/lib/foo"] [] strayMembers =
        strayMembers.filter (fun member => Named ["/var/lib/foo"] [] member.path) := by
  decide

end Plinth.Backups

/-! ## What is extracted -/

namespace Plinth.Backups

open Effect Python Exception

def Host.Selects (host : Host) (locations : List String) (member : Member) : Prop :=
  ∃ location ∈ locations,
    Path.components '/' '.' (Os.join host.cwd location.toList) <+: member

structure Confined (host : Host) (archive : List Member) (archivePath destination : String)
    (directories files : List String) : Prop where
  only : ∀ member ∈ ((restoreArchive host archive archivePath destination directories files).exec
    []).2, host.Selects (directories ++ files) member
  all : ((restoreArchive host archive archivePath destination directories files).exec []).1 =
    .ok () → ∀ member ∈ archive, host.Selects (directories ++ files) member →
      member ∈ ((restoreArchive host archive archivePath destination directories files).exec []).2

variable {host : Host} {archive : List Member} {archivePath destination : String}
  {directories files : List String}

/-! ## Locations -/

theorem relpath_eq_ok_iff {location : String} {path : List Char} :
    host.relpath location = .ok path ↔ Os.relpath host.cwd location.toList ['/'] = some path := by
  unfold Host.relpath
  cases Os.relpath host.cwd location.toList ['/'] <;> simp

theorem selects_iff {locations : List String} {paths : List (List Char)}
    (found : locations.mapM host.relpath = .ok paths) (member : Member) :
    host.Selects locations member ↔ ∃ path ∈ paths, Path.components '/' '.' path <+: member := by
  have relative {location : String} {path : List Char} (same : host.relpath location = .ok path) :
      Path.components '/' '.' path =
        Path.components '/' '.' (Os.join host.cwd location.toList) :=
    Os.components_relpath host.absolute (relpath_eq_ok_iff.mp same)
  constructor
  · rintro ⟨location, present, below⟩
    obtain ⟨path, same⟩ := mapM_returns_iff.mp ⟨paths, found⟩ location present
    refine ⟨path, (mem_mapM_iff found path).mpr ⟨location, present, same⟩, ?_⟩
    rwa [relative same]
  · rintro ⟨path, present, below⟩
    obtain ⟨location, present, same⟩ := (mem_mapM_iff found path).mp present
    exact ⟨location, present, relative same ▸ below⟩

theorem paths_nil_iff {locations : List String} {paths : List (List Char)}
    (found : locations.mapM host.relpath = .ok paths) : paths = [] ↔ locations = [] := by
  cases locations with
  | nil =>
    cases found
    simp
  | cons location locations =>
    rw [List.mapM_cons] at found
    obtain ⟨path, -, found⟩ := ok_of_bind found
    obtain ⟨rest, -, found⟩ := ok_of_bind found
    cases found
    simp

/-! ## Extraction -/

theorem extract_of_unreachable {e : Exception} {locations : Option (List (List Char))}
    (unreachable : host.chdir (host.expanduser destination) = .error e) :
    ((extract host archive archivePath destination locations).exec []).2 = [] ∧
      ((extract host archive archivePath destination locations).exec []).1 ≠ .ok () := by
  rw [extract, exec_tryFinally, exec_bind, exec_lift, unreachable]
  dsimp only
  rw [exec_lift]
  cases host.chdir (String.ofList host.cwd) <;> simp

theorem extract_of_reached {u : Unit} {locations : Option (List (List Char))}
    (reached : host.chdir (host.expanduser destination) = .ok u) :
    ((extract host archive archivePath destination locations).exec []).2 =
      (host.borgExtract archive (locations.getD [])).members := by
  rw [extract, state_tryFinally, exec_lift, exec_bind, exec_lift, reached]
  dsimp only
  rw [exec_bind, exec_modify, List.nil_append]
  dsimp only
  rw [when]
  split
  · rw [exec_bind, exec_lift]
    cases (host.borgExtract archive (locations.getD [])).stderr with
    | error e => rfl
    | ok error =>
      dsimp only
      rw [when]
      split <;> rfl
  · rfl

theorem restoreArchive_of_located {paths : List (List Char)}
    (found : (directories ++ files).mapM host.relpath = .ok paths) :
    (restoreArchive host archive archivePath destination directories files).exec [] =
      (extract host archive archivePath destination (some paths)).exec [] := by
  rw [restoreArchive, exec_bind, exec_lift, found]

/-! ## Packets -/

def BackupRestore.Bare (self : BackupRestore) : Prop :=
  ∀ part ∈ [self.config, self.dataSection, self.secrets], part.directories = [] ∧ part.files = []

theorem create_empty_iff (operation root : String) (components : List BackupRestore)
    (path archiveComment : Option String) :
    (Packet.create operation root components path archiveComment).directories = [] ∧
        (Packet.create operation root components path archiveComment).files = [] ↔
      ∀ component ∈ components, component.Bare := by
  simp only [Packet.create, Packet.sections, List.flatMap_eq_nil_iff, List.mem_flatMap,
    BackupRestore.Bare]
  constructor
  · rintro ⟨directories, files⟩ component member part present
    exact ⟨directories part ⟨component, member, present⟩, files part ⟨component, member, present⟩⟩
  · intro bare
    constructor
    · rintro part ⟨component, member, present⟩
      exact (bare component member part present).1
    · rintro part ⟨component, member, present⟩
      exact (bare component member part present).2

/-- What is restored is confined to the selection exactly when there is a selection, unless the
archive is empty or the destination cannot be entered. The selection is empty when the components
have nothing to restore. -/
theorem restore_confined_iff (host : Host) (archive : List Member)
    (archivePath destination : String) (directories files : List String)
    (components : List BackupRestore) :
    (Confined host archive archivePath destination directories files ↔
      (directories = [] ∧ files = [] →
        archive = [] ∨ ∃ e, host.chdir (host.expanduser destination) = .error e)) ∧
    let packet := Packet.create "restore" "/" components (some archivePath) none
    (packet.directories = [] ∧ packet.files = [] ↔ ∀ component ∈ components, component.Bare) := by
  refine ⟨?_, create_empty_iff "restore" "/" components (some archivePath) none⟩
  rw [← List.append_eq_nil_iff]
  cases found : (directories ++ files).mapM host.relpath with
  | error e =>
    have raised : (restoreArchive host archive archivePath destination directories files).exec []
        = (.error e, []) := by
      rw [restoreArchive, exec_bind, exec_lift, found]
    refine iff_of_true ⟨?_, ?_⟩ fun none => ?_
    · rw [raised]
      exact fun member absent => absurd absent List.not_mem_nil
    · rw [raised]
      intro returned
      cases returned
    · rw [none] at found
      cases found
  | ok paths =>
    have ran : (restoreArchive host archive archivePath destination directories files).exec [] =
        (extract host archive archivePath destination (some paths)).exec [] :=
      restoreArchive_of_located found
    cases reached : host.chdir (host.expanduser destination) with
    | error e =>
      obtain ⟨nothing, raised⟩ : ((extract host archive archivePath destination
          (some paths)).exec []).2 = [] ∧ _ := extract_of_unreachable reached
      refine iff_of_true ⟨?_, ?_⟩ fun _ => .inr ⟨e, rfl⟩
      · rw [ran, nothing]
        exact fun member absent => absurd absent List.not_mem_nil
      · rw [ran]
        exact fun returned => absurd returned raised
    | ok u =>
      have members : ((restoreArchive host archive archivePath destination directories
          files).exec []).2 = (host.borgExtract archive paths).members := by
        rw [ran]
        exact extract_of_reached reached
      by_cases none : directories ++ files = []
      · have noPaths := (paths_nil_iff found).mpr none
        rw [noPaths, host.whole] at members
        constructor
        · intro confined _
          left
          rw [List.eq_nil_iff_forall_not_mem]
          intro member present
          rw [← members] at present
          obtain ⟨location, selected, -⟩ := confined.only member present
          rw [none] at selected
          exact List.not_mem_nil selected
        · intro empty
          obtain rfl | ⟨e, unreachable⟩ := empty none
          · refine ⟨?_, fun _ member absent => absurd absent List.not_mem_nil⟩
            rw [members]
            exact fun member absent => absurd absent List.not_mem_nil
          · cases unreachable
      · have some := mt (paths_nil_iff found).mp none
        have extracted (member : Member) := host.chosen archive paths some member
        refine iff_of_true ⟨?_, ?_⟩ fun empty => absurd empty none
        · rw [members]
          exact fun member present =>
            (selects_iff found member).mpr ((extracted member).mp present).2
        · rw [members]
          exact fun _ member present selected =>
            (extracted member).mpr ⟨present, (selects_iff found member).mp selected⟩

/-! ## An example -/

def sampleHost : Host where
  cwd := ['/']
  absolute := rfl
  expanduser := id
  chdir _ := .ok ()
  borgExtract archive paths :=
    ⟨if paths = [] then archive
      else archive.filter fun member => paths.any fun path =>
        Path.components '/' '.' path <+: member, 0, .ok ""⟩
  whole _ := by rw [if_pos rfl]
  chosen archive paths some member := by
    rw [if_neg some, List.mem_filter, List.any_eq_true]
    simp

theorem bare_app_restores_everything :
    let packet := Packet.create "restore" "/" [⟨"bare", ⟨[], []⟩, ⟨[], []⟩, ⟨[], []⟩, [], []⟩]
      (some "/backup::archive") none
    ¬ Confined sampleHost [["etc".toList, "shadow".toList]] "/backup::archive" "/"
      packet.directories packet.files := by
  intro packet confined
  have located : (packet.directories ++ packet.files).mapM sampleHost.relpath = .ok [] := rfl
  have reached : sampleHost.chdir (sampleHost.expanduser "/") = .ok () := rfl
  have extracted : ((restoreArchive sampleHost [["etc".toList, "shadow".toList]]
      "/backup::archive" "/" packet.directories packet.files).exec []).2 =
        [["etc".toList, "shadow".toList]] := by
    rw [restoreArchive_of_located located]
    exact (extract_of_reached reached).trans (sampleHost.whole _)
  have everything := confined.only
  rw [extracted] at everything
  obtain ⟨location, selected, -⟩ := everything _ List.mem_cons_self
  exact List.not_mem_nil selected

end Plinth.Backups
