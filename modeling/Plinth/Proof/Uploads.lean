import Plinth.Model.Uploads

/-!
# Where an uploaded file lands

A name that passes the checks may still be two dots, a slash, or a name written with dots or
slashes around it. A destination that is a directory is entered. What is done to the destination
afterwards changes owner and permissions alone, so that the entries show whether the file landed.
-/

namespace Plinth.Uploads

open Python Exception FileSystem Effect

variable {host : Host} {upload : Upload} {fs : FileSystem}

/-! ## The property -/

def Plain (name : List Char) : Prop :=
  '/' ∉ name ∧ Path.IsName '.' name

def landed (upload : Upload) (fs : FileSystem) (source destination : Location) (file : File) :
    FileSystem :=
  (fs.put source none).put destination
    (some (.file ⟨file.content, upload.user, upload.group, upload.permissions⟩))

/-- The upload returns with the file directly in the directory, under the name, or it raises and
has changed nothing. -/
def Confined (host : Host) (upload : Upload) (fs : FileSystem) : Prop :=
  match (moveUploadedFile host upload).exec fs with
  | (.error _, fs') => fs' = fs
  | (.ok _, fs') => ∃ source destinationDir file,
      fs.resolve true host.depth upload.source = .ok source ∧
      fs.resolve false host.depth upload.destinationDir = .ok destinationDir ∧
      fs.entry source = some (.node (.file file)) ∧
      Plain upload.destinationFileName ∧
      fs' = landed upload fs source (destinationDir ++ [upload.destinationFileName]) file ∧
      (fs.existsAt host.depth (destinationDir ++ [upload.destinationFileName]) = true →
        upload.allowOverwrite = true)

/-! ## When it holds -/

structure Admitted (host : Host) (upload : Upload) (fs : FileSystem) (source : Location)
    (file : File) (destinationDir : Location) : Prop where
  resolved : fs.resolve true host.depth upload.source = .ok source
  directory : fs.resolve false host.depth upload.destinationDir = .ok destinationDir
  isFile : fs.entry source = some (.node (.file file))
  uploaded : parts host.fileUploadTempDir <+: ['/'] :: source
  isDir : fs.isDir host.depth destinationDir = true
  single : (parts upload.destinationFileName).length = 1
  free : fs.existsAt host.depth (destination destinationDir upload.destinationFileName) = true →
    upload.allowOverwrite = true

def fileAt (there : Option File) : Option Entry :=
  there.map fun file => .node (.file file)

def CopyIdle (host : Host) (fs : FileSystem) (source real : Location) : Prop :=
  ∀ target there, fs.follow host.depth real = .ok target → target ≠ source →
    fs.entry target = fileAt there →
      ∃ left exception, host.copyFault = some (left, exception) ∧ (left = none ∨ left = there)

def CopySame (host : Host) (fs : FileSystem) (file : File) (real : Location) : Prop :=
  ∃ target there, fs.follow host.depth real = .ok target ∧
    fs.entry target = fileAt (some there) ∧ copied file (some there) = there

def IsLink (fs : FileSystem) (location : Location) : Prop :=
  ∃ target, fs.entry location = some (.link target)

def Finishes (host : Host) (upload : Upload) : Prop :=
  host.chownFault = none ∧ host.chmodFault = none ∧ Plain upload.destinationFileName

def Refused (host : Host) (fs : FileSystem) (source destination : Location) : Prop :=
  ∀ directory, fs.follow host.depth destination = .ok directory →
    fs.existsAt host.depth (directory ++ [basename source]) = true ∨
      host.renames = false ∧ CopyIdle host fs source (directory ++ [basename source])

def RenameLands (host : Host) (upload : Upload) (source : Location) (file : File)
    (destination : Location) : Prop :=
  Finishes host upload ∨
    source = destination ∧ (host.chownFault ≠ none ∨ host.chmodFault ≠ none ∧
      file.attributes.user = upload.user ∧ file.attributes.group = upload.group)

def CopyLands (host : Host) (upload : Upload) (fs : FileSystem) (source : Location) (file : File)
    (destination : Location) : Prop :=
  CopyIdle host fs source destination ∨
    host.copyFault = none ∧
      (host.unlinkFault = none ∧ Finishes host upload ∧ ¬ IsLink fs destination ∨
        host.unlinkFault ≠ none ∧ CopySame host fs file destination)

def Lands (host : Host) (upload : Upload) (fs : FileSystem) (source : Location) (file : File)
    (destination : Location) : Prop :=
  if fs.isDir host.depth destination = true then Refused host fs source destination
  else if host.renames = true then RenameLands host upload source file destination
  else CopyLands host upload fs source file destination

/-! ## The checks -/

theorem destination_of_plain {name : List Char} (plain : Plain name) (directory : Location) :
    destination directory name = directory ++ [name] := by
  obtain ⟨noSlash, nonempty, notDot, notUp⟩ := plain
  have whole : name.splitOn '/' = [name] := List.splitOn_eq_singleton noSlash
  have relative : name.head? ≠ some '/' := by
    intro slash
    exact noSlash (List.mem_of_mem_head? (Option.mem_def.mpr slash))
  rw [destination, whole, if_neg relative, List.foldl_cons, List.foldl_nil, Path.resolveStep,
    if_neg (by rintro (h | h) <;> contradiction), if_neg notUp]

theorem verifyLocations_ok_iff {source destinationDir destination' : Location} {file : File} :
    verifyLocations host upload fs source destinationDir = .ok (file, destination') ↔
      fs.stat host.depth source = some (.file file) ∧
        parts host.fileUploadTempDir <+: ['/'] :: source ∧
        fs.isDir host.depth destinationDir = true ∧
        (parts upload.destinationFileName).length = 1 ∧
        (fs.existsAt host.depth (destination destinationDir upload.destinationFileName) = true →
          upload.allowOverwrite = true) ∧
        destination' = destination destinationDir upload.destinationFileName := by
  unfold verifyLocations
  dsimp only
  split
  · rename_i file' isFile
    by_cases uploaded : parts host.fileUploadTempDir <+: ['/'] :: source
    · rw [if_neg (not_not.mpr uploaded)]
      cases isDir : fs.isDir host.depth destinationDir with
      | false => simp
      | true =>
        rw [if_neg Bool.true_eq_false.mp]
        by_cases single : (parts upload.destinationFileName).length = 1
        · rw [if_neg (not_not.mpr single)]
          by_cases taken : fs.existsAt host.depth
            (destination destinationDir upload.destinationFileName) = true ∧
              upload.allowOverwrite = false
          · simp [taken]
          · have free : fs.existsAt host.depth
                (destination destinationDir upload.destinationFileName) = true →
                  upload.allowOverwrite = true := by
              intro present
              simpa [present] using taken
            rw [if_neg taken]
            constructor
            · intro checked
              cases checked
              exact ⟨isFile, uploaded, rfl, single, free, rfl⟩
            · rintro ⟨isFile', -, -, -, -, rfl⟩
              rw [isFile] at isFile'
              cases isFile'
              rfl
        · simp [single]
    · simp [uploaded]
  · rename_i notFile
    constructor
    · intro refused
      cases refused
    · rintro ⟨isFile, -⟩
      exact absurd isFile (notFile file)

theorem verify_ok_iff {source destination' : Location} {file : File} :
    verify host upload fs = .ok (source, file, destination') ↔
      ∃ destinationDir, Admitted host upload fs source file destinationDir ∧
        destination' = destination destinationDir upload.destinationFileName := by
  constructor
  · intro verified
    obtain ⟨source', resolved, verified⟩ := ok_of_bind verified
    obtain ⟨directory, found, verified⟩ := ok_of_bind verified
    obtain ⟨⟨file', destination'⟩, checked, verified⟩ := ok_of_bind verified
    cases verified
    obtain ⟨isFile, uploaded, isDir, single, free, rfl⟩ := verifyLocations_ok_iff.mp checked
    have direct := FileSystem.direct_of_resolve resolved
    refine ⟨directory, ⟨resolved, found, ?_, uploaded, isDir, single, free⟩, rfl⟩
    exact (FileSystem.stat_of_direct (direct _ List.prefix_rfl)).mp isFile
  · rintro ⟨directory, admitted, rfl⟩
    have direct := FileSystem.direct_of_resolve admitted.resolved
    apply bind_of_ok admitted.resolved
    apply bind_of_ok admitted.directory
    refine bind_of_ok (verifyLocations_ok_iff.mpr ⟨?_, admitted.uploaded, admitted.isDir,
      admitted.single, admitted.free, rfl⟩) rfl
    exact (FileSystem.stat_of_direct (direct _ List.prefix_rfl)).mpr admitted.isFile

/-! ## The copy -/

structure Writes (host : Host) (fs : FileSystem) (source : Location) (file : File)
    (real target : Location) (there : Option File) : Prop where
  follows : fs.follow host.depth real = .ok target
  different : target ≠ source
  old : fs.entry target = fileAt there
  outcome :
    (∃ left exception, host.copyFault = some (some left, exception) ∧ some left ≠ there ∧
      (copy2 host source file real).exec fs =
        (.error exception, fs.put target (some (.file left)))) ∨
    host.copyFault = none ∧ (copy2 host source file real).exec fs =
      (.ok (), fs.put target (some (.file (copied file there))))

theorem exec_write {target : Location} {file : File} {there : Option File} :
    (write host target file there).exec fs = match host.copyFault with
      | none => (.ok (), fs.put target (some (.file (copied file there))))
      | some (none, exception) => (.error exception, fs)
      | some (some left, exception) =>
        (.error exception, fs.put target (some (.file left))) := by
  unfold write
  generalize host.copyFault = fault
  rcases fault with _ | ⟨_ | left, exception⟩ <;> rfl

theorem exec_copy2 (source real : Location) (file : File) :
    (copy2 host source file real).exec fs = match fs.follow host.depth real with
      | .ok target => (copyTo host fs source file target).exec fs
      | .error exception => (.error exception, fs) := by
  rw [copy2, exec_bind, exec_get]
  dsimp only
  rw [exec_bind, exec_lift]
  cases fs.follow host.depth real <;> rfl

theorem copyTo_writes {source target : Location} {file : File} {there : Option File}
    (different : target ≠ source) (old : fs.entry target = fileAt there) :
    copyTo host fs source file target = write host target file there := by
  rw [copyTo, if_neg different, old]
  cases there <;> rfl

theorem write_idle {target : Location} {file : File} {there : Option File}
    {left : Option File} {exception : Exception} (old : fs.entry target = fileAt there)
    (fault : host.copyFault = some (left, exception)) (same : left = none ∨ left = there) :
    (write host target file there).exec fs = (.error exception, fs) := by
  rw [exec_write, fault]
  cases left with
  | none => rfl
  | some left =>
    rcases same with absent | rfl
    · cases absent
    · dsimp only
      rw [FileSystem.put_same old]

theorem copyTo_refuses {source target : Location} {file : File}
    (noFile : target ≠ source → ∀ there, fs.entry target ≠ fileAt there) :
    ∃ exception, (copyTo host fs source file target).exec fs = (.error exception, fs) := by
  unfold copyTo
  split
  · exact ⟨SameFileError, rfl⟩
  · rename_i different
    split
    · rename_i missing
      exact absurd missing (noFile different none)
    · rename_i old there
      exact absurd there (noFile different (some old))
    · exact ⟨OSError, rfl⟩

theorem copy2_idle (file : File) {source real : Location} (idle : CopyIdle host fs source real) :
    ∃ exception, (copy2 host source file real).exec fs = (.error exception, fs) := by
  rw [exec_copy2]
  cases follows : fs.follow host.depth real with
  | error exception => exact ⟨exception, rfl⟩
  | ok target =>
    dsimp only
    by_cases writes : target ≠ source ∧ ∃ there, fs.entry target = fileAt there
    · obtain ⟨different, there, old⟩ := writes
      obtain ⟨left, exception, fault, kept⟩ := idle target there follows different old
      rw [copyTo_writes different old]
      exact ⟨exception, write_idle old fault kept⟩
    · apply copyTo_refuses
      intro different there old
      exact writes ⟨different, there, old⟩

theorem copy2_busy (file : File) {source real : Location} (busy : ¬ CopyIdle host fs source real) :
    ∃ target there, Writes host fs source file real target there := by
  unfold CopyIdle at busy
  push Not at busy
  obtain ⟨target, there, follows, different, old, busy⟩ := busy
  refine ⟨target, there, follows, different, old, ?_⟩
  rw [exec_copy2, follows]
  dsimp only
  rw [copyTo_writes different old, exec_write]
  rcases fault : host.copyFault with _ | ⟨_ | left, exception⟩
  · exact .inr ⟨rfl, rfl⟩
  · exact absurd rfl (busy none exception fault).1
  · exact .inl ⟨left, exception, rfl, (busy (some left) exception fault).2, rfl⟩

/-! ## Owner and permissions -/

def holdsFile : Entry → Bool
  | .node (.file _) => true
  | _ => false

def shape (fs : FileSystem) (location : Location) : Option Bool :=
  (fs.entry location).map holdsFile

theorem shape_put_self (location : Location) (node : Option Node) :
    shape (fs.put location node) location = (node.map .node).map holdsFile := by
  rw [shape, FileSystem.entry_put_self]

theorem shape_put_of_ne {location other : Location} (node : Option Node)
    (different : other ≠ location) : shape (fs.put location node) other = shape fs other := by
  rw [shape, FileSystem.entry_put_of_ne fs node different, shape]

theorem shape_put {location : Location} {node node' : Node}
    (there : fs.entry location = some (.node node'))
    (same : holdsFile (.node node) = holdsFile (.node node')) :
    shape (fs.put location (some node)) = shape fs := by
  funext other
  by_cases here : other = location
  · subst here
    rw [shape_put_self, shape, there]
    exact congrArg some same
  · exact shape_put_of_ne _ here

theorem exec_setAttributes (change : Attributes → Attributes) (location : Location) :
    (setAttributes host change location).exec fs = match fs.follow host.depth location with
      | .error exception => (.error exception, fs)
      | .ok target => match fs.entry target with
          | some (.node (.file file)) =>
            (.ok (), fs.put target (some (.file ⟨file.content, change file.attributes⟩)))
          | some (.node (.directory attributes)) =>
            (.ok (), fs.put target (some (.directory (change attributes))))
          | _ => (.error FileSystem.FileNotFoundError, fs) := by
  rw [setAttributes, exec_bind, exec_get]
  dsimp only
  rw [exec_bind, exec_lift]
  cases fs.follow host.depth location with
  | error exception => rfl
  | ok target =>
    dsimp only
    generalize fs.entry target = entry
    rcases entry with _ | (file | attributes) | target <;> rfl

theorem keeps_setAttributes (change : Attributes → Attributes) (location : Location) :
    Keeps shape (setAttributes host change location) := by
  intro fs
  rw [exec_setAttributes]
  split
  · rfl
  · split
    · rename_i there
      exact shape_put there rfl
    · rename_i there
      exact shape_put there rfl
    · rfl

theorem setAttributes_file {change : Attributes → Attributes} {location : Location} {file : File}
    (there : fs.entry location = some (.node (.file file))) :
    (setAttributes host change location).exec fs =
      (.ok (), fs.put location (some (.file ⟨file.content, change file.attributes⟩))) := by
  rw [exec_setAttributes, FileSystem.follow_of_direct (by simp [there])]
  dsimp only
  rw [there]

def finish (host : Host) (upload : Upload) (destination : Location) : Action Unit := do
  chown host upload.user upload.group destination
  chmod host upload.permissions destination

theorem keeps_finish (host : Host) (upload : Upload) (destination : Location) :
    Keeps shape (finish host upload destination) := by
  apply Keeps.bind
  · unfold chown
    split
    · exact keeps_setAttributes _ _
    · exact keeps_throw _
  · intro _
    unfold chmod
    split
    · exact keeps_setAttributes _ _
    · exact keeps_throw _

theorem finish_file {destination : Location} {file : File}
    (there : fs.entry destination = some (.node (.file file))) :
    (finish host upload destination).exec fs = match host.chownFault with
      | some exception => (.error exception, fs)
      | none => match host.chmodFault with
          | some exception => (.error exception, fs.put destination (some (.file
              ⟨file.content, upload.user, upload.group, file.attributes.permissions⟩)))
          | none => (.ok (), fs.put destination (some (.file
              ⟨file.content, upload.user, upload.group, upload.permissions⟩))) := by
  rw [finish, exec_bind, chown]
  cases host.chownFault with
  | some exception => rfl
  | none =>
    dsimp only
    rw [setAttributes_file there, chmod]
    dsimp only
    cases host.chmodFault with
    | some exception => rfl
    | none =>
      dsimp only
      rw [setAttributes_file (FileSystem.entry_put_self ..), FileSystem.put_put]

/-! ## Outcomes -/

def Fine (upload : Upload) (fs : FileSystem) (source : Location) (file : File)
    (destination : Location) : Except Exception Unit × FileSystem → Prop
  | (.error _, fs') => fs' = fs
  | (.ok _, fs') =>
    Plain upload.destinationFileName ∧ fs' = landed upload fs source destination file

theorem exec_moveUploadedFile {source destination' : Location} {file : File}
    (verified : verify host upload fs = .ok (source, file, destination')) :
    (moveUploadedFile host upload).exec fs =
      (move host source file destination' >>= fun _ => finish host upload destination').exec fs := by
  rw [moveUploadedFile, exec_bind, exec_get]
  dsimp only
  rw [exec_bind, exec_lift, verified]
  rfl

theorem confined_of_refused (refused : ∀ found, verify host upload fs ≠ .ok found) :
    Confined host upload fs := by
  have raised : ∃ exception, (moveUploadedFile host upload).exec fs = (.error exception, fs) := by
    rw [moveUploadedFile, exec_bind, exec_get]
    dsimp only
    rw [exec_bind, exec_lift]
    cases verified : verify host upload fs with
    | ok found => exact absurd verified (refused found)
    | error exception => exact ⟨exception, rfl⟩
  obtain ⟨exception, raised⟩ := raised
  rw [Confined, raised]

theorem confined_iff_fine {source destinationDir : Location} {file : File}
    (admitted : Admitted host upload fs source file destinationDir) :
    Confined host upload fs ↔ Fine upload fs source file
      (destination destinationDir upload.destinationFileName)
      ((moveUploadedFile host upload).exec fs) := by
  unfold Confined
  rcases (moveUploadedFile host upload).exec fs with ⟨exception | ⟨⟩, fs'⟩
  · rfl
  · dsimp only [Fine]
    constructor
    · rintro ⟨source', directory, file', resolved, found, isFile, plain, moved, -⟩
      rw [admitted.resolved] at resolved
      cases resolved
      rw [admitted.directory] at found
      cases found
      rw [admitted.isFile] at isFile
      cases isFile
      rw [destination_of_plain plain]
      exact ⟨plain, moved⟩
    · rintro ⟨plain, moved⟩
      have free := admitted.free
      rw [destination_of_plain plain] at moved free
      exact ⟨source, destinationDir, file, admitted.resolved, admitted.directory, admitted.isFile,
        plain, moved, free⟩

theorem shape_landed (source destination : Location) (file : File) :
    shape (landed upload fs source destination file) destination = some true :=
  shape_put_self ..

theorem not_fine_of_shape (location : Location) {moved : FileSystem}
    {source destination : Location} {file : File} (changed : shape moved location ≠ shape fs location)
    (elsewhere : shape moved destination ≠ some true) :
    ¬ Fine upload fs source file destination ((finish host upload destination).exec moved) := by
  have kept := keeps_finish host upload destination moved
  generalize (finish host upload destination).exec moved = outcome at kept ⊢
  obtain ⟨exception | ⟨⟩, fs'⟩ := outcome
  · rintro rfl
    exact changed (congrFun kept location).symm
  · rintro ⟨-, rfl⟩
    exact elsewhere (((congrFun kept destination).symm).trans (shape_landed ..))

/-! ## Moving -/

theorem put_eq_iff {location : Location} {node : Node} :
    fs.put location (some node) = fs ↔ fs.entry location = some (.node node) := by
  constructor
  · intro same
    rw [← same, FileSystem.entry_put_self]
    rfl
  · exact FileSystem.put_same

theorem exec_move (host : Host) (fs : FileSystem) (source destination' : Location) (file : File) :
    (move host source file destination').exec fs =
      match realDestination host fs source destination' with
      | .ok real => (moveTo host source file real).exec fs
      | .error exception => (.error exception, fs) := by
  rw [move, exec_bind, exec_get]
  dsimp only
  rw [exec_bind, exec_lift]
  cases realDestination host fs source destination' <;> rfl

theorem exec_rename {source real : Location} {file : File}
    (isFile : fs.entry source = some (.node (.file file))) :
    (rename source real).exec fs =
      (.ok (), (fs.put source none).put real (some (.file file))) := by
  rw [rename, exec_bind, exec_get]
  dsimp only
  rw [isFile]
  rfl

def afterCopy (host : Host) (upload : Upload) (source destination : Location) : Action Unit := do
  unlink host source
  finish host upload destination

theorem exec_copy (renames : host.renames = false) (source real destination' : Location)
    (file : File) :
    (moveTo host source file real >>= fun _ => finish host upload destination').exec fs =
      (copy2 host source file real >>= fun _ => afterCopy host upload source destination').exec
        fs := by
  rw [moveTo, renames, if_neg Bool.false_ne_true, bind_assoc]
  rfl

theorem exec_afterCopy (source destination' : Location) :
    (afterCopy host upload source destination').exec fs = match host.unlinkFault with
      | some exception => (.error exception, fs)
      | none => (finish host upload destination').exec (fs.put source none) := by
  rw [afterCopy, exec_bind, unlink]
  cases host.unlinkFault <;> rfl

theorem isFile_not_isDir {location : Location} {file : File}
    (isFile : fs.entry location = some (.node (.file file))) (depth : Nat) :
    fs.isDir depth location = false := by
  have stat : fs.stat depth location = some (.file file) :=
    (FileSystem.stat_of_direct (by simp [isFile])).mpr isFile
  rw [FileSystem.isDir, stat]

theorem exists_of_entry {location : Location} {node : Node}
    (there : fs.entry location = some (.node node)) (depth : Nat) :
    fs.existsAt depth location = true := by
  have stat : fs.stat depth location = some node :=
    (FileSystem.stat_of_direct (by simp [there])).mpr there
  rw [FileSystem.existsAt, stat]
  rfl

theorem directory_of_isDir {depth : Nat} {location : Location}
    (isDir : fs.isDir depth location = true) : ∃ directory attributes,
      fs.follow depth location = .ok directory ∧
      fs.entry directory = some (.node (.directory attributes)) := by
  unfold FileSystem.isDir FileSystem.stat at isDir
  cases follows : fs.follow depth location with
  | error exception =>
    rw [follows] at isDir
    cases isDir
  | ok directory =>
    rw [follows] at isDir
    dsimp only at isDir
    rcases there : fs.entry directory with _ | (file | attributes) | target
    · rw [there] at isDir
      cases isDir
    · rw [there] at isDir
      cases isDir
    · exact ⟨directory, attributes, rfl, there⟩
    · rw [there] at isDir
      cases isDir

theorem exists_of_isDir {depth : Nat} {location : Location}
    (isDir : fs.isDir depth location = true) : fs.existsAt depth location = true := by
  obtain ⟨directory, attributes, follows, there⟩ := directory_of_isDir isDir
  rw [FileSystem.existsAt, FileSystem.stat, follows]
  dsimp only
  rw [there]
  rfl

theorem shape_of_isDir {depth : Nat} {location : Location}
    (isDir : fs.isDir depth location = true) : shape fs location ≠ some true := by
  intro holds
  unfold shape at holds
  rcases there : fs.entry location with _ | (file | attributes) | target
  · rw [there] at holds
    cases holds
  · rw [isFile_not_isDir there] at isDir
    cases isDir
  · rw [there] at holds
    cases holds
  · rw [there] at holds
    cases holds

theorem entry_of_isDir {depth : Nat} {location : Location}
    (isDir : fs.isDir depth location = true) : fs.entry location ≠ none := by
  intro missing
  have stat : fs.stat depth location = none := by
    rw [FileSystem.stat, FileSystem.follow_of_direct (by simp [missing])]
    dsimp only
    rw [missing]
  rw [FileSystem.isDir, stat] at isDir
  cases isDir

section Cases

variable {source dest real target : Location} {file : File} {there : Option File}

theorem shape_source (isFile : fs.entry source = some (.node (.file file))) :
    shape fs source = some true := by
  rw [shape, isFile]
  rfl

theorem not_fine_of_put {node : Node} {exception : Exception}
    (changed : fs.entry target ≠ some (.node node)) :
    ¬ Fine upload fs source file dest (.error exception, fs.put target (some node)) :=
  fun same => changed (put_eq_iff.mp same)

theorem entry_ne_of_ne {left : File} (old : fs.entry target = fileAt there)
    (changed : some left ≠ there) : fs.entry target ≠ some (.node (.file left)) := by
  rw [old]
  rintro same
  cases there with
  | none => cases same
  | some there =>
    cases same
    exact changed rfl

theorem rename_enters (isFile : fs.entry source = some (.node (.file file)))
    (isDir : fs.isDir host.depth dest = true) (free : fs.existsAt host.depth real = false) :
    ¬ Fine upload fs source file dest
      ((rename source real >>= fun _ => finish host upload dest).exec fs) := by
  have sourceReal : source ≠ real := by
    rintro rfl
    rw [exists_of_entry isFile] at free
    cases free
  have destSource : dest ≠ source := by
    rintro rfl
    rw [isFile_not_isDir isFile] at isDir
    cases isDir
  have destReal : dest ≠ real := by
    rintro rfl
    rw [exists_of_isDir isDir] at free
    cases free
  rw [exec_bind_of_ok (exec_rename isFile)]
  apply not_fine_of_shape source
  · rw [shape_put_of_ne _ sourceReal, shape_put_self, shape_source isFile]
    simp
  · rw [shape_put_of_ne _ destReal, shape_put_of_ne _ destSource]
    exact shape_of_isDir isDir

theorem copy_enters (isFile : fs.entry source = some (.node (.file file)))
    (isDir : fs.isDir host.depth dest = true) (free : fs.existsAt host.depth real = false)
    (writes : Writes host fs source file real target there) :
    ¬ Fine upload fs source file dest
      ((copy2 host source file real >>= fun _ => afterCopy host upload source dest).exec fs) := by
  have nothing : there = none := by
    cases there with
    | none => rfl
    | some old =>
      have present : fs.existsAt host.depth real = true := by
        rw [FileSystem.existsAt, FileSystem.stat, writes.follows]
        dsimp only
        rw [writes.old]
        rfl
      rw [free] at present
      cases present
  subst nothing
  have empty : fs.entry target = none := writes.old
  have destSource : dest ≠ source := by
    rintro rfl
    rw [isFile_not_isDir isFile] at isDir
    cases isDir
  have destTarget : dest ≠ target := by
    rintro rfl
    exact entry_of_isDir isDir empty
  rcases writes.outcome with ⟨left, exception, -, changed, ran⟩ | ⟨-, ran⟩
  · rw [exec_bind_of_error ran]
    exact not_fine_of_put (entry_ne_of_ne writes.old changed)
  · rw [exec_bind_of_ok ran, exec_afterCopy]
    cases host.unlinkFault with
    | some exception => exact not_fine_of_put (by simp [empty])
    | none =>
      apply not_fine_of_shape target
      · rw [shape_put_of_ne _ writes.different, shape_put_self, shape, empty]
        simp
      · rw [shape_put_of_ne _ destSource, shape_put_of_ne _ destTarget]
        exact shape_of_isDir isDir

theorem refused_iff (isFile : fs.entry source = some (.node (.file file)))
    (isDir : fs.isDir host.depth dest = true) :
    Fine upload fs source file dest
      ((move host source file dest >>= fun _ => finish host upload dest).exec fs) ↔
        Refused host fs source dest := by
  obtain ⟨directory, attributes, follows, -⟩ := directory_of_isDir isDir
  have only : Refused host fs source dest ↔
      fs.existsAt host.depth (directory ++ [basename source]) = true ∨
        host.renames = false ∧ CopyIdle host fs source (directory ++ [basename source]) := by
    constructor
    · intro refused
      exact refused directory follows
    · intro refused directory' follows'
      rw [follows] at follows'
      cases follows'
      exact refused
  rw [only]
  by_cases taken : fs.existsAt host.depth (directory ++ [basename source]) = true
  · have real : realDestination host fs source dest =
        .error (ShutilError "Destination path already exists") := by
      rw [realDestination, if_pos isDir, follows]
      exact if_pos taken
    have ran := exec_move host fs source dest file
    rw [real] at ran
    rw [exec_bind_of_error ran]
    exact iff_of_true rfl (.inl taken)
  · have real : realDestination host fs source dest = .ok (directory ++ [basename source]) := by
      rw [realDestination, if_pos isDir, follows]
      exact if_neg taken
    have ran := exec_move host fs source dest file
    rw [real] at ran
    have free : fs.existsAt host.depth (directory ++ [basename source]) = false := by
      simpa using taken
    rw [exec_bind, ran, ← exec_bind]
    cases renames : host.renames with
    | true =>
      rw [moveTo, if_pos renames]
      refine iff_of_false (rename_enters isFile isDir free) ?_
      rintro (taken' | ⟨impossible, -⟩)
      · exact taken taken'
      · cases impossible
    | false =>
      rw [exec_copy renames]
      by_cases idle : CopyIdle host fs source (directory ++ [basename source])
      · obtain ⟨exception, copied⟩ := copy2_idle file idle
        rw [exec_bind_of_error copied]
        exact iff_of_true rfl (.inr ⟨rfl, idle⟩)
      · obtain ⟨target, there, writes⟩ := copy2_busy file idle
        refine iff_of_false (copy_enters isFile isDir free writes) ?_
        rintro (taken' | ⟨-, idle'⟩)
        · exact taken taken'
        · exact idle idle'

theorem shape_ne_of_entry {fs' : FileSystem} (isFile : fs.entry source = some (.node (.file file)))
    (gone : fs'.entry source = none) : fs' ≠ fs := by
  rintro rfl
  rw [gone] at isFile
  cases isFile

theorem rename_iff (isFile : fs.entry source = some (.node (.file file))) :
    Fine upload fs source file dest
      ((rename source dest >>= fun _ => finish host upload dest).exec fs) ↔
        RenameLands host upload source file dest := by
  rw [exec_bind_of_ok (exec_rename isFile), finish_file (FileSystem.entry_put_self ..)]
  have stays : source = dest → (fs.put source none).put dest (some (.file file)) = fs := by
    rintro rfl
    rw [FileSystem.put_put, FileSystem.put_same isFile]
  have leaves : ∀ node, source ≠ dest → (fs.put source none).put dest node ≠ fs := by
    intro node different
    apply shape_ne_of_entry isFile
    rw [FileSystem.entry_put_of_ne _ _ different, FileSystem.entry_put_self]
    rfl
  unfold RenameLands Finishes
  cases host.chownFault with
  | some exception =>
    constructor
    · intro same
      exact .inr ⟨by_contra fun different => leaves _ different same, .inl (by simp)⟩
    · rintro (⟨impossible, -⟩ | ⟨here, -⟩)
      · cases impossible
      · exact stays here
  | none =>
    dsimp only
    cases host.chmodFault with
    | some exception =>
      dsimp only
      rw [FileSystem.put_put]
      constructor
      · intro same
        have here : source = dest := by_contra fun different => leaves _ different same
        subst here
        rw [Fine, FileSystem.put_put, put_eq_iff, isFile] at same
        have attributes : file.attributes =
            ⟨upload.user, upload.group, file.attributes.permissions⟩ :=
          congrArg File.attributes (Node.file.inj (Entry.node.inj (Option.some.inj same)))
        exact .inr ⟨rfl, .inr ⟨by simp, congrArg Attributes.user attributes,
          congrArg Attributes.group attributes⟩⟩
      · rintro (⟨-, impossible, -⟩ | ⟨rfl, impossible | ⟨-, sameUser, sameGroup⟩⟩)
        · cases impossible
        · exact absurd rfl impossible
        · rw [Fine, FileSystem.put_put, put_eq_iff, isFile, ← sameUser, ← sameGroup]
    | none =>
      dsimp only
      rw [FileSystem.put_put]
      constructor
      · rintro ⟨plain, -⟩
        exact .inl ⟨rfl, rfl, plain⟩
      · rintro (⟨-, -, plain⟩ | ⟨-, impossible | ⟨impossible, -⟩⟩)
        · exact ⟨plain, rfl⟩
        · exact absurd rfl impossible
        · exact absurd rfl impossible

theorem copySame_iff (follows : fs.follow host.depth dest = .ok target)
    (old : fs.entry target = fileAt there) :
    fs.put target (some (.file (copied file there))) = fs ↔ CopySame host fs file dest := by
  rw [put_eq_iff]
  constructor
  · intro same
    refine ⟨target, copied file there, follows, same, ?_⟩
    rw [same] at old
    cases there with
    | none => cases old
    | some there =>
      have stays : copied file (some there) = there :=
        Node.file.inj (Entry.node.inj (Option.some.inj old))
      rw [stays]
      exact stays
  · rintro ⟨target', there', follows', old', same⟩
    rw [follows] at follows'
    cases follows'
    have agree : there = some there' := by
      rw [old] at old'
      cases there with
      | none => cases old'
      | some there =>
        cases old'
        rfl
    rw [agree, same]
    exact old'

theorem finish_copied (isFile : fs.entry source = some (.node (.file file)))
    (different : dest ≠ source) {copy : File} (content : copy.content = file.content) :
    Fine upload fs source file dest ((finish host upload dest).exec
      ((fs.put dest (some (.file copy))).put source none)) ↔ Finishes host upload := by
  have there : ((fs.put dest (some (.file copy))).put source none).entry dest =
      some (.node (.file copy)) := by
    rw [FileSystem.entry_put_of_ne _ _ different, FileSystem.entry_put_self]
    rfl
  have gone : ((fs.put dest (some (.file copy))).put source none).entry source = none := by
    rw [FileSystem.entry_put_self]
    rfl
  rw [finish_file there]
  unfold Finishes
  cases host.chownFault with
  | some exception =>
    refine iff_of_false (shape_ne_of_entry isFile gone) ?_
    rintro ⟨impossible, -⟩
    cases impossible
  | none =>
    dsimp only
    cases host.chmodFault with
    | some exception =>
      refine iff_of_false (shape_ne_of_entry isFile ?_) ?_
      · rw [FileSystem.entry_put_of_ne _ _ different.symm, gone]
      · rintro ⟨-, impossible, -⟩
        cases impossible
    | none =>
      dsimp only
      rw [FileSystem.put_comm different, FileSystem.put_put, content]
      constructor
      · rintro ⟨plain, -⟩
        exact ⟨rfl, rfl, plain⟩
      · rintro ⟨-, -, plain⟩
        exact ⟨plain, rfl⟩

theorem content_copied (file : File) (there : Option File) :
    (copied file there).content = file.content := by
  cases there <;> rfl

theorem finish_link (isFile : fs.entry source = some (.node (.file file)))
    (link : IsLink fs dest) (old : fs.entry target = fileAt there) (copy : File) :
    ¬ Fine upload fs source file dest ((finish host upload dest).exec
      ((fs.put target (some (.file copy))).put source none)) := by
  obtain ⟨text, link⟩ := link
  have destSource : dest ≠ source := by
    rintro rfl
    rw [link] at isFile
    cases isFile
  have destTarget : dest ≠ target := by
    rintro rfl
    rw [link] at old
    cases there <;> cases old
  apply not_fine_of_shape source
  · rw [shape_put_self, shape_source isFile]
    simp
  · rw [shape_put_of_ne _ destSource, shape_put_of_ne _ destTarget, shape, link]
    simp [holdsFile]

theorem target_of_not_link (follows : fs.follow host.depth dest = .ok target)
    (noLink : ¬ IsLink fs dest) : target = dest := by
  rw [FileSystem.follow_of_direct fun text link => noLink ⟨text, link⟩] at follows
  cases follows
  rfl

theorem copy_iff (isFile : fs.entry source = some (.node (.file file))) :
    Fine upload fs source file dest
      ((copy2 host source file dest >>= fun _ => afterCopy host upload source dest).exec fs) ↔
        CopyLands host upload fs source file dest := by
  unfold CopyLands
  by_cases idle : CopyIdle host fs source dest
  · obtain ⟨exception, ran⟩ := copy2_idle file idle
    rw [exec_bind_of_error ran]
    exact iff_of_true rfl (.inl idle)
  · obtain ⟨target, there, writes⟩ := copy2_busy file idle
    rcases writes.outcome with ⟨left, exception, fault, changed, ran⟩ | ⟨whole, ran⟩
    · rw [exec_bind_of_error ran]
      refine iff_of_false (not_fine_of_put (entry_ne_of_ne writes.old changed)) ?_
      rintro (idle' | ⟨whole, -⟩)
      · exact idle idle'
      · rw [fault] at whole
        cases whole
    · rw [exec_bind_of_ok ran, exec_afterCopy]
      cases host.unlinkFault with
      | some exception =>
        refine (copySame_iff writes.follows writes.old).trans ?_
        simp [idle, whole]
      | none =>
        dsimp only
        by_cases link : IsLink fs dest
        · refine iff_of_false (finish_link isFile link writes.old _) ?_
          simp [idle, link]
        · have same := target_of_not_link writes.follows link
          subst same
          rw [finish_copied isFile writes.different (content_copied file there)]
          simp [idle, whole, link]

end Cases

theorem fine_iff {source dest : Location} {file : File}
    (isFile : fs.entry source = some (.node (.file file))) :
    Fine upload fs source file dest
      ((move host source file dest >>= fun _ => finish host upload dest).exec fs) ↔
        Lands host upload fs source file dest := by
  unfold Lands
  by_cases isDir : fs.isDir host.depth dest = true
  · rw [if_pos isDir]
    exact refused_iff isFile isDir
  · have ran := exec_move host fs source dest file
    have real : realDestination host fs source dest = .ok dest := if_neg isDir
    rw [real] at ran
    rw [if_neg isDir, exec_bind, ran, ← exec_bind]
    by_cases renames : host.renames = true
    · rw [if_pos renames, moveTo, if_pos renames]
      exact rename_iff isFile
    · rw [if_neg renames, exec_copy (by simpa using renames)]
      exact copy_iff isFile

/-! ## What a name leads to -/

/-! ## When an upload is confined -/

theorem confined_iff_lands {source destinationDir : Location} {file : File}
    (admitted : Admitted host upload fs source file destinationDir) :
    Confined host upload fs ↔ Lands host upload fs source file
      (destination destinationDir upload.destinationFileName) := by
  have verified := verify_ok_iff.mpr ⟨destinationDir, admitted, rfl⟩
  rw [confined_iff_fine admitted, exec_moveUploadedFile verified, fine_iff admitted.isFile]

theorem confined_iff (host : Host) (upload : Upload) (fs : FileSystem) :
    Confined host upload fs ↔ ∀ source file destinationDir,
      Admitted host upload fs source file destinationDir →
        Lands host upload fs source file
          (destination destinationDir upload.destinationFileName) := by
  constructor
  · intro confined source file directory admitted
    exact (confined_iff_lands admitted).mp confined
  · intro lands
    by_cases refused : ∀ found, verify host upload fs ≠ .ok found
    · exact confined_of_refused refused
    · push Not at refused
      obtain ⟨⟨source, file, destination'⟩, verified⟩ := refused
      obtain ⟨directory, admitted, -⟩ := verify_ok_iff.mp verified
      exact (confined_iff_lands admitted).mpr (lands source file directory admitted)

/-! ## Two dots -/

def sound : Host where
  depth := 40
  fileUploadTempDir := "/var/tmp".toList
  renames := true
  copyFault := none
  unlinkFault := none
  chownFault := none
  chmodFault := none

def uploadedFile : File := ⟨"archive".toList, "plinth", "plinth", 0o600⟩

def sourceLocation : Location := ["var".toList, "tmp".toList, "tmpfile".toList]

def archives : Location :=
  ["var".toList, "lib".toList, "freedombox".toList, "backups-upload".toList]

def system : FileSystem where
  entry location :=
    if location = sourceLocation then some (.node (.file uploadedFile))
    else if location <+: archives ∨ location <+: sourceLocation then
      some (.node (.directory ⟨"root", "root", 0o755⟩))
    else none
  cwd := []
  direct := by
    intro location _ target
    split_ifs <;> simp

def upwards : Upload := uploadedArchive "..".toList "/var/tmp/tmpfile".toList

theorem upwards_admitted : Admitted sound upwards system sourceLocation uploadedFile archives where
  resolved := by rfl
  directory := by rfl
  isFile := by decide +kernel
  uploaded := by decide +kernel
  isDir := by decide +kernel
  single := by decide +kernel
  free := fun _ => rfl

theorem dots_leave_directory : ¬ Confined sound upwards system := by
  rw [confined_iff_lands upwards_admitted]
  intro lands
  rw [Lands, if_pos (by decide +kernel)] at lands
  rcases lands archives.dropLast rfl with taken | ⟨copies, -⟩
  · exact absurd taken (by decide +kernel)
  · cases copies

end Plinth.Uploads
