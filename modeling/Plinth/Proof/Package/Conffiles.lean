import Plinth.Model.Package.Conffiles
import Plinth.Lib.Effect

/-! # Prompts that are not reported -/

namespace Plinth.Package.Conffiles

open Python Exception Effect

/-! ## The rule -/

abbrev Table := Path → Option Hash

section Rule

variable (system : System)

inductive Prompts (old new : Table) (conffile : Path) : Prop
  | both {oldHash newHash : Hash} (isOld : old conffile = some oldHash)
      (isNew : new conffile = some newHash)
      (modified : getConffileHash system conffile ≠ some oldHash) (changed : oldHash ≠ newHash)
  | added {newHash : Hash} (notOld : old conffile = none) (isNew : new conffile = some newHash)
      (present : system.disk conffile ≠ .missing)
      (differs : getConffileHash system conffile ≠ some newHash)

def Unchanged (old : Table) (conffile : Path) : Prop :=
  ∃ hash, old conffile = some hash ∧ getConffileHash system conffile = some hash

theorem prompts_congr {old new new' : Table} {conffile : Path}
    (same : ¬ Unchanged system old conffile → new conffile = new' conffile)
    (prompts : Prompts system old new conffile) : Prompts system old new' conffile := by
  cases prompts with
  | both isOld isNew modified changed =>
    refine .both isOld ?_ modified changed
    rw [← same, isNew]
    rintro ⟨hash, isOld', unmodified⟩
    rw [isOld] at isOld'
    cases isOld'
    exact modified unmodified
  | added notOld isNew present differs =>
    refine .added notOld ?_ present differs
    rw [← same, isNew]
    rintro ⟨hash, isOld, -⟩
    rw [notOld] at isOld
    cases isOld

end Rule

/-! ## Recorded hashes -/

def recordOf (conffile : Path) (line : List Char) : Option Hash :=
  match Text.words line with
  | filePath :: md5sum :: rest =>
    if rest.head? = some "obsolete".toList ∨ md5sum = "newconffile".toList then none
    else if filePath = conffile then some md5sum
    else none
  | _ => none

def recorded (value : List Char) : Table := fun conffile =>
  (Text.splitlines value).reverse.findSome? (recordOf conffile)

def HasHash (line : List Char) : Prop :=
  2 ≤ (Text.words line).length

theorem parseLine_ok_iff (conffiles : Hashes) (line : List Char) :
    (∃ conffiles', parseLine conffiles line = .ok conffiles') ↔ HasHash line := by
  unfold parseLine HasHash
  rw [Text.words_strip]
  match Text.words line with
  | [] => simp
  | [_] => simp
  | filePath :: md5sum :: rest =>
    simp only [List.length_cons]
    split
    · simp
    · split <;> simp

theorem get?_parseLine {conffiles conffiles' : Hashes} {line : List Char}
    (parsed : parseLine conffiles line = .ok conffiles') (conffile : Path) :
    conffiles'.get? conffile = (recordOf conffile line).or (conffiles.get? conffile) := by
  unfold parseLine at parsed
  rw [Text.words_strip] at parsed
  unfold recordOf
  match words : Text.words line with
  | [] =>
    rw [words] at parsed
    cases parsed
  | [_] =>
    rw [words] at parsed
    cases parsed
  | filePath :: md5sum :: rest =>
    rw [words] at parsed
    have third : (filePath :: md5sum :: rest)[2]? = rest.head? := by cases rest <;> rfl
    dsimp only at parsed ⊢
    rw [third] at parsed
    by_cases obsolete : rest.head? = some "obsolete".toList
    · rw [if_pos obsolete] at parsed
      cases parsed
      rw [if_pos (.inl obsolete)]
      rfl
    · rw [if_neg obsolete] at parsed
      by_cases fresh : md5sum = "newconffile".toList
      · rw [if_pos fresh] at parsed
        cases parsed
        rw [if_pos (.inr fresh)]
        rfl
      · rw [if_neg fresh] at parsed
        cases parsed
        rw [if_neg (not_or.mpr ⟨obsolete, fresh⟩), OrderedDict.get?_set_or]

theorem foldlM_parseLine {lines : List (List Char)} {conffiles conffiles' : Hashes}
    (parsed : lines.foldlM parseLine conffiles = .ok conffiles') (conffile : Path) :
    conffiles'.get? conffile =
      (lines.reverse.findSome? (recordOf conffile)).or (conffiles.get? conffile) := by
  induction lines generalizing conffiles with
  | nil =>
    cases parsed
    rfl
  | cons line lines ih =>
    rw [List.foldlM_cons] at parsed
    obtain ⟨next, first, rest⟩ := ok_of_bind parsed
    rw [ih rest, get?_parseLine first, List.reverse_cons, List.findSome?_append, Option.or_assoc]
    cases found : recordOf conffile line <;> simp [found]

theorem foldlM_parseLine_ok_iff (lines : List (List Char)) (conffiles : Hashes) :
    (∃ conffiles', lines.foldlM parseLine conffiles = .ok conffiles') ↔
      ∀ line ∈ lines, HasHash line := by
  induction lines generalizing conffiles with
  | nil => exact ⟨fun _ => List.forall_mem_nil _, fun _ => ⟨conffiles, rfl⟩⟩
  | cons line lines ih =>
    rw [List.foldlM_cons, List.forall_mem_cons]
    constructor
    · rintro ⟨conffiles', parsed⟩
      obtain ⟨next, first, rest⟩ := ok_of_bind parsed
      exact ⟨(parseLine_ok_iff conffiles line).mp ⟨next, first⟩, (ih next).mp ⟨conffiles', rest⟩⟩
    · rintro ⟨first, rest⟩
      obtain ⟨next, first⟩ := (parseLine_ok_iff conffiles line).mpr first
      obtain ⟨conffiles', rest⟩ := (ih next).mpr rest
      exact ⟨conffiles', bind_of_ok first rest⟩

theorem get?_parseConffilesValue {value : List Char} {conffiles : Hashes}
    (parsed : parseConffilesValue value = .ok conffiles) : conffiles.get? = recorded value := by
  funext conffile
  exact (foldlM_parseLine parsed conffile).trans (Option.or_none ..)

theorem parseConffilesValue_ok_iff (value : List Char) :
    (∃ conffiles, parseConffilesValue value = .ok conffiles) ↔
      ∀ line ∈ Text.splitlines value, HasHash line :=
  foldlM_parseLine_ok_iff _ _

/-! ## The status file -/

def installed (sections : List Section) (package : String) : Option Section :=
  sections.reverse.find? fun stanza => stanza.package = some package

def oldTable (sections : List Section) (package : String) : Table :=
  recorded (((installed sections package).bind Section.conffiles).getD [])

def Parses (packages : List String) (sections : List Section) : Prop :=
  ∀ stanza ∈ sections, ∀ package ∈ stanza.package, package ∈ packages →
    ∀ line ∈ Text.splitlines (stanza.conffiles.getD []), HasHash line

theorem addSection_ok_iff (packages : List String) (status : Status) (stanza : Section) :
    (∃ status', addSection packages status stanza = .ok status') ↔
      ∀ package ∈ stanza.package, package ∈ packages →
        ∀ line ∈ Text.splitlines (stanza.conffiles.getD []), HasHash line := by
  unfold addSection
  cases stanza.package with
  | none => simp
  | some package =>
    dsimp only
    by_cases wanted : package ∈ packages
    · rw [if_pos wanted]
      simp only [Option.mem_def, Option.some.injEq, forall_eq', wanted, true_implies]
      rw [← parseConffilesValue_ok_iff]
      constructor
      · rintro ⟨status', added⟩
        obtain ⟨hashes, parsed, -⟩ := ok_of_bind added
        exact ⟨hashes, parsed⟩
      · rintro ⟨hashes, parsed⟩
        exact ⟨_, bind_of_ok parsed rfl⟩
    · rw [if_neg wanted]
      simp [wanted]

theorem getConffileHashesFromStatusFile_ok_iff (packages : List String) (sections : List Section) :
    (∃ status, getConffileHashesFromStatusFile packages sections = .ok status) ↔
      Parses packages sections := by
  have folded (sections : List Section) (status : Status) :
      (∃ status', sections.foldlM (addSection packages) status = .ok status') ↔
        Parses packages sections := by
    induction sections generalizing status with
    | nil => exact ⟨fun _ => List.forall_mem_nil _, fun _ => ⟨status, rfl⟩⟩
    | cons stanza sections ih =>
      rw [List.foldlM_cons, Parses, List.forall_mem_cons]
      constructor
      · rintro ⟨status', parsed⟩
        obtain ⟨next, first, rest⟩ := ok_of_bind parsed
        exact ⟨(addSection_ok_iff ..).mp ⟨next, first⟩, (ih next).mp ⟨status', rest⟩⟩
      · rintro ⟨first, rest⟩
        obtain ⟨next, first⟩ := (addSection_ok_iff packages status stanza).mpr first
        obtain ⟨status', rest⟩ := (ih next).mpr rest
        exact ⟨status', bind_of_ok first rest⟩
  exact folded sections _

def hashesOf {ν : Type} (table : OrderedDict String (OrderedDict Path ν)) (package : String) :
    OrderedDict Path ν :=
  (table.get? package).getD OrderedDict.empty

theorem get?_addSection {packages : List String} {status status' : Status} {stanza : Section}
    (added : addSection packages status stanza = .ok status') {package : String}
    (wanted : package ∈ packages) :
    (hashesOf status'.1 package).get? =
      if stanza.package = some package then recorded (stanza.conffiles.getD [])
      else (hashesOf status.1 package).get? := by
  unfold addSection at added
  cases name : stanza.package with
  | none =>
    rw [name] at added
    cases added
    rfl
  | some package' =>
    rw [name] at added
    dsimp only at added
    by_cases same : package' = package
    · subst same
      rw [if_pos wanted] at added
      obtain ⟨hashes, parsed, rest⟩ := ok_of_bind added
      cases rest
      simp [hashesOf, get?_parseConffilesValue parsed]
    · have other : some package' ≠ some package := fun equal => same (Option.some.inj equal)
      rw [if_neg other]
      by_cases wanted' : package' ∈ packages
      · rw [if_pos wanted'] at added
        obtain ⟨hashes, parsed, rest⟩ := ok_of_bind added
        cases rest
        simp [hashesOf, OrderedDict.get?_set, Ne.symm same]
      · rw [if_neg wanted'] at added
        cases added
        rfl

theorem get?_statusFile {packages : List String} {sections : List Section} {status : Status}
    (read : getConffileHashesFromStatusFile packages sections = .ok status) {package : String}
    (wanted : package ∈ packages) :
    (hashesOf status.1 package).get? = oldTable sections package := by
  have folded (sections : List Section) (first last : Status)
      (read : sections.foldlM (addSection packages) first = .ok last) :
      (hashesOf last.1 package).get? =
        ((installed sections package).map fun stanza => recorded (stanza.conffiles.getD [])).getD
          (hashesOf first.1 package).get? := by
    induction sections generalizing first with
    | nil =>
      cases read
      rfl
    | cons stanza sections ih =>
      rw [List.foldlM_cons] at read
      obtain ⟨next, added, rest⟩ := ok_of_bind read
      rw [ih next rest, get?_addSection added wanted, installed, installed, List.reverse_cons,
        List.find?_append]
      by_cases same : stanza.package = some package <;>
        cases sections.reverse.find? (fun stanza => stanza.package = some package) <;> simp [same]
  rw [folded sections _ status read, oldTable]
  cases installed sections package <;> rfl

/-! ## Files on disk -/

section System

variable (system : System)

theorem get?_systemHashes (hashes : Hashes) (conffile : Path) :
    (systemHashes system hashes).get? conffile =
      (hashes.get? conffile).bind fun hash =>
        if some hash ≠ getConffileHash system conffile then some (getConffileHash system conffile)
        else none := by
  rw [systemHashes, OrderedDict.get?_foldl conffile fun entry : Path × Hash =>
    if entry.1 = conffile then
      if some entry.2 ≠ getConffileHash system conffile then some (getConffileHash system conffile)
      else none
    else none]
  · rw [OrderedDict.findSome?_entries hashes conffile fun hash =>
      if some hash ≠ getConffileHash system conffile then some (getConffileHash system conffile)
      else none]
    exact Option.or_none ..
  · intro systemHashes entry
    by_cases modified : some entry.2 ≠ getConffileHash system entry.1
    · rw [if_pos modified, OrderedDict.get?_set_or]
      by_cases same : entry.1 = conffile
      · subst same
        rw [if_pos rfl, if_pos rfl, if_pos modified]
      · rw [if_neg same, if_neg same]
    · rw [if_neg modified]
      by_cases same : entry.1 = conffile
      · subst same
        rw [if_pos rfl, if_neg modified]
        rfl
      · rw [if_neg same]
        rfl

theorem mem_keys_systemHashes (hashes : Hashes) (conffile : Path) :
    conffile ∈ (systemHashes system hashes).keys ↔
      ∃ hash, hashes.get? conffile = some hash ∧ getConffileHash system conffile ≠ some hash := by
  rw [OrderedDict.mem_keys_iff, get?_systemHashes]
  cases hashes.get? conffile with
  | none => simp
  | some hash => simp [eq_comm]

theorem keys_filterMatching (packageHashes : OrderedDict String Hashes) (package : String)
    (conffile : Path) :
    conffile ∈ (hashesOf (filterMatchingPackageHashes system packageHashes) package).keys ↔
      conffile ∈ (systemHashes system (hashesOf packageHashes package)).keys := by
  have found : (filterMatchingPackageHashes system packageHashes).get? package =
      (packageHashes.get? package).bind fun hashes =>
        if (systemHashes system hashes).entries ≠ [] then some (systemHashes system hashes) else none := by
    rw [filterMatchingPackageHashes, OrderedDict.get?_foldl package
      fun entry : String × Hashes =>
        if entry.1 = package then
          if (systemHashes system entry.2).entries ≠ [] then some (systemHashes system entry.2) else none
        else none]
    · rw [OrderedDict.findSome?_entries packageHashes package fun hashes =>
        if (systemHashes system hashes).entries ≠ [] then some (systemHashes system hashes) else none]
      exact Option.or_none ..
    · intro mismatchedHashes entry
      by_cases some_ : (systemHashes system entry.2).entries ≠ []
      · rw [if_pos some_, if_pos some_, OrderedDict.get?_set_or]
      · rw [if_neg some_, if_neg some_, ite_self]
        rfl
  rw [hashesOf, found, hashesOf]
  cases packageHashes.get? package with
  | none => rfl
  | some hashes =>
    simp only [Option.bind_some, Option.getD_some]
    by_cases none_ : (systemHashes system hashes).entries = []
    · simp [none_, OrderedDict.keys, OrderedDict.empty]
    · simp [none_]

/-! ## Downloaded files -/

def entries (debFile : DebFile) : List Path :=
  match debFile.conffiles with
  | some content =>
    match decode content with
    | .ok text => Text.words text.toList
    | .error _ => Text.words (decodeReplace content)
  | none => []

def newTable (debFile : DebFile) : Table := fun conffile =>
  if conffile ∈ entries debFile then
    (debFile.data (Text.lstripChars ['/'] conffile)).map system.md5sum
  else none

structure Readable (old : Table) (debFile : DebFile) : Prop where
  version : debFile.version.isSome = true
  conffiles : ∃ content text, debFile.conffiles = some content ∧ decode content = .ok text
  shipped : ∀ conffile ∈ entries debFile, Unchanged system old conffile ∨
    (debFile.data (Text.lstripChars ['/'] conffile)).isSome = true

section File

variable {system} {statusHashes : Hashes} {mismatchedHashes : OrderedDict Path (Option Hash)}
  {old : Table} {debFile : DebFile}

def Skips (system : System) (statusHashes : Hashes)
    (mismatchedHashes : OrderedDict Path (Option Hash)) (old : Table) : Prop :=
  ∀ conffile, (conffile ∈ statusHashes.keys ∧ conffile ∉ mismatchedHashes.keys) ↔
    Unchanged system old conffile

theorem skips_of_status {packageHashes : OrderedDict String Hashes} {package : String}
    (read : (hashesOf packageHashes package).get? = old) :
    Skips system (hashesOf packageHashes package)
      (hashesOf (filterMatchingPackageHashes system packageHashes) package) old := by
  intro conffile
  rw [keys_filterMatching, mem_keys_systemHashes, OrderedDict.mem_keys_iff, read, Unchanged]
  cases old conffile with
  | none => simp
  | some hash => simp

theorem foldlM_addHash_ok_iff (skips : Skips system statusHashes mismatchedHashes old)
    (conffiles : List Path) (hashes : Hashes) :
    (∃ hashes', conffiles.foldlM (addHash system statusHashes mismatchedHashes debFile) hashes =
      .ok hashes') ↔
      ∀ conffile ∈ conffiles, Unchanged system old conffile ∨
        (debFile.data (Text.lstripChars ['/'] conffile)).isSome = true := by
  induction conffiles generalizing hashes with
  | nil => exact ⟨fun _ => List.forall_mem_nil _, fun _ => ⟨hashes, rfl⟩⟩
  | cons conffile conffiles ih =>
    rw [List.foldlM_cons, List.forall_mem_cons, addHash]
    by_cases unchanged : Unchanged system old conffile
    · rw [if_pos ((skips conffile).mpr unchanged)]
      simp only [unchanged, true_or, true_and]
      exact ih hashes
    · rw [if_neg fun skipped => unchanged ((skips conffile).mp skipped)]
      simp only [unchanged, false_or]
      cases debFile.data (Text.lstripChars ['/'] conffile) with
      | none =>
        simp only [Option.isSome_none, Bool.false_eq_true, false_and, iff_false]
        rintro ⟨hashes', folded⟩
        cases folded
      | some data =>
        simp only [Option.isSome_some, true_and]
        exact ih _

theorem get?_foldlM_addHash (skips : Skips system statusHashes mismatchedHashes old)
    {conffiles : List Path} {hashes hashes' : Hashes}
    (folded : conffiles.foldlM (addHash system statusHashes mismatchedHashes debFile) hashes =
      .ok hashes') {conffile : Path} (changed : ¬ Unchanged system old conffile) :
    hashes'.get? conffile =
      if conffile ∈ conffiles then
        (debFile.data (Text.lstripChars ['/'] conffile)).map system.md5sum
      else hashes.get? conffile := by
  induction conffiles generalizing hashes with
  | nil =>
    cases folded
    rfl
  | cons first conffiles ih =>
    rw [List.foldlM_cons] at folded
    obtain ⟨next, added, rest⟩ := ok_of_bind folded
    rw [ih rest]
    by_cases member : conffile ∈ conffiles
    · simp [member]
    · rw [if_neg member]
      unfold addHash at added
      by_cases same : conffile = first
      · subst same
        rw [if_neg fun skipped => changed ((skips conffile).mp skipped)] at added
        rw [if_pos List.mem_cons_self]
        cases data : debFile.data (Text.lstripChars ['/'] conffile) with
        | none =>
          rw [data] at added
          cases added
        | some content =>
          rw [data] at added
          cases added
          simp
      · have absent : conffile ∉ first :: conffiles := by
          rw [List.mem_cons, not_or]
          exact ⟨same, member⟩
        rw [if_neg absent]
        split at added
        · cases added
          rfl
        · split at added
          · cases added
            simp [OrderedDict.get?_set, same]
          · cases added

theorem decodeConffiles_ok_iff {content : Bytes} {conffiles : List Path} :
    decodeConffiles content = .ok conffiles ↔
      ∃ text, decode content = .ok text ∧ Text.words text.toList = conffiles := by
  unfold decodeConffiles
  cases decode content with
  | error e => simp
  | ok text => simp

theorem entries_of_decoded {content : Bytes} {text : String}
    (conffiles : debFile.conffiles = some content) (decoded : decode content = .ok text) :
    entries debFile = Text.words text.toList := by
  rw [entries, conffiles]
  dsimp only
  rw [decoded]

theorem required_ok_iff {α : Type} {value : Option α} {a : α} :
    required value = .ok a ↔ value = some a := by
  cases value <;> simp [required]

end File

section Files

variable {packages : List String} {statusHashes : OrderedDict String Hashes}
  {old : String → Table}

theorem downloadedFile_ok {file : Except Skipped DebFile} {package version : String} {hashes : Hashes}
    (read : ∀ package ∈ packages, (hashesOf statusHashes package).get? = old package)
    (ok : getConffileHashesFromDownloadedFile system packages statusHashes
      (filterMatchingPackageHashes system statusHashes) file = .ok (package, hashes, version)) :
    ∃ debFile, file = .ok debFile ∧ debFile.package = some package ∧ Readable system (old package) debFile ∧
      ∀ conffile, ¬ Unchanged system (old package) conffile →
        hashes.get? conffile = newTable system debFile conffile := by
  unfold getConffileHashesFromDownloadedFile at ok
  obtain ⟨debFile, opened, ok⟩ := ok_of_bind ok
  obtain ⟨packageName, named, ok⟩ := ok_of_bind ok
  rw [required_ok_iff] at named
  dsimp only at ok
  split at ok
  · cases ok
  · rename_i wanted
    obtain ⟨newVersion, versioned, ok⟩ := ok_of_bind ok
    obtain ⟨content, listed, ok⟩ := ok_of_bind ok
    obtain ⟨conffiles, words, ok⟩ := ok_of_bind ok
    obtain ⟨hashes', folded, ok⟩ := ok_of_bind ok
    cases ok
    rw [required_ok_iff] at versioned listed
    obtain ⟨text, decoded, rfl⟩ := decodeConffiles_ok_iff.mp words
    have skips : Skips system _ _ (old package) :=
      skips_of_status (read package (not_not.mp wanted))
    have listing := entries_of_decoded listed decoded
    refine ⟨debFile, opened, named, ⟨by rw [versioned]; rfl, ⟨content, text, listed, decoded⟩, ?_⟩, ?_⟩
    · rw [listing]
      exact (foldlM_addHash_ok_iff skips _ _).mp ⟨hashes, folded⟩
    · intro conffile changed
      rw [get?_foldlM_addHash skips folded changed, newTable, listing]
      rfl

theorem downloadedFile_of_readable {debFile : DebFile} {package : String}
    (read : (hashesOf statusHashes package).get? = old package) (wanted : package ∈ packages)
    (named : debFile.package = some package) (readable : Readable system (old package) debFile) :
    ∃ hashes version, getConffileHashesFromDownloadedFile system packages statusHashes
      (filterMatchingPackageHashes system statusHashes) (.ok debFile) =
        .ok (package, hashes, version) := by
  obtain ⟨version, versioned⟩ := Option.isSome_iff_exists.mp readable.version
  obtain ⟨content, text, listed, decoded⟩ := readable.conffiles
  have skips : Skips system _ _ (old package) := skips_of_status read
  have shipped := readable.shipped
  rw [entries_of_decoded listed decoded] at shipped
  obtain ⟨hashes, folded⟩ := (foldlM_addHash_ok_iff skips _ OrderedDict.empty).mpr shipped
  refine ⟨hashes, version, ?_⟩
  unfold getConffileHashesFromDownloadedFile
  refine bind_of_ok rfl (bind_of_ok (required_ok_iff.mpr named) ?_)
  dsimp only
  rw [if_neg (not_not.mpr wanted)]
  exact bind_of_ok (required_ok_iff.mpr versioned) (bind_of_ok (required_ok_iff.mpr listed)
    (bind_of_ok (decodeConffiles_ok_iff.mpr ⟨text, decoded, rfl⟩) (bind_of_ok folded rfl)))

def named (files : List (Except Skipped DebFile)) (package : String) : List DebFile :=
  (files.filterMap Except.toOption).filter fun debFile => debFile.package = some package

noncomputable def taken (old : Table) (files : List (Except Skipped DebFile)) (package : String) :
    Option DebFile :=
  haveI := Classical.decPred (Readable system old)
  ((named files package).filter (Readable system old)).getLast?

def Agrees (old : Table) (hashes : Option Hashes) (file : Option DebFile) : Prop :=
  match hashes, file with
  | some hashes, some debFile => ∀ conffile, ¬ Unchanged system old conffile →
      hashes.get? conffile = newTable system debFile conffile
  | none, none => True
  | _, _ => False

theorem taken_concat_readable {old : Table} {files : List (Except Skipped DebFile)} {package : String}
    {debFile : DebFile} (name : debFile.package = some package)
    (readable : Readable system old debFile) :
    taken system old (files ++ [.ok debFile]) package = some debFile := by
  unfold taken named
  simp [List.filterMap_append, Except.toOption, name, readable]

theorem taken_concat_other {old : Table} {files : List (Except Skipped DebFile)} {package : String}
    {file : Except Skipped DebFile} (other : ∀ debFile, file = .ok debFile →
      debFile.package = some package → ¬ Readable system old debFile) :
    taken system old (files ++ [file]) package = taken system old files package := by
  unfold taken named
  cases file with
  | error e =>
    have nothing : [(Except.error e : Except Skipped DebFile)].filterMap Except.toOption = [] := rfl
    rw [List.filterMap_append, nothing, List.append_nil]
  | ok debFile =>
    by_cases name : debFile.package = some package
    · simp [List.filterMap_append, Except.toOption, name, other debFile rfl name]
    · simp [List.filterMap_append, Except.toOption, name]

theorem agrees_downloadedFiles {package : String}
    (read : ∀ package ∈ packages, (hashesOf statusHashes package).get? = old package)
    (wanted : package ∈ packages) (files : List (Except Skipped DebFile)) :
    Agrees system (old package)
      ((getConffileHashesFromDownloadedFiles system packages files statusHashes
        (filterMatchingPackageHashes system statusHashes)).1.get? package)
      (taken system (old package) files package) := by
  induction files using List.reverseRecOn with
  | nil => trivial
  | append_singleton files file ih =>
    rw [getConffileHashesFromDownloadedFiles, List.foldl_append, List.foldl_cons, List.foldl_nil]
    rw [getConffileHashesFromDownloadedFiles] at ih
    cases result : getConffileHashesFromDownloadedFile system packages statusHashes
        (filterMatchingPackageHashes system statusHashes) file with
    | error e =>
      rw [taken_concat_other]
      · exact ih
      · rintro debFile rfl name readable
        obtain ⟨hashes, version, ok⟩ :=
          downloadedFile_of_readable system (read package wanted) wanted name readable
        rw [ok] at result
        cases result
    | ok found =>
      obtain ⟨package', hashes, version⟩ := found
      obtain ⟨debFile, rfl, name, readable, table⟩ := downloadedFile_ok system read result
      dsimp only
      by_cases same : package' = package
      · subst same
        rw [taken_concat_readable system name readable, OrderedDict.get?_set_self]
        exact table
      · rw [taken_concat_other, OrderedDict.get?_set, if_neg (Ne.symm same)]
        · exact ih
        · rintro debFile' equal name' -
          cases equal
          rw [name] at name'
          exact same (Option.some.inj name')

end Files

/-! ## The result -/

theorem mem_getModifiedConffiles_iff {statusHashes new : Hashes}
    {mismatchedHashes : OrderedDict Path (Option Hash)} {old : Table} (read : statusHashes.get? = old)
    (mismatched : ∀ conffile, conffile ∈ mismatchedHashes.keys ↔
      ∃ hash, old conffile = some hash ∧ getConffileHash system conffile ≠ some hash)
    (conffile : Path) :
    conffile ∈ getModifiedConffiles system statusHashes mismatchedHashes new ↔
      Prompts system old new.get? conffile := by
  unfold getModifiedConffiles
  rw [List.mem_append, List.mem_filter, mismatched, List.mem_map]
  simp only [decide_eq_true_eq, List.mem_filter, OrderedDict.mem_keys_iff, read]
  constructor
  · rintro (⟨⟨hash, isOld, modified⟩, ⟨newHash, isNew⟩, changed⟩ | ⟨entry, ⟨member, notOld, present, differs⟩, rfl⟩)
    · refine .both isOld isNew modified ?_
      rintro rfl
      exact changed (isOld.trans isNew.symm)
    · refine .added ?_ ((OrderedDict.get?_eq_some_iff new entry.1 entry.2).mpr member) present differs
      rw [Option.eq_none_iff_forall_ne_some]
      exact fun hash isOld => notOld ⟨hash, isOld⟩
  · rintro (⟨isOld, isNew, modified, changed⟩ | ⟨notOld, isNew, present, differs⟩)
    · refine .inl ⟨⟨_, isOld, modified⟩, ⟨_, isNew⟩, ?_⟩
      rw [isOld, isNew]
      exact fun same => changed (Option.some.inj same)
    · refine .inr ⟨(conffile, _), ⟨(OrderedDict.get?_eq_some_iff ..).mp isNew, ?_, present, differs⟩, rfl⟩
      rintro ⟨hash, isOld⟩
      rw [notOld] at isOld
      cases isOld

def reported (packagesInfo : OrderedDict String PackageInfo) (package : String) : List Path :=
  ((packagesInfo.get? package).map PackageInfo.modifiedConffiles).getD []

theorem findSome?_single {α β : Type} [DecidableEq α] {l : List α} {a : α} (member : a ∈ l)
    (found : Option β) : (l.findSome? fun b => if b = a then found else none) = found := by
  induction l with
  | nil => cases member
  | cons b l ih =>
    rw [List.findSome?_cons]
    by_cases same : b = a
    · rw [if_pos same]
      cases found with
      | some _ => rfl
      | none =>
        rw [List.findSome?_eq_none_iff]
        exact fun _ _ => ite_self _
    · rw [if_neg same]
      exact ih ((List.mem_cons.mp member).resolve_left (Ne.symm same))

theorem reported_foldl {packages : List String} {package : String} (wanted : package ∈ packages)
    (info : String → PackageInfo) :
    reported (packages.foldl (fun packagesInfo package =>
      if (info package).modifiedConffiles = [] then packagesInfo
      else packagesInfo.set package (info package)) OrderedDict.empty) package =
        (info package).modifiedConffiles := by
  have last : (packages.foldl (fun packagesInfo package =>
      if (info package).modifiedConffiles = [] then packagesInfo
      else packagesInfo.set package (info package)) OrderedDict.empty).get? package =
      if (info package).modifiedConffiles = [] then none else some (info package) := by
    rw [OrderedDict.get?_foldl package fun package' =>
      if package' = package then
        if (info package).modifiedConffiles = [] then none else some (info package)
      else none]
    · rw [findSome?_single (List.mem_reverse.mpr wanted)]
      exact Option.or_none ..
    · intro packagesInfo package'
      by_cases same : package' = package
      · subst same
        rw [if_pos rfl]
        by_cases nothing : (info package').modifiedConffiles = []
        · rw [if_pos nothing, if_pos nothing]
          rfl
        · rw [if_neg nothing, if_neg nothing, OrderedDict.get?_set_self]
          rfl
      · rw [if_neg same]
        by_cases nothing : (info package').modifiedConffiles = []
        · rw [if_pos nothing]
          rfl
        · rw [if_neg nothing, OrderedDict.get?_set, if_neg (Ne.symm same)]
          rfl
  rw [reported, last]
  by_cases nothing : (info package).modifiedConffiles = []
  · rw [if_pos nothing, nothing]
    rfl
  · rw [if_neg nothing]
    rfl

theorem filterConffilePackages_ok {packagesList : List String} {files : List (Except Skipped DebFile)}
    (downloaded : system.download = .ok files) {status : Status}
    (read : getConffileHashesFromStatusFile packagesList.dedup system.status = .ok status) :
    ∃ packagesInfo, filterConffilePackages system packagesList = .ok packagesInfo ∧
      ∀ package ∈ packagesList, ∀ conffile, conffile ∈ reported packagesInfo package ↔
        ∃ debFile ∈ taken system (oldTable system.status package) files package,
          Prompts system (oldTable system.status package) (newTable system debFile) conffile := by
  refine ⟨_, bind_of_ok read (bind_of_ok downloaded rfl), ?_⟩
  intro package wanted conffile
  have wanted' : package ∈ packagesList.dedup := List.mem_dedup.mpr wanted
  have tables : ∀ package ∈ packagesList.dedup,
      (hashesOf status.1 package).get? = oldTable system.status package := fun package wanted =>
    get?_statusFile read wanted
  have mismatched (conffile : Path) : conffile ∈
      (hashesOf (filterMatchingPackageHashes system status.1) package).keys ↔
        ∃ hash, oldTable system.status package conffile = some hash ∧
          getConffileHash system conffile ≠ some hash := by
    rw [keys_filterMatching, mem_keys_systemHashes, tables package wanted']
  have modified : _ ↔ Prompts system _ (hashesOf (getConffileHashesFromDownloadedFiles system
      packagesList.dedup files status.1 (filterMatchingPackageHashes system status.1)).1 package).get?
        conffile :=
    mem_getModifiedConffiles_iff system (tables package wanted') mismatched conffile
  have agrees := agrees_downloadedFiles system tables wanted' files
  have result := reported_foldl wanted' fun package =>
    { currentVersion := (status.2.get? package).join
      newVersion := (getConffileHashesFromDownloadedFiles system packagesList.dedup files status.1
        (filterMatchingPackageHashes system status.1)).2.get? package
      modifiedConffiles := getModifiedConffiles system (hashesOf status.1 package)
        (hashesOf (filterMatchingPackageHashes system status.1) package)
        (hashesOf (getConffileHashesFromDownloadedFiles system packagesList.dedup files status.1
          (filterMatchingPackageHashes system status.1)).1 package) }
  dsimp only at result
  rw [← result] at modified
  refine modified.trans ?_
  unfold hashesOf
  cases hashes : (getConffileHashesFromDownloadedFiles system packagesList.dedup files status.1
      (filterMatchingPackageHashes system status.1)).1.get? package with
  | none =>
    cases file : taken system (oldTable system.status package) files package with
    | some debFile =>
      rw [hashes, file] at agrees
      exact agrees.elim
    | none =>
      constructor
      · rintro (⟨-, isNew, -, -⟩ | ⟨-, isNew, -, -⟩) <;> cases isNew
      · rintro ⟨debFile, member, -⟩
        cases member
  | some hashes' =>
    cases file : taken system (oldTable system.status package) files package with
    | none =>
      rw [hashes, file] at agrees
      exact agrees.elim
    | some debFile =>
      rw [hashes, file] at agrees
      constructor
      · exact fun prompts => ⟨debFile, rfl, prompts_congr system (agrees conffile) prompts⟩
      · rintro ⟨_, member, prompts⟩
        cases member
        exact prompts_congr system (fun changed => (agrees conffile changed).symm) prompts

def newest (files : List (Except Skipped DebFile)) (package : String) : Option DebFile :=
  (named files package).getLast?

def Exact (packagesList : List String) (files : List (Except Skipped DebFile)) : Prop :=
  ∃ packagesInfo, filterConffilePackages system packagesList = .ok packagesInfo ∧
    ∀ package ∈ packagesList, ∀ debFile ∈ newest files package, ∀ conffile,
      conffile ∈ reported packagesInfo package ↔
        Prompts system (oldTable system.status package) (newTable system debFile) conffile

/-- The file can be read, or the rule gives the same for the one that is taken in its place, if any. -/
def Sound (files : List (Except Skipped DebFile)) (package : String) (debFile : DebFile) : Prop :=
  Readable system (oldTable system.status package) debFile ∨
    ∀ conffile, Prompts system (oldTable system.status package) (newTable system debFile) conffile ↔
      ∃ other ∈ taken system (oldTable system.status package) files package,
        Prompts system (oldTable system.status package) (newTable system other) conffile

theorem taken_of_readable {files : List (Except Skipped DebFile)} {package : String}
    {debFile : DebFile} {old : Table} (last : debFile ∈ newest files package)
    (readable : Readable system old debFile) : taken system old files package = some debFile := by
  rw [newest, Option.mem_def, List.getLast?_eq_some_iff] at last
  obtain ⟨before, split⟩ := last
  unfold taken
  rw [split, List.filter_append]
  simp [readable]

end System

/-- The report is exact where the conffiles of every package that was downloaded can be read. -/
theorem filterConffilePackages_exact_iff (system : System) (packagesList : List String)
    {files : List (Except Skipped DebFile)} (downloaded : system.download = .ok files) :
    Exact system packagesList files ↔
      Parses packagesList.dedup system.status ∧
        ∀ package ∈ packagesList, ∀ debFile ∈ newest files package,
          Sound system files package debFile := by
  constructor
  · rintro ⟨packagesInfo, ok, exact_⟩
    obtain ⟨status, read, -⟩ := ok_of_bind ok
    refine ⟨(getConffileHashesFromStatusFile_ok_iff ..).mp ⟨status, read⟩, ?_⟩
    obtain ⟨packagesInfo', ok', rule⟩ := filterConffilePackages_ok system downloaded read
    rw [ok] at ok'
    cases ok'
    intro package wanted debFile last
    refine .inr fun conffile => ?_
    rw [← exact_ package wanted debFile last, rule package wanted]
  · rintro ⟨parses, sound⟩
    obtain ⟨status, read⟩ := (getConffileHashesFromStatusFile_ok_iff ..).mpr parses
    obtain ⟨packagesInfo, ok, rule⟩ := filterConffilePackages_ok system downloaded read
    refine ⟨packagesInfo, ok, fun package wanted debFile last conffile => ?_⟩
    rw [rule package wanted]
    rcases sound package wanted debFile last with readable | same
    · rw [taken_of_readable system last readable]
      constructor
      · rintro ⟨_, member, prompts⟩
        cases member
        exact prompts
      · exact fun prompts => ⟨debFile, rfl, prompts⟩
    · exact (same conffile).symm

/-! ## An upgrade that removes a conffile -/

def removal : DebFile where
  package := some "sample"
  version := some "2"
  conffiles := some (encodeUtf8 "/etc/a\nremove-on-upgrade /etc/b\n")
  data path := if path = "etc/a".toList then some (encodeUtf8 "new") else none

def withRemoval : System where
  md5sum content := content.map fun byte => Char.ofNat byte.toNat
  status := [⟨some "sample", some "/etc/a old\n /etc/b old".toList, some "1"⟩]
  disk path := if path = "/etc/a".toList then .file (encodeUtf8 "changed") else .missing
  download := .ok [.ok removal]

def update : DebFile :=
  { removal with conffiles := some (encodeUtf8 "/etc/a\n") }

def withUpdate : System :=
  { withRemoval with download := .ok [.ok update] }

theorem filterConffilePackages_exact_update : Exact withUpdate ["sample"] [.ok update] := by
  refine (filterConffilePackages_exact_iff withUpdate ["sample"] rfl).mpr ⟨?_, ?_⟩
  · intro stanza member package name _ line inside
    have lines : (withUpdate.status.flatMap fun stanza =>
        Text.splitlines (stanza.conffiles.getD [])).all fun line =>
          2 ≤ (Text.words line).length := by decide +kernel
    have found := List.all_eq_true.mp lines line (List.mem_flatMap.mpr ⟨stanza, member, inside⟩)
    exact of_decide_eq_true (p := 2 ≤ (Text.words line).length) found
  · intro package member debFile last
    rw [List.mem_singleton] at member
    subst member
    have only : newest [.ok update] "sample" = some update := rfl
    rw [only] at last
    cases last
    refine .inl ⟨rfl, ⟨_, "/etc/a\n", rfl, by rfl⟩, fun conffile member => .inr ?_⟩
    have shipped : (entries update).all fun conffile =>
        (update.data (Text.lstripChars ['/'] conffile)).isSome := by decide +kernel
    exact List.all_eq_true.mp shipped conffile member

theorem removal_not_reported : ¬ Exact withRemoval ["sample"] [.ok removal] := by
  rintro ⟨packagesInfo, ok, rule⟩
  have silent : (filterConffilePackages withRemoval ["sample"]).toOption.map
      (fun packagesInfo => reported packagesInfo "sample") = some [] := by decide +kernel
  rw [ok] at silent
  have nothing : reported packagesInfo "sample" = [] := Option.some.inj silent
  have last : removal ∈ newest [.ok removal] "sample" := by rfl
  have asked : "/etc/a".toList ∈ reported packagesInfo "sample" := by
    rw [rule "sample" (.head _) removal last]
    have isOld : oldTable withRemoval.status "sample" "/etc/a".toList = some "old".toList := by
      decide +kernel
    have isNew : newTable withRemoval removal "/etc/a".toList = some "new".toList := by
      decide +kernel
    exact .both isOld isNew (by decide +kernel) (by decide)
  rw [nothing] at asked
  cases asked

end Plinth.Package.Conffiles
