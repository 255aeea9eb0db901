import Plinth.Model.Storage

/-! # The free region after the root partition -/

namespace Plinth.Storage

open Effect Python Exception Regex

variable {env : Environment} {device mountPoint : List Char}

/-! ## What is chosen -/

structure Fits (requested free : Segment) : Prop where
  start : free.start = requested.stop + 1
  size : 10 * 1024 * 1024 ≤ free.size

theorem fits_iff (requested free : Segment) : fits requested free = true ↔ Fits requested free := by
  rw [fits, Bool.and_eq_true, decide_eq_true_eq, decide_eq_true_eq]
  exact ⟨fun ⟨start, size⟩ => ⟨start, size⟩, fun fit => ⟨fit.start, fit.size⟩⟩

structure Chosen (env : Environment) (disk number : List Char) (all : List Segment)
    (requested free : Segment) : Prop where
  listed : segments env disk = .ok all
  requested_mem : requested ∈ all
  requested_partition : isFree requested = false
  requested_number : requested.number = some number
  free_mem : free ∈ all
  free_region : isFree free = true
  fits : Fits requested free
  primary : isLogical env requested = .ok false
  supported : requested.type ∈ fileSystems

theorem findFreeSpace_ok {requested found : Segment} {freeSpaces : List Segment}
    (ok : findFreeSpace env requested freeSpaces = .ok found) :
    isLogical env requested = .ok false ∧ requested.type ∈ fileSystems ∧
      found ∈ freeSpaces ∧ Fits requested found := by
  unfold findFreeSpace at ok
  obtain ⟨logical, primary, ok⟩ := ok_of_bind ok
  cases logical with
  | true => cases ok
  | false =>
    rw [if_neg (by decide)] at ok
    split at ok
    · cases ok
    · rename_i supported
      split at ok
      · rename_i other last
        cases ok
        obtain ⟨member, fit⟩ := List.mem_filter.mp (List.mem_of_mem_getLast? last)
        exact ⟨primary, not_not.mp supported, member, (fits_iff _ _).mp fit⟩
      · cases ok

theorem getFreeSpace_ok {disk : List Char} {requested free : Segment}
    (ok : getFreeSpace env device = .ok (disk, requested, free)) : ∃ number all,
    getRootDeviceAndPartitionNumber env device = .ok (disk, number) ∧
      Chosen env disk number all requested free := by
  unfold getFreeSpace at ok
  obtain ⟨⟨disk', number⟩, parsed, ok⟩ := ok_of_bind ok
  obtain ⟨⟨found, freeSpaces⟩, listing, ok⟩ := ok_of_bind ok
  cases listed : getPartitionsAndFreeSpaces env disk' number with
  | error e =>
    rw [partitionDetails, listed] at listing
    cases listing
  | ok both =>
    rw [partitionDetails, listed] at listing
    cases listing
    obtain ⟨all, segmented, same⟩ := ok_of_bind listed
    cases same
    cases last : (all.filter fun segment =>
        !isFree segment && segment.number = some number).getLast? with
    | none =>
      rw [last] at ok
      cases ok
    | some requested' =>
      rw [last] at ok
      obtain ⟨found, chosen, same⟩ := ok_of_bind ok
      cases same
      obtain ⟨primary, supported, member, fit⟩ := findFreeSpace_ok chosen
      obtain ⟨freeMember, isFree⟩ := List.mem_filter.mp member
      obtain ⟨requestedMember, kept⟩ := List.mem_filter.mp (List.mem_of_mem_getLast? last)
      rw [Bool.and_eq_true, Bool.not_eq_true', decide_eq_true_eq] at kept
      exact ⟨number, all, parsed, segmented, requestedMember, kept.1, kept.2, freeMember, isFree,
        fit, primary, supported⟩

/-! ## The bytes of the disk -/

def Apart (a b : Segment) : Prop :=
  a.stop < b.start ∨ b.stop < a.start

instance decidableApart (a b : Segment) : Decidable (Apart a b) :=
  inferInstanceAs (Decidable (_ ∨ _))

/-- What `parted` lists of a disk: partitions do not overlap but for the logical ones, which are in
an extended one, and a free region is in no partition or inside an extended one. -/
structure Partitioned (env : Environment) (all : List Segment) : Prop where
  bounds : ∀ segment ∈ all, segment.start ≤ segment.stop
  apart : ∀ p ∈ all, ∀ q ∈ all, isFree p = false → isFree q = false → p ≠ q →
    isLogical env p ≠ .ok true → isLogical env q ≠ .ok true → Apart p q
  logical : ∀ q ∈ all, isFree q = false → isLogical env q = .ok true →
    ∃ extended ∈ all, isFree extended = false ∧ isLogical env extended ≠ .ok true ∧
      extended.type ∉ fileSystems ∧ extended.start ≤ q.start ∧ q.stop ≤ extended.stop
  free : ∀ f ∈ all, isFree f = true → ∀ p ∈ all, isFree p = false →
    Apart f p ∨ p.start < f.start ∧ f.stop ≤ p.stop

def resized (requested free : Segment) : Segment :=
  { requested with stop := free.stop }

section Partitioned

variable {disk number : List Char} {all : List Segment} {requested free : Segment}

theorem Partitioned.apart_requested (partitioned : Partitioned env all)
    (chosen : Chosen env disk number all requested free) {other : Segment} (member : other ∈ all)
    (partition : isFree other = false) (differ : other ≠ requested) : Apart requested other := by
  have primary : isLogical env requested ≠ .ok true := by
    rw [chosen.primary]
    simp
  by_cases logical : isLogical env other = .ok true
  · obtain ⟨extended, extendedMember, extendedPartition, extendedPrimary, unsupported, low, high⟩ :=
      partitioned.logical other member partition logical
    have notRequested : requested ≠ extended := by
      rintro rfl
      exact unsupported chosen.supported
    have apart := partitioned.apart requested chosen.requested_mem extended extendedMember
      chosen.requested_partition extendedPartition notRequested primary extendedPrimary
    unfold Apart at *
    omega
  · exact partitioned.apart requested chosen.requested_mem other member chosen.requested_partition
      partition differ.symm primary logical

theorem Partitioned.apart_resized (partitioned : Partitioned env all)
    (chosen : Chosen env disk number all requested free) {other : Segment} (member : other ∈ all)
    (partition : isFree other = false) (differ : other ≠ requested) :
    Apart (resized requested free) other := by
  have before := partitioned.apart_requested chosen member partition differ
  have region := partitioned.free free chosen.free_mem chosen.free_region other member partition
  have start := chosen.fits.start
  have low := partitioned.bounds requested chosen.requested_mem
  have high := partitioned.bounds other member
  have freeBounds := partitioned.bounds free chosen.free_mem
  unfold Apart resized at *
  dsimp only at *
  omega

end Partitioned

/-! ## What is run -/

def Command.resizes : Command → Option (List Char × Option (List Char) × Int)
  | .resizepart device number stop | .resizepartAnswered device number stop =>
    some (device, number, stop)
  | _ => none

def ResizedOnly (start : List Command) (target : List Char × Option (List Char) × Int)
    (commands : List Command) : Prop :=
  ∃ new, commands = start ++ new ∧ ∀ command ∈ new, ∀ other, command.resizes = some other →
    other = target

section Run

variable {start : List Command} {target : List Char × Option (List Char) × Int}

abbrev KeepsTo {α : Type} (start : List Command)
    (target : List Char × Option (List Char) × Int) (m : Action α) : Prop :=
  Triple (ResizedOnly start target) m (fun _ => ResizedOnly start target)
    fun _ => ResizedOnly start target

theorem keepsTo_run {command : Command}
    (only : ∀ other, command.resizes = some other → other = target) :
    KeepsTo start target (run env command) := by
  intro s ⟨new, same, each⟩
  have ran : ResizedOnly start target (s ++ [command]) := by
    refine ⟨new ++ [command], by rw [same, List.append_assoc], ?_⟩
    intro other member
    rcases List.mem_append.mp member with old | last
    · exact each other old
    · rw [List.mem_singleton.mp last]
      exact only
  unfold run
  rw [exec_bind_of_ok (exec_get s), exec_bind_of_ok (exec_modify _ s)]
  cases env.fails s command <;> exact ran

theorem keepsTo_orRuntimeError {command : Command} (message : Exception → String)
    (only : ∀ other, command.resizes = some other → other = target) :
    KeepsTo start target (orRuntimeError env command message) :=
  (keepsTo_run only).tryCatch fun _ => Triple.throw fun _ => id

theorem keepsTo_resizePartition (disk : List Char) (requested free : Segment) :
    KeepsTo start (disk, requested.number, free.stop)
      (resizePartition env disk requested free) := by
  have only : ∀ other, some (disk, requested.number, free.stop) = some other →
      other = (disk, requested.number, free.stop) := fun other same => (Option.some.inj same).symm
  have first : KeepsTo start (disk, requested.number, free.stop)
      (run env (.resizepart disk requested.number free.stop)) := keepsTo_run only
  exact first.tryCatch fun _ => keepsTo_orRuntimeError _ only

theorem keepsTo_resizeFileSystem (disk mountPoint : List Char) (requested : Segment) :
    KeepsTo start target (resizeFileSystem env disk mountPoint requested) := by
  unfold resizeFileSystem
  split
  · exact keepsTo_orRuntimeError _ (by simp [Command.resizes])
  · split
    · exact keepsTo_orRuntimeError _ (by simp [Command.resizes])
    · exact Triple.pure fun _ => id

end Run

theorem resizedOnly_expandPartition {disk : List Char} {requested free : Segment}
    (ok : getFreeSpace env device = .ok (disk, requested, free)) (s : List Command) :
    ResizedOnly s (disk, requested.number, free.stop)
      ((expandPartition env device mountPoint).exec s).2 := by
  obtain ⟨number, all, parsed, chosen⟩ := getFreeSpace_ok ok
  have program : KeepsTo s (disk, requested.number, free.stop)
      (expandPartition env device mountPoint) := by
    unfold expandPartition
    apply Triple.bind_lift ok
    apply Triple.bind_lift chosen.primary
    rw [if_neg (by decide)]
    apply Triple.bind (Triple.when (fun _ => keepsTo_orRuntimeError _ (by simp [Command.resizes]))
      fun _ _ => id)
    intro _
    apply (keepsTo_resizePartition disk requested free).bind
    intro _
    exact keepsTo_resizeFileSystem disk mountPoint requested
  exact program.final ⟨[], (List.append_nil s).symm, by simp⟩

def NoRegion (env : Environment) (device : List Char) : Prop :=
  ∀ disk number all requested free, getRootDeviceAndPartitionNumber env device = .ok (disk, number) →
    segments env disk = .ok all → requested ∈ all → requested.number = some number → free ∈ all →
    isFree free = true → ¬ Fits requested free

/-- The partition is only ever expanded to the end of a free region that fits it, and overlaps no
other partition then; without such a region nothing is run. -/
theorem expansion_never_overlaps (env : Environment) (device mountPoint : List Char)
    (s : List Command) :
    (∀ size, isPartitionExpandable env device = .ok size →
      ∃ disk number all requested free,
        getRootDeviceAndPartitionNumber env device = .ok (disk, number) ∧
        Chosen env disk number all requested free ∧ free.size = size ∧
        ResizedOnly s (disk, requested.number, free.stop)
          ((expandPartition env device mountPoint).exec s).2 ∧
        (Partitioned env all → ∀ other ∈ all, isFree other = false → other ≠ requested →
          Apart (resized requested free) other)) ∧
      (NoRegion env device → ∃ e, isPartitionExpandable env device = .error e ∧
        (expandPartition env device mountPoint).exec s = (.error e, s)) := by
  constructor
  · intro size expandable
    obtain ⟨⟨disk, requested, free⟩, ok, same⟩ := ok_of_bind expandable
    cases same
    obtain ⟨number, all, parsed, chosen⟩ := getFreeSpace_ok ok
    refine ⟨disk, number, all, requested, free, parsed, chosen, rfl,
      resizedOnly_expandPartition ok s, ?_⟩
    intro partitioned other member partition differ
    exact partitioned.apart_resized chosen member partition differ
  · intro noRegion
    cases found : getFreeSpace env device with
    | error e =>
      refine ⟨e, bind_of_error found, ?_⟩
      unfold expandPartition
      rw [found]
      rfl
    | ok chosen =>
      obtain ⟨disk, requested, free⟩ := chosen
      obtain ⟨number, all, parsed, chosen⟩ := getFreeSpace_ok found
      exact absurd chosen.fits (noRegion disk number all requested free parsed chosen.listed
        chosen.requested_mem chosen.requested_number chosen.free_mem chosen.free_region)

/-! ## A disk with free space at its end -/

def parted : List Char :=
  "BYT;\n/dev/vda:80000000B:virtblk:512:512:gpt::;\n2:1048576B:2097151B:1048576B:swap::;\n".toList ++
    "1:2097152B:40000000B:37902849B:ext4::;\n1:40000001B:79999999B:39999999B:free;\n".toList

def newDisk : Environment where
  digits := Integer.asciiDigits
  parted _ := .ok parted
  fails _ _ := none
  str _ := ""

theorem ok_of_toOption {ε α : Type} {result : Except ε α} {a : α}
    (some : result.toOption = some a) : result = .ok a := by
  cases result with
  | error e => cases some
  | ok b => exact congrArg Except.ok (Option.some.inj some)

def newRoot : Segment :=
  ⟨some ['1'], 2097152, 40000000, 37902849, "ext4".toList, "gpt".toList⟩

def newRegion : Segment :=
  ⟨none, 40000001, 79999999, 39999999, "free".toList, "gpt".toList⟩

def newDiskSegments : List Segment :=
  [⟨some ['2'], 1048576, 2097151, 1048576, "swap".toList, "gpt".toList⟩, newRoot, newRegion]

theorem segments_newDisk : segments newDisk "/dev/vda".toList = .ok newDiskSegments :=
  ok_of_toOption (by decide +kernel)

theorem partitioned_newDisk : Partitioned newDisk newDiskSegments where
  bounds := by decide
  apart := by
    have apart : ∀ p ∈ newDiskSegments, ∀ q ∈ newDiskSegments, isFree p = false →
      isFree q = false → p ≠ q → Apart p q := by decide
    intro p pListed q qListed pPartition qPartition differ _ _
    exact apart p pListed q qListed pPartition qPartition differ
  logical := by
    have gpt : ∀ q ∈ newDiskSegments, ¬ q.tableType = "msdos".toList := by decide
    intro q listed _ logical
    rw [isLogical, if_neg (gpt q listed)] at logical
    cases logical
  free := by decide

theorem new_disk_never_overlaps : ∃ requested free, requested.number = some ['1'] ∧
    ∀ other ∈ newDiskSegments, isFree other = false → other ≠ requested →
      Apart (resized requested free) other := by
  have parsed : getRootDeviceAndPartitionNumber newDisk "/dev/vda1".toList =
      .ok ("/dev/vda".toList, ['1']) := ok_of_toOption (by decide +kernel)
  have listing : getPartitionsAndFreeSpaces newDisk "/dev/vda".toList ['1'] =
      .ok (some newRoot, [newRegion]) := bind_of_ok segments_newDisk rfl
  have details : partitionDetails newDisk "/dev/vda".toList ['1'] =
      .ok (some newRoot, [newRegion]) := by rw [partitionDetails, listing]
  have expandable : isPartitionExpandable newDisk "/dev/vda1".toList = .ok 39999999 :=
    bind_of_ok (bind_of_ok parsed (bind_of_ok details rfl)) rfl
  obtain ⟨disk, number, all, requested, free, found, chosen, _, _, apart⟩ :=
    (expansion_never_overlaps newDisk "/dev/vda1".toList "/".toList []).1 _ expandable
  obtain ⟨rfl, rfl⟩ := Prod.mk.inj (Except.ok.inj (parsed.symm.trans found))
  obtain rfl := Except.ok.inj (segments_newDisk.symm.trans chosen.listed)
  exact ⟨requested, free, chosen.requested_number, apart partitioned_newDisk⟩

/-! ## The name of a partition -/

theorem mem_atEnd {s rest : List Char} (line : '\n' ∉ s) (found : ((), rest) ∈ atEnd s) :
    s = [] := by
  rw [atEnd] at found
  split at found
  · rename_i ends
    rcases ends with rfl | rfl
    · rfl
    · exact absurd (List.mem_singleton_self _) line
  · cases found

theorem numberedDevice_parts {root number : List Char} (line : '\n' ∉ device)
    (found : match? (numberedDevice env) device = some (root, number)) :
    ∃ start unit, root = start ++ unit ∧ unit ≠ [] ∧ (∀ c ∈ unit, isDecimal env c = true) ∧
      device = root ++ 'p' :: number := by
  obtain ⟨rest, member⟩ := mem_of_match? found
  simp only [numberedDevice, mem_bind, mem_pure, mem_char, mem_many1, mem_literal] at member
  obtain ⟨start, _, ⟨-, rfl, -⟩, letter, _, ⟨rfl, -⟩, unit, _, ⟨some, rfl, all⟩, _, _, ⟨-, rfl⟩,
    _, stop, ⟨-, rfl, -⟩, ⟨⟩, _, ends, same, -⟩ := member
  obtain ⟨rfl, rfl⟩ := Prod.mk.inj same
  have last : '\n' ∉ stop := fun member => line (by simp [member])
  rw [mem_atEnd last ends]
  exact ⟨start ++ [letter], unit, by simp, some, all, by simp⟩

theorem letteredDevice_parts {root number : List Char} (line : '\n' ∉ device)
    (found : match? (letteredDevice env) device = some (root, number)) :
    ∃ start letter, root = start ++ [letter] ∧ isLetter letter = true ∧
      device = root ++ number := by
  obtain ⟨rest, member⟩ := mem_of_match? found
  simp only [letteredDevice, mem_bind, mem_pure, mem_char, mem_many1] at member
  obtain ⟨start, _, ⟨-, rfl, -⟩, letter, _, ⟨rfl, isLetter⟩, _, stop, ⟨-, rfl, -⟩, ⟨⟩, _, ends,
    same, -⟩ := member
  obtain ⟨rfl, rfl⟩ := Prod.mk.inj same
  have last : '\n' ∉ stop := fun member => line (by simp [member])
  rw [mem_atEnd last ends]
  exact ⟨start, letter, rfl, isLetter, by simp⟩

theorem isDigit_of_isDecimal {c : Char} (table : env.digits.value c = Integer.asciiValue c)
    (decimal : isDecimal env c = true) : c.isDigit = true := by
  by_contra other
  rw [isDecimal, table, Integer.asciiValue, if_neg other] at decimal
  cases decimal

theorem isDigit_of_isLetter {c : Char} (letter : isLetter c = true) : c.isDigit = false := by
  have upper : '9'.val < 'A'.val := by decide
  have lower : '9'.val < 'a'.val := by decide
  rw [isLetter, Bool.or_eq_true] at letter
  delta Char.isUpper Char.isLower at letter
  simp only [Bool.and_eq_true, decide_eq_true_eq, ge_iff_le] at letter
  rw [Char.isDigit, Bool.and_eq_false_iff, decide_eq_false_iff_not, decide_eq_false_iff_not]
  right
  rw [UInt32.not_le]
  rcases letter with ⟨low, -⟩ | ⟨low, -⟩
  · exact UInt32.lt_of_lt_of_le upper low
  · exact UInt32.lt_of_lt_of_le lower low

/-- Below `table` is what `\d` is for a letter of ASCII. -/
theorem partition_device_inverse (env : Environment) {device root number : List Char}
    (table : ∀ c : Char, c.toNat < 128 → env.digits.value c = Integer.asciiValue c)
    (ascii : ∀ c ∈ device, c.toNat < 128) (line : '\n' ∉ device)
    (accepted : getRootDeviceAndPartitionNumber env device = .ok (root, number)) :
    getPartitionDevice root (some number) = device := by
  rw [getRootDeviceAndPartitionNumber] at accepted
  split at accepted
  · rename_i numbered
    obtain rfl := Except.ok.inj accepted
    obtain ⟨start, unit, rfl, some, all, rfl⟩ := numberedDevice_parts line numbered
    have member := List.getLast_mem some
    have digit : (unit.getLast some).isDigit = true :=
      isDigit_of_isDecimal (table _ (ascii _ (by simp [member]))) (all _ member)
    have last : (start ++ unit).getLast?.any Char.isDigit = true := by
      rw [List.getLast?_append_of_ne_nil _ some, List.getLast?_eq_some_getLast some]
      exact digit
    rw [getPartitionDevice, if_pos last]
    rfl
  · split at accepted
    · rename_i lettered
      obtain rfl := Except.ok.inj accepted
      obtain ⟨start, letter, rfl, isLetter, rfl⟩ := letteredDevice_parts line lettered
      have last : ¬ (start ++ [letter]).getLast?.any Char.isDigit = true := by
        rw [List.getLast?_concat, Option.any_some, isDigit_of_isLetter isLetter]
        exact Bool.false_ne_true
      rw [getPartitionDevice, if_neg last]
      rfl
    · cases accepted

theorem mmc_partition_device :
    getPartitionDevice "/dev/mmcblk0".toList (some ['1']) = "/dev/mmcblk0p1".toList := by
  have ascii : "/dev/mmcblk0p1".toList.all (fun c => decide (c.toNat < 128)) = true := by
    decide +kernel
  exact partition_device_inverse newDisk (fun _ _ => rfl)
    (fun c member => of_decide_eq_true (List.all_eq_true.mp ascii c member)) (by decide +kernel)
    (ok_of_toOption (by decide +kernel))

end Plinth.Storage
