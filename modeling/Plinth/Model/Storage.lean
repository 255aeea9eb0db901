import Plinth.Lib.Effect
import Plinth.Lib.Python.Integer
import Plinth.Lib.Python.Regex

/-!
# Expansion of the root partition

`is_partition_expandable` and `expand_partition` of `plinth/modules/storage/privileged.py`. The
programs that are run are kept in order; what they answer is the environment.
-/

namespace Plinth.Storage

open Effect Python Exception Regex

/-- A partition or a free region, as `parted` lists it. -/
structure Segment where
  number : Option (List Char)
  start : Int
  stop : Int
  size : Int
  type : List Char
  tableType : List Char
  deriving DecidableEq, Repr

inductive Command
  | moveSecondHeader (device : List Char)
  | resizepart (device : List Char) (number : Option (List Char)) (stop : Int)
  | resizepartAnswered (device : List Char) (number : Option (List Char)) (stop : Int)
  | resize2fs (partitionDevice : List Char)
  | btrfsResize (mountPoint : List Char)
  deriving DecidableEq, Repr

structure Environment where
  digits : Integer.Digits
  /-- the output of `parted --machine … print free`, decoded, or what is raised -/
  parted : List Char → Except Exception (List Char)
  /-- the `CalledProcessError` of a program, after the ones that have been run -/
  fails : List Command → Command → Option Exception
  /-- `str(exception)` -/
  str : Exception → String

abbrev Action := Effect (List Command) Exception

variable (env : Environment)

/-! ## The listing -/

/-- `text.splitlines()` -/
def splitlines (text : List Char) : List (List Char) :=
  (Text.splitlines text).map fun line => line.filter fun c => !Text.isLineBreak c

/-- `value.rstrip('B')` as an integer -/
def interpretUnit (value : List Char) : Except Exception Int :=
  Integer.int env.digits (Text.rstripChars ['B'] value)

def item (parts : List (List Char)) (index : Nat) (key : String) : Except Exception (List Char) :=
  match parts[index]? with
  | some part => .ok part
  | none => .error (KeyError (.str key))

def parseSegment (tableType line : List Char) : Except Exception Segment := do
  let parts := (Text.rstripChars [';'] line).splitOn ':'
  let start ← interpretUnit env (← item parts 1 "start")
  let stop ← interpretUnit env (← item parts 2 "end")
  let size ← interpretUnit env (← item parts 3 "size")
  let type ← item parts 4 "type"
  return {
    number := if type = "free".toList then none else parts.head?
    start := start
    stop := stop
    size := size
    type := type
    tableType := tableType }

def listIndex {α : Type} (l : List α) (index : Nat) : Except Exception α :=
  match l[index]? with
  | some a => .ok a
  | none => .error (IndexError "list index out of range")

def segments (device : List Char) : Except Exception (List Segment) := do
  let lines := splitlines (← env.parted device)
  let tableType ← listIndex ((← listIndex lines 1).splitOn ':') 5
  (lines.drop 2).mapM (parseSegment env tableType)

def isFree (segment : Segment) : Bool :=
  segment.type = "free".toList

def getPartitionsAndFreeSpaces (device partitionNumber : List Char) :
    Except Exception (Option Segment × List Segment) := do
  let all ← segments env device
  let requested := (all.filter fun segment =>
    !isFree segment && segment.number = some partitionNumber).getLast?
  return (requested, all.filter isFree)

/-! ## The device -/

def isLetter (c : Char) : Bool :=
  c.isUpper || c.isLower

/-- `\d` -/
def isDecimal (c : Char) : Bool :=
  (env.digits.value c).isSome

/-- `$` -/
def atEnd : Pattern Unit := fun s =>
  if s = [] ∨ s = ['\n'] then [((), s)] else []

/-- `(.+[a-zA-Z]\d+)p(\d+)$` -/
def numberedDevice : Pattern (List Char × List Char) := do
  let start ← many1 notNewline
  let letter ← char isLetter
  let unit ← many1 (isDecimal env)
  let _ ← literal ['p']
  let number ← many1 (isDecimal env)
  let _ ← atEnd
  return (start ++ letter :: unit, number)

/-- `(.+[a-zA-Z])(\d+)$` -/
def letteredDevice : Pattern (List Char × List Char) := do
  let start ← many1 notNewline
  let letter ← char isLetter
  let number ← many1 (isDecimal env)
  let _ ← atEnd
  return (start ++ [letter], number)

def getRootDeviceAndPartitionNumber (device : List Char) :
    Except Exception (List Char × List Char) :=
  match match? (numberedDevice env) device with
  | some found => .ok found
  | none =>
    match match? (letteredDevice env) device with
    | some found => .ok found
    | none => .error (ValueError "Invalid device, must be a partition")

/-- `re.match('[0-9]', device[-1])` -/
def getPartitionDevice (device : List Char) (number : Option (List Char)) : List Char :=
  let number := number.getD "None".toList
  if device.getLast?.any Char.isDigit then device ++ 'p' :: number else device ++ number

/-! ## The free region -/

def minimumSize : Int := 10 * 1024 * 1024

def isLogical (segment : Segment) : Except Exception Bool :=
  if segment.tableType = "msdos".toList then do
    let number ← Integer.int env.digits (segment.number.getD [])
    return decide (5 ≤ number)
  else return false

def fits (requested free : Segment) : Bool :=
  free.start = requested.stop + 1 && minimumSize ≤ free.size

def fileSystems : List (List Char) :=
  ["btrfs".toList, "ext4".toList]

def wrapped (error : Exception) : Exception :=
  RuntimeError ("Error getting partition details: " ++ env.str error)

def noneError : Exception :=
  TypeError "'NoneType' object is not subscriptable"

def findFreeSpace (requested : Segment) (freeSpaces : List Segment) : Except Exception Segment := do
  if ← isLogical env requested then
    throw (RuntimeError "Expanding logical partitions currently unsupported")
  else if requested.type ∉ fileSystems then
    throw (RuntimeError ("Unsupported file system type: " ++ String.ofList requested.type))
  else
    -- the last one that fits
    match (freeSpaces.filter (fits requested)).getLast? with
    | some found => return found
    | none => throw (RuntimeError "No free space available")

/-- `_get_partitions_and_free_spaces`, where any `Exception` becomes a `RuntimeError` -/
def partitionDetails (device partitionNumber : List Char) :
    Except Exception (Option Segment × List Segment) :=
  match getPartitionsAndFreeSpaces env device partitionNumber with
  | .ok found => .ok found
  | .error e => .error (if e.isinstance .exception then wrapped env e else e)

def getFreeSpace (device : List Char) : Except Exception (List Char × Segment × Segment) := do
  let (device, partitionNumber) ← getRootDeviceAndPartitionNumber env device
  let (requested, freeSpaces) ← partitionDetails env device partitionNumber
  match requested with
  | none => throw noneError
  | some requested => do
      let found ← findFreeSpace env requested freeSpaces
      return (device, requested, found)

/-! ## Expansion -/

def run (command : Command) : Action Unit := do
  let failure := env.fails (← get) command
  modify (· ++ [command])
  match failure with
  | none => return ()
  | some e => throw e

def orRuntimeError (command : Command) (message : Exception → String) : Action Unit :=
  tryCatch (run env command) fun e => throw (RuntimeError (message e))

def moveGptSecondHeader (device : List Char) : Action Unit :=
  orRuntimeError env (.moveSecondHeader device) fun _ =>
    "Error moving GPT second header to the end"

def resizePartition (device : List Char) (requested free : Segment) : Action Unit :=
  tryCatch (run env (.resizepart device requested.number free.stop)) fun _ =>
    orRuntimeError env (.resizepartAnswered device requested.number free.stop) fun e =>
      "Error expanding partition: " ++ env.str e

def resizeFileSystem (device mountPoint : List Char) (requested : Segment) : Action Unit :=
  if requested.type = "btrfs".toList then
    orRuntimeError env (.btrfsResize mountPoint) fun e =>
      "Error expanding filesystem: " ++ env.str e
  else if requested.type = "ext4".toList then
    orRuntimeError env (.resize2fs (getPartitionDevice device requested.number)) fun e =>
      "Error expanding filesystem: " ++ env.str e
  else return ()

def isPartitionExpandable (device : List Char) : Except Exception Int := do
  let (_, _, free) ← getFreeSpace env device
  return free.size

def expandPartition (device mountPoint : List Char) : Action Unit := do
  let (device, requested, free) ← lift (getFreeSpace env device)
  if ← lift (isLogical env requested) then
    throw (RuntimeError "Expanding logical partitions currently unsupported")
  else do
    Effect.when (requested.tableType = "gpt".toList) (moveGptSecondHeader env device)
    resizePartition env device requested free
    resizeFileSystem env device mountPoint requested

end Plinth.Storage
