import Plinth.Lib.Python.Text
import Plinth.Lib.Python.Value

/-!
# Settings of Miniflux

`plinth/modules/miniflux/privileged.py`, lines 18 to 53: the environment file of the service, which
keeps the settings of the administrator and gets the ones that do not change.
-/

namespace Plinth.Miniflux

open Python Exception

abbrev Settings := OrderedDict (List Char) (List Char)

def STATIC_SETTINGS : List (List Char × List Char) :=
  [("BASE_URL".toList, "http://localhost/miniflux/".toList),
    ("RUN_MIGRATIONS".toList, "1".toList),
    ("PORT".toList, "8788".toList)]

def dictToEnvFile (dictionary : Settings) : List Char :=
  ['\n'].intercalate (dictionary.entries.map fun setting => setting.1 ++ '=' :: setting.2)

def isSetting (line : List Char) : Bool :=
  Text.strip line ≠ [] && !Text.startswith (Text.strip line) ['#']

def settingLines (envVars : List Char) : List (List Char) :=
  (Text.lines envVars).filter isSetting

def item (parts : List (List Char)) (index : Nat) : Except Exception (List Char) :=
  match parts[index]? with
  | some part => .ok part
  | none => .error (IndexError "list index out of range")

def readLine (dictionary : Settings) (line : List Char) : Except Exception Settings := do
  let key ← item (line.splitOn '=') 0
  let value ← item (line.splitOn '=') 1
  return dictionary.set key (Text.strip value)

def envFileToDict (envVars : List Char) : Except Exception Settings :=
  (settingLines envVars).foldlM readLine OrderedDict.empty

/-- `ENV_VARS_FILE`, if it is there -/
abbrev VarsFile := Option (List Char)

def readText (file : VarsFile) : List Char :=
  Text.universalNewlines (file.getD [])

def isNonEmptyFile (file : VarsFile) : Bool :=
  file.getD [] ≠ []

def existingSettings (file : VarsFile) : Except Exception Settings :=
  if isNonEmptyFile file then envFileToDict (readText file) else .ok OrderedDict.empty

def preSetup (file : VarsFile) : Except Exception (List Char) := do
  let existing ← existingSettings file
  return dictToEnvFile (existing.update STATIC_SETTINGS)

/-! ## What the file says -/

/-- The key and the value of a line, which end and begin at its first equals sign. -/
def assignment (line : List Char) : List Char × List Char :=
  (line.takeWhile (· ≠ '='), Text.strip ((line.dropWhile (· ≠ '=')).drop 1))

def meaning (envVars : List Char) : Settings :=
  OrderedDict.ofEntries ((settingLines envVars).map assignment)

def IsEnvFile (envVars : List Char) : Prop :=
  ∀ line ∈ settingLines envVars, '=' ∈ line

def staticKeys : List (List Char) :=
  STATIC_SETTINGS.map Prod.fst

def Survives (file : VarsFile) : Prop :=
  ∃ written back, preSetup file = .ok written ∧ envFileToDict (readText (some written)) = .ok back ∧
    (∀ key value, key ∉ staticKeys → (meaning (readText file)).get? key = some value →
      back.get? key = some value) ∧
    (∀ setting ∈ STATIC_SETTINGS, back.get? setting.1 = some setting.2) ∧
    preSetup (some written) = .ok written

def IsStripped (value : List Char) : Prop :=
  Text.strip value = value ∧ ∀ c ∈ value, Text.isLineBreak c = false

def IsKey (key : List Char) : Prop :=
  '=' ∉ key ∧ (∀ c ∈ key, Text.isLineBreak c = false) ∧ (Text.lstrip key).head? ≠ some '#'

def RoundTrip (dictionary : Settings) : Prop :=
  ∃ back, envFileToDict (dictToEnvFile dictionary) = .ok back ∧
    ∀ key, back.get? key = dictionary.get? key

end Plinth.Miniflux
