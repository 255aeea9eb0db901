import Plinth.Lib.Python.Text
import Plinth.Lib.Runs

/-!
# The forwarders of BIND

`plinth/modules/bind/privileged.py`, lines 65 to 103, and `form_valid` of
`plinth/modules/bind/views.py`.
-/

namespace Plinth.Bind

open Python

/-- `[line.strip() for line in open(CONFIG_FILE)]` -/
def strippedLines (text : List Char) : List (List Char) :=
  (Text.readlines (Text.universalNewlines text)).map Text.strip

/-- `re.match(r'^\s*forwarders\s+{', line)` -/
def opensForwarders (line : List Char) : Bool :=
  let after := (Text.lstrip line).drop "forwarders".length
  Text.startswith (Text.lstrip line) "forwarders".toList && after.head?.any Text.isSpace &&
    Text.startswith (Text.lstrip after) ['{']

def readForwarders : Bool → List Char → List (List Char) → List Char
  | _, forwarders, [] => forwarders
  | flag, forwarders, line :: data =>
    if opensForwarders line then readForwarders true forwarders data
    else if flag && !Text.contains "//".toList line then
      readForwarders false (line.filter (· ≠ ';')) data
    else readForwarders flag forwarders data

def getConfig (text : List Char) : List Char :=
  readForwarders false [] (strippedLines text)

/-- The lines that are written, with some of their own after each that opens a block. -/
def writeLines (inserted : List (List Char)) : Bool → List (List Char) → List (List Char)
  | _, [] => []
  | flag, line :: data =>
    if opensForwarders line then line :: (inserted ++ writeLines inserted true data)
    else if Text.contains "\x7d;".toList line && flag then line :: writeLines inserted false data
    else if !flag then line :: writeLines inserted false data
    else writeLines inserted flag data

def dnsLine (forwarders : List Char) : List Char :=
  (Text.words forwarders).flatMap (· ++ [';', ' '])

def setForwarders (forwarders text : List Char) : List Char :=
  (writeLines [dnsLine forwarders] false (strippedLines text)).flatMap (· ++ ['\n'])

def formValid (text forwarders : List Char) : List Char :=
  if getConfig text ≠ forwarders then setForwarders forwarders text else text

/-! ## What is asked for -/

def Plain (forwarders : List Char) : Prop :=
  ∀ c ∈ forwarders, c ∉ ['{', '}', ';', '/']

def HasBlock (text : List Char) : Prop :=
  (strippedLines text).any opensForwarders = true

/-- The lines of the file that are not between the beginning and the end of a block. -/
def outside (text : List Char) : List (List Char) :=
  writeLines [] false (strippedLines text)

end Plinth.Bind
