import Mathlib.Data.List.Defs

/-!
# JSON documents and their text

The printer writes ASCII, with a space after commas and colons, and the parser reads any JSON
text. Numbers with a fraction or an exponent are kept as they are written, and `NaN` and the
infinities are numbers too. A string is a sequence of Unicode scalar values: an escape of half a
surrogate pair is read as the replacement character.
-/

namespace Json

/-! ## Characters -/

def isSpace (c : Char) : Bool :=
  c = ' ' || c = '\t' || c = '\n' || c = '\r'

def skipSpace (text : List Char) : List Char :=
  text.dropWhile isSpace

def isNumberChar (c : Char) : Bool :=
  c.isDigit || c = '-' || c = '+' || c = '.' || c = 'e' || c = 'E'

/-! ## Numbers -/

def isNatural (digits : List Char) : Bool :=
  digits ≠ [] && digits.all Char.isDigit && (digits.head? ≠ some '0' || digits = ['0'])

def isExponent : List Char → Bool
  | mark :: '-' :: digits => (mark = 'e' || mark = 'E') && digits ≠ [] && digits.all Char.isDigit
  | mark :: '+' :: digits => (mark = 'e' || mark = 'E') && digits ≠ [] && digits.all Char.isDigit
  | mark :: digits => (mark = 'e' || mark = 'E') && digits ≠ [] && digits.all Char.isDigit
  | [] => false

def isFraction : List Char → Bool
  | '.' :: rest =>
    rest.takeWhile Char.isDigit ≠ [] &&
      (rest.dropWhile Char.isDigit = [] || isExponent (rest.dropWhile Char.isDigit))
  | rest => isExponent rest

def isUnsignedFloat (token : List Char) : Bool :=
  isNatural (token.takeWhile Char.isDigit) && isFraction (token.dropWhile Char.isDigit)

def isFloat (token : List Char) : Bool :=
  token.all isNumberChar &&
    match token with
    | '-' :: unsigned => isUnsignedFloat unsigned
    | unsigned => isUnsignedFloat unsigned

inductive Float
  | nan
  | infinity
  | negInfinity
  | finite (token : List Char) (valid : isFloat token = true)
  deriving DecidableEq, Repr

def Float.text : Float → List Char
  | nan => "NaN".toList
  | infinity => "Infinity".toList
  | negInfinity => "-Infinity".toList
  | finite token _ => token

def printInt (n : Int) : List Char :=
  if n < 0 then '-' :: Nat.toDigits 10 n.natAbs else Nat.toDigits 10 n.natAbs

def parseNatural (digits : List Char) : Option Nat :=
  if isNatural digits then some (Nat.ofDigitChars 10 digits 0) else none

def parseInt : List Char → Option Int
  | '-' :: digits => (parseNatural digits).map fun n : Nat => -(n : Int)
  | digits => (parseNatural digits).map fun n : Nat => (n : Int)

end Json

/-! ## Documents -/

inductive Json
  | null
  | bool (b : Bool)
  | int (n : Int)
  | float (f : Json.Float)
  | str (s : String)
  | arr (elements : List Json)
  | obj (members : List (String × Json))
  deriving Repr

namespace Json

/-! ## Printing -/

def printHex (n : Nat) : List Char :=
  [Nat.digitChar (n / 4096), Nat.digitChar (n / 256 % 16), Nat.digitChar (n / 16 % 16),
    Nat.digitChar (n % 16)]

def escape (c : Char) : List Char :=
  if c = '"' then ['\\', '"']
  else if c = '\\' then ['\\', '\\']
  else if c = '\n' then ['\\', 'n']
  else if c = '\r' then ['\\', 'r']
  else if c = '\t' then ['\\', 't']
  else if c = '\x08' then ['\\', 'b']
  else if c = '\x0c' then ['\\', 'f']
  else if 0x20 ≤ c.toNat ∧ c.toNat < 0x7f then [c]
  else if c.toNat < 0x10000 then '\\' :: 'u' :: printHex c.toNat
  else
    '\\' :: 'u' :: printHex (0xd800 + (c.toNat - 0x10000) / 0x400) ++
      '\\' :: 'u' :: printHex (0xdc00 + (c.toNat - 0x10000) % 0x400)

def printString (s : String) : List Char :=
  '"' :: s.toList.flatMap escape ++ ['"']

mutual

def print : Json → List Char
  | null => "null".toList
  | bool true => "true".toList
  | bool false => "false".toList
  | int n => printInt n
  | float f => f.text
  | str s => printString s
  | arr [] => "[]".toList
  | arr (element :: rest) => '[' :: print element ++ printElements rest
  | obj [] => "\x7b\x7d".toList
  | obj ((key, value) :: rest) =>
    '\x7b' :: printString key ++ ':' :: ' ' :: print value ++ printMembers rest

def printElements : List Json → List Char
  | [] => [']']
  | element :: rest => ',' :: ' ' :: print element ++ printElements rest

def printMembers : List (String × Json) → List Char
  | [] => ['\x7d']
  | (key, value) :: rest =>
    ',' :: ' ' :: printString key ++ ':' :: ' ' :: print value ++ printMembers rest

end

def dumps (document : Json) : String :=
  String.ofList (print document)

/-! ## Parsing -/

def hexValue (c : Char) : Option Nat :=
  if c.isDigit then some (c.toNat - '0'.toNat)
  else if 'a' ≤ c ∧ c ≤ 'f' then some (c.toNat - 'a'.toNat + 10)
  else if 'A' ≤ c ∧ c ≤ 'F' then some (c.toNat - 'A'.toNat + 10)
  else none

def parseHex : List Char → Option (Nat × List Char)
  | a :: b :: c :: d :: rest => do
      let n := (← hexValue a) * 4096 + (← hexValue b) * 256 + (← hexValue c) * 16 + (← hexValue d)
      return (n, rest)
  | _ => none

def parseLow (high : Nat) : List Char → Option (Char × List Char)
  | '\\' :: 'u' :: rest => do
      let (low, rest) ← parseHex rest
      if high < 0xdc00 ∧ 0xdc00 ≤ low ∧ low < 0xe000 then
        return (Char.ofNat (0x10000 + (high - 0xd800) * 0x400 + (low - 0xdc00)), rest)
      else none
  | _ => none

/-- What follows `\u`. -/
def parseUnicode (text : List Char) : Option (Char × List Char) := do
  let (n, rest) ← parseHex text
  if n < 0xd800 ∨ 0xe000 ≤ n then return (Char.ofNat n, rest)
  else return (parseLow n rest).getD ('\ufffd', rest)

def parseEscape : List Char → Option (Char × List Char)
  | '"' :: rest => some ('"', rest)
  | '\\' :: rest => some ('\\', rest)
  | '/' :: rest => some ('/', rest)
  | 'n' :: rest => some ('\n', rest)
  | 'r' :: rest => some ('\r', rest)
  | 't' :: rest => some ('\t', rest)
  | 'b' :: rest => some ('\x08', rest)
  | 'f' :: rest => some ('\x0c', rest)
  | 'u' :: rest => parseUnicode rest
  | _ => none

def parseString : Nat → List Char → Option (List Char × List Char)
  | 0, _ => none
  | fuel + 1, text =>
    match text with
    | [] => none
    | c :: rest =>
      if c = '"' then some ([], rest)
      else if c = '\\' then do
        let (c, rest) ← parseEscape rest
        let (s, rest) ← parseString fuel rest
        return (c :: s, rest)
      else if c.toNat < 0x20 then none
      else do
        let (s, rest) ← parseString fuel rest
        return (c :: s, rest)

def parseNumber (text : List Char) : Option (Json × List Char) :=
  let token := text.takeWhile isNumberChar
  let rest := text.dropWhile isNumberChar
  if valid : isFloat token = true then some (.float (.finite token valid), rest)
  else (parseInt token).map fun n => (.int n, rest)

def constants : List (List Char × Json) :=
  [("null".toList, .null), ("true".toList, .bool true), ("false".toList, .bool false),
    ("NaN".toList, .float .nan), ("Infinity".toList, .float .infinity),
    ("-Infinity".toList, .float .negInfinity)]

def parseAtom (text : List Char) : Option (Json × List Char) :=
  match constants.findSome? fun (name, value) =>
      (name.isPrefixOf? text).map fun rest => (value, rest) with
  | some result => some result
  | none => parseNumber text

mutual

def parseValue : Nat → List Char → Option (Json × List Char)
  | 0, _ => none
  | fuel + 1, text =>
    match text with
    | '"' :: rest => do
        let (s, rest) ← parseString rest.length rest
        return (.str (String.ofList s), rest)
    | '[' :: rest =>
      match skipSpace rest with
      | ']' :: rest => some (.arr [], rest)
      | rest => do
          let (elements, rest) ← parseElements fuel rest
          return (.arr elements, rest)
    | '\x7b' :: rest =>
      match skipSpace rest with
      | '\x7d' :: rest => some (.obj [], rest)
      | rest => do
          let (members, rest) ← parseMembers fuel rest
          return (.obj members, rest)
    | text => parseAtom text

def parseElements : Nat → List Char → Option (List Json × List Char)
  | 0, _ => none
  | fuel + 1, text => do
      let (element, rest) ← parseValue fuel text
      match skipSpace rest with
      | ']' :: rest => return ([element], rest)
      | ',' :: rest => do
          let (elements, rest) ← parseElements fuel (skipSpace rest)
          return (element :: elements, rest)
      | _ => none

def parseMembers : Nat → List Char → Option (List (String × Json) × List Char)
  | 0, _ => none
  | fuel + 1, text =>
    match text with
    | '"' :: rest => do
        let (key, rest) ← parseString rest.length rest
        match skipSpace rest with
        | ':' :: rest => do
            let (value, rest) ← parseValue fuel (skipSpace rest)
            match skipSpace rest with
            | '\x7d' :: rest => return ([(String.ofList key, value)], rest)
            | ',' :: rest => do
                let (members, rest) ← parseMembers fuel (skipSpace rest)
                return ((String.ofList key, value) :: members, rest)
            | _ => none
        | _ => none
    | _ => none

end

def loads (text : String) : Option Json := do
  let text := text.toList
  let (document, rest) ← parseValue (text.length + 1) (skipSpace text)
  if skipSpace rest = [] then return document else none

end Json
