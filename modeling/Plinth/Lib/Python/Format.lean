import Plinth.Lib.Python.Value

/-!
# Format strings

`string.Formatter`, for objects of any kind. A format string is read piece by piece, so that what
is wrong with a piece is found only when the pieces before it have been rendered.
-/

namespace Python.Format

open Exception

structure Digits where
  decimal : Char → Option Nat
  /-- `str.isdigit` of a character -/
  isdigit : Char → Bool

structure Objects (α : Type) where
  ofStr : String → α
  getattr : α → String → Except Exception α
  getitem : α → Nat ⊕ String → Except Exception α
  str : α → Except Exception String
  repr : α → Except Exception String
  ascii : α → Except Exception String
  /-- `format(value, format_spec)` -/
  format : α → String → Except Exception String

/-! ## Pieces -/

structure Field where
  name : List Char
  formatSpec : List Char
  conversion : Option Char
  deriving DecidableEq, Repr

structure Markup where
  literal : List Char
  field : Option Field
  deriving DecidableEq, Repr

def isBrace (c : Char) : Bool :=
  c = '\x7b' ∨ c = '\x7d'

def scanName : Bool → List Char → Except Exception (List Char × Char × List Char)
  | _, [] => .error (ValueError "expected '\x7d' before end of string")
  | true, c :: rest => do
      let (name, stop, rest) ← scanName (c ≠ ']') rest
      return (c :: name, stop, rest)
  | false, c :: rest =>
    if c = '\x7b' then .error (ValueError "unexpected '\x7b' in field name")
    else if c = '\x7d' ∨ c = ':' ∨ c = '!' then .ok ([], c, rest)
    else do
      let (name, stop, rest) ← scanName (c = '[') rest
      return (c :: name, stop, rest)

def scanSpec : Nat → List Char → Except Exception (List Char × List Char)
  | _, [] => .error (ValueError "unmatched '\x7b' in format spec")
  | level, c :: rest =>
    if c = '\x7d' ∧ level = 0 then .ok ([], rest)
    else do
      let (formatSpec, rest) ← scanSpec
        (if c = '\x7b' then level + 1 else if c = '\x7d' then level - 1 else level) rest
      return (c :: formatSpec, rest)

def scanConversion : List Char → Except Exception (Option Char × List Char × List Char)
  | [] => .error (ValueError "end of string while looking for conversion specifier")
  | [_] => .error (ValueError "unmatched '\x7b' in format spec")
  | conversion :: c :: rest =>
    if c = '\x7d' then .ok (some conversion, [], rest)
    else if c = ':' then do
      let (formatSpec, rest) ← scanSpec 0 rest
      return (some conversion, formatSpec, rest)
    else .error (ValueError "expected ':' after conversion specifier")

def scanField (text : List Char) : Except Exception (Field × List Char) := do
  let (name, stop, rest) ← scanName false text
  if stop = '\x7d' then return (⟨name, [], none⟩, rest)
  else if stop = ':' then do
    let (formatSpec, rest) ← scanSpec 0 rest
    return (⟨name, formatSpec, none⟩, rest)
  else do
    let (conversion, formatSpec, rest) ← scanConversion rest
    return (⟨name, formatSpec, conversion⟩, rest)

def scanMarkup (text : List Char) : Except Exception (Markup × List Char) :=
  let literal := text.takeWhile fun c => !isBrace c
  match text.dropWhile fun c => !isBrace c with
  | [] => .ok (⟨literal, none⟩, [])
  | [c] => .error (ValueError ("Single '" ++ c.toString ++ "' encountered in format string"))
  | c :: d :: rest =>
    if c = d then .ok (⟨literal ++ [c], none⟩, rest)
    else if c = '\x7d' then
      .error (ValueError "Single '\x7d' encountered in format string")
    else do
      let (field, rest) ← scanField (d :: rest)
      return (⟨literal, some field⟩, rest)

def markupsUpTo : Nat → List Char → List (Except Exception Markup)
  | 0, _ => []
  | _ + 1, [] => []
  | limit + 1, text =>
    match scanMarkup text with
    | .error e => [.error e]
    | .ok (markup, rest) => .ok markup :: markupsUpTo limit rest

/-- `Formatter.parse`: a piece takes a character or more. -/
def parse (text : List Char) : List (Except Exception Markup) :=
  markupsUpTo text.length text

/-! ## Names of fields -/

def maxSize : Nat := 9223372036854775807

def getInteger (digits : Digits) (text : List Char) : Except Exception (Option Nat) :=
  if text = [] then .ok none else go 0 text
where
  go (value : Nat) : List Char → Except Exception (Option Nat)
    | [] => .ok (some value)
    | c :: rest =>
      match digits.decimal c with
      | none => .ok none
      | some digit =>
        if maxSize < value * 10 + digit then
          .error (ValueError "Too many decimal digits in format string")
        else go (value * 10 + digit) rest

def indexOrName (digits : Digits) (text : List Char) : Except Exception (Nat ⊕ String) := do
  match ← getInteger digits text with
  | some index => return .inl index
  | none => return .inr (String.ofList text)

inductive Access
  | attribute (name : String)
  | item (key : Nat ⊕ String)
  deriving DecidableEq, Repr

def endsName (c : Char) : Bool :=
  c = '.' ∨ c = '['

def scanAccess (digits : Digits) : List Char → Except Exception (Access × List Char)
  | '.' :: text =>
    let name := text.takeWhile fun c => !endsName c
    if name = [] then .error (ValueError "Empty attribute in format string")
    else .ok (.attribute (String.ofList name), text.dropWhile fun c => !endsName c)
  | '[' :: text =>
    let key := text.takeWhile (· ≠ ']')
    match text.dropWhile (· ≠ ']') with
    | [] => .error (ValueError "Missing ']' in format string")
    | _ :: rest => do
        let key' ← indexOrName digits key
        if key = [] then throw (ValueError "Empty attribute in format string")
        return (.item key', rest)
  | _ => .error (ValueError "Only '.' or '[' may follow ']' in format field specifier")

section Objects

variable {α : Type} (digits : Digits) (objects : Objects α)

def access (object : α) : Access → Except Exception α
  | .attribute name => objects.getattr object name
  | .item key => objects.getitem object key

def accessRest : Nat → List Char → α → Except Exception α
  | 0, _, object => .ok object
  | _ + 1, [], object => .ok object
  | limit + 1, text, object => do
      let (access', rest) ← scanAccess digits text
      accessRest limit rest (← access objects object access')

/-- `Formatter.get_field`, with the method `get_value` of the formatter. -/
def getField (getValue : Nat ⊕ String → Except Exception α) (fieldName : List Char) :
    Except Exception α := do
  let first ← indexOrName digits (fieldName.takeWhile fun c => !endsName c)
  let rest := fieldName.dropWhile fun c => !endsName c
  accessRest digits objects rest.length rest (← getValue first)

/-! ## Rendering -/

def number (auto : Option Nat) (fieldName : List Char) : Except Exception (List Char × Option Nat) :=
  let mixed := ValueError
    "cannot switch from manual field specification to automatic field numbering"
  if fieldName = [] then
    match auto with
    | none => .error mixed
    | some index => .ok ((toString index).toList, some (index + 1))
  else if fieldName.all digits.isdigit then
    match auto with
    | none => .ok (fieldName, none)
    | some 0 => .ok (fieldName, none)
    | some _ => .error mixed
  else .ok (fieldName, auto)

def convertField (value : α) : Option Char → Except Exception α
  | none => .ok value
  | some 's' => objects.ofStr <$> objects.str value
  | some 'r' => objects.ofStr <$> objects.repr value
  | some 'a' => objects.ofStr <$> objects.ascii value
  | some c => .error (ValueError ("Unknown conversion specifier " ++ c.toString))

variable (getField : List Char → Except Exception α)

/-- The pieces of a text one after the other, where `renderSpec` renders format specifications. -/
def renderMarkups (renderSpec : Option Nat → List Char → Except Exception (String × Option Nat)) :
    Option Nat → List (Except Exception Markup) → Except Exception (String × Option Nat)
  | auto, [] => .ok ("", auto)
  | auto, piece :: rest => do
      let markup ← piece
      match markup.field with
      | none => do
          let (text, auto) ← renderMarkups renderSpec auto rest
          return (String.ofList markup.literal ++ text, auto)
      | some field => do
          let (name, auto) ← number digits auto field.name
          let value ← getField name
          let value ← convertField objects value field.conversion
          let (formatSpec, auto) ← renderSpec auto field.formatSpec
          let shown ← objects.format value formatSpec
          let (text, auto) ← renderMarkups renderSpec auto rest
          return (String.ofList markup.literal ++ shown ++ text, auto)

/-- `Formatter._vformat`, where the depth is one more than that of the source. -/
def render : Nat → Option Nat → List Char → Except Exception (String × Option Nat)
  | 0, _, _ => .error (ValueError "Max string recursion exceeded")
  | depth + 1, auto, text =>
    renderMarkups digits objects getField (render depth) auto (parse text)

/-- `Formatter.vformat`, with the method `get_field` of the formatter. -/
def vformat (formatString : String) : Except Exception String := do
  let (text, _) ← render digits objects getField 3 (some 0) formatString.toList
  return text

end Objects

end Python.Format
