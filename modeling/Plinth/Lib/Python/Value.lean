import Plinth.Lib.Json.Basic
import Plinth.Lib.OrderedDict
import Plinth.Lib.Python.Bytes
import Mathlib.Data.List.Infix

/-!
# Values and exceptions

The values that cross a process boundary as JSON, and what the module `json` does with them. A
value of any other class is known by the name of its class.
-/

namespace Python

inductive Value
  | none
  | bool (b : Bool)
  | int (n : Int)
  | float (f : Json.Float)
  | str (s : String)
  | bytes (b : Bytes)
  | list (elements : List Value)
  | tuple (elements : List Value)
  | dict (items : List (Value × Value))
  | path (s : String)
  | object (className : String)
  | circular
  deriving Repr

/-! ## Exceptions -/

inductive Base
  | exception
  | fileNotFoundError
  | permissionError
  | syntaxError
  | typeError
  | moduleNotFoundError
  | jsonDecodeError
  | attributeError
  | indexError
  | keyError
  deriving DecidableEq, Repr

structure Class where
  module : String
  /-- `__name__` -/
  name : String
  /-- `__qualname__`, which tells a nested class from one of the module -/
  qualname : String
  bases : List Base
  deriving DecidableEq, Repr

structure Exception where
  cls : Class
  args : List Value
  deriving Repr

namespace Exception

def isinstance (exception : Exception) (base : Base) : Bool :=
  base ∈ exception.cls.bases

def builtin (name : String) (bases : List Base) : Class :=
  ⟨"builtins", name, name, bases⟩

def SyntaxError (message : String) : Exception :=
  ⟨builtin "SyntaxError" [.exception, .syntaxError], [.str message]⟩

def TypeError (message : String) : Exception :=
  ⟨builtin "TypeError" [.exception, .typeError], [.str message]⟩

def ValueError (message : String) : Exception :=
  ⟨builtin "ValueError" [.exception], [.str message]⟩

def AttributeError (message : String) : Exception :=
  ⟨builtin "AttributeError" [.exception, .attributeError], [.str message]⟩

def IndexError (message : String) : Exception :=
  ⟨builtin "IndexError" [.exception, .indexError], [.str message]⟩

def KeyError (key : Value) : Exception :=
  ⟨builtin "KeyError" [.exception, .keyError], [key]⟩

def OverflowError (message : String) : Exception :=
  ⟨builtin "OverflowError" [.exception], [.str message]⟩

def RuntimeError (message : String) : Exception :=
  ⟨builtin "RuntimeError" [.exception], [.str message]⟩

def ConnectionError (message : String) : Exception :=
  ⟨builtin "ConnectionError" [.exception], [.str message]⟩

def UnicodeDecodeError (b : Bytes) : Exception :=
  ⟨builtin "UnicodeDecodeError" [.exception], [.str "utf-8", .bytes b]⟩

def JSONDecodeError : Exception :=
  ⟨⟨"json.decoder", "JSONDecodeError", "JSONDecodeError", [.exception, .jsonDecodeError]⟩,
    [.str "Invalid JSON"]⟩

end Exception

open Exception

/-! ## Operations on values -/

def Value.className : Value → String
  | none => "NoneType"
  | bool _ => "bool"
  | int _ => "int"
  | float _ => "float"
  | str _ => "str"
  | bytes _ => "bytes"
  | list _ => "list"
  | tuple _ => "tuple"
  | dict _ => "dict"
  | path _ => "PosixPath"
  | object className => className
  | circular => "list"

def isZero (token : List Char) : Bool :=
  (token.takeWhile fun c => c ≠ 'e' ∧ c ≠ 'E').all fun c => c = '0' ∨ c = '-' ∨ c = '.'

/-- `bool(value)` -/
def Value.truthy : Value → Bool
  | none => false
  | bool b => b
  | int n => n ≠ 0
  | float (.finite token _) => !isZero token
  | float _ => true
  | str s => s ≠ ""
  | bytes b => b ≠ []
  | list elements => !elements.isEmpty
  | tuple elements => !elements.isEmpty
  | dict items => !items.isEmpty
  | path _ => true
  | object _ => true
  | circular => true

/-- `b.decode()` -/
def decode (b : Bytes) : Except Exception String :=
  match decodeUtf8 b with
  | some text => .ok text
  | none => .error (UnicodeDecodeError b)

def lookup (key : String) : List (Value × Value) → Option Value
  | [] => none
  | (.str k, value) :: rest => if k = key then some value else lookup key rest
  | _ :: rest => lookup key rest

def setKey (key : String) (new : Value) : List (Value × Value) → List (Value × Value)
  | [] => [(.str key, new)]
  | (.str k, value) :: rest =>
    if k = key then (.str k, new) :: rest else (.str k, value) :: setKey key new rest
  | item :: rest => item :: setKey key new rest

def eraseKey (key : String) : List (Value × Value) → List (Value × Value)
  | [] => []
  | (.str k, value) :: rest =>
    if k = key then eraseKey key rest else (.str k, value) :: eraseKey key rest
  | item :: rest => item :: eraseKey key rest

/-- `value[key]` for a string `key` -/
def getItem (value : Value) (key : String) : Except Exception Value :=
  match value with
  | .dict items =>
    match lookup key items with
    | some value => .ok value
    | none => .error (KeyError (.str key))
  | .list _ => .error (TypeError "list indices must be integers or slices, not str")
  | .tuple _ => .error (TypeError "tuple indices must be integers or slices, not str")
  | .str _ => .error (TypeError "string indices must be integers, not 'str'")
  | value => .error (TypeError ("'" ++ value.className ++ "' object is not subscriptable"))

/-- `key in value` for a string `key` -/
def contains (value : Value) (key : String) : Except Exception Bool :=
  match value with
  | .dict items => .ok (lookup key items).isSome
  | .list elements => .ok (elements.any fun | .str s => s = key | _ => false)
  | .tuple elements => .ok (elements.any fun | .str s => s = key | _ => false)
  | .str s => .ok (key.toList <:+: s.toList)
  | value => .error (TypeError ("argument of type '" ++ value.className ++ "' is not iterable"))

/-- The elements over which a loop runs, and those that `*value` passes. -/
def iterate (value : Value) : Except Exception (List Value) :=
  match value with
  | .list elements => .ok elements
  | .tuple elements => .ok elements
  | .dict items => .ok (items.map Prod.fst)
  | .str s => .ok (s.toList.map fun c => .str (String.singleton c))
  | .bytes b => .ok (b.map fun byte => .int byte.toNat)
  | value => .error (TypeError ("'" ++ value.className ++ "' object is not iterable"))

/-! ## JSON -/

def tooLong (n : Int) : Bool :=
  4300 < (Nat.toDigits 10 n.natAbs).length

def intError : Exception :=
  ValueError "Exceeds the limit (4300 digits) for integer string conversion"

/-- `JSONEncoder.default`, for the values that have no form in JSON. -/
def jsonDefault (value : Value) : Except Exception Json :=
  .error (TypeError ("Object of type " ++ value.className ++ " is not JSON serializable"))

def encodeKey : Value → Except Exception String
  | .str s => .ok s
  | .none => .ok "null"
  | .bool b => .ok (if b then "true" else "false")
  | .int n => if tooLong n then .error intError else .ok (String.ofList (Json.printInt n))
  | .float f => .ok (String.ofList f.text)
  | key => .error (TypeError ("keys must be str, int, float, bool or None, not " ++ key.className))

section Encode

variable (default : Value → Except Exception Json)

mutual

def encode : Value → Except Exception Json
  | .none => .ok .null
  | .bool b => .ok (.bool b)
  | .int n => if tooLong n then .error intError else .ok (.int n)
  | .float f => .ok (.float f)
  | .str s => .ok (.str s)
  | .list elements => do return .arr (← encodeList elements)
  | .tuple elements => do return .arr (← encodeList elements)
  | .dict items => do return .obj (← encodeItems items)
  | .circular => .error (ValueError "Circular reference detected")
  | .bytes b => default (.bytes b)
  | .path s => default (.path s)
  | .object className => default (.object className)

def encodeList : List Value → Except Exception (List Json)
  | [] => .ok []
  | value :: rest => do
      let value ← encode value
      return value :: (← encodeList rest)

def encodeItems : List (Value × Value) → Except Exception (List (String × Json))
  | [] => .ok []
  | (key, value) :: rest => do
      let key ← encodeKey key
      let value ← encode value
      return (key, value) :: (← encodeItems rest)

end

/-- `json.dumps` with the class of the encoder -/
def dumps (value : Value) : Except Exception String :=
  (encode default value).map Json.dumps

end Encode

def uniqueKeys (members : List (String × Value)) : List (String × Value) :=
  members.foldl (fun entries member => OrderedDict.setEntry member.1 member.2 entries) []

mutual

def ofJson : Json → Except Exception Value
  | .null => .ok .none
  | .bool b => .ok (.bool b)
  | .int n => if tooLong n then .error intError else .ok (.int n)
  | .float f => .ok (.float f)
  | .str s => .ok (.str s)
  | .arr elements => do return .list (← ofElements elements)
  | .obj members => do
      let members ← ofMembers members
      return .dict ((uniqueKeys members).map fun member => (.str member.1, member.2))

def ofElements : List Json → Except Exception (List Value)
  | [] => .ok []
  | element :: rest => do
      let value ← ofJson element
      return value :: (← ofElements rest)

def ofMembers : List (String × Json) → Except Exception (List (String × Value))
  | [] => .ok []
  | (key, element) :: rest => do
      let value ← ofJson element
      return (key, value) :: (← ofMembers rest)

end

/-- `json.loads` of a string -/
def loads (text : String) : Except Exception Value :=
  match Json.loads text with
  | some document => ofJson document
  | none => .error JSONDecodeError

/-- `json.loads` of bytes -/
def loadsBytes (b : Bytes) : Except Exception Value :=
  match decodeJson b with
  | some text => loads text
  | none => .error (UnicodeDecodeError b)

end Python
