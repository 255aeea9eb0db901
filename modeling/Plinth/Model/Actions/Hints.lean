import Plinth.Model.Actions

/-!
# Annotations as they are written

What `inspect` finds for the annotations of a function: the class of `None` stands for a `None`
that is a member of a union or an argument of a class of `typing`, and `None` itself for any other.
-/

namespace Plinth.Actions

open Python

inductive Hint
  | any
  | none
  | bool
  | int
  | str
  | float
  | secretStr
  | union (members : List Hint)
  /-- `list[element]` -/
  | list (element : Hint)
  | dict (key value : Hint)
  /-- `typing.List[element]` -/
  | typingList (element : Hint)
  | typingDict (key value : Hint)

namespace Hint

/-- What becomes of an object that is given to a class of `typing`, or to a union. -/
def converted : Hint → Annotation → Annotation
  | .none, _ => .none
  | _, object => object

mutual

def object : Hint → Annotation
  | .any => .any
  | .none => .unsupported
  | .bool => .bool
  | .int => .int
  | .str => .str
  | .float => .float
  | .secretStr => .secretStr
  | .union members => .union (objects members)
  | .list element => .list element.object
  | .dict key value => .dict key.object value.object
  | .typingList element => .list (converted element element.object)
  | .typingDict key value => .dict (converted key key.object) (converted value value.object)

def objects : List Hint → List Annotation
  | [] => []
  | member :: rest => converted member member.object :: objects rest

end

mutual

def meaning : Hint → Annotation
  | .any => .any
  | .none => .none
  | .bool => .bool
  | .int => .int
  | .str => .str
  | .float => .float
  | .secretStr => .secretStr
  | .union members => .union (meanings members)
  | .list element => .list element.meaning
  | .dict key value => .dict key.meaning value.meaning
  | .typingList element => .list element.meaning
  | .typingDict key value => .dict key.meaning value.meaning

def meanings : List Hint → List Annotation
  | [] => []
  | member :: rest => member.meaning :: meanings rest

end

end Hint

/-- A function with what its `def` says beyond its argument specification. -/
structure Definition where
  func : Function
  /-- the number of parameters before the `/` -/
  positionalOnly : Nat
  hints : OrderedDict String Hint
  agree : ∀ name, func.argspec.annotations.get? name = (hints.get? name).map Hint.object

namespace Definition

variable (definition : Definition) (args : List Value) (kwargs : OrderedDict String Value)

def params : List String :=
  definition.func.argspec.args

def required : List String :=
  definition.params.take (definition.params.length - definition.func.argspec.defaults.length)

def passed : List (String × Value) :=
  definition.params.zip args ++ kwargs.entries

/-- A call binds every parameter at most once and every required one, and names no other, as
though any parameter may be named. -/
structure BindsByName : Prop where
  count : args.length ≤ definition.params.length
  known : ∀ key ∈ kwargs.keys, key ∈ definition.params
  once : ∀ key ∈ kwargs.keys, key ∉ definition.params.take args.length
  complete : ∀ param ∈ definition.required,
    param ∈ definition.params.take args.length ∨ param ∈ kwargs.keys

def NamesPositionalOnly : Prop :=
  ∃ key ∈ kwargs.keys, key ∈ definition.params.take definition.positionalOnly

/-- `func(*args, **kwargs)` binds without an error. -/
def Binds : Prop :=
  definition.BindsByName args kwargs ∧ ¬ definition.NamesPositionalOnly kwargs

end Definition

end Plinth.Actions
