import Plinth.Lib.Effect
import Plinth.Model.Messages

/-!
# The data of a notification as objects

`Notification._translate_dict` of `plinth/notification.py` with the objects that it reads, creates
and changes. An object has an address; those of the data have been there before.
-/

namespace Plinth.Notification

open Python Effect

inductive Leaf
  | none
  | bool (b : Bool)
  | int (n : Int)
  | float (f : Json.Float)
  | str (s : String)

def Leaf.value : Leaf → Value
  | none => .none
  | bool b => .bool b
  | int n => .int n
  | float f => .float f
  | str s => .str s

inductive Node
  | leaf (leaf : Leaf)
  | dict (address : Nat) (items : List (String × Node))
  | list (address : Nat) (elements : List Node)

mutual

def Node.value : Node → Value
  | .leaf leaf => leaf.value
  | .dict _ items => .dict (itemsValue items)
  | .list _ elements => .list (elementsValue elements)

def itemsValue : List (String × Node) → List (Value × Value)
  | [] => []
  | (key, node) :: rest => (.str key, node.value) :: itemsValue rest

def elementsValue : List Node → List Value
  | [] => []
  | node :: rest => node.value :: elementsValue rest

end

structure Heap where
  next : Nat
  changed : List Nat

abbrev Run := Effect Heap Exception

/-- `{}` or `[]` -/
def create : Run Nat := do
  let heap ← get
  set { heap with next := heap.next + 1 }
  return heap.next

/-- `new_dict[key] = value` or `y.append(value)` -/
def change (address : Nat) : Run Unit :=
  modify fun heap => { heap with changed := heap.changed ++ [address] }

mutual

/-- `copy.deepcopy` -/
def Node.deepcopy : Node → Run Node
  | .leaf leaf => return .leaf leaf
  | .dict _ items => do
      let new ← create
      return .dict new (← copyItems new items)
  | .list _ elements => do
      let new ← create
      return .list new (← copyElements new elements)

def copyItems (new : Nat) : List (String × Node) → Run (List (String × Node))
  | [] => return []
  | (key, node) :: rest => do
      let node ← node.deepcopy
      change new
      return (key, node) :: (← copyItems new rest)

def copyElements (new : Nat) : List Node → Run (List Node)
  | [] => return []
  | node :: rest => do
      let node ← node.deepcopy
      change new
      return node :: (← copyElements new rest)

end

section Translation

variable (env : Display) (data : List (Value × Value))

/-- A text or `None` -/
def textLeaf : Option String → Leaf
  | some text => .str text
  | none => .none

def translateText (s : String) : Except Exception Leaf :=
  if translatePrefix.toList.isPrefixOf s.toList then
    textLeaf <$> translate env (String.ofList (s.toList.drop translatePrefix.length)) data
  else .ok (.str s)

mutual

/-- The value of an item, in `_translate_dict`. -/
def Node.translate : Node → Run Node
  | .leaf (.str s) => do return .leaf (← lift (translateText env data s))
  | .dict address items => do
      -- An empty dictionary is returned as it is.
      if items.isEmpty then return .dict address items
      let new ← create
      return .dict new (← translateItems new items)
  | node => node.deepcopy

def translateItems (new : Nat) : List (String × Node) → Run (List (String × Node))
  | [] => return []
  | (key, node) :: rest => do
      let node ← node.translate
      change new
      return (key, node) :: (← translateItems new rest)

end

end Translation

end Plinth.Notification
