import Plinth.Lib.Python.Codec

/-!
# Dictionaries and lists that change

What programs do with a dictionary or a list that was read from JSON, where a value of another
kind raises.
-/

namespace Python

open Exception

/-! ## Items of a dictionary -/

/-- `value[key] = new` -/
def setItem (value : Value) (key : String) (new : Value) : Except Exception Value :=
  match value with
  | .dict items => .ok (.dict (setKey key new items))
  | .list _ => .error (TypeError "list indices must be integers or slices, not str")
  | value => .error (TypeError ("'" ++ value.className ++ "' object does not support item assignment"))

/-- `del value[key]` -/
def delItem (value : Value) (key : String) : Except Exception Value :=
  match value with
  | .dict items =>
    if (lookup key items).isSome then .ok (.dict (eraseKey key items))
    else .error (KeyError (.str key))
  | .list _ => .error (TypeError "list indices must be integers or slices, not str")
  | value => .error (TypeError ("'" ++ value.className ++ "' object doesn't support item deletion"))

/-- `value.get(key, default)` -/
def dictGet (value : Value) (key : String) (default : Value) : Except Exception Value :=
  match value with
  | .dict items => .ok ((lookup key items).getD default)
  | value => .error (AttributeError ("'" ++ value.className ++ "' object has no attribute 'get'"))

/-- What `value.setdefault(key, default)` gives. -/
def setdefault (value : Value) (key : String) (default : Value) : Except Exception Value :=
  match value with
  | .dict items => .ok ((lookup key items).getD default)
  | value =>
    .error (AttributeError ("'" ++ value.className ++ "' object has no attribute 'setdefault'"))

/-- The value after `value.pop(key)` -/
def pop (value : Value) (key : String) : Except Exception Value :=
  match value with
  | .dict items =>
    if (lookup key items).isSome then .ok (.dict (eraseKey key items))
    else .error (KeyError (.str key))
  | .list _ => .error (TypeError "'str' object cannot be interpreted as an integer")
  | value => .error (AttributeError ("'" ++ value.className ++ "' object has no attribute 'pop'"))

/-! ## Elements of a list -/

def isText (text : String) : Value → Bool
  | .str s => s = text
  | _ => false

/-- `value.append(text)` -/
def append (value : Value) (text : String) : Except Exception Value :=
  match value with
  | .list elements => .ok (.list (elements ++ [.str text]))
  | value => .error (AttributeError ("'" ++ value.className ++ "' object has no attribute 'append'"))

/-- `value.remove(text)` -/
def remove (value : Value) (text : String) : Except Exception Value :=
  match value with
  | .list elements =>
    if elements.any (isText text) then .ok (.list (elements.eraseP (isText text)))
    else .error (ValueError "list.remove(x): x not in list")
  | value => .error (AttributeError ("'" ++ value.className ++ "' object has no attribute 'remove'"))

/-- `json.loads(value)` -/
def loadsValue (value : Value) : Except Exception Value :=
  match value with
  | .str text => loads text
  | .bytes b => loadsBytes b
  | value =>
    .error (TypeError
      ("the JSON object must be str, bytes or bytearray, not " ++ value.className))

/-! ## Keys -/

attribute [grind =] lookup setKey eraseKey

theorem lookup_setKey (key key' : String) (new : Value) (items : List (Value × Value)) :
    lookup key' (setKey key new items) = if key' = key then some new else lookup key' items := by
  induction items with
  | nil =>
    by_cases same : key = key'
    · simp [setKey, lookup, same]
    · simp [setKey, lookup, same, Ne.symm same]
  | cons item rest ih =>
    obtain ⟨k, value⟩ := item
    cases k with
    | str k =>
      rw [setKey]
      by_cases here : k = key
      · rw [if_pos here, lookup, lookup, here]
        by_cases same : key = key'
        · simp [same]
        · simp [same, Ne.symm same]
      · rw [if_neg here, lookup, lookup, ih]
        by_cases there : k = key'
        · have other : key' ≠ key := fun same => here (there.trans same)
          simp [there, other]
        · simp [there]
    | _ => simp [setKey, lookup, ih]

theorem lookup_eraseKey (key key' : String) (items : List (Value × Value)) :
    lookup key' (eraseKey key items) = if key' = key then none else lookup key' items := by
  induction items with
  | nil => simp [eraseKey, lookup]
  | cons item rest ih =>
    obtain ⟨k, value⟩ := item
    cases k with
    | str k =>
      rw [eraseKey]
      by_cases here : k = key
      · rw [if_pos here, ih, lookup, here]
        by_cases same : key = key'
        · simp [same]
        · simp [same, Ne.symm same]
      · rw [if_neg here, lookup, lookup, ih]
        by_cases there : k = key'
        · have other : key' ≠ key := fun same => here (there.trans same)
          simp [there, other]
        · simp [there]
    | _ => simp [eraseKey, lookup, ih]

theorem setKey_of_lookup {key : String} {value : Value} {items : List (Value × Value)}
    (found : lookup key items = some value) : setKey key value items = items := by
  induction items with
  | nil => cases found
  | cons item rest ih =>
    obtain ⟨k, value'⟩ := item
    cases k with
    | str k =>
      rw [lookup] at found
      rw [setKey]
      split at found
      · rw [if_pos ‹_›, Option.some.inj found]
      · rw [if_neg ‹_›, ih found]
    | _ =>
      rw [setKey, ih found]
      simp

theorem eraseKey_of_lookup {key : String} {items : List (Value × Value)}
    (absent : lookup key items = none) : eraseKey key items = items := by
  induction items with
  | nil => rfl
  | cons item rest ih =>
    obtain ⟨k, value'⟩ := item
    cases k with
    | str k =>
      rw [lookup] at absent
      rw [eraseKey]
      split at absent
      · cases absent
      · rw [if_neg ‹_›, ih absent]
    | _ =>
      rw [eraseKey, ih absent]
      simp

/-! ## JSON data -/

def texts (members : List (String × Value)) : List (Value × Value) :=
  members.map fun member => (.str member.1, member.2)

theorem setKey_texts (key : String) (new : Value) (members : List (String × Value)) :
    setKey key new (texts members) = texts (OrderedDict.setEntry key new members) := by
  induction members with
  | nil => rfl
  | cons member rest ih =>
    by_cases here : member.1 = key
    · simp [texts, setKey, OrderedDict.setEntry, here]
    · simp only [texts, List.map_cons, setKey, OrderedDict.setEntry, if_neg here, List.cons.injEq,
        true_and]
      exact ih

theorem eraseKey_texts (key : String) (members : List (String × Value)) :
    eraseKey key (texts members) = texts (members.filter fun member => member.1 ≠ key) := by
  induction members with
  | nil => rfl
  | cons member rest ih =>
    by_cases here : member.1 = key
    · simpa [texts, eraseKey, here] using ih
    · simpa [texts, eraseKey, here] using ih

theorem jsonData_dict_iff {items : List (Value × Value)} :
    JsonData (.dict items) ↔ ∃ members, items = texts members ∧
      (members.map Prod.fst).Nodup ∧ ∀ member ∈ members, JsonData member.2 := by
  constructor
  · rintro (_ | _ | _ | _ | _ | _ | ⟨members, nodup, all⟩)
    exact ⟨members, rfl, nodup, all⟩
  · rintro ⟨members, rfl, nodup, all⟩
    exact .dict members nodup all

theorem jsonData_setKey (key : String) {new : Value} {items : List (Value × Value)}
    (dict : JsonData (.dict items)) (data : JsonData new) :
    JsonData (.dict (setKey key new items)) := by
  obtain ⟨members, rfl, nodup, all⟩ := jsonData_dict_iff.mp dict
  refine jsonData_dict_iff.mpr ⟨_, setKey_texts key new members, nodup_setEntry key new nodup, ?_⟩
  intro member present
  rcases mem_setEntry present with rfl | present
  · exact data
  · exact all member present

theorem jsonData_eraseKey {key : String} {items : List (Value × Value)}
    (dict : JsonData (.dict items)) : JsonData (.dict (eraseKey key items)) := by
  obtain ⟨members, rfl, nodup, all⟩ := jsonData_dict_iff.mp dict
  refine jsonData_dict_iff.mpr ⟨_, eraseKey_texts key members, ?_, ?_⟩
  · exact nodup.sublist (List.filter_sublist.map Prod.fst)
  · intro member present
    exact all member (List.mem_of_mem_filter present)

theorem jsonData_lookup {key : String} {value : Value} {items : List (Value × Value)}
    (dict : JsonData (.dict items)) (found : lookup key items = some value) : JsonData value := by
  obtain ⟨members, rfl, nodup, all⟩ := jsonData_dict_iff.mp dict
  clear dict nodup
  induction members with
  | nil => cases found
  | cons member rest ih =>
    rw [texts, List.map_cons, lookup] at found
    split at found
    · exact Option.some.inj found ▸ all member List.mem_cons_self
    · exact ih found fun other present => all other (List.mem_cons_of_mem _ present)

end Python
