import Plinth.Lib.Json.RoundTrip
import Plinth.Lib.Python.Value

/-!
# What survives as JSON

JSON data comes back from its text as it was. Whatever is read from a text is JSON data.
-/

namespace Python

attribute [grind =] encode encodeList encodeItems encodeKey ofJson ofElements ofMembers

/-- `None`, booleans, numbers, strings, and lists and dictionaries of these. -/
inductive JsonData : Value → Prop
  | none : JsonData .none
  | bool (b : Bool) : JsonData (.bool b)
  | int (n : Int) (short : tooLong n = false) : JsonData (.int n)
  | float (f : Json.Float) : JsonData (.float f)
  | str (s : String) : JsonData (.str s)
  | list (elements : List Value) (all : ∀ value ∈ elements, JsonData value) :
      JsonData (.list elements)
  | dict (members : List (String × Value)) (nodup : (members.map Prod.fst).Nodup)
      (all : ∀ member ∈ members, JsonData member.2) :
      JsonData (.dict (members.map fun member => (.str member.1, member.2)))

/-! ## Keys -/

theorem nodup_setEntry {κ ν : Type} [DecidableEq κ] (k : κ) (v : ν) {entries : List (κ × ν)}
    (nodup : (entries.map Prod.fst).Nodup) :
    ((OrderedDict.setEntry k v entries).map Prod.fst).Nodup :=
  (OrderedDict.set ⟨entries, nodup⟩ k v).nodup

theorem mem_setEntry {κ ν : Type} [DecidableEq κ] {k : κ} {v : ν} {entries : List (κ × ν)}
    {entry : κ × ν} (member : entry ∈ OrderedDict.setEntry k v entries) :
    entry = (k, v) ∨ entry ∈ entries := by
  induction entries with
  | nil => exact .inl (List.mem_singleton.mp member)
  | cons first rest ih =>
    rw [OrderedDict.setEntry] at member
    split at member
    · obtain rfl | member := List.mem_cons.mp member
      · exact .inl rfl
      · exact .inr (List.mem_cons_of_mem _ member)
    · obtain rfl | member := List.mem_cons.mp member
      · exact .inr List.mem_cons_self
      · exact (ih member).imp id (List.mem_cons_of_mem _)

theorem foldl_setEntry_of_nodup {ν : Type} (entries members : List (String × ν))
    (nodup : ((entries ++ members).map Prod.fst).Nodup) :
    members.foldl (fun entries member => OrderedDict.setEntry member.1 member.2 entries) entries =
      entries ++ members := by
  induction members generalizing entries with
  | nil => simp
  | cons member members ih =>
    have fresh : member.1 ∉ entries.map Prod.fst := by
      rw [List.map_append, List.nodup_append] at nodup
      exact fun present => nodup.2.2 _ present member.1 (by simp) rfl
    rw [List.foldl_cons, OrderedDict.setEntry_of_absent _ _ _ fresh, ih]
    · simp
    · simpa using nodup

theorem uniqueKeys_of_nodup {members : List (String × Value)}
    (nodup : (members.map Prod.fst).Nodup) : uniqueKeys members = members :=
  foldl_setEntry_of_nodup [] members nodup

theorem uniqueKeys_spec (members : List (String × Value)) :
    ((uniqueKeys members).map Prod.fst).Nodup ∧ ∀ entry ∈ uniqueKeys members, entry ∈ members := by
  suffices all : ∀ members entries : List (String × Value), (entries.map Prod.fst).Nodup →
      ((members.foldl (fun entries member => OrderedDict.setEntry member.1 member.2 entries)
        entries).map Prod.fst).Nodup ∧
      ∀ entry ∈ members.foldl (fun entries member =>
        OrderedDict.setEntry member.1 member.2 entries) entries,
          entry ∈ entries ∨ entry ∈ members by
    obtain ⟨nodup, sub⟩ := all members [] List.nodup_nil
    exact ⟨nodup, fun entry member => (sub entry member).resolve_left List.not_mem_nil⟩
  intro members
  induction members with
  | nil => exact fun entries nodup => ⟨nodup, fun entry => .inl⟩
  | cons member members ih =>
    intro entries nodup
    obtain ⟨nodup', sub⟩ := ih _ (nodup_setEntry member.1 member.2 nodup)
    refine ⟨nodup', fun entry present => ?_⟩
    obtain present | present := sub entry present
    · obtain rfl | present := mem_setEntry present
      · exact .inr List.mem_cons_self
      · exact .inl present
    · exact .inr (List.mem_cons_of_mem _ present)

/-! ## From JSON -/

mutual

theorem jsonData_ofJson {document : Json} {value : Value} (h : ofJson document = .ok value) :
    JsonData value := by
  match document, h with
  | .null, rfl => exact .none
  | .bool b, rfl => exact .bool b
  | .int n, h =>
    rw [ofJson] at h
    split at h
    · cases h
    · cases h
      exact .int n (by simpa using ‹¬ tooLong n = true›)
  | .float f, rfl => exact .float f
  | .str s, rfl => exact .str s
  | .arr elements, h =>
    rw [ofJson] at h
    cases parsed : ofElements elements with
    | error e =>
      rw [parsed] at h
      cases h
    | ok values =>
      rw [parsed] at h
      cases h
      exact .list values (jsonData_ofElements parsed)
  | .obj members, h =>
    rw [ofJson] at h
    cases parsed : ofMembers members with
    | error e =>
      rw [parsed] at h
      cases h
    | ok values =>
      rw [parsed] at h
      cases h
      obtain ⟨nodup, sub⟩ := uniqueKeys_spec values
      exact .dict _ nodup fun member present => jsonData_ofMembers parsed _ (sub _ present)

theorem jsonData_ofElements {elements : List Json} {values : List Value}
    (h : ofElements elements = .ok values) : ∀ value ∈ values, JsonData value := by
  match elements, h with
  | [], h =>
    cases h
    simp
  | element :: rest, h =>
    rw [ofElements] at h
    cases first : ofJson element with
    | error e =>
      rw [first] at h
      cases h
    | ok value =>
      rw [first] at h
      cases others : ofElements rest with
      | error e =>
        simp only [others, bind, Except.bind] at h
        cases h
      | ok values =>
        simp only [others, bind, Except.bind] at h
        cases h
        intro v member
        obtain rfl | member := List.mem_cons.mp member
        · exact jsonData_ofJson first
        · exact jsonData_ofElements others v member

theorem jsonData_ofMembers {members : List (String × Json)} {values : List (String × Value)}
    (h : ofMembers members = .ok values) : ∀ value ∈ values, JsonData value.2 := by
  match members, h with
  | [], h =>
    cases h
    simp
  | (key, element) :: rest, h =>
    rw [ofMembers] at h
    cases first : ofJson element with
    | error e =>
      rw [first] at h
      cases h
    | ok value =>
      rw [first] at h
      cases others : ofMembers rest with
      | error e =>
        simp only [others, bind, Except.bind] at h
        cases h
      | ok values =>
        simp only [others, bind, Except.bind] at h
        cases h
        intro v member
        obtain rfl | member := List.mem_cons.mp member
        · exact jsonData_ofJson first
        · exact jsonData_ofMembers others v member

end

theorem jsonData_loads {text : String} {value : Value} (h : loads text = .ok value) :
    JsonData value := by
  rw [loads] at h
  split at h
  · exact jsonData_ofJson h
  · cases h

mutual

theorem ofJson_error {document : Json} {e : Exception} (h : ofJson document = .error e) :
    e = intError := by
  match document, h with
  | .int n, h =>
    rw [ofJson] at h
    split at h <;> cases h
    rfl
  | .arr elements, h =>
    rw [ofJson] at h
    cases parsed : ofElements elements with
    | ok values =>
      rw [parsed] at h
      cases h
    | error e' =>
      rw [parsed] at h
      cases h
      exact ofElements_error parsed
  | .obj members, h =>
    rw [ofJson] at h
    cases parsed : ofMembers members with
    | ok values =>
      rw [parsed] at h
      cases h
    | error e' =>
      rw [parsed] at h
      cases h
      exact ofMembers_error parsed

theorem ofElements_error {elements : List Json} {e : Exception}
    (h : ofElements elements = .error e) : e = intError := by
  match elements, h with
  | element :: rest, h =>
    rw [ofElements] at h
    cases first : ofJson element with
    | error e' =>
      rw [first] at h
      cases h
      exact ofJson_error first
    | ok value =>
      cases others : ofElements rest with
      | error e' =>
        simp only [first, others, bind, Except.bind] at h
        cases h
        exact ofElements_error others
      | ok values =>
        simp only [first, others, bind, Except.bind] at h
        cases h

theorem ofMembers_error {members : List (String × Json)} {e : Exception}
    (h : ofMembers members = .error e) : e = intError := by
  match members, h with
  | (key, element) :: rest, h =>
    rw [ofMembers] at h
    cases first : ofJson element with
    | error e' =>
      rw [first] at h
      cases h
      exact ofJson_error first
    | ok value =>
      cases others : ofMembers rest with
      | error e' =>
        simp only [first, others, bind, Except.bind] at h
        cases h
        exact ofMembers_error others
      | ok values =>
        simp only [first, others, bind, Except.bind] at h
        cases h

end

/-! ## To JSON and back -/

section Encode

variable (default : Value → Except Exception Json)

theorem encodeList_of_all {elements : List Value}
    (all : ∀ value ∈ elements, ∃ document, encode default value = .ok document ∧
      ofJson document = .ok value) :
    ∃ documents, encodeList default elements = .ok documents ∧
      ofElements documents = .ok elements := by
  induction elements with
  | nil => exact ⟨[], rfl, rfl⟩
  | cons value rest ih =>
    obtain ⟨document, encoded, decoded⟩ := all value List.mem_cons_self
    obtain ⟨documents, encodedRest, decodedRest⟩ :=
      ih fun v member => all v (List.mem_cons_of_mem _ member)
    refine ⟨document :: documents, ?_, ?_⟩
    · rw [encodeList, encoded, encodedRest]
      rfl
    · rw [ofElements, decoded, decodedRest]
      rfl

theorem encodeItems_of_all {members : List (String × Value)}
    (all : ∀ member ∈ members, ∃ document, encode default member.2 = .ok document ∧
      ofJson document = .ok member.2) :
    ∃ documents, encodeItems default (members.map fun member => (.str member.1, member.2)) =
        .ok documents ∧ ofMembers documents = .ok members := by
  induction members with
  | nil => exact ⟨[], rfl, rfl⟩
  | cons member rest ih =>
    obtain ⟨key, value⟩ := member
    obtain ⟨document, encoded, decoded⟩ := all (key, value) List.mem_cons_self
    obtain ⟨documents, encodedRest, decodedRest⟩ :=
      ih fun v present => all v (List.mem_cons_of_mem _ present)
    refine ⟨(key, document) :: documents, ?_, ?_⟩
    · rw [List.map_cons, encodeItems, encodeKey, encoded, encodedRest]
      rfl
    · rw [ofMembers, decoded, decodedRest]
      rfl

theorem JsonData.encode {value : Value} (data : JsonData value) :
    ∃ document, encode default value = .ok document ∧ ofJson document = .ok value := by
  induction data with
  | none => exact ⟨_, rfl, rfl⟩
  | bool b => exact ⟨_, rfl, rfl⟩
  | int n short => exact ⟨.int n, by simp [Python.encode, short], by simp [ofJson, short]⟩
  | float f => exact ⟨_, rfl, rfl⟩
  | str s => exact ⟨_, rfl, rfl⟩
  | list elements all ih =>
    obtain ⟨documents, encoded, decoded⟩ := encodeList_of_all default ih
    refine ⟨.arr documents, ?_, ?_⟩
    · rw [Python.encode, encoded]
      rfl
    · rw [ofJson, decoded]
      rfl
  | dict members nodup all ih =>
    obtain ⟨documents, encoded, decoded⟩ := encodeItems_of_all default ih
    refine ⟨.obj documents, ?_, ?_⟩
    · rw [Python.encode, encoded]
      rfl
    · rw [ofJson, decoded]
      have unique := uniqueKeys_of_nodup nodup
      simp only [bind, Except.bind, pure, Except.pure, unique]

theorem JsonData.loads_dumps {value : Value} (data : JsonData value) :
    ∃ text, dumps default value = .ok text ∧ loads text = .ok value := by
  obtain ⟨document, encoded, decoded⟩ := data.encode default
  refine ⟨Json.dumps document, ?_, ?_⟩
  · rw [dumps, encoded]
    rfl
  · rw [loads, Json.loads_dumps]
    exact decoded

end Encode

/-! ## Bytes of a document -/

theorem encodeUtf8_ofList {text : List Char} (ascii : Json.Ascii text) :
    encodeUtf8 (String.ofList text) = text.map fun c => UInt8.ofNat c.toNat := by
  rw [encodeUtf8, String.toByteArray_ofList, List.utf8Encode, List.toList_data_toByteArray]
  induction text with
  | nil => rfl
  | cons c text ih =>
    have small : c.toNat < 0x80 := ascii c List.mem_cons_self
    have single : String.utf8EncodeChar c = [UInt8.ofNat c.toNat] := by
      have le : c.val.toNat ≤ 0x7f := Nat.le_of_lt_succ small
      rw [String.utf8EncodeChar, if_pos le]
      rfl
    rw [List.flatMap_cons, single, ih fun c member => ascii c (List.mem_cons_of_mem _ member)]
    rfl

theorem detectEncoding_object (rest : Bytes) : detectEncoding (0x7b :: 0x22 :: rest) = .utf8 := by
  match rest with
  | [] => rfl
  | [_] => rfl
  | _ :: _ :: _ => rfl

theorem decodeJson_dumps (key : String) (value : Json) (members : List (String × Json)) :
    decodeJson (encodeUtf8 (Json.dumps (.obj ((key, value) :: members)))) =
      some (Json.dumps (.obj ((key, value) :: members))) := by
  have ascii := Json.ascii_print (.obj ((key, value) :: members))
  have bytes := encodeUtf8_ofList ascii
  have small : ∀ byte ∈ encodeUtf8 (Json.dumps (.obj ((key, value) :: members))), byte < 0x80 := by
    intro byte member
    rw [Json.dumps, bytes] at member
    obtain ⟨c, printed, rfl⟩ := List.mem_map.mp member
    have bound := ascii c printed
    rw [UInt8.lt_iff_toNat_lt, UInt8.toNat_ofNat_of_lt' (by simp only [UInt8.size]; omega)]
    exact bound
  have detected : detectEncoding (encodeUtf8 (Json.dumps (.obj ((key, value) :: members)))) =
      .utf8 := by
    rw [Json.dumps, bytes]
    exact detectEncoding_object _
  rw [decodeJson, detected]
  simp only [replaceSurrogates_ascii small, decodeUtf8_encodeUtf8]

theorem loadsBytes_dumps (key : String) (value : Json) (members : List (String × Json)) :
    loadsBytes (encodeUtf8 (Json.dumps (.obj ((key, value) :: members)))) =
      ofJson (.obj ((key, value) :: members)) := by
  simp only [loadsBytes, decodeJson_dumps, loads, Json.loads_dumps]

end Python
