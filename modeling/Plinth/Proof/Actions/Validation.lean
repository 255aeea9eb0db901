import Plinth.Lib.Python.Codec
import Plinth.Model.Actions

/-!
# Arguments that a function accepts

The values of an annotation, and the calls that bind the parameters of a function to such values.
-/

namespace Plinth.Actions

open Effect Python Exception

inductive Inhabits : Annotation → Value → Prop
  | any (value : Value) : Inhabits .any value
  | none : Inhabits .none .none
  | bool (b : Bool) : Inhabits .bool (.bool b)
  | int (n : Int) : Inhabits .int (.int n)
  | intBool (b : Bool) : Inhabits .int (.bool b)
  | str (s : String) : Inhabits .str (.str s)
  | float (f : Json.Float) : Inhabits .float (.float f)
  | secretStr (s : String) : Inhabits .secretStr (.str s)
  | union {members : List Annotation} {hint : Annotation} {value : Value}
      (member : hint ∈ members) (inhabits : Inhabits hint value) :
      Inhabits (.union members) value
  | list {element : Annotation} {elements : List Value}
      (all : ∀ value ∈ elements, Inhabits element value) :
      Inhabits (.list element) (.list elements)
  | dict {key value : Annotation} {items : List (Value × Value)}
      (keys : ∀ item ∈ items, Inhabits key item.1)
      (values : ∀ item ∈ items, Inhabits value item.2) :
      Inhabits (.dict key value) (.dict items)

structure Accepts (func : Function) (args : List Value) (kwargs : Kwargs) : Prop where
  length : args.length + kwargs.length ≤ func.argspec.args.length
  provided : ∀ key ∈ (func.argspec.args.take
    (func.argspec.args.length - func.argspec.defaults.length)).drop args.length,
      key ∈ kwargs.map Prod.fst
  known : ∀ entry ∈ kwargs, entry.1 ∈ func.argspec.args ∧
    args.length ≤ func.argspec.args.idxOf entry.1
  keywords : ∀ entry ∈ kwargs, ∃ hint,
    func.argspec.annotations.get? entry.1 = some hint ∧ Inhabits hint entry.2
  positionals : ∀ entry ∈ func.argspec.args.zip args, ∃ hint,
    func.argspec.annotations.get? entry.1 = some hint ∧ Inhabits hint entry.2

/-! ## Types -/

section Types

variable {str : Value → String}

theorem assertBasic_error {argName typeName : String} {holds : Bool} {e : Exception}
    (h : assertBasic argName typeName holds = .error e) : e.isinstance .typeError = true := by
  unfold assertBasic at h
  split at h <;> cases h
  rfl

mutual

theorem assertValidType_error {hint : Annotation} {argName : String} {value : Value}
    {e : Exception} (h : assertValidType str hint argName value = .error e) :
    e.isinstance .typeError = true := by
  match hint with
  | .any => cases h
  | .none =>
    unfold assertValidType at h
    split at h <;> cases h
    rfl
  | .bool => exact assertBasic_error h
  | .int => exact assertBasic_error h
  | .str => exact assertBasic_error h
  | .float => exact assertBasic_error h
  | .secretStr => exact assertBasic_error h
  | .union members => exact assertAny_error h
  | .list element =>
    unfold assertValidType at h
    split at h
    · obtain ⟨⟨innerItem, index⟩, -, raised⟩ := forM_error h
      exact assertValidType_error raised
    · cases h
      rfl
  | .dict key value =>
    unfold assertValidType at h
    split at h
    · obtain ⟨⟨innerKey, innerValue⟩, -, raised⟩ := forM_error h
      simp only [bind, Except.bind] at raised
      split at raised
      · rename_i keyRaised
        cases raised
        exact assertValidType_error keyRaised
      · exact assertValidType_error raised
    · cases h
      rfl
  | .unsupported =>
    cases h
    rfl

theorem assertAny_error {members : List Annotation} {argName : String} {value : Value}
    {e : Exception} (h : assertAny str members argName value = .error e) :
    e.isinstance .typeError = true := by
  match members with
  | [] =>
    cases h
    rfl
  | member :: rest =>
    rw [assertAny] at h
    split at h
    · cases h
    · split at h
      · exact assertAny_error h
      · cases h
        exact assertValidType_error ‹_›

end

theorem assertAny_of_mem {members : List Annotation} {hint : Annotation} {argName : String}
    {value : Value} (member : hint ∈ members)
    (valid : assertValidType str hint argName value = .ok ()) :
    assertAny str members argName value = .ok () := by
  induction members with
  | nil => cases member
  | cons first rest ih =>
    rw [assertAny]
    cases tried : assertValidType str first argName value with
    | ok _ => rfl
    | error e =>
      obtain rfl | member := List.mem_cons.mp member
      · rw [valid] at tried
        cases tried
      · simp only [assertValidType_error tried, if_true]
        exact ih member

theorem assertValidType_of_inhabits {hint : Annotation} {value : Value}
    (inhabits : Inhabits hint value) (argName : String) :
    assertValidType str hint argName value = .ok () := by
  induction inhabits generalizing argName with
  | any value => rfl
  | none => rfl
  | bool b => rfl
  | int n => rfl
  | intBool b => rfl
  | str s => rfl
  | float f => rfl
  | secretStr s => rfl
  | union member inhabits ih =>
    rw [assertValidType]
    exact assertAny_of_mem member (ih argName)
  | list all ih =>
    rw [assertValidType]
    refine forM_ok_iff.mpr fun ⟨innerItem, index⟩ member => ?_
    exact ih innerItem (List.fst_mem_of_mem_zipIdx member) _
  | dict keys values ihKeys ihValues =>
    rw [assertValidType]
    refine forM_ok_iff.mpr fun ⟨innerKey, innerValue⟩ member => ?_
    simp only [ihKeys _ member, ihValues _ member, bind, Except.bind]

end Types

/-! ## Calls -/

section Calls

variable {func : Function} {args : List Value} {kwargs : Kwargs}

theorem annotationOf_of_some {argspec : ArgSpec} {argName : String} {hint : Annotation}
    (found : argspec.annotations.get? argName = some hint) :
    annotationOf argspec argName = .ok hint := by
  rw [annotationOf, found]

theorem assertValidArguments_of_accepts (str : Value → String)
    (accepts : Accepts func args kwargs) : assertValidArguments str func args kwargs = .ok () := by
  unfold assertValidArguments
  simp only [if_neg (Nat.not_lt.mpr accepts.length)]
  refine bind_of_ok (forM_ok_iff.mpr fun key member => ?_) (bind_of_ok (forM_ok_iff.mpr fun entry member => ?_)
    (forM_ok_iff.mpr fun ⟨entry, index⟩ member => ?_))
  · rw [if_neg (not_not.mpr (accepts.provided key member))]
    rfl
  · obtain ⟨known, unbound⟩ := accepts.known entry member
    obtain ⟨hint, found, inhabits⟩ := accepts.keywords entry member
    simp only [if_neg (not_not.mpr known), if_neg (Nat.not_lt.mpr unbound)]
    exact bind_of_ok (annotationOf_of_some found) (assertValidType_of_inhabits inhabits _)
  · obtain ⟨hint, found, inhabits⟩ :=
      accepts.positionals entry (List.fst_mem_of_mem_zipIdx member)
    exact bind_of_ok (annotationOf_of_some found) (assertValidType_of_inhabits inhabits _)

/-! ## Logs of calls -/

theorem formatArg_ok {argspec : ArgSpec} {argName : String} {hint : Annotation}
    {value : Value} (found : argspec.annotations.get? argName = some hint)
    (data : JsonData value) : ∃ text, formatArg argspec argName value = .ok text := by
  obtain ⟨text, dumped, -⟩ := data.loads_dumps jsonDefault
  cases secret : hint.isSecret with
  | true =>
    refine ⟨"****", bind_of_ok (annotationOf_of_some found) ?_⟩
    simp only [secret, if_true]
    rfl
  | false =>
    refine ⟨text, bind_of_ok (annotationOf_of_some found) ?_⟩
    simp only [secret, Bool.false_eq_true, if_false]
    exact dumped

theorem formatPositional_ok {argspec : ArgSpec} {entries : List (String × Value)}
    (all : ∀ entry ∈ entries, ∃ text, formatArg argspec entry.1 entry.2 = .ok text) :
    ∃ texts, formatPositional argspec entries = .ok texts := by
  induction entries with
  | nil => exact ⟨[], rfl⟩
  | cons entry entries ih =>
    obtain ⟨text, first⟩ := all entry List.mem_cons_self
    obtain ⟨texts, rest⟩ := ih fun entry member => all entry (List.mem_cons_of_mem _ member)
    exact ⟨text :: texts, bind_of_ok first (bind_of_ok rest rfl)⟩

theorem formatKeywords_ok {argspec : ArgSpec} {entries : Kwargs}
    (all : ∀ entry ∈ entries, ∃ text, formatArg argspec entry.1 entry.2 = .ok text) :
    ∃ texts, formatKeywords argspec entries = .ok texts := by
  induction entries with
  | nil => exact ⟨[], rfl⟩
  | cons entry entries ih =>
    obtain ⟨text, first⟩ := all entry List.mem_cons_self
    obtain ⟨texts, rest⟩ := ih fun entry member => all entry (List.mem_cons_of_mem _ member)
    exact ⟨(entry.1 ++ "=" ++ text) :: texts, bind_of_ok first (bind_of_ok rest rfl)⟩

theorem formatArgs_of_accepts (accepts : Accepts func args kwargs)
    (args_data : ∀ value ∈ args, JsonData value)
    (kwargs_data : ∀ entry ∈ kwargs, JsonData entry.2) :
    ∃ text, formatArgs func args kwargs = .ok text := by
  have short : ¬ func.argspec.args.length < args.length := by
    have length := accepts.length
    omega
  have all : ∀ entry ∈ func.argspec.args.zip args, ∃ text,
      formatArg func.argspec entry.1 entry.2 = .ok text := by
    intro entry member
    obtain ⟨hint, found, -⟩ := accepts.positionals entry member
    exact formatArg_ok found (args_data entry.2 (List.of_mem_zip member).2)
  have all' : ∀ entry ∈ kwargs, ∃ text,
      formatArg func.argspec entry.1 entry.2 = .ok text := by
    intro entry member
    obtain ⟨hint, found, -⟩ := accepts.keywords entry member
    exact formatArg_ok found (kwargs_data entry member)
  obtain ⟨positional, formatted⟩ := formatPositional_ok all
  obtain ⟨keywords, formatted'⟩ := formatKeywords_ok all'
  refine ⟨", ".intercalate (positional ++ keywords), ?_⟩
  unfold formatArgs
  simp only [if_neg short]
  exact bind_of_ok formatted (bind_of_ok formatted' rfl)

end Calls

end Plinth.Actions
