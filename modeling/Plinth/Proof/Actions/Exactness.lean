import Mathlib.Data.List.Perm.Subperm
import Plinth.Model.Actions.Hints
import Plinth.Proof.Actions.Validation

/-! # Arguments that are accepted are those of a call that binds -/

namespace Plinth.Actions

open Effect Python Exception

/-! ## Types -/

theorem assertBasic_ok {argName typeName : String} {holds : Bool}
    (h : assertBasic argName typeName holds = .ok ()) : holds = true := by
  unfold assertBasic at h
  split at h
  · assumption
  · cases h

section Types

variable {str : Value → String}

mutual

theorem inhabits_of_assertValidType {hint : Annotation} {argName : String} {value : Value}
    (h : assertValidType str hint argName value = .ok ()) : Inhabits hint value := by
  match hint with
  | .any => exact .any value
  | .none =>
    unfold assertValidType at h
    split at h
    · exact .none
    · cases h
  | .bool =>
    have holds := assertBasic_ok h
    split at holds
    · exact .bool _
    · cases holds
  | .int =>
    have holds := assertBasic_ok h
    split at holds
    · exact .int _
    · exact .intBool _
    · cases holds
  | .str =>
    have holds := assertBasic_ok h
    split at holds
    · exact .str _
    · cases holds
  | .float =>
    have holds := assertBasic_ok h
    split at holds
    · exact .float _
    · cases holds
  | .secretStr =>
    have holds := assertBasic_ok h
    split at holds
    · exact .secretStr _
    · cases holds
  | .union members =>
    obtain ⟨hint, member, inhabits⟩ := inhabits_of_assertAny h
    exact .union member inhabits
  | .list element =>
    unfold assertValidType at h
    split at h
    · refine .list fun value member => ?_
      obtain ⟨index, found⟩ := List.mem_iff_getElem?.mp member
      have indexed := List.mk_mem_zipIdx_iff_getElem?.mpr found
      exact inhabits_of_assertValidType (forM_ok_iff.mp h _ indexed)
    · cases h
  | .dict key value =>
    unfold assertValidType at h
    split at h
    · have all := forM_ok_iff.mp h
      refine .dict (fun item member => ?_) fun item member => ?_
      · obtain ⟨⟨⟩, keyValid, -⟩ := ok_of_bind (all item member)
        exact inhabits_of_assertValidType keyValid
      · obtain ⟨⟨⟩, -, valueValid⟩ := ok_of_bind (all item member)
        exact inhabits_of_assertValidType valueValid
    · cases h
  | .unsupported => cases h

theorem inhabits_of_assertAny {members : List Annotation} {argName : String} {value : Value}
    (h : assertAny str members argName value = .ok ()) : ∃ hint ∈ members, Inhabits hint value := by
  match members with
  | [] => cases h
  | member :: rest =>
    rw [assertAny] at h
    split at h
    · exact ⟨member, List.mem_cons_self, inhabits_of_assertValidType ‹_›⟩
    · split at h
      · obtain ⟨hint, later, inhabits⟩ := inhabits_of_assertAny h
        exact ⟨hint, List.mem_cons_of_mem _ later, inhabits⟩
      · cases h

end

end Types

/-! ## Hints -/

mutual

theorem meaning_of_object {hint : Hint} {value : Value} (inhabits : Inhabits hint.object value) :
    Inhabits hint.meaning value := by
  match hint with
  | .any => exact inhabits
  | .none => cases inhabits
  | .bool => exact inhabits
  | .int => exact inhabits
  | .str => exact inhabits
  | .float => exact inhabits
  | .secretStr => exact inhabits
  | .union members =>
    cases inhabits with
    | union member inhabits =>
      obtain ⟨meaning, member, inhabits⟩ := meaning_of_objects member inhabits
      exact .union member inhabits
  | .list element =>
    cases inhabits with
    | list all => exact .list fun value member => meaning_of_object (all value member)
  | .dict key value =>
    cases inhabits with
    | dict keys values =>
      exact .dict (fun item member => meaning_of_object (keys item member))
        fun item member => meaning_of_object (values item member)
  | .typingList element =>
    cases inhabits with
    | list all =>
      exact .list fun value member => meaning_of_converted (all value member)
  | .typingDict key value =>
    cases inhabits with
    | dict keys values =>
      exact .dict (fun item member => meaning_of_converted (keys item member))
        fun item member => meaning_of_converted (values item member)

theorem meaning_of_converted {hint : Hint} {value : Value}
    (inhabits : Inhabits (Hint.converted hint hint.object) value) :
    Inhabits hint.meaning value := by
  unfold Hint.converted at inhabits
  split at inhabits
  · exact inhabits
  · exact meaning_of_object inhabits

theorem meaning_of_objects {members : List Hint} {object : Annotation} {value : Value}
    (member : object ∈ Hint.objects members) (inhabits : Inhabits object value) :
    ∃ meaning ∈ Hint.meanings members, Inhabits meaning value := by
  match members with
  | [] => cases member
  | first :: rest =>
    rw [Hint.objects] at member
    obtain rfl | member := List.mem_cons.mp member
    · exact ⟨first.meaning, List.mem_cons_self, meaning_of_converted inhabits⟩
    · obtain ⟨meaning, later, inhabits⟩ := meaning_of_objects member inhabits
      exact ⟨meaning, List.mem_cons_of_mem _ later, inhabits⟩

end

/-! ## Calls -/

section Calls

variable {func : Function} {args : List Value} {kwargs : Kwargs} {str : Value → String}

theorem some_of_annotationOf {argspec : ArgSpec} {argName : String} {hint : Annotation}
    (h : annotationOf argspec argName = .ok hint) :
    argspec.annotations.get? argName = some hint := by
  unfold annotationOf at h
  split at h
  · cases h
    assumption
  · cases h

theorem accepts_of_assertValidArguments
    (h : assertValidArguments str func args kwargs = .ok ()) : Accepts func args kwargs := by
  unfold assertValidArguments at h
  dsimp only at h
  split at h
  · cases h
  · rename_i length
    obtain ⟨⟨⟩, provided, h⟩ := ok_of_bind h
    obtain ⟨⟨⟩, keywords, positionals⟩ := ok_of_bind h
    rw [forM_ok_iff] at provided keywords positionals
    exact {
      length := Nat.not_lt.mp length
      provided := by
        intro key member
        have passed := provided key member
        by_contra missing
        rw [if_pos missing] at passed
        cases passed
      known := by
        intro entry member
        have passed := keywords entry member
        split at passed
        · cases passed
        · split at passed
          · cases passed
          · rename_i known unbound
            exact ⟨not_not.mp known, Nat.not_lt.mp unbound⟩
      keywords := by
        intro entry member
        have passed := keywords entry member
        split at passed
        · cases passed
        · split at passed
          · cases passed
          · obtain ⟨hint, found, valid⟩ := ok_of_bind passed
            exact ⟨hint, some_of_annotationOf found, inhabits_of_assertValidType valid⟩
      positionals := by
        intro entry member
        obtain ⟨index, found⟩ := List.mem_iff_getElem?.mp member
        have passed := positionals _ (List.mk_mem_zipIdx_iff_getElem?.mpr found)
        obtain ⟨hint, found, valid⟩ := ok_of_bind passed
        exact ⟨hint, some_of_annotationOf found, inhabits_of_assertValidType valid⟩ }

theorem assertValidArguments_ok_iff :
    assertValidArguments str func args kwargs = .ok () ↔ Accepts func args kwargs :=
  ⟨accepts_of_assertValidArguments, assertValidArguments_of_accepts str⟩

theorem annotated_of_checked (checked : checkPrivilegedActionArguments func = .ok ())
    {param : String} (member : param ∈ func.argspec.args) :
    ∃ hint, annotationOf func.argspec param = .ok hint := by
  unfold checkPrivilegedActionArguments at checked
  dsimp only at checked
  split at checked
  · cases checked
  · obtain ⟨⟨⟩, annotated, -⟩ := ok_of_bind checked
    have passed := forM_ok_iff.mp annotated param member
    split at passed
    · cases passed
    · rename_i key
      obtain ⟨entry, entries, rfl⟩ := List.mem_map.mp (not_not.mp key)
      refine ⟨entry.2, annotationOf_of_some ?_⟩
      rw [OrderedDict.get?_eq_some_iff]
      exact entries

def Refusal (e : Exception) : Prop :=
  e.isinstance .syntaxError = true ∨ e.isinstance .typeError = true

theorem syntaxError_refusal (message : String) : Refusal (SyntaxError message) :=
  .inl rfl

theorem assertAnnotated_error {param argName : String} {value : Value} {e : Exception}
    (checked : checkPrivilegedActionArguments func = .ok ())
    (member : param ∈ func.argspec.args)
    (h : (annotationOf func.argspec param >>= fun hint => assertValidType str hint argName value)
      = .error e) : Refusal e := by
  obtain ⟨hint, found⟩ := annotated_of_checked checked member
  rw [found] at h
  exact .inr (assertValidType_error h)

theorem assertValidArguments_error {e : Exception}
    (checked : checkPrivilegedActionArguments func = .ok ())
    (h : assertValidArguments str func args kwargs = .error e) : Refusal e := by
  unfold assertValidArguments at h
  dsimp only at h
  split at h
  · cases h
    exact syntaxError_refusal _
  · obtain missing | ⟨⟨⟩, -, h⟩ := error_of_bind h
    · obtain ⟨key, -, raised⟩ := forM_error missing
      split at raised <;> cases raised
      exact syntaxError_refusal _
    · obtain keyword | ⟨⟨⟩, -, positional⟩ := error_of_bind h
      · obtain ⟨entry, -, raised⟩ := forM_error keyword
        split at raised
        · cases raised
          exact syntaxError_refusal _
        · split at raised
          · cases raised
            exact syntaxError_refusal _
          · rename_i known _
            exact assertAnnotated_error checked (not_not.mp known) raised
      · obtain ⟨entry, member, raised⟩ := forM_error positional
        have param := (List.of_mem_zip (List.fst_mem_of_mem_zipIdx member)).1
        exact assertAnnotated_error checked param raised

end Calls

section Definitions

variable {definition : Definition} {args : List Value} {kwargs : OrderedDict String Value}

def Definition.Typed (definition : Definition) (read : Hint → Annotation) (args : List Value)
    (kwargs : OrderedDict String Value) : Prop :=
  ∀ entry ∈ definition.passed args kwargs, ∃ hint,
    definition.hints.get? entry.1 = some hint ∧ Inhabits (read hint) entry.2

theorem found_iff {name : String} {value : Value} :
    (∃ object, definition.func.argspec.annotations.get? name = some object ∧
      Inhabits object value) ↔
      ∃ hint, definition.hints.get? name = some hint ∧ Inhabits hint.object value := by
  rw [definition.agree name]
  cases definition.hints.get? name with
  | none => simp
  | some hint => simp

theorem typed_iff : definition.Typed Hint.object args kwargs ↔
    (∀ entry ∈ kwargs.entries, ∃ object,
      definition.func.argspec.annotations.get? entry.1 = some object ∧ Inhabits object entry.2) ∧
    ∀ entry ∈ definition.params.zip args, ∃ object,
      definition.func.argspec.annotations.get? entry.1 = some object ∧
        Inhabits object entry.2 := by
  simp only [found_iff]
  constructor
  · intro typed
    exact ⟨fun entry member => typed entry (List.mem_append_right _ member),
      fun entry member => typed entry (List.mem_append_left _ member)⟩
  · rintro ⟨keywords, positionals⟩ entry member
    obtain member | member := List.mem_append.mp member
    · exact positionals entry member
    · exact keywords entry member

theorem typed_meaning_of_object (typed : definition.Typed Hint.object args kwargs) :
    definition.Typed Hint.meaning args kwargs := by
  intro entry member
  obtain ⟨hint, found, inhabits⟩ := typed entry member
  exact ⟨hint, found, meaning_of_object inhabits⟩

theorem not_mem_take_iff {key : String} (known : key ∈ definition.params) :
    key ∉ definition.params.take args.length ↔
      args.length ≤ definition.func.argspec.args.idxOf key := by
  rw [List.mem_take_iff_idxOf_lt known, Nat.not_lt]
  rfl

theorem keys_length_le (binds : definition.BindsByName args kwargs) :
    args.length + kwargs.entries.length ≤ definition.params.length := by
  have later : kwargs.keys ⊆ definition.params.drop args.length := by
    intro key member
    have known := binds.known key member
    rw [← List.take_append_drop args.length definition.params] at known
    exact (List.mem_append.mp known).resolve_left (binds.once key member)
  have bounded := (List.subperm_of_subset kwargs.nodup later).length_le
  rw [List.length_drop, List.length_map] at bounded
  have count := binds.count
  omega

theorem accepts_iff : Accepts definition.func args kwargs.entries ↔
    definition.BindsByName args kwargs ∧ definition.Typed Hint.object args kwargs := by
  rw [typed_iff]
  constructor
  · intro accepts
    have known : ∀ key ∈ kwargs.keys, key ∈ definition.params ∧
        args.length ≤ definition.func.argspec.args.idxOf key := by
      intro key member
      obtain ⟨entry, entries, rfl⟩ := List.mem_map.mp member
      exact accepts.known entry entries
    refine ⟨{
      count := Nat.le_trans (Nat.le_add_right _ _) accepts.length
      known := fun key member => (known key member).1
      once := fun key member => (not_mem_take_iff (known key member).1).mpr (known key member).2
      complete := ?_ }, accepts.keywords, accepts.positionals⟩
    intro param member
    rw [← List.take_append_drop args.length definition.required] at member
    obtain first | later := List.mem_append.mp member
    · rw [Definition.required, List.take_take] at first
      exact .inl (List.take_subset_take_left _ (Nat.min_le_left _ _) first)
    · exact .inr (accepts.provided param later)
  · rintro ⟨binds, keywords, positionals⟩
    refine {
      length := keys_length_le binds
      provided := ?_
      known := ?_
      keywords := keywords
      positionals := positionals }
    · intro key member
      refine (binds.complete key (List.mem_of_mem_drop member)).resolve_left fun bound => ?_
      have later : key ∈ definition.params.drop args.length := by
        rw [List.drop_take] at member
        exact List.mem_of_mem_take member
      exact List.disjoint_take_drop definition.func.argspec.nodup le_rfl bound later
    · intro entry member
      have key : entry.1 ∈ kwargs.keys := List.mem_map_of_mem member
      have known := binds.known entry.1 key
      exact ⟨known, (not_mem_take_iff known).mp (binds.once entry.1 key)⟩

/-- The arguments are accepted if and only if the call binds and every value is one of the
annotation of its parameter; otherwise a `SyntaxError` or a `TypeError` is raised. -/
def Exact (str : Value → String) (definition : Definition) (args : List Value)
    (kwargs : OrderedDict String Value) : Prop :=
  (assertValidArguments str definition.func args kwargs.entries = .ok () ↔
    definition.Binds args kwargs ∧ definition.Typed Hint.meaning args kwargs) ∧
  ∀ e, assertValidArguments str definition.func args kwargs.entries = .error e → Refusal e

/-- A keyword may name a positional-only parameter, and a value may be refused because an
annotation is `None` itself: nothing else goes wrong. -/
theorem assertValidArguments_exact_iff (str : Value → String) (definition : Definition)
    (checked : checkPrivilegedActionArguments definition.func = .ok ()) (args : List Value)
    (kwargs : OrderedDict String Value) :
    Exact str definition args kwargs ↔
      ¬ (definition.BindsByName args kwargs ∧ definition.NamesPositionalOnly kwargs ∧
        definition.Typed Hint.object args kwargs) ∧
      ¬ (definition.Binds args kwargs ∧ definition.Typed Hint.meaning args kwargs ∧
        ¬ definition.Typed Hint.object args kwargs) := by
  have errors : ∀ e, assertValidArguments str definition.func args kwargs.entries = .error e →
      Refusal e := fun e => assertValidArguments_error checked
  have meaning : definition.Typed Hint.object args kwargs →
      definition.Typed Hint.meaning args kwargs := typed_meaning_of_object
  rw [Exact, and_iff_left errors, assertValidArguments_ok_iff, accepts_iff, Definition.Binds]
  tauto

/-- A function with the one parameter `a`. -/
def oneParameter (hint : Hint) (positionalOnly : Nat) : Definition where
  func :=
    { argspec :=
        { args := ["a"]
          varargs := none
          varkw := none
          defaults := []
          kwonlyargs := []
          kwonlydefaults := []
          annotations := OrderedDict.empty.set "a" hint.object
          nodup := List.nodup_singleton "a" }
      behaviour := fun _ _ => ⟨[], [], .returns .none⟩ }
  positionalOnly := positionalOnly
  hints := OrderedDict.empty.set "a" hint
  agree := by
    intro name
    simp only [OrderedDict.get?_set, OrderedDict.get?_empty]
    split <;> rfl

theorem assertValidArguments_exact_iff_one :
    checkPrivilegedActionArguments (oneParameter .int 0).func = .ok () ∧
      Exact (fun _ => "") (oneParameter .int 0) [.int 1] OrderedDict.empty := by
  refine ⟨rfl, (assertValidArguments_exact_iff _ (oneParameter .int 0) rfl _ _).mpr ⟨?_, ?_⟩⟩
  · rintro ⟨-, ⟨key, member, -⟩, -⟩
    cases member
  · rintro ⟨-, -, refused⟩
    refine refused fun entry member => ?_
    obtain rfl := List.mem_singleton.mp member
    exact ⟨.int, rfl, .int 1⟩

theorem not_exact :
    (checkPrivilegedActionArguments (oneParameter .none 0).func = .ok () ∧
      ¬ Exact (fun _ => "") (oneParameter .none 0) [.none] OrderedDict.empty) ∧
    (checkPrivilegedActionArguments (oneParameter .int 1).func = .ok () ∧
      ¬ Exact (fun _ => "") (oneParameter .int 1) [] (OrderedDict.empty.set "a" (.int 1))) := by
  refine ⟨⟨rfl, ?_⟩, rfl, ?_⟩
  · rintro ⟨exact, -⟩
    have binds : (oneParameter .none 0).Binds [.none] OrderedDict.empty := by
      refine ⟨⟨le_rfl, ?_, ?_, ?_⟩, ?_⟩
      · intro key member
        cases member
      · intro key member
        cases member
      · intro param member
        exact .inl member
      · rintro ⟨key, member, -⟩
        cases member
    have typed : (oneParameter .none 0).Typed Hint.meaning [.none] OrderedDict.empty := by
      intro entry member
      obtain rfl := List.mem_singleton.mp member
      exact ⟨.none, rfl, .none⟩
    have accepted := exact.mpr ⟨binds, typed⟩
    cases accepted
  · rintro ⟨exact, -⟩
    obtain ⟨⟨-, named⟩, -⟩ := exact.mp rfl
    exact named ⟨"a", List.mem_singleton.mpr rfl, List.mem_singleton.mpr rfl⟩

end Definitions

end Plinth.Actions
