import Plinth.Model.NotificationData
import Plinth.Proof.Messages

/-! # Translation of the data of a notification -/

namespace Plinth.Notification

open Python Effect

/-! ## Copies -/

mutual

theorem deepcopy_spec (node : Node) (heap : Heap) : ∃ copy heap',
    node.deepcopy.exec heap = (.ok copy, heap') ∧ copy.value = node.value := by
  cases node with
  | leaf leaf => exact ⟨_, heap, rfl, rfl⟩
  | dict address items =>
    obtain ⟨copies, heap', ran, same⟩ :=
      copyItems_spec heap.next items ⟨heap.next + 1, heap.changed⟩
    refine ⟨.dict heap.next copies, heap', ?_, ?_⟩
    · exact exec_bind_eq_ok_iff.mpr ⟨_, _, rfl, exec_bind_eq_ok_iff.mpr ⟨_, _, ran, rfl⟩⟩
    · rw [Node.value, Node.value, same]
  | list address elements =>
    obtain ⟨copies, heap', ran, same⟩ :=
      copyElements_spec heap.next elements ⟨heap.next + 1, heap.changed⟩
    refine ⟨.list heap.next copies, heap', ?_, ?_⟩
    · exact exec_bind_eq_ok_iff.mpr ⟨_, _, rfl, exec_bind_eq_ok_iff.mpr ⟨_, _, ran, rfl⟩⟩
    · rw [Node.value, Node.value, same]

theorem copyItems_spec (new : Nat) (items : List (String × Node)) (heap : Heap) :
    ∃ copies heap', (copyItems new items).exec heap = (.ok copies, heap') ∧
      itemsValue copies = itemsValue items := by
  cases items with
  | nil => exact ⟨[], heap, rfl, rfl⟩
  | cons item rest =>
    obtain ⟨key, node⟩ := item
    obtain ⟨copy, heap₁, copied, same⟩ := deepcopy_spec node heap
    obtain ⟨copies, heap₂, ran, same'⟩ :=
      copyItems_spec new rest { heap₁ with changed := heap₁.changed ++ [new] }
    refine ⟨(key, copy) :: copies, heap₂, ?_, ?_⟩
    · exact exec_bind_eq_ok_iff.mpr ⟨_, _, copied, exec_bind_eq_ok_iff.mpr
        ⟨(), _, rfl, exec_bind_eq_ok_iff.mpr ⟨_, _, ran, rfl⟩⟩⟩
    · rw [itemsValue, itemsValue, same, same']

theorem copyElements_spec (new : Nat) (elements : List Node) (heap : Heap) :
    ∃ copies heap', (copyElements new elements).exec heap = (.ok copies, heap') ∧
      elementsValue copies = elementsValue elements := by
  cases elements with
  | nil => exact ⟨[], heap, rfl, rfl⟩
  | cons node rest =>
    obtain ⟨copy, heap₁, copied, same⟩ := deepcopy_spec node heap
    obtain ⟨copies, heap₂, ran, same'⟩ :=
      copyElements_spec new rest { heap₁ with changed := heap₁.changed ++ [new] }
    refine ⟨copy :: copies, heap₂, ?_, ?_⟩
    · exact exec_bind_eq_ok_iff.mpr ⟨_, _, copied, exec_bind_eq_ok_iff.mpr
        ⟨(), _, rfl, exec_bind_eq_ok_iff.mpr ⟨_, _, ran, rfl⟩⟩⟩
    · rw [elementsValue, elementsValue, same, same']

end

/-! ## The translation without objects -/

section Translation

variable (env : Display) (data : List (Value × Value))

theorem translateValue_leaf (leaf : Leaf) : translateValue env data leaf.value =
    match leaf with
    | .str s => (translateText env data s).map Leaf.value
    | leaf => .ok leaf.value := by
  cases leaf with
  | str s =>
    rw [Leaf.value, translateValue]
    dsimp only
    rw [translateText]
    split
    · cases translate env (String.ofList (s.toList.drop translatePrefix.length)) data with
      | error e => rfl
      | ok text => cases text <;> rfl
    · rfl
  | _ => rfl

mutual

theorem value_translate (node : Node) (heap : Heap) :
    ((node.translate env data).exec heap).1.map Node.value =
      translateValue env data node.value := by
  cases node with
  | leaf leaf =>
    cases leaf with
    | str s =>
      rw [Node.translate, Node.value, translateValue_leaf]
      dsimp only
      rw [exec_bind, exec_lift]
      cases translateText env data s <;> rfl
    | _ => rfl
  | dict address items =>
    rw [Node.translate, Node.value, translateValue]
    split
    · rename_i empty
      rw [List.isEmpty_iff.mp empty]
      rfl
    · have rest := value_translateItems heap.next items ⟨heap.next + 1, heap.changed⟩
      have created : ((do
          let new ← create
          return Node.dict new (← translateItems env data new items) : Run Node).exec heap).1 =
            ((translateItems env data heap.next items).exec ⟨heap.next + 1, heap.changed⟩).1.map
              (Node.dict heap.next) :=
        result_bind_pure _ _ _
      rw [created, ← rest]
      cases ((translateItems env data heap.next items).exec ⟨heap.next + 1, heap.changed⟩).1 <;> rfl
  | list address elements =>
    obtain ⟨copy, heap', ran, same⟩ := deepcopy_spec (.list address elements) heap
    have copied : ((Node.list address elements).translate env data).exec heap =
        (.ok copy, heap') := ran
    rw [copied]
    exact congrArg Except.ok same

theorem value_translateItems (new : Nat) (items : List (String × Node)) (heap : Heap) :
    ((translateItems env data new items).exec heap).1.map itemsValue =
      translateDict env data (itemsValue items) := by
  cases items with
  | nil => rfl
  | cons item rest =>
    obtain ⟨key, node⟩ := item
    have first := value_translate node heap
    rw [itemsValue, translateDict, ← first, translateItems, exec_bind]
    rcases (node.translate env data).exec heap with ⟨e | node', heap₁⟩
    · rfl
    have later := value_translateItems new rest { heap₁ with changed := heap₁.changed ++ [new] }
    have continued : ((do
        change new
        return (key, node') :: (← translateItems env data new rest) :
          Run (List (String × Node))).exec heap₁).1 =
        ((translateItems env data new rest).exec
          { heap₁ with changed := heap₁.changed ++ [new] }).1.map ((key, node') :: ·) :=
      result_bind_pure _ _ _
    dsimp only
    rw [continued, ← later]
    cases ((translateItems env data new rest).exec
      { heap₁ with changed := heap₁.changed ++ [new] }).1 <;> rfl

end

/-! ## The complete translation -/

mutual

def Node.complete : Node → Except Exception Value
  | .leaf (.str s) => (translateText env data s).map Leaf.value
  | .leaf leaf => .ok leaf.value
  | .dict _ items => .dict <$> completeItems items
  | .list _ elements => .list <$> completeElements elements

def completeItems : List (String × Node) → Except Exception (List (Value × Value))
  | [] => .ok []
  | (key, node) :: rest => do
      let value ← node.complete
      return (.str key, value) :: (← completeItems rest)

def completeElements : List Node → Except Exception (List Value)
  | [] => .ok []
  | node :: rest => do
      let value ← node.complete
      return value :: (← completeElements rest)

end

mutual

def Node.strings : Node → List String
  | .leaf (.str s) => [s]
  | .leaf _ => []
  | .dict _ items => itemsStrings items
  | .list _ elements => elementsStrings elements

def itemsStrings : List (String × Node) → List String
  | [] => []
  | (_, node) :: rest => node.strings ++ itemsStrings rest

def elementsStrings : List Node → List String
  | [] => []
  | node :: rest => node.strings ++ elementsStrings rest

end

mutual

def Node.listed : Node → List String
  | .leaf _ => []
  | .dict _ items => itemsListed items
  | .list _ elements => elementsStrings elements

def itemsListed : List (String × Node) → List String
  | [] => []
  | (_, node) :: rest => node.listed ++ itemsListed rest

end

def Stable (s : String) : Prop :=
  translateText env data s = .ok (.str s)

theorem complete_leaf_iff (leaf : Leaf) :
    (Node.leaf leaf).complete env data = .ok leaf.value ↔
      ∀ s ∈ (Node.leaf leaf).strings, Stable env data s := by
  cases leaf with
  | str s =>
    have one : (∀ s' ∈ (Node.leaf (.str s)).strings, Stable env data s') ↔ Stable env data s := by
      simp [Node.strings]
    rw [one, Node.complete, Stable]
    cases translateText env data s with
    | error e => simp [Except.map]
    | ok leaf => cases leaf <;> simp [Except.map, Leaf.value]
  | _ => exact iff_of_true rfl fun _ member => absurd member List.not_mem_nil

mutual

theorem complete_eq_value_iff (node : Node) :
    node.complete env data = .ok node.value ↔ ∀ s ∈ node.strings, Stable env data s := by
  cases node with
  | leaf leaf => exact complete_leaf_iff env data leaf
  | dict address items =>
    rw [Node.strings, ← completeItems_eq_value_iff items, Node.complete, Node.value]
    cases completeItems env data items <;> simp
  | list address elements =>
    rw [Node.strings, ← completeElements_eq_value_iff elements, Node.complete, Node.value]
    cases completeElements env data elements <;> simp

theorem completeItems_eq_value_iff (items : List (String × Node)) :
    completeItems env data items = .ok (itemsValue items) ↔
      ∀ s ∈ itemsStrings items, Stable env data s := by
  cases items with
  | nil => exact iff_of_true rfl fun _ member => absurd member List.not_mem_nil
  | cons item rest =>
    obtain ⟨key, node⟩ := item
    rw [itemsStrings, List.forall_mem_append, ← complete_eq_value_iff node,
      ← completeItems_eq_value_iff rest, completeItems, itemsValue]
    cases node.complete env data with
    | error e => simp [bind, Except.bind]
    | ok value => cases completeItems env data rest <;> simp [bind, Except.bind, pure, Except.pure]

theorem completeElements_eq_value_iff (elements : List Node) :
    completeElements env data elements = .ok (elementsValue elements) ↔
      ∀ s ∈ elementsStrings elements, Stable env data s := by
  cases elements with
  | nil => exact iff_of_true rfl fun _ member => absurd member List.not_mem_nil
  | cons node rest =>
    rw [elementsStrings, List.forall_mem_append, ← complete_eq_value_iff node,
      ← completeElements_eq_value_iff rest, completeElements, elementsValue]
    cases node.complete env data with
    | error e => simp [bind, Except.bind]
    | ok value =>
      cases completeElements env data rest <;> simp [bind, Except.bind, pure, Except.pure]

end

mutual

theorem complete_eq_iff (node : Node) {value : Value}
    (translated : translateValue env data node.value = .ok value) :
    node.complete env data = .ok value ↔ ∀ s ∈ node.listed, Stable env data s := by
  cases node with
  | leaf leaf =>
    refine iff_of_true ?_ fun _ member => absurd member List.not_mem_nil
    rw [Node.value, translateValue_leaf] at translated
    cases leaf <;> exact translated
  | dict address items =>
    rw [Node.value, translateValue] at translated
    cases found : translateDict env data (itemsValue items) with
    | error e =>
      rw [found] at translated
      cases translated
    | ok items' =>
      rw [found] at translated
      cases translated
      rw [Node.listed, ← completeItems_eq_iff items found, Node.complete]
      cases completeItems env data items <;> simp
  | list address elements =>
    have copied : Except.ok (Node.list address elements).value = Except.ok value := translated
    cases copied
    exact complete_eq_value_iff env data (.list address elements)

theorem completeItems_eq_iff (items : List (String × Node)) {items' : List (Value × Value)}
    (translated : translateDict env data (itemsValue items) = .ok items') :
    completeItems env data items = .ok items' ↔ ∀ s ∈ itemsListed items, Stable env data s := by
  cases items with
  | nil =>
    cases translated
    exact iff_of_true rfl fun _ member => absurd member List.not_mem_nil
  | cons item rest =>
    obtain ⟨key, node⟩ := item
    rw [itemsValue, translateDict] at translated
    obtain ⟨value, first, translated⟩ := ok_of_bind translated
    obtain ⟨rest', later, translated⟩ := ok_of_bind translated
    cases translated
    rw [itemsListed, List.forall_mem_append, ← complete_eq_iff node first,
      ← completeItems_eq_iff rest later, completeItems]
    cases node.complete env data with
    | error e => simp [bind, Except.bind]
    | ok value => cases completeItems env data rest <;> simp [bind, Except.bind, pure, Except.pure]

end

/-! ## Objects that are left alone -/

def Spares (start : Nat) (heap : Heap) : Prop :=
  start ≤ heap.next ∧ ∀ address ∈ heap.changed, start ≤ address

variable {start : Nat}

theorem spares_create {α : Type} {rest : Nat → Run α}
    (later : ∀ new, start ≤ new → Safe (Spares start) (rest new)) :
    Safe (Spares start) (create >>= rest) := by
  intro heap spares
  have created : Spares start { heap with next := heap.next + 1 } :=
    ⟨Nat.le_succ_of_le spares.1, spares.2⟩
  exact later heap.next spares.1 _ created

theorem spares_change {new : Nat} (fresh : start ≤ new) : Safe (Spares start) (change new) := by
  refine Triple.modify fun heap spares => ⟨spares.1, fun address member => ?_⟩
  obtain member | member := List.mem_append.mp member
  · exact spares.2 address member
  · rw [List.mem_singleton.mp member]
    exact fresh

mutual

theorem spares_deepcopy (node : Node) : Safe (Spares start) node.deepcopy := by
  cases node with
  | leaf leaf => exact safe_pure _
  | dict address items =>
    exact spares_create fun new fresh => (spares_copyItems fresh items).bind fun _ => safe_pure _
  | list address elements =>
    exact spares_create fun new fresh =>
      (spares_copyElements fresh elements).bind fun _ => safe_pure _

theorem spares_copyItems {new : Nat} (fresh : start ≤ new) (items : List (String × Node)) :
    Safe (Spares start) (copyItems new items) := by
  cases items with
  | nil => exact safe_pure _
  | cons item rest =>
    obtain ⟨key, node⟩ := item
    exact (spares_deepcopy node).bind fun _ => (spares_change fresh).bind fun _ =>
      (spares_copyItems fresh rest).bind fun _ => safe_pure _

theorem spares_copyElements {new : Nat} (fresh : start ≤ new) (elements : List Node) :
    Safe (Spares start) (copyElements new elements) := by
  cases elements with
  | nil => exact safe_pure _
  | cons node rest =>
    exact (spares_deepcopy node).bind fun _ => (spares_change fresh).bind fun _ =>
      (spares_copyElements fresh rest).bind fun _ => safe_pure _

end

mutual

theorem spares_translate (node : Node) : Safe (Spares start) (node.translate env data) := by
  cases node with
  | leaf leaf =>
    cases leaf with
    | str s =>
      intro heap spares
      rw [Node.translate, exec_bind, exec_lift]
      cases translateText env data s <;> exact spares
    | _ => exact safe_pure _
  | dict address items =>
    rw [Node.translate]
    split
    · exact safe_pure _
    · exact spares_create fun new fresh =>
        (spares_translateItems fresh items).bind fun _ => safe_pure _
  | list address elements => exact spares_deepcopy (.list address elements)

theorem spares_translateItems {new : Nat} (fresh : start ≤ new) (items : List (String × Node)) :
    Safe (Spares start) (translateItems env data new items) := by
  cases items with
  | nil => exact safe_pure _
  | cons item rest =>
    obtain ⟨key, node⟩ := item
    exact (spares_translate node).bind fun _ => (spares_change fresh).bind fun _ =>
      (spares_translateItems fresh rest).bind fun _ => safe_pure _

end

/-! ## Completeness -/

structure Complete (node : Node) (next : Nat) : Prop where
  whole : ∀ node', ((node.translate env data).exec ⟨next, []⟩).1 = .ok node' →
    node.complete env data = .ok node'.value
  unchanged : ∀ address < next,
    address ∉ ((node.translate env data).exec ⟨next, []⟩).2.changed

/-- The translation is complete exactly when the texts beneath lists need none, unless it raises. -/
theorem translation_complete_iff (address : Nat) (items : List (String × Node)) (next : Nat) :
    Complete env data (.dict address items) next ↔
      ((∃ items', translateDict env data (itemsValue items) = .ok items') →
        ∀ s ∈ itemsListed items, Stable env data s) := by
  have unchanged : ∀ address' < next, address' ∉
      (((Node.dict address items).translate env data).exec ⟨next, []⟩).2.changed := by
    intro address' old member
    have start : Spares next (⟨next, []⟩ : Heap) :=
      ⟨Nat.le_refl _, fun _ absent => absurd absent List.not_mem_nil⟩
    have spares := (spares_translate env data (.dict address items)).final start
    exact absurd (spares.2 address' member) (Nat.not_le.mpr old)
  have value := value_translate env data (.dict address items) ⟨next, []⟩
  constructor
  · rintro ⟨whole, -⟩ ⟨items', translated⟩
    cases returned : (((Node.dict address items).translate env data).exec ⟨next, []⟩).1 with
    | error e =>
      rw [returned, Node.value, translateValue, translated] at value
      cases value
    | ok node' =>
      rw [returned] at value
      exact (complete_eq_iff env data _ value.symm).mp (whole node' returned)
  · intro stable
    refine ⟨fun node' returned => ?_, unchanged⟩
    rw [returned] at value
    refine (complete_eq_iff env data _ value.symm).mpr (stable ?_)
    rw [Node.value, translateValue] at value
    cases found : translateDict env data (itemsValue items) with
    | error e =>
      rw [found] at value
      cases value
    | ok items' => exact ⟨items', rfl⟩

end Translation

theorem translateText_plain : translateText plainDisplay [] "translate:Name" = .ok (.str "Name") := by
  have rest : String.ofList ("translate:Name".toList.drop translatePrefix.length) = "Name" := by
    decide
  rw [translateText, if_pos (by decide), rest, translate, if_neg (by decide)]
  rfl

theorem listed_text_not_translated :
    ¬ Complete plainDisplay [] (.dict 0 [("names", .list 1 [.leaf (.str "translate:Name")])]) 2 := by
  intro complete
  have listed : "translate:Name" ∈
      (Node.dict 0 [("names", .list 1 [.leaf (.str "translate:Name")])]).listed :=
    List.mem_cons_self
  have whole := complete.whole (.dict 2 [("names", .list 3 [.leaf (.str "translate:Name")])]) rfl
  have stable := (complete_eq_iff plainDisplay [] _ rfl).mp whole _ listed
  rw [Stable, translateText_plain] at stable
  have same : "Name" = "translate:Name" := by
    injection stable with leaf
    injection leaf
  exact absurd same (by decide)

end Plinth.Notification
