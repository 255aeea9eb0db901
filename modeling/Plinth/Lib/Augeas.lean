import Mathlib.Data.List.Basic

/-!
# Trees of Augeas

A configuration file as a tree, and what path expressions say about it. Nodes of one label are
numbered among their siblings, from 0 here. A file that is saved is loaded as the same tree.
-/

namespace Augeas

structure Node where
  label : String
  value : Option String
  children : List Node

/-- `[last() + 1]`, `[last()]` and `[i]` -/
inductive Index
  | new
  | last
  | nth (i : Nat)
  deriving DecidableEq, Repr

structure Step where
  label : String
  index : Index

namespace Node

def leaf (label value : String) : Node :=
  ⟨label, some value, []⟩

def push (node child : Node) : Node :=
  { node with children := node.children ++ [child] }

/-- The children that `label` matches. -/
def labelled (label : String) (node : Node) : List Node :=
  node.children.filter fun child => child.label = label

end Node

def count (label : String) (nodes : List Node) : Nat :=
  nodes.countP fun node => node.label = label

def Index.position (n : Nat) : Index → Nat
  | .new => n
  | .last => n - 1
  | .nth i => i - 1

/-! ## One of the nodes of a label -/

def nth (label : String) : Nat → List Node → Option Node
  | _, [] => none
  | 0, node :: nodes => if node.label = label then some node else nth label 0 nodes
  | i + 1, node :: nodes =>
    if node.label = label then nth label i nodes else nth label (i + 1) nodes

def changeNth (label : String) (f : Node → Node) : Nat → List Node → List Node
  | _, [] => [f ⟨label, none, []⟩]
  | 0, node :: nodes =>
    if node.label = label then f node :: nodes else node :: changeNth label f 0 nodes
  | i + 1, node :: nodes =>
    node :: if node.label = label then changeNth label f i nodes
      else changeNth label f (i + 1) nodes

def removeNth (label : String) : Nat → List Node → List Node
  | _, [] => []
  | 0, node :: nodes => if node.label = label then nodes else node :: removeNth label 0 nodes
  | i + 1, node :: nodes =>
    node :: if node.label = label then removeNth label i nodes
      else removeNth label (i + 1) nodes

section Cons

variable {label : String} {f : Node → Node} {i : Nat} {node : Node} {nodes : List Node}

theorem nth_cons_of_ne (apart : node.label ≠ label) :
    nth label i (node :: nodes) = nth label i nodes := by
  cases i <;> simp [nth, apart]

theorem changeNth_cons_of_ne (apart : node.label ≠ label) :
    changeNth label f i (node :: nodes) = node :: changeNth label f i nodes := by
  cases i <;> simp [changeNth, apart]

theorem removeNth_cons_of_ne (apart : node.label ≠ label) :
    removeNth label i (node :: nodes) = node :: removeNth label i nodes := by
  cases i <;> simp [removeNth, apart]

end Cons

/-! ## Path expressions -/

namespace Node

/-- `aug.set` -/
def set (value : Option String) : List Step → Node → Node
  | [], node => { node with value := value }
  | step :: path, node =>
    let position := step.index.position (count step.label node.children)
    { node with children := changeNth step.label (set value path) position node.children }

/-- The numbers in the paths that `aug.match` returns for `label`. -/
def indexes (label : String) (node : Node) : List Nat :=
  List.range (count label node.children)

def nth (label : String) (i : Nat) (node : Node) : Option Node :=
  Augeas.nth label i node.children

/-- `aug.remove` -/
def remove (label : String) (i : Nat) (node : Node) : Node :=
  { node with children := removeNth label i node.children }

mutual

/-- `descendant-or-self::*` -/
def descendantsOrSelf : Node → List Node
  | ⟨label, value, children⟩ => ⟨label, value, children⟩ :: descendants children

def descendants : List Node → List Node
  | [] => []
  | node :: nodes => descendantsOrSelf node ++ descendants nodes

end

/-- What `//*` matches: the children of one node after the other. -/
def beneath (node : Node) : List Node :=
  node.descendantsOrSelf.flatMap Node.children

def without (label : String) (test : Node → Bool) (node : Node) : Node :=
  { node with
    children := node.children.filter fun child => !(decide (child.label = label) && test child) }

/-- `aug.remove` of every node of a label -/
def removeAll (label : String) (node : Node) : Node :=
  node.without label fun _ => true

/-- The values of the children that `label` matches. -/
def values (label : String) (node : Node) : List (Option String) :=
  (node.labelled label).map Node.value

/-- `aug.get` without a number, where several nodes are an error -/
def getOne {ε : Type} (several : ε) (label : String) (node : Node) : Except ε (Option String) :=
  match node.values label with
  | [] => .ok none
  | [value] => .ok value
  | _ => .error several

/-- `aug.set` without a number -/
def setOne {ε : Type} (several : ε) (label value : String) (node : Node) : Except ε Node :=
  if 1 < (node.values label).length then .error several
  else .ok (node.set (some value) [⟨label, .nth 1⟩])

def removeIf {ε : Type} (label : String) (found : Node → Except ε Bool) (node : Node) (i : Nat) :
    Except ε Node :=
  match node.nth label i with
  | none => pure node
  | some child => do
      if ← found child then pure (node.remove label i)
      else pure node

def removeWhere {ε : Type} (label : String) (found : Node → Except ε Bool) (node : Node) :
    Except ε Node :=
  (node.indexes label).foldlM (removeIf label found) node

end Node

/-! ## Nodes after others -/

section Append

variable (label : String) (nodes rest : List Node)

theorem count_append : count label (nodes ++ rest) = count label nodes + count label rest :=
  List.countP_append

theorem count_cons (node : Node) :
    count label (node :: nodes) = count label nodes + if node.label = label then 1 else 0 := by
  simp [count, List.countP_cons]

theorem nth_append (i : Nat) :
    nth label (count label nodes + i) (nodes ++ rest) = nth label i rest := by
  induction nodes with
  | nil => simp [count]
  | cons node nodes ih =>
    rw [List.cons_append, count_cons]
    by_cases same : node.label = label
    · rw [if_pos same, Nat.add_right_comm, nth, if_pos same, ih]
    · rw [if_neg same, Nat.add_zero, nth_cons_of_ne same, ih]

theorem changeNth_append (f : Node → Node) (i : Nat) :
    changeNth label f (count label nodes + i) (nodes ++ rest) =
      nodes ++ changeNth label f i rest := by
  induction nodes with
  | nil => simp [count]
  | cons node nodes ih =>
    rw [List.cons_append, count_cons]
    by_cases same : node.label = label
    · rw [if_pos same, Nat.add_right_comm, changeNth, if_pos same, ih]
      rfl
    · rw [if_neg same, Nat.add_zero, changeNth_cons_of_ne same, ih]
      rfl

theorem removeNth_append (i : Nat) :
    removeNth label (count label nodes + i) (nodes ++ rest) = nodes ++ removeNth label i rest := by
  induction nodes with
  | nil => simp [count]
  | cons node nodes ih =>
    rw [List.cons_append, count_cons]
    by_cases same : node.label = label
    · rw [if_pos same, Nat.add_right_comm, removeNth, if_pos same, ih]
      rfl
    · rw [if_neg same, Nat.add_zero, removeNth_cons_of_ne same, ih]
      rfl

end Append

theorem of_nth {label : String} {i : Nat} {nodes : List Node} {node : Node}
    (found : nth label i nodes = some node) : node ∈ nodes ∧ node.label = label := by
  induction nodes generalizing i with
  | nil => cases found
  | cons first nodes ih =>
    by_cases same : first.label = label
    · cases i with
      | zero =>
        rw [nth, if_pos same] at found
        cases found
        exact ⟨List.mem_cons_self, same⟩
      | succ i =>
        rw [nth, if_pos same] at found
        exact ⟨List.mem_cons_of_mem _ (ih found).1, (ih found).2⟩
    · rw [nth_cons_of_ne same] at found
      exact ⟨List.mem_cons_of_mem _ (ih found).1, (ih found).2⟩

theorem nth_of_ne {label : String} {i : Nat} {nodes rest : List Node} {node other : Node}
    (named : node.label = label) (found : nth label i (nodes ++ node :: rest) = some other)
    (differ : i ≠ count label nodes) : other ∈ nodes ++ rest := by
  induction nodes generalizing i with
  | nil =>
    cases i with
    | zero => exact absurd rfl differ
    | succ i =>
      rw [List.nil_append, nth, if_pos named] at found
      exact (of_nth found).1
  | cons first nodes ih =>
    rw [List.cons_append] at found
    rw [count_cons] at differ
    by_cases same : first.label = label
    · rw [if_pos same] at differ
      cases i with
      | zero =>
        rw [nth, if_pos same] at found
        cases found
        exact List.mem_cons_self
      | succ i =>
        rw [nth, if_pos same] at found
        exact List.mem_cons_of_mem _ (ih found fun h => differ (congrArg (· + 1) h))
    · rw [if_neg same] at differ
      rw [nth_cons_of_ne same] at found
      exact List.mem_cons_of_mem _ (ih found differ)

namespace Node

/-! ## Nodes that are added -/

section Set

variable {label : String} {value : Option String} {path : List Step}

theorem set_new (node : Node) :
    node.set value (⟨label, .new⟩ :: path) = node.push (set value path ⟨label, none, []⟩) := by
  have added := changeNth_append label node.children [] (set value path) 0
  rw [List.append_nil, Nat.add_zero] at added
  rw [set, push]
  exact congrArg (Node.mk node.label node.value) added

theorem set_last {child : Node} (named : child.label = label) (node : Node) :
    (node.push child).set value (⟨label, .last⟩ :: path) = node.push (child.set value path) := by
  have changed := changeNth_append label node.children [child] (set value path) 0
  have position : count label (node.children ++ [child]) - 1 = count label node.children + 0 := by
    rw [count_append, count_cons]
    simp [named, count]
  rw [set, push, push]
  dsimp only [Index.position]
  rw [position, changed]
  simp [changeNth, named]

theorem set_next {i : Nat} {node : Node} (next : count label node.children = i) :
    node.set value (⟨label, .nth (i + 1)⟩ :: path) =
      node.push (set value path ⟨label, none, []⟩) := by
  rw [← set_new, set, set]
  simp [Index.position, next]

end Set

/-! ## Nodes that are removed -/

section Remove

variable {ε : Type} {label : String} {found : Node → Except ε Bool}

theorem removeWhere_of_none {node : Node}
    (none : ∀ child ∈ node.labelled label, found child = .ok false) (indexes : List Nat) :
    indexes.foldlM (removeIf label found) node = .ok node := by
  induction indexes with
  | nil => rfl
  | cons i indexes ih =>
    rw [List.foldlM_cons, removeIf]
    cases isThere : node.nth label i with
    | none => exact ih
    | some child =>
      have member := of_nth isThere
      have notFound := none child (List.mem_filter.mpr ⟨member.1, decide_eq_true member.2⟩)
      simp only [notFound]
      exact ih

theorem removeWhere_of_one {node child : Node} {before after : List Node}
    (split : node.children = before ++ child :: after) (named : child.label = label)
    (isFound : found child = .ok true)
    (none : ∀ child ∈ before ++ after, child.label = label → found child = .ok false)
    {indexes : List Nat} (counted : count label before ∈ indexes) :
    indexes.foldlM (removeIf label found) node = .ok { node with children := before ++ after } := by
  have others : ∀ other ∈ labelled label { node with children := before ++ after },
      found other = .ok false := by
    intro other member
    obtain ⟨member, named⟩ := List.mem_filter.mp member
    exact none other member (of_decide_eq_true named)
  induction indexes with
  | nil => cases counted
  | cons i indexes ih =>
    rw [List.foldlM_cons, removeIf]
    by_cases here : i = count label before
    · have isThere : node.nth label i = some child := by
        have found := nth_append label before (child :: after) 0
        rw [nth, split, here]
        simpa [Augeas.nth, named] using found
      have removed : node.remove label i = { node with children := before ++ after } := by
        have removed := removeNth_append label before (child :: after) 0
        rw [remove, split, here]
        exact congrArg (Node.mk node.label node.value) (by simpa [removeNth, named] using removed)
      simp only [isThere, isFound]
      show (Except.ok (node.remove label i) >>= _) = _
      rw [removed]
      exact removeWhere_of_none others indexes
    · have later := ih ((List.mem_cons.mp counted).resolve_left fun h => here h.symm)
      cases isThere : node.nth label i with
      | none => exact later
      | some other =>
        have thisLabel := (of_nth isThere).2
        rw [nth, split] at isThere
        have notFound := none other (nth_of_ne named isThere here) thisLabel
        simp only [notFound]
        exact later

omit label found in
theorem filter_not_of_fails {test : Node → Bool} {nodes : List Node}
    (fails : ∀ node ∈ nodes, ¬ test node = true) : (nodes.filter fun node => !test node) = nodes := by
  rw [List.filter_eq_self]
  intro node member
  simpa using fails node member

theorem removeWhere_eq {node : Node} {test : Node → Bool}
    (decided : ∀ child ∈ node.labelled label, found child = .ok (test child))
    (single : ((node.labelled label).filter test).length ≤ 1) :
    node.removeWhere label found = .ok (node.without label test) := by
  have filtered : (node.labelled label).filter test =
      node.children.filter fun child => decide (child.label = label) && test child := by
    rw [labelled, List.filter_filter]
    congr 1
    funext child
    exact Bool.and_comm _ _
  rw [filtered] at single
  have notFound : ∀ child ∈ node.children,
      ¬ (decide (child.label = label) && test child) = true → child.label = label →
        found child = .ok false := by
    intro child member fails named
    rw [decided child (List.mem_filter.mpr ⟨member, decide_eq_true named⟩)]
    simpa [named] using fails
  unfold removeWhere without
  cases chosen : node.children.filter fun child => decide (child.label = label) && test child with
  | nil =>
    have fails := List.filter_eq_nil_iff.mp chosen
    have kept : node.children.filter
        (fun child => !(decide (child.label = label) && test child)) = node.children :=
      filter_not_of_fails fails
    rw [kept]
    have noneFound : ∀ child ∈ node.labelled label, found child = .ok false := by
      intro child member
      obtain ⟨member, named⟩ := List.mem_filter.mp member
      exact notFound child member (fails child member) (of_decide_eq_true named)
    cases node
    exact removeWhere_of_none noneFound _
  | cons child others =>
    rw [chosen] at single
    have alone : others = [] := List.eq_nil_of_length_eq_zero (by simpa using single)
    obtain ⟨before, after, parts, failBefore, holds, failAfter⟩ :=
      List.filter_eq_cons_iff.mp chosen
    rw [alone] at failAfter
    have failAfter := List.filter_eq_nil_iff.mp failAfter
    have holds := holds
    rw [Bool.and_eq_true, decide_eq_true_eq] at holds
    have kept : node.children.filter
        (fun child => !(decide (child.label = label) && test child)) = before ++ after := by
      have keepBefore : before.filter
          (fun child => !(decide (child.label = label) && test child)) = before :=
        filter_not_of_fails failBefore
      have keepAfter : after.filter
          (fun child => !(decide (child.label = label) && test child)) = after :=
        filter_not_of_fails failAfter
      rw [parts, List.filter_append, List.filter_cons, keepBefore, keepAfter]
      simp [holds.1, holds.2]
    rw [kept]
    have inside : child ∈ node.labelled label := by
      rw [labelled, parts]
      simp [holds.1]
    apply removeWhere_of_one parts holds.1
    · rw [decided child inside, holds.2]
    · intro other member named
      rcases List.mem_append.mp member with member | member
      · exact notFound other (by simp [parts, member]) (failBefore other member) named
      · exact notFound other (by simp [parts, member]) (failAfter other member) named
    · rw [indexes, parts, List.mem_range, count_append, count_cons]
      simp [holds.1]

end Remove

theorem labelled_without (label : String) (test : Node → Bool) (node : Node) :
    (node.without label test).labelled label =
      (node.labelled label).filter fun child => !test child := by
  rw [labelled, labelled, without, List.filter_filter, List.filter_filter]
  congr 1
  funext child
  by_cases named : child.label = label <;> simp [named]

theorem labelled_without_of_ne {label other : String} (differ : other ≠ label)
    (test : Node → Bool) (node : Node) :
    (node.without label test).labelled other = node.labelled other := by
  rw [labelled, labelled, without, List.filter_filter]
  congr 1
  funext child
  by_cases named : child.label = other <;> simp [named, differ]

theorem labelled_push (label : String) (node child : Node) :
    (node.push child).labelled label =
      node.labelled label ++ if child.label = label then [child] else [] := by
  rw [labelled, push, List.filter_append, List.filter_singleton]
  by_cases named : child.label = label <;> simp [named, labelled]

/-! ## Values of a label -/

section Values

variable {label other : String} {value : Option String}

theorem values_changeNth (f : Node → Node) (named : ∀ node, (f node).label = node.label)
    (changed : ∀ node, (f node).value = value) (i : Nat) (nodes : List Node) :
    ((changeNth label f i nodes).filter fun child => child.label = label).map Node.value =
      let before := (nodes.filter fun child => child.label = label).map Node.value
      if i < before.length then before.set i value else before ++ [value] := by
  induction nodes generalizing i with
  | nil => simp [changeNth, named, changed]
  | cons node nodes ih =>
    by_cases same : node.label = label
    · cases i with
      | zero => simp [changeNth, same, named, changed]
      | succ i =>
        have later := ih i
        simp only [changeNth, same, if_true, List.filter_cons, decide_true, List.map_cons,
          later, List.length_cons, Nat.add_lt_add_iff_right, List.set_cons_succ]
        split <;> rfl
    · rw [changeNth_cons_of_ne same]
      simp only [List.filter_cons, same, decide_false, Bool.false_eq_true, if_false]
      exact ih i

theorem labelled_changeNth_of_ne (differ : other ≠ label) (f : Node → Node)
    (named : ∀ node, (f node).label = node.label) (i : Nat) (nodes : List Node) :
    ((changeNth label f i nodes).filter fun child => child.label = other) =
      nodes.filter fun child => child.label = other := by
  induction nodes generalizing i with
  | nil => simp [changeNth, named, Ne.symm differ]
  | cons node nodes ih =>
    by_cases same : node.label = label
    · cases i with
      | zero => simp [changeNth, same, named, Ne.symm differ]
      | succ i => simp [changeNth, same, Ne.symm differ, ih]
    · rw [changeNth_cons_of_ne same, List.filter_cons, List.filter_cons, ih]

theorem values_set_nth (i : Nat) (node : Node) :
    (node.set value [⟨label, .nth (i + 1)⟩]).values label =
      if i < (node.values label).length then (node.values label).set i value
      else node.values label ++ [value] :=
  values_changeNth (set value []) (fun _ => rfl) (fun _ => rfl) i node.children

theorem values_set_of_ne (differ : other ≠ label) (index : Index) (node : Node) :
    (node.set value [⟨label, index⟩]).values other = node.values other :=
  congrArg (List.map Node.value) (labelled_changeNth_of_ne differ (set value []) (fun _ => rfl) _ node.children)

theorem values_set_new (node : Node) :
    (node.set value [⟨label, .new⟩]).values label = node.values label ++ [value] := by
  rw [set_new, values, labelled_push, List.map_append]
  simp [set, values]

@[simp] theorem values_removeAll (label : String) (node : Node) :
    (node.removeAll label).values label = [] := by
  rw [values, removeAll, labelled_without]
  simp

theorem values_removeAll_of_ne (differ : other ≠ label) (node : Node) :
    (node.removeAll label).values other = node.values other := by
  rw [values, removeAll, labelled_without_of_ne differ]
  rfl

theorem getOne_of_le {ε : Type} {several : ε} {node : Node}
    (single : (node.values label).length ≤ 1) :
    getOne several label node = .ok (node.values label).head?.join := by
  unfold getOne
  match all : node.values label with
  | [] => rfl
  | [value] => rfl
  | _ :: _ :: _ =>
    rw [all] at single
    simp at single

theorem setOne_of_le {ε : Type} {several : ε} {value : String} {node : Node}
    (single : (node.values label).length ≤ 1) :
    setOne several label value node = .ok (node.set (some value) [⟨label, .nth 1⟩]) :=
  if_neg (Nat.not_lt.mpr single)

theorem values_setOne {value : String} {node : Node} (single : (node.values label).length ≤ 1) :
    (node.set (some value) [⟨label, .nth 1⟩]).values label = [some value] := by
  rw [values_set_nth]
  match all : node.values label with
  | [] => rfl
  | [_] => rfl
  | _ :: _ :: _ =>
    rw [all] at single
    simp at single

end Values

/-! ## Below a node -/

theorem flatMap_descendants (nodes : List Node) :
    (descendants nodes).flatMap Node.children = nodes.flatMap beneath := by
  induction nodes with
  | nil => rfl
  | cons node nodes ih =>
    rw [descendants, List.flatMap_append, ih]
    rfl

theorem beneath_eq (node : Node) :
    node.beneath = node.children ++ node.children.flatMap beneath := by
  cases node
  rw [← flatMap_descendants]
  rfl

@[simp] theorem beneath_leaf (label value : String) : (leaf label value).beneath = [] := rfl

end Node

end Augeas
