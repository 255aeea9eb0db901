import Mathlib.Data.List.Nodup
import Plinth.Lib.Fold

/-!
# Dictionaries in insertion order

A dictionary that remembers the order in which its keys were first set. Setting a key that is
present replaces its value in place; the keys stay distinct, and the structure says so.
-/

structure OrderedDict (κ ν : Type*) where
  entries : List (κ × ν)
  nodup : (entries.map Prod.fst).Nodup

namespace OrderedDict

variable {κ ν : Type*}

@[ext] theorem ext {d d' : OrderedDict κ ν} (h : d.entries = d'.entries) : d = d' := by
  cases d
  cases d'
  simpa using h

def empty : OrderedDict κ ν := ⟨[], List.nodup_nil⟩

def keys (d : OrderedDict κ ν) : List κ := d.entries.map Prod.fst

def values (d : OrderedDict κ ν) : List ν := d.entries.map Prod.snd

def filter (keep : κ × ν → Bool) (d : OrderedDict κ ν) : OrderedDict κ ν :=
  ⟨d.entries.filter keep, d.nodup.sublist (List.filter_sublist.map Prod.fst)⟩

def mapValues {μ : Type*} (f : ν → μ) (d : OrderedDict κ ν) : OrderedDict κ μ where
  entries := d.entries.map fun entry => (entry.1, f entry.2)
  nodup := by
    have keys : (d.entries.map fun entry => (entry.1, f entry.2)).map Prod.fst =
        d.entries.map Prod.fst := by
      rw [List.map_map]
      rfl
    rw [keys]
    exact d.nodup

theorem values_filter (d : OrderedDict κ ν) (keep : κ × ν → Bool) (keepValue : ν → Bool)
    (same : ∀ entry ∈ d.entries, keep entry = keepValue entry.2) :
    (d.filter keep).values = d.values.filter keepValue := by
  rw [values, values, filter, List.filter_map]
  congr 1
  exact List.filter_congr same

section Lookup

variable [DecidableEq κ]

def get? (d : OrderedDict κ ν) (k : κ) : Option ν :=
  (d.entries.find? (fun entry => entry.1 = k)).map Prod.snd

def erase (d : OrderedDict κ ν) (k : κ) : OrderedDict κ ν :=
  d.filter (fun entry => entry.1 ≠ k)

def setEntry (k : κ) (v : ν) : List (κ × ν) → List (κ × ν)
  | [] => [(k, v)]
  | entry :: rest => if entry.1 = k then (k, v) :: rest else entry :: setEntry k v rest

theorem keys_setEntry (k : κ) (v : ν) (entries : List (κ × ν)) :
    (setEntry k v entries).map Prod.fst =
      if k ∈ entries.map Prod.fst then entries.map Prod.fst else entries.map Prod.fst ++ [k] := by
  induction entries with
  | nil => simp [setEntry]
  | cons entry rest ih =>
    by_cases same : entry.1 = k
    · simp [setEntry, same]
    · have other : k ≠ entry.1 := fun h => same h.symm
      simp only [setEntry, if_neg same, List.map_cons, ih, List.mem_cons, other, false_or]
      split <;> simp

def set (d : OrderedDict κ ν) (k : κ) (v : ν) : OrderedDict κ ν where
  entries := setEntry k v d.entries
  nodup := by
    rw [keys_setEntry]
    split
    · exact d.nodup
    · rename_i absent
      exact List.nodup_append.mpr ⟨d.nodup, List.nodup_singleton k, by
        rintro a mem b hb rfl
        rw [List.mem_singleton] at hb
        exact absent (hb ▸ mem)⟩

theorem keys_set_of_mem (d : OrderedDict κ ν) {k : κ} (member : k ∈ d.keys) (v : ν) :
    (d.set k v).keys = d.keys := by
  change (setEntry k v d.entries).map Prod.fst = d.entries.map Prod.fst
  rw [keys_setEntry]
  exact if_pos member

theorem keys_set_of_not_mem (d : OrderedDict κ ν) {k : κ} (absent : k ∉ d.keys) (v : ν) :
    (d.set k v).keys = d.keys ++ [k] := by
  change (setEntry k v d.entries).map Prod.fst = d.entries.map Prod.fst ++ [k]
  rw [keys_setEntry]
  exact if_neg absent

theorem setEntry_of_absent (k : κ) (v : ν) (entries : List (κ × ν))
    (absent : k ∉ entries.map Prod.fst) : setEntry k v entries = entries ++ [(k, v)] := by
  induction entries with
  | nil => rfl
  | cons entry rest ih =>
    simp only [List.map_cons, List.mem_cons, not_or] at absent
    simp [setEntry, Ne.symm absent.1, ih absent.2]

theorem get?_eq_some_iff (d : OrderedDict κ ν) (k : κ) (v : ν) :
    d.get? k = some v ↔ (k, v) ∈ d.entries := by
  obtain ⟨entries, nodup⟩ := d
  simp only [get?]
  induction entries with
  | nil => simp
  | cons entry rest ih =>
    obtain ⟨fresh, nodup'⟩ := List.nodup_cons.mp nodup
    by_cases same : entry.1 = k
    · subst same
      have absent : (entry.1, v) ∉ rest := fun mem => fresh (List.mem_map.mpr ⟨_, mem, rfl⟩)
      simp [absent, Prod.ext_iff, eq_comm]
    · have other : (k, v) ≠ entry := by
        rintro rfl
        exact same rfl
      simp [same, other, ih nodup']

theorem get?_eq_none_iff (d : OrderedDict κ ν) (k : κ) :
    d.get? k = none ↔ ∀ v, (k, v) ∉ d.entries := by
  rw [Option.eq_none_iff_forall_ne_some]
  simp only [ne_eq, get?_eq_some_iff]

@[simp] theorem get?_empty (k : κ) : (empty : OrderedDict κ ν).get? k = none := rfl

theorem get?_set (d : OrderedDict κ ν) (k k' : κ) (v : ν) :
    (d.set k v).get? k' = if k' = k then some v else d.get? k' := by
  simp only [get?, set]
  induction d.entries with
  | nil =>
    by_cases same : k = k'
    · simp [setEntry, same]
    · simp [setEntry, same, Ne.symm same]
  | cons entry rest ih =>
    by_cases here : entry.1 = k
    · by_cases same : k = k'
      · simp [setEntry, here, same]
      · simp [setEntry, here, same, Ne.symm same]
    · by_cases there : entry.1 = k'
      · have other : k' ≠ k := fun h => here (there.trans h)
        simp [setEntry, there, other]
      · simp [setEntry, here, there, ih]

@[simp] theorem get?_set_self (d : OrderedDict κ ν) (k : κ) (v : ν) :
    (d.set k v).get? k = some v := by
  simp [get?_set]

theorem mem_entries_set {d : OrderedDict κ ν} {k : κ} {v : ν} {entry : κ × ν}
    (member : entry ∈ (d.set k v).entries) : entry = (k, v) ∨ entry ∈ d.entries := by
  have found := (get?_eq_some_iff (d.set k v) entry.1 entry.2).mpr member
  rw [get?_set] at found
  split at found
  · rename_i same
    cases found
    exact .inl (Prod.ext same rfl)
  · exact .inr ((get?_eq_some_iff d entry.1 entry.2).mp found)

theorem flatMap_set_perm {α : Type*} (f : ν → List α) (d : OrderedDict κ ν) (k : κ) :
    ∃ rest, (d.entries.flatMap fun entry => f entry.2).Perm (((d.get? k).map f).getD [] ++ rest) ∧
      ∀ v, ((d.set k v).entries.flatMap fun entry => f entry.2).Perm (f v ++ rest) := by
  simp only [get?, set]
  induction d.entries with
  | nil => exact ⟨[], .refl _, fun v => .refl _⟩
  | cons entry entries ih =>
    by_cases same : entry.1 = k
    · refine ⟨entries.flatMap fun entry => f entry.2, ?_, fun v => ?_⟩
      · simp [same]
      · simp [setEntry, same]
    · obtain ⟨rest, before, after⟩ := ih
      refine ⟨f entry.2 ++ rest, ?_, fun v => ?_⟩
      · rw [List.flatMap_cons, List.find?_cons_of_neg (by simpa using same)]
        exact (before.append_left _).trans (List.perm_append_comm_assoc _ _ _)
      · rw [setEntry, if_neg same, List.flatMap_cons]
        exact ((after v).append_left _).trans (List.perm_append_comm_assoc _ _ _)

theorem values_set_perm (d : OrderedDict κ ν) (k : κ) (v : ν) :
    ((d.get? k).toList ++ (d.set k v).values).Perm (d.values ++ [v]) := by
  obtain ⟨rest, before, after⟩ := d.flatMap_set_perm (fun v => [v]) k
  have now := after v
  have taken : ((d.get? k).map fun v => [v]).getD [] = (d.get? k).toList := by
    cases d.get? k <;> rfl
  rw [← List.map_eq_flatMap] at before now
  rw [taken] at before
  have moved := now.append_left (d.get? k).toList
  have middle := List.perm_append_comm_assoc (d.get? k).toList [v] rest
  exact moved.trans (middle.trans ((before.symm.append_left [v]).trans List.perm_append_comm))

theorem values_erase_perm (d : OrderedDict κ ν) (k : κ) :
    ((d.get? k).toList ++ (d.erase k).values).Perm d.values := by
  obtain ⟨entries, nodup⟩ := d
  simp only [get?, erase, filter, values]
  induction entries with
  | nil => simp
  | cons entry entries ih =>
    obtain ⟨fresh, nodup'⟩ := List.nodup_cons.mp nodup
    by_cases same : entry.1 = k
    · have others : entries.filter (fun other => other.1 ≠ k) = entries := by
        apply List.filter_eq_self.mpr
        intro other member
        have different : other.1 ≠ entry.1 := fun equal =>
          fresh (List.mem_map.mpr ⟨other, member, equal⟩)
        simpa [same] using different
      simp only [ne_eq, decide_not] at others
      simp [same, others]
    · simp only [same, decide_false, List.find?_cons_of_neg, ne_eq, not_false_eq_true,
        decide_true, List.filter_cons_of_pos, List.map_cons, Bool.false_eq_true]
      exact List.perm_middle.trans ((ih nodup').cons entry.2)

theorem get?_filter (d : OrderedDict κ ν) (keep : κ × ν → Bool) (k : κ) (v : ν) :
    (d.filter keep).get? k = some v ↔ d.get? k = some v ∧ keep (k, v) = true := by
  simp only [get?_eq_some_iff, filter, List.mem_filter]

theorem get?_erase (d : OrderedDict κ ν) (k k' : κ) :
    (d.erase k).get? k' = if k' = k then none else d.get? k' := by
  apply Option.ext
  intro v
  rw [erase, get?_filter]
  by_cases same : k' = k <;> simp [same]

def ofEntries (entries : List (κ × ν)) : OrderedDict κ ν :=
  entries.foldl (fun d entry => d.set entry.1 entry.2) empty

/-- `d | other` -/
def update (d : OrderedDict κ ν) (other : List (κ × ν)) : OrderedDict κ ν :=
  other.foldl (fun d entry => d.set entry.1 entry.2) d

def ofValues (key : ν → κ) (values : List ν) : OrderedDict κ ν :=
  ofEntries (values.map fun v => (key v, v))

theorem entries_foldl_set (entries : List (κ × ν)) (d : OrderedDict κ ν)
    (distinct : (d.keys ++ entries.map Prod.fst).Nodup) :
    (entries.foldl (fun d entry => d.set entry.1 entry.2) d).entries = d.entries ++ entries := by
  induction entries generalizing d with
  | nil => simp
  | cons entry rest ih =>
    have absent : entry.1 ∉ d.entries.map Prod.fst := by
      intro mem
      exact (List.nodup_append.mp distinct).2.2 _ mem entry.1 (by simp) rfl
    have extended : (d.set entry.1 entry.2).entries = d.entries ++ [entry] :=
      setEntry_of_absent _ _ _ absent
    have distinct' : ((d.set entry.1 entry.2).keys ++ rest.map Prod.fst).Nodup := by
      simpa [keys, extended] using distinct
    simp [ih _ distinct', extended]

theorem entries_ofEntries {entries : List (κ × ν)} (distinct : (entries.map Prod.fst).Nodup) :
    (ofEntries entries).entries = entries := by
  rw [ofEntries, entries_foldl_set _ _ (by simpa [keys, empty] using distinct)]
  rfl

theorem ofValues_filter_values (key : ν → κ) (keep : ν → Bool) (d : OrderedDict κ ν)
    (keyed : ∀ entry ∈ d.entries, key entry.2 = entry.1) :
    ofValues key (d.values.filter keep) = d.filter (fun entry => keep entry.2) := by
  have kept : (d.values.filter keep).map (fun v => (key v, v)) =
      d.entries.filter (fun entry => keep entry.2) := by
    rw [values, List.filter_map, List.map_map]
    conv_rhs => rw [← List.map_id (List.filter _ d.entries)]
    apply List.map_congr_left
    intro entry mem
    exact Prod.ext (keyed entry (List.mem_filter.mp mem).1) rfl
  apply ext
  rw [ofValues, kept]
  exact entries_ofEntries (d.filter fun entry => keep entry.2).nodup

theorem length_entries_erase_lt (d : OrderedDict κ ν) {k : κ} {v : ν} (found : d.get? k = some v) :
    (d.erase k).entries.length < d.entries.length := by
  have member := (d.get?_eq_some_iff k v).mp found
  exact List.length_filter_lt_length_iff_exists.mpr ⟨(k, v), member, by simp⟩

theorem mem_values_iff (d : OrderedDict κ ν) (v : ν) :
    v ∈ d.values ↔ ∃ k, d.get? k = some v := by
  simp [values, get?_eq_some_iff]

theorem mem_keys_iff (d : OrderedDict κ ν) (k : κ) :
    k ∈ d.keys ↔ ∃ v, d.get? k = some v := by
  simp [keys, get?_eq_some_iff]

theorem mem_keys_set (d : OrderedDict κ ν) (k k' : κ) (v : ν) :
    k' ∈ (d.set k v).keys ↔ k' = k ∨ k' ∈ d.keys := by
  rw [mem_keys_iff, mem_keys_iff, get?_set]
  by_cases same : k' = k
  · simp [same]
  · simp [same]

theorem get?_set_or (d : OrderedDict κ ν) (k k' : κ) (v : ν) :
    (d.set k v).get? k' = (if k = k' then some v else none).or (d.get? k') := by
  rw [get?_set]
  by_cases same : k = k'
  · simp [same]
  · simp [same, Ne.symm same]

theorem get?_foldl {α : Type*} {step : OrderedDict κ ν → α → OrderedDict κ ν} (k : κ)
    (assigned : α → Option ν) (sets : ∀ d a, (step d a).get? k = (assigned a).or (d.get? k))
    (l : List α) (d : OrderedDict κ ν) :
    (l.foldl step d).get? k = (l.reverse.findSome? assigned).or (d.get? k) :=
  Fold.observed_foldl (fun d : OrderedDict κ ν => d.get? k) assigned sets l d

theorem findSome?_entries {μ : Type*} (d : OrderedDict κ ν) (k : κ) (f : ν → Option μ) :
    (d.entries.reverse.findSome? fun entry => if entry.1 = k then f entry.2 else none) =
      (d.get? k).bind f := by
  obtain ⟨entries, nodup⟩ := d
  rw [get?]
  dsimp only
  induction entries with
  | nil => rfl
  | cons entry entries ih =>
    obtain ⟨fresh, nodup⟩ := List.nodup_cons.mp nodup
    rw [List.reverse_cons, List.findSome?_append, ih nodup]
    by_cases same : entry.1 = k
    · have absent : entries.find? (fun entry => entry.1 = k) = none := by
        rw [List.find?_eq_none]
        intro other member hit
        apply fresh
        rw [same, ← of_decide_eq_true hit]
        exact List.mem_map_of_mem member
      simp [same, absent, List.findSome?_cons]
      cases f entry.2 <;> rfl
    · simp [same]

theorem set_eq_self {d : OrderedDict κ ν} {k : κ} {v : ν} (found : d.get? k = some v) :
    d.set k v = d := by
  obtain ⟨entries, nodup⟩ := d
  apply ext
  rw [get?_eq_some_iff] at found
  change setEntry k v entries = entries
  induction entries with
  | nil => cases found
  | cons entry entries ih =>
    obtain ⟨fresh, nodup⟩ := List.nodup_cons.mp nodup
    rw [setEntry]
    rcases List.mem_cons.mp found with rfl | later
    · rw [if_pos rfl]
    · have other : entry.1 ≠ k := by
        intro same
        apply fresh
        rw [same]
        exact List.mem_map_of_mem later
      rw [if_neg other, ih nodup later]

theorem erase_eq_self {d : OrderedDict κ ν} {k : κ} (absent : d.get? k = none) : d.erase k = d := by
  rw [get?_eq_none_iff] at absent
  apply ext
  change d.entries.filter (fun entry => entry.1 ≠ k) = d.entries
  rw [List.filter_eq_self]
  intro entry member
  apply decide_eq_true
  rintro rfl
  exact absent entry.2 member

@[simp] theorem erase_erase (d : OrderedDict κ ν) (k : κ) : (d.erase k).erase k = d.erase k :=
  erase_eq_self (by rw [get?_erase, if_pos rfl])

theorem get?_update (d : OrderedDict κ ν) (other : List (κ × ν)) (k : κ) :
    (d.update other).get? k =
      (other.reverse.findSome? fun entry => if entry.1 = k then some entry.2 else none).or
        (d.get? k) :=
  get?_foldl k _ (fun d entry => d.get?_set_or entry.1 k entry.2) other d

theorem get?_ofEntries (entries : List (κ × ν)) (k : κ) :
    (ofEntries entries).get? k =
      entries.reverse.findSome? fun entry => if entry.1 = k then some entry.2 else none := by
  rw [← Option.or_none (o := List.findSome? _ _)]
  exact get?_update empty entries k

theorem get?_update_of_mem {other : List (κ × ν)} (distinct : (other.map Prod.fst).Nodup)
    {entry : κ × ν} (member : entry ∈ other) (d : OrderedDict κ ν) :
    (d.update other).get? entry.1 = some entry.2 := by
  have found : (ofEntries other).get? entry.1 = some entry.2 := by
    rw [get?_eq_some_iff, entries_ofEntries distinct]
    exact member
  rw [get?_ofEntries] at found
  rw [get?_update, found]
  rfl

theorem get?_update_of_not_mem {other : List (κ × ν)} {k : κ} (absent : k ∉ other.map Prod.fst)
    (d : OrderedDict κ ν) : (d.update other).get? k = d.get? k := by
  have none : (other.reverse.findSome? fun entry => if entry.1 = k then some entry.2 else none) =
      none := by
    rw [List.findSome?_eq_none_iff]
    intro entry member
    apply if_neg
    rintro rfl
    exact absent (List.mem_map_of_mem (List.mem_reverse.mp member))
  rw [get?_update, none]
  rfl

theorem mem_entries_update {d : OrderedDict κ ν} {other : List (κ × ν)} {entry : κ × ν}
    (member : entry ∈ (d.update other).entries) : entry ∈ d.entries ∨ entry ∈ other := by
  induction other generalizing d with
  | nil => exact .inl member
  | cons first other ih =>
    rcases ih member with earlier | later
    · rcases mem_entries_set earlier with same | old
      · exact .inr (by rw [same]; exact List.mem_cons_self)
      · exact .inl old
    · exact .inr (List.mem_cons_of_mem _ later)

theorem update_eq_self {d : OrderedDict κ ν} {other : List (κ × ν)}
    (found : ∀ entry ∈ other, d.get? entry.1 = some entry.2) : d.update other = d := by
  induction other with
  | nil => rfl
  | cons entry other ih =>
    rw [List.forall_mem_cons] at found
    rw [update, List.foldl_cons, set_eq_self found.1]
    exact ih found.2

section Nested

variable {μ : Type*} [DecidableEq μ]

def lookup (d : OrderedDict κ (OrderedDict μ ν)) (k : κ) (m : μ) : Option ν :=
  (d.get? k).bind fun inner => inner.get? m

def setIn (d : OrderedDict κ (OrderedDict μ ν)) (k : κ) (m : μ) (v : ν) :
    OrderedDict κ (OrderedDict μ ν) :=
  d.set k (((d.get? k).getD empty).set m v)

theorem lookup_setIn (d : OrderedDict κ (OrderedDict μ ν)) (k k' : κ) (m m' : μ) (v : ν) :
    (d.setIn k m v).lookup k' m' = if k' = k ∧ m' = m then some v else d.lookup k' m' := by
  rw [lookup, setIn, get?_set]
  by_cases same : k' = k
  · subst same
    rw [if_pos rfl, Option.bind_some, get?_set]
    by_cases sameInner : m' = m
    · simp [sameInner]
    · rw [if_neg sameInner, if_neg (fun both => sameInner both.2), lookup]
      cases d.get? k' <;> rfl
  · rw [if_neg same, if_neg (fun both => same both.1), lookup]

def Filled (d : OrderedDict κ (OrderedDict μ ν)) : Prop :=
  ∀ k, k ∈ d.keys ↔ ∃ m v, d.lookup k m = some v

theorem filled_empty : Filled (empty : OrderedDict κ (OrderedDict μ ν)) := by
  intro k
  simp [keys, empty, lookup, get?]

theorem Filled.setIn {d : OrderedDict κ (OrderedDict μ ν)} (filled : d.Filled) (k : κ) (m : μ)
    (v : ν) : (d.setIn k m v).Filled := by
  intro k'
  rw [OrderedDict.setIn, mem_keys_set, ← OrderedDict.setIn]
  by_cases same : k' = k
  · subst same
    simp only [true_or, true_iff]
    exact ⟨m, v, by rw [lookup_setIn, if_pos ⟨rfl, rfl⟩]⟩
  · simp only [same, false_or, filled k', lookup_setIn, false_and, if_false]

end Nested

end Lookup

end OrderedDict
