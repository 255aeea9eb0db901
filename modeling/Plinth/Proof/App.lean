import Plinth.Lib.Dependency
import Plinth.Model.App

/-! # The dependency order of the apps -/

namespace Plinth.App

open Dependency Relation

variable (apps : OrderedDict String App)

def table (appId : String) : Option (List String) :=
  (apps.get? appId).map (·.info.depends)

abbrev Reaches : String → String → Prop :=
  ReflTransGen (Depends (table apps))

structure Invariant (stack : List String) (s : Sorting) : Prop where
  sub : ∀ k app, s.remaining.get? k = some app → apps.get? k = some app
  accounted : ∀ k, (apps.get? k).isSome = true → (s.remaining.get? k).isSome = true ∨
    k ∈ s.ordered ∨ k ∈ stack ∨ ¬ Resolvable (table apps) k
  taken : ∀ k, k ∈ s.ordered ∨ k ∈ stack → s.remaining.get? k = none
  started : ∀ k ∈ stack, k ∉ s.ordered
  distinct : stack.Nodup
  nodup : s.ordered.Nodup
  ordered : Ordered (table apps) s.ordered

variable {apps}

structure Extends (Q : String → Prop) (s s' : Sorting) : Prop where
  ordered : ∃ new, s'.ordered = s.ordered ++ new ∧ ∀ k ∈ new, Q k
  remaining : ∀ k app, s'.remaining.get? k = some app → s.remaining.get? k = some app
  fewer : s'.remaining.entries.length ≤ s.remaining.entries.length

theorem Extends.refl (Q : String → Prop) (s : Sorting) : Extends Q s s :=
  ⟨⟨[], by simp⟩, fun _ _ => id, Nat.le_refl _⟩

theorem Extends.trans {Q Q' : String → Prop} {s s' s'' : Sorting} (first : Extends Q s s')
    (second : Extends Q' s' s'') (weaker : ∀ k, Q' k → Q k) : Extends Q s s'' := by
  obtain ⟨new, ordered, all⟩ := first.ordered
  obtain ⟨new', ordered', all'⟩ := second.ordered
  refine ⟨⟨new ++ new', by rw [ordered', ordered, List.append_assoc], ?_⟩,
    fun k app h => first.remaining k app (second.remaining k app h),
    second.fewer.trans first.fewer⟩
  intro k member
  obtain h | h := List.mem_append.mp member
  · exact all k h
  · exact weaker k (all' k h)

theorem Extends.mem {Q : String → Prop} {s s' : Sorting} (extension : Extends Q s s') {k : String}
    (member : k ∈ s.ordered) : k ∈ s'.ordered := by
  obtain ⟨new, ordered, -⟩ := extension.ordered
  rw [ordered]
  exact List.mem_append_left _ member

theorem Extends.remains {Q : String → Prop} {s s' : Sorting} (extension : Extends Q s s')
    {k : String} (remains : (s'.remaining.get? k).isSome = true) :
    (s.remaining.get? k).isSome = true := by
  obtain ⟨app, h⟩ := Option.isSome_iff_exists.mp remains
  simp [extension.remaining k app h]

def Sorting.take (s : Sorting) (k : String) : Sorting :=
  { s with remaining := s.remaining.erase k }

theorem remaining_take (s : Sorting) (k k' : String) :
    (s.take k).remaining.get? k' = if k' = k then none else s.remaining.get? k' :=
  s.remaining.get?_erase k k'

@[simp] theorem ordered_take (s : Sorting) (k : String) : (s.take k).ordered = s.ordered := rfl

theorem remaining_of_take {s : Sorting} {k k' : String} {app : App}
    (h : (s.take k).remaining.get? k' = some app) : s.remaining.get? k' = some app := by
  rw [remaining_take] at h
  split at h
  · cases h
  · exact h

theorem Invariant.take {stack : List String} {s : Sorting} (inv : Invariant apps stack s)
    {k : String} {app : App} (found : s.remaining.get? k = some app) :
    Invariant apps (k :: stack) (s.take k) where
  sub k' app' h := inv.sub k' app' (remaining_of_take h)
  accounted k' present := by
    rw [remaining_take, List.mem_cons]
    by_cases same : k' = k
    · exact .inr (.inr (.inl (.inl same)))
    · simpa [same] using inv.accounted k' present
  taken k' member := by
    rw [remaining_take]
    split
    · rfl
    · rename_i other
      exact inv.taken k' (member.imp_right fun h => (List.mem_cons.mp h).resolve_left other)
  started k' member := by
    obtain rfl | member := List.mem_cons.mp member
    · intro h
      rw [inv.taken k' (.inl h)] at found
      cases found
    · exact inv.started k' member
  distinct := by
    refine List.nodup_cons.mpr ⟨fun h => ?_, inv.distinct⟩
    rw [inv.taken k (.inr h)] at found
    cases found
  nodup := inv.nodup
  ordered := inv.ordered

theorem Extends.take {Q : String → Prop} {s s' : Sorting} {k : String} {app : App}
    (found : s.remaining.get? k = some app) (extension : Extends Q (s.take k) s') :
    Extends Q s s' where
  ordered := extension.ordered
  remaining k' app' h := remaining_of_take (extension.remaining k' app' h)
  fewer := extension.fewer.trans (Nat.le_of_lt (s.remaining.length_entries_erase_lt found))

theorem Invariant.not_resolvable {stack : List String} {s : Sorting} {current : String}
    (inv : Invariant apps stack s) (chain : ∀ a ∈ stack, Reaches apps a current) {k : String}
    (dep : Depends (table apps) current k) (unordered : k ∉ s.ordered)
    (missing : s.remaining.get? k = none) : ¬ Resolvable (table apps) k := by
  intro resolvable
  have present : (apps.get? k).isSome = true := by simpa [table] using resolvable.exists
  obtain remains | member | member | failed := inv.accounted k present
  · simp [missing] at remains
  · exact unordered member
  · exact resolvable.not_cyclic (TransGen.tail' (chain k member) dep)
  · exact failed resolvable

def InsertSpec (apps : OrderedDict String App) (bound : Nat)
    (insert : String → App → Sorting → Outcome × Sorting) : Prop :=
  ∀ k app stack s, Invariant apps (k :: stack) s → apps.get? k = some app →
    (∀ a ∈ stack, Reaches apps a k) → s.remaining.entries.length < bound →
    ∃ outcome s', insert k app s = (outcome, s') ∧ Invariant apps stack s' ∧
      Extends (fun x => Reaches apps k x ∧ (x = k ∨ (s.remaining.get? x).isSome = true)) s s' ∧
      (outcome = .done ∧ k ∈ s'.ordered ∨
        outcome = .keyError ∧ ¬ Resolvable (table apps) k)

theorem insertDependencies_spec {bound : Nat}
    {insert : String → App → Sorting → Outcome × Sorting} (spec : InsertSpec apps bound insert)
    (k : String) (stack dependencies : List String) (s : Sorting)
    (inv : Invariant apps (k :: stack) s) (chain : ∀ a ∈ stack, Reaches apps a k)
    (deps : ∀ d ∈ dependencies, Depends (table apps) k d)
    (small : s.remaining.entries.length ≤ bound) :
    ∃ outcome s', insertDependencies insert dependencies s = (outcome, s') ∧
      Invariant apps (k :: stack) s' ∧
      Extends (fun x => Reaches apps k x ∧ (s.remaining.get? x).isSome = true) s s' ∧
      (outcome = .done ∧ (∀ d ∈ dependencies, d ∈ s'.ordered) ∨
        outcome = .keyError ∧ ∃ d ∈ dependencies, ¬ Resolvable (table apps) d) := by
  have chain' : ∀ a ∈ k :: stack, Reaches apps a k := by
    intro a member
    obtain rfl | member := List.mem_cons.mp member
    · exact .refl
    · exact chain a member
  induction dependencies generalizing s with
  | nil => exact ⟨.done, s, rfl, inv, .refl _ s, .inl ⟨rfl, by simp⟩⟩
  | cons d rest ih =>
    have deps' : ∀ d ∈ rest, Depends (table apps) k d :=
      fun d member => deps d (List.mem_cons_of_mem _ member)
    have dep := deps d List.mem_cons_self
    by_cases already : d ∈ s.ordered
    · obtain ⟨outcome, s', run, inv', extension, result⟩ := ih s inv deps' small
      refine ⟨outcome, s', ?_, inv', extension, ?_⟩
      · rw [insertDependencies, if_pos already, run]
      · refine result.imp (fun h => ⟨h.1, ?_⟩) fun ⟨h, d', member, failed⟩ =>
          ⟨h, d', List.mem_cons_of_mem _ member, failed⟩
        rintro d' member
        obtain rfl | member := List.mem_cons.mp member
        · exact extension.mem already
        · exact h.2 d' member
    · cases found : s.remaining.get? d with
      | none =>
        refine ⟨.keyError, s, ?_, inv, .refl _ s, .inr ⟨rfl, d, List.mem_cons_self, ?_⟩⟩
        · simp [insertDependencies, already, found]
        · exact inv.not_resolvable chain' dep already found
      | some app =>
        have smaller := s.remaining.length_entries_erase_lt found
        obtain ⟨outcome, s₁, run₁, inv₁, extension₁, result₁⟩ :=
          spec d app (k :: stack) (s.take d) (inv.take found) (inv.sub d app found)
            (fun a member => (chain' a member).tail dep) (Nat.lt_of_lt_of_le smaller small)
        have extension₁' : Extends (fun x => Reaches apps k x ∧
            (s.remaining.get? x).isSome = true) s s₁ := by
          refine Extends.take found ⟨?_, extension₁.remaining, extension₁.fewer⟩
          obtain ⟨new, ordered, all⟩ := extension₁.ordered
          refine ⟨new, ordered, fun x member => ?_⟩
          obtain ⟨reach, rfl | remains⟩ := all x member
          · exact ⟨ReflTransGen.single dep, by simp [found]⟩
          · obtain ⟨app', h⟩ := Option.isSome_iff_exists.mp remains
            exact ⟨ReflTransGen.head dep reach, by simp [remaining_of_take h]⟩
        obtain ⟨rfl, member⟩ | ⟨rfl, failed⟩ := result₁
        · obtain ⟨outcome, s₂, run₂, inv₂, extension₂, result₂⟩ :=
            ih s₁ inv₁ deps' (extension₁'.fewer.trans small)
          refine ⟨outcome, s₂, ?_, inv₂, extension₁'.trans extension₂ ?_, ?_⟩
          · rw [Sorting.take] at run₁
            simp [insertDependencies, already, found, run₁, run₂]
          · exact fun x h => ⟨h.1, extension₁'.remains h.2⟩
          · refine result₂.imp (fun h => ⟨h.1, ?_⟩) fun ⟨h, d', member', failed⟩ =>
              ⟨h, d', List.mem_cons_of_mem _ member', failed⟩
            rintro d' member'
            obtain rfl | member' := List.mem_cons.mp member'
            · exact extension₂.mem member
            · exact h.2 d' member'
        · refine ⟨.keyError, s₁, ?_, inv₁, extension₁',
            .inr ⟨rfl, d, List.mem_cons_self, failed⟩⟩
          rw [Sorting.take] at run₁
          simp [insertDependencies, already, found, run₁]

theorem Invariant.done {k : String} {app : App} {stack : List String} {s : Sorting}
    (inv : Invariant apps (k :: stack) s) (found : apps.get? k = some app)
    (resolved : ∀ d ∈ app.info.depends, d ∈ s.ordered) :
    Invariant apps stack { s with ordered := s.ordered ++ [k] } where
  sub := inv.sub
  accounted k' present := by
    obtain h | h | h | h := inv.accounted k' present
    · exact .inl h
    · exact .inr (.inl (List.mem_append_left _ h))
    · obtain rfl | h := List.mem_cons.mp h
      · exact .inr (.inl (by simp))
      · exact .inr (.inr (.inl h))
    · exact .inr (.inr (.inr h))
  taken k' member := by
    apply inv.taken
    obtain h | h := member
    · obtain h | h := List.mem_append.mp h
      · exact .inl h
      · exact .inr (List.mem_singleton.mp h ▸ List.mem_cons_self)
    · exact .inr (List.mem_cons_of_mem _ h)
  started k' member := by
    have other : k' ≠ k := fun h => (List.nodup_cons.mp inv.distinct).1 (h ▸ member)
    simpa [other] using inv.started k' (List.mem_cons_of_mem _ member)
  distinct := (List.nodup_cons.mp inv.distinct).2
  nodup := by
    refine List.nodup_append.mpr ⟨inv.nodup, List.nodup_singleton k, ?_⟩
    rintro a member b last rfl
    exact inv.started a (List.mem_singleton.mp last ▸ List.mem_cons_self) member
  ordered := inv.ordered.concat (by simp [table, found]) resolved

theorem Invariant.failed {k : String} {stack : List String} {s : Sorting}
    (inv : Invariant apps (k :: stack) s) (failed : ¬ Resolvable (table apps) k) :
    Invariant apps stack s where
  sub := inv.sub
  accounted k' present := by
    obtain h | h | h | h := inv.accounted k' present
    · exact .inl h
    · exact .inr (.inl h)
    · obtain rfl | h := List.mem_cons.mp h
      · exact .inr (.inr (.inr failed))
      · exact .inr (.inr (.inl h))
    · exact .inr (.inr (.inr h))
  taken k' member := inv.taken k' (member.imp_right (List.mem_cons_of_mem _))
  started k' member := inv.started k' (List.mem_cons_of_mem _ member)
  distinct := (List.nodup_cons.mp inv.distinct).2
  nodup := inv.nodup
  ordered := inv.ordered

theorem insertApps_spec (fuel : Nat) : InsertSpec apps fuel (insertApps fuel) := by
  induction fuel with
  | zero =>
    intro k app stack s _ _ _ small
    cases small
  | succ fuel ih =>
    intro k app stack s inv found chain small
    have fresh := inv.started k List.mem_cons_self
    have deps : ∀ d ∈ app.info.depends, Depends (table apps) k d :=
      fun d member => ⟨app.info.depends, by simp [table, found], member⟩
    obtain ⟨outcome, s', run, inv', extension, result⟩ :=
      insertDependencies_spec ih k stack app.info.depends s inv chain deps
        (Nat.le_of_lt_succ small)
    have extension' : Extends (fun x => Reaches apps k x ∧
        (x = k ∨ (s.remaining.get? x).isSome = true)) s s' :=
      (Extends.refl _ s).trans extension fun x h => ⟨h.1, .inr h.2⟩
    obtain ⟨rfl, resolved⟩ | ⟨rfl, d, member, failed⟩ := result
    · refine ⟨.done, { s' with ordered := s'.ordered ++ [k] }, ?_, inv'.done found resolved,
        ?_, .inl ⟨rfl, by simp⟩⟩
      · simp [insertApps, fresh, run]
      · refine extension'.trans ⟨⟨[k], rfl, ?_⟩, fun _ _ => id, Nat.le_refl _⟩ fun _ => id
        intro x member
        obtain rfl := List.mem_singleton.mp member
        exact ⟨.refl, .inl rfl⟩
    · have unresolved : ¬ Resolvable (table apps) k :=
        fun h => failed (h.dependency (deps d member))
      refine ⟨.keyError, s', ?_, inv'.failed unresolved, extension', .inr ⟨rfl, unresolved⟩⟩
      simp [insertApps, fresh, run]

/-! ## Visiting all apps -/

theorem visit_spec {fuel : Nat} {s : Sorting} (inv : Invariant apps [] s)
    (small : s.remaining.entries.length < fuel) (k : String) :
    ∃ s', visit fuel s k = some s' ∧ Invariant apps [] s' ∧ s'.remaining.get? k = none ∧
      Extends (fun x => Reaches apps k x ∧ (s.remaining.get? x).isSome = true) s s' := by
  cases found : s.remaining.get? k with
  | none => exact ⟨s, by simp [visit, found], inv, found, .refl _ s⟩
  | some app =>
    have smaller := s.remaining.length_entries_erase_lt found
    obtain ⟨outcome, s', run, inv', extension, result⟩ :=
      insertApps_spec fuel k app [] (s.take k) (inv.take found) (inv.sub k app found)
        (by simp) (smaller.trans small)
    rw [Sorting.take] at run
    refine ⟨s', ?_, inv', ?_, Extends.take found ⟨?_, extension.remaining, extension.fewer⟩⟩
    · obtain ⟨rfl, -⟩ | ⟨rfl, -⟩ := result <;> simp [visit, found, run]
    · rw [Option.eq_none_iff_forall_ne_some]
      intro app' h
      have := extension.remaining k app' h
      rw [remaining_take, if_pos rfl] at this
      cases this
    · obtain ⟨new, ordered, all⟩ := extension.ordered
      refine ⟨new, ordered, fun x member => ?_⟩
      obtain ⟨reach, rfl | remains⟩ := all x member
      · exact ⟨reach, by simp [found]⟩
      · obtain ⟨app', h⟩ := Option.isSome_iff_exists.mp remains
        exact ⟨reach, by simp [remaining_of_take h]⟩

theorem visitAll_spec {fuel : Nat} (visits : List String) {s : Sorting}
    (inv : Invariant apps [] s) (small : s.remaining.entries.length < fuel) :
    ∃ s', visits.foldlM (visit fuel) s = some s' ∧ Invariant apps [] s' ∧
      (∀ k ∈ visits, s'.remaining.get? k = none) ∧
      Extends (fun x => (∃ k ∈ visits, Reaches apps k x) ∧
        (s.remaining.get? x).isSome = true) s s' := by
  induction visits generalizing s with
  | nil => exact ⟨s, rfl, inv, by simp, .refl _ s⟩
  | cons k rest ih =>
    obtain ⟨s₁, run₁, inv₁, gone₁, extension₁⟩ := visit_spec inv small k
    obtain ⟨s₂, run₂, inv₂, gone₂, extension₂⟩ :=
      ih inv₁ (Nat.lt_of_le_of_lt extension₁.fewer small)
    refine ⟨s₂, by simp [List.foldlM_cons, run₁, run₂], inv₂, ?_, ?_⟩
    · intro k' member
      obtain rfl | member := List.mem_cons.mp member
      · rw [Option.eq_none_iff_forall_ne_some]
        intro app h
        rw [extension₂.remaining k' app h] at gone₁
        cases gone₁
      · exact gone₂ k' member
    · refine Extends.trans ⟨?_, extension₁.remaining, extension₁.fewer⟩ extension₂ ?_
      · obtain ⟨new, ordered, all⟩ := extension₁.ordered
        exact ⟨new, ordered, fun x member =>
          ⟨⟨k, List.mem_cons_self, (all x member).1⟩, (all x member).2⟩⟩
      · rintro x ⟨⟨k', member, reach⟩, remains⟩
        exact ⟨⟨k', List.mem_cons_of_mem _ member, reach⟩, extension₁.remains remains⟩

end Plinth.App

/-! ## The order of the apps is correct -/

namespace Plinth.App

open Dependency Relation

variable (apps : OrderedDict String App)

abbrev IsEssential (appId : String) : Prop :=
  visitOrder.essential apps appId = true

def EssentialFirst (l : List String) : Prop :=
  ∀ before e after, l = before ++ e :: after → IsEssential apps e →
    ∀ n ∈ before, ∃ r, IsEssential apps r ∧ Reaches apps r n ∧
      apps.keys.idxOf r ≤ apps.keys.idxOf e

variable {apps}

theorem essential_mem_keys {k : String} (essential : IsEssential apps k) : k ∈ apps.keys := by
  rw [apps.mem_keys_iff]
  cases found : apps.get? k with
  | none => simp [IsEssential, visitOrder.essential, found] at essential
  | some app => exact ⟨app, rfl⟩

theorem mem_essentials_iff (k : String) :
    k ∈ apps.keys.filter (visitOrder.essential apps) ↔ IsEssential apps k := by
  rw [List.mem_filter]
  exact ⟨fun h => h.2, fun h => ⟨essential_mem_keys h, h⟩⟩

theorem split_append {α : Type*} {l new before after : List α} {e : α}
    (h : l ++ new = before ++ e :: after) :
    (∃ after', l = before ++ e :: after') ∨
      ∃ before', before = l ++ before' ∧ new = before' ++ e :: after := by
  obtain ⟨before', rfl, rest⟩ | ⟨tail, rfl, rest⟩ := List.append_eq_append_iff.mp h
  · exact .inr ⟨before', rfl, rest⟩
  · cases tail with
    | nil => exact .inr ⟨[], by simp, by simpa using rest.symm⟩
    | cons b tail =>
      obtain ⟨rfl, -⟩ := List.cons_eq_cons.mp rest
      exact .inl ⟨tail, rfl⟩

theorem pairwise_idxOf (l : List String) (nodup : l.Nodup) :
    l.Pairwise fun a b => l.idxOf a < l.idxOf b := by
  rw [List.pairwise_iff_getElem]
  intro i j hi hj less
  rwa [nodup.idxOf_getElem i hi, nodup.idxOf_getElem j hj]

theorem EssentialFirst.append {l new : List String} (first : EssentialFirst apps l)
    (step : ∀ e ∈ new, IsEssential apps e → ∀ n ∈ l ++ new, ∃ r, IsEssential apps r ∧
      Reaches apps r n ∧ apps.keys.idxOf r ≤ apps.keys.idxOf e) :
    EssentialFirst apps (l ++ new) := by
  intro before e after h essential n member
  obtain ⟨after', h'⟩ | ⟨before', rfl, rfl⟩ := split_append h
  · exact first before e after' h' essential n member
  · refine step e (by simp) essential n ?_
    rw [List.mem_append] at member ⊢
    exact member.imp_right (List.mem_append_left _)

theorem visitEssentials {fuel : Nat} (visits visited : List String) {s s' : Sorting}
    (all : apps.keys.filter (visitOrder.essential apps) = visited ++ visits)
    (inv : Invariant apps [] s) (small : s.remaining.entries.length < fuel)
    (gone : ∀ k ∈ visited, s.remaining.get? k = none)
    (covered : ∀ n ∈ s.ordered, ∃ r ∈ visited, Reaches apps r n)
    (first : EssentialFirst apps s.ordered)
    (run : visits.foldlM (visit fuel) s = some s') : EssentialFirst apps s'.ordered := by
  induction visits generalizing s visited with
  | nil =>
    obtain rfl : s = s' := by simpa using run
    exact first
  | cons k rest ih =>
    obtain ⟨s₁, run₁, inv₁, gone₁, extension⟩ := visit_spec inv small k
    obtain ⟨new, ordered, reached⟩ := extension.ordered
    have covered₁ : ∀ n ∈ s₁.ordered, ∃ r ∈ visited ++ [k], Reaches apps r n := by
      intro n member
      rw [ordered, List.mem_append] at member
      obtain member | member := member
      · obtain ⟨r, h, reach⟩ := covered n member
        exact ⟨r, List.mem_append_left _ h, reach⟩
      · exact ⟨k, by simp, (reached n member).1⟩
    refine ih (visited ++ [k]) (by simpa using all) inv₁
      (Nat.lt_of_le_of_lt extension.fewer small) ?_ covered₁ ?_
      (by simpa [List.foldlM_cons, run₁] using run)
    · intro k' member
      obtain member | member := List.mem_append.mp member
      · rw [Option.eq_none_iff_forall_ne_some]
        intro app h
        have := extension.remaining k' app h
        rw [gone k' member] at this
        cases this
      · exact List.mem_singleton.mp member ▸ gone₁
    · rw [ordered]
      refine first.append fun e member essential n before => ?_
      obtain ⟨r, visited', reach⟩ := covered₁ n (ordered ▸ before)
      have rVisits : r ∈ apps.keys.filter (visitOrder.essential apps) := by
        rw [all]
        exact List.mem_append.mpr ((List.mem_append.mp visited').imp_right fun h => by
          simp [List.mem_singleton.mp h])
      refine ⟨r, (mem_essentials_iff r).mp rVisits, reach, ?_⟩
      -- What is ordered now was still remaining, so it is visited now or later.
      have later : e ∈ k :: rest := by
        have h := (mem_essentials_iff e).mpr essential
        rw [all, List.mem_append] at h
        refine h.resolve_left fun earlier => ?_
        have remains := (reached e member).2
        simp [gone e earlier] at remains
      have part : (visited ++ k :: rest).Sublist apps.keys := all ▸ List.filter_sublist
      have sorted := (pairwise_idxOf apps.keys apps.nodup).sublist part
      rw [List.pairwise_append] at sorted
      obtain earlier | now := List.mem_append.mp visited'
      · exact Nat.le_of_lt (sorted.2.2 r earlier e later)
      · obtain rfl := List.mem_singleton.mp now
        obtain rfl | later := List.mem_cons.mp later
        · exact Nat.le_refl _
        · exact Nat.le_of_lt ((List.pairwise_cons.mp sorted.2.1).1 e later)

/-! ## The sorted apps -/

theorem invariant_start : Invariant apps [] ⟨apps, []⟩ where
  sub _ _ := id
  accounted _ := .inl
  taken := by simp
  started := by simp
  distinct := List.nodup_nil
  nodup := List.nodup_nil
  ordered := ordered_nil

theorem visitOrder_spec (apps : OrderedDict String App) :
    ∃ s, (visitOrder apps).foldlM (visit (apps.entries.length + 1)) ⟨apps, []⟩ = some s ∧
      Invariant apps [] s ∧ (∀ k, s.remaining.get? k = none) ∧
      EssentialFirst apps s.ordered := by
  have small : (⟨apps, []⟩ : Sorting).remaining.entries.length < apps.entries.length + 1 :=
    Nat.lt_succ_self apps.entries.length
  obtain ⟨s₁, run₁, inv₁, gone₁, extension₁⟩ :=
    visitAll_spec (apps.keys.filter (visitOrder.essential apps)) invariant_start small
  have first : EssentialFirst apps s₁.ordered :=
    visitEssentials _ [] rfl invariant_start small (by simp) (by simp)
      (by simp [EssentialFirst]) run₁
  obtain ⟨s₂, run₂, inv₂, gone₂, extension₂⟩ :=
    visitAll_spec (apps.keys.filter (!visitOrder.essential apps ·)) inv₁
      (Nat.lt_of_le_of_lt extension₁.fewer small)
  refine ⟨s₂, by simp [visitOrder, List.foldlM_append, run₁, run₂], inv₂, ?_, ?_⟩
  · intro k
    rw [Option.eq_none_iff_forall_ne_some]
    intro app remains
    have member : k ∈ apps.keys := (apps.mem_keys_iff k).mpr ⟨app, inv₂.sub k app remains⟩
    by_cases essential : IsEssential apps k
    · have remains₁ := extension₂.remaining k app remains
      rw [gone₁ k ((mem_essentials_iff k).mpr essential)] at remains₁
      cases remains₁
    · rw [gone₂ k (List.mem_filter.mpr ⟨member, by simpa using essential⟩)] at remains
      cases remains
  · obtain ⟨new, ordered, all⟩ := extension₂.ordered
    rw [ordered]
    -- No essential app remains for the second part of the visits.
    refine first.append fun e member essential => ?_
    have remains := (all e member).2
    simp [gone₁ e ((mem_essentials_iff e).mpr essential)] at remains

theorem keys_sorted (l : List String) (present : ∀ k ∈ l, (apps.get? k).isSome = true) :
    (l.filterMap fun k => (apps.get? k).map fun app => (k, app)).map Prod.fst = l := by
  induction l with
  | nil => rfl
  | cons k rest ih =>
    obtain ⟨app, found⟩ := Option.isSome_iff_exists.mp (present k List.mem_cons_self)
    simp [found, ih fun k' member => present k' (List.mem_cons_of_mem _ member)]

theorem table_finite (apps : OrderedDict String App) :
    {k | (table apps k).isSome = true}.Finite := by
  refine (List.finite_toSet apps.keys).subset fun k present => ?_
  rw [Set.mem_ofPred_eq, table, Option.isSome_map] at present
  obtain ⟨app, found⟩ := Option.isSome_iff_exists.mp present
  exact (apps.mem_keys_iff k).mpr ⟨app, found⟩

/-- `_sort_apps` always ends. It keeps, once each, the apps that reach neither a missing
dependency nor a cycle, with their dependencies before them; an app that is not essential
comes before an essential one only as a dependency of one that is not loaded after it. -/
theorem sortApps_correct (apps : OrderedDict String App) :
    ∃ sorted, sortApps apps = some sorted ∧
      (∀ k, k ∈ sorted.keys ↔ k ∈ apps.keys ∧
        (∀ d, Reaches apps k d → d ∈ apps.keys) ∧
        ∀ d, Reaches apps k d → ¬ TransGen (Depends (table apps)) d d) ∧
      sorted.keys.Nodup ∧
      (∀ k ∈ sorted.keys, sorted.get? k = apps.get? k) ∧
      (∀ before k after, sorted.keys = before ++ k :: after →
        ∀ d, Depends (table apps) k d → d ∈ before) ∧
      ∀ before e after, sorted.keys = before ++ e :: after → IsEssential apps e →
        ∀ n ∈ before, ¬ IsEssential apps n → ∃ r, IsEssential apps r ∧
          TransGen (Depends (table apps)) r n ∧ apps.keys.idxOf r ≤ apps.keys.idxOf e := by
  obtain ⟨s, run, inv, gone, first⟩ := visitOrder_spec apps
  have present : ∀ k, (table apps k).isSome = true ↔ k ∈ apps.keys := by
    intro k
    rw [table, Option.isSome_map, Option.isSome_iff_exists, apps.mem_keys_iff]
  have loaded : ∀ k ∈ s.ordered, (apps.get? k).isSome = true := by
    intro k member
    simpa [table] using (inv.ordered.resolvable k member).exists
  have distinct : ((s.ordered.filterMap fun k =>
      (apps.get? k).map fun app => (k, app)).map Prod.fst).Nodup := by
    rw [keys_sorted _ loaded]
    exact inv.nodup
  have entries := OrderedDict.entries_ofEntries distinct
  have result : sortApps apps = some (.ofEntries (s.ordered.filterMap fun k =>
      (apps.get? k).map fun app => (k, app))) := by
    simp [sortApps, run]
  refine ⟨_, result, ?_⟩
  clear result
  generalize OrderedDict.ofEntries (s.ordered.filterMap fun k =>
    (apps.get? k).map fun app => (k, app)) = sorted at entries ⊢
  have keys : sorted.keys = s.ordered := by
    rw [OrderedDict.keys, entries, keys_sorted _ loaded]
  rw [keys]
  refine ⟨?_, inv.nodup, ?_, ?_, ?_⟩
  · intro k
    have resolvable : k ∈ s.ordered ↔ Resolvable (table apps) k := by
      refine ⟨inv.ordered.resolvable k, fun h => ?_⟩
      obtain remains | member | member | failed :=
        inv.accounted k (by simpa [table] using h.exists)
      · simp [gone k] at remains
      · exact member
      · cases member
      · exact absurd h failed
    rw [resolvable, resolvable_iff (table_finite apps)]
    simp only [present]
    exact ⟨fun h => ⟨h.1 k .refl, h⟩, fun h => h.2⟩
  · intro k member
    obtain ⟨app, found⟩ := Option.isSome_iff_exists.mp (loaded k member)
    rw [found, OrderedDict.get?_eq_some_iff, entries, List.mem_filterMap]
    exact ⟨k, member, by simp [found]⟩
  · intro before k after split
    exact (inv.ordered before k after split).2
  · intro before e after split essential n member other
    obtain ⟨r, rootEssential, reach, earlier⟩ := first before e after split essential n member
    refine ⟨r, rootEssential, ?_, earlier⟩
    obtain rfl | path := reflTransGen_iff_eq_or_transGen.mp reach
    · exact absurd rootEssential other
    · exact path

example : (sortApps (.ofEntries [("app1", ⟨["app2"], false⟩), ("app2", ⟨["app1"], false⟩),
    ("app3", ⟨[], false⟩)])).map (·.keys) = some ["app3"] := by
  decide

end Plinth.App
