import Plinth.Model.Upgrades
import Mathlib.Data.List.TakeWhile

/-!
# What an upgrade puts back

Each context undoes its own change whatever happens inside it. What is not put back is a running
service that was disabled, a hold on freedombox that was there with the flag, and what a raising
step of the undoing itself leaves behind.
-/

namespace Plinth

open ActionUtils Effect Python

namespace ActionUtils

theorem exec_attempt_none {raises : Option Exception} (quiet : raises = none)
    (change : System → System) (s : System) : (attempt raises change).exec s = (.ok (), change s) := by
  rw [quiet]
  rfl

theorem exec_attempt_some {raises : Option Exception} {e : Exception} (raised : raises = some e)
    (change : System → System) (s : System) : (attempt raises change).exec s = (.error e, s) := by
  rw [raised]
  rfl

theorem keeps_attempt {γ : Type} {f : System → γ} {raises : Option Exception}
    {change : System → System} (same : ∀ s, f (change s) = f s) : Keeps f (attempt raises change) := by
  cases raises with
  | none => exact keeps_modify same
  | some e => exact keeps_throw e

/-! ## Services -/

theorem state_serviceEnsureStopped (name : String) (body : Action) (s : System) :
    ((serviceEnsureStopped name body).exec s).2 =
      if s.running name = true then
        serviceEnable name (body.exec (serviceDisable name s)).2
      else (body.exec s).2 := by
  by_cases running : s.running name = true
  · simp only [serviceEnsureStopped, exec_bind, exec_get, when_of running, exec_modify]
    rw [state_tryFinally, if_pos running]
    rfl
  · simp only [serviceEnsureStopped, exec_bind, exec_get, when_of_not running, exec_pure]
    rw [state_tryFinally, if_neg running]
    rfl

theorem keeps_serviceEnsureStopped {γ : Type} {f : System → γ} {name : String} {body : Action}
    (same : ∀ s on, f (s.setService name on) = f s) (keeps : Keeps f body) :
    Keeps f (serviceEnsureStopped name body) := by
  intro s
  rw [state_serviceEnsureStopped]
  split
  · rw [serviceEnable, same, keeps, serviceDisable, same]
  · exact keeps s

/-! ## Packages -/

variable {raises : AptStep → Option Exception}

def taken (raises : AptStep → Option Exception) : List String → System → List String
  | [], _ => []
  | package :: rest, s =>
    match raises (.showhold package) with
    | some _ => []
    | none =>
      if s.held package = true ∨ (raises (.hold package)).isSome then taken raises rest s
      else package :: taken raises rest (s.setHeld package true)

def System.setAllHeld (s : System) (packages : List String) (held : Bool) : System :=
  packages.foldl (fun s package => s.setHeld package held) s

theorem held_setAllHeld (s : System) (packages : List String) (held : Bool) (package : String) :
    (s.setAllHeld packages held).held package =
      if package ∈ packages then held else s.held package := by
  induction packages generalizing s with
  | nil => rfl
  | cons first rest ih =>
    change ((s.setHeld first held).setAllHeld rest held).held package = _
    rw [ih]
    by_cases later : package ∈ rest
    · simp [later]
    · by_cases here : package = first
      · simp [here, System.setHeld]
      · simp [later, here, System.setHeld]

theorem exec_holdPackages (packages heldPackages : List String) (s : System) :
    ∃ stopped, (holdPackages raises heldPackages packages).exec s =
      (.ok (heldPackages ++ taken raises packages s, stopped),
        s.setAllHeld (taken raises packages s) true) := by
  induction packages generalizing heldPackages s with
  | nil => exact ⟨none, by simp [holdPackages, taken, System.setAllHeld]⟩
  | cons package rest ih =>
    rw [holdPackages, taken]
    cases raises (.showhold package) with
    | some e => exact ⟨some e, by simp [System.setAllHeld]⟩
    | none =>
      simp only [exec_bind, exec_get]
      split
      · exact ih heldPackages s
      · obtain ⟨stopped, result⟩ := ih (heldPackages ++ [package]) (s.setHeld package true)
        refine ⟨stopped, ?_⟩
        simp only [exec_bind, exec_modify]
        rw [result, List.append_assoc]
        rfl

theorem state_release (packages : List String) (s : System) :
    ((forEach packages fun package =>
      attempt (raises (.unhold package)) fun s => s.setHeld package false).exec s).2 =
      s.setAllHeld (packages.takeWhile fun package => (raises (.unhold package)).isNone) false := by
  induction packages generalizing s with
  | nil => rfl
  | cons package rest ih =>
    rw [forEach, exec_bind]
    cases refused : raises (.unhold package) with
    | some e =>
      rw [exec_attempt_some rfl, List.takeWhile_cons_of_neg (by simp [refused])]
      rfl
    | none =>
      rw [exec_attempt_none rfl, List.takeWhile_cons_of_pos (by simp [refused])]
      exact ih (s.setHeld package false)

theorem state_aptHold {packages : List String} {body : Action} (silent : Keeps id body) (s : System) :
    ((aptHold raises packages body).exec s).2 =
      (s.setAllHeld (taken raises packages s) true).setAllHeld
        ((taken raises packages s).takeWhile fun package => (raises (.unhold package)).isNone)
        false := by
  obtain ⟨stopped, result⟩ : ∃ stopped, (holdPackages raises [] packages).exec s = _ :=
    exec_holdPackages packages [] s
  rw [aptHold, exec_bind, result]
  dsimp only
  rw [state_tryFinally, state_release, List.nil_append]
  congr 1
  cases stopped with
  | some e => rfl
  | none => exact silent _

theorem mem_taken {packages : List String} {s : System} {package : String}
    (member : package ∈ taken raises packages s) : package ∈ packages ∧ s.held package = false := by
  induction packages generalizing s with
  | nil => cases member
  | cons first rest ih =>
    rw [taken] at member
    cases shown : raises (.showhold first) with
    | some e =>
      rw [shown] at member
      cases member
    | none =>
      rw [shown] at member
      dsimp only at member
      split at member
      · exact ⟨List.mem_cons_of_mem _ (ih member).1, (ih member).2⟩
      · rename_i free
        rw [not_or, Bool.not_eq_true] at free
        rcases List.mem_cons.mp member with rfl | member
        · exact ⟨List.mem_cons_self, free.1⟩
        · obtain ⟨present, unheld⟩ := ih member
          refine ⟨List.mem_cons_of_mem _ present, ?_⟩
          by_cases same : package = first
          · rw [same]
            exact free.1
          · simpa [System.setHeld, same] using unheld

theorem taken_congr {packages : List String} {s s' : System}
    (same : ∀ package ∈ packages, s.held package = s'.held package) :
    taken raises packages s = taken raises packages s' := by
  induction packages generalizing s s' with
  | nil => rfl
  | cons first rest ih =>
    have here := same first List.mem_cons_self
    rw [taken, taken, here]
    cases raises (.showhold first) with
    | some e => rfl
    | none =>
      dsimp only
      split
      · exact ih fun package member => same package (List.mem_cons_of_mem _ member)
      · congr 1
        apply ih
        intro package member
        by_cases again : package = first
        · simp [System.setHeld, again]
        · simpa [System.setHeld, again] using same package (List.mem_cons_of_mem _ member)

theorem keeps_aptHold {γ : Type} {f : System → γ} {packages : List String} {body : Action}
    (same : ∀ s, ∀ package ∈ packages, ∀ held, f (s.setHeld package held) = f s)
    (silent : Keeps id body) : Keeps f (aptHold raises packages body) := by
  have all : ∀ (names : List String) (s : System) (held : Bool), (∀ p ∈ names, p ∈ packages) →
      f (s.setAllHeld names held) = f s := by
    intro names
    induction names with
    | nil => exact fun _ _ _ => rfl
    | cons name names ih =>
      intro s held sub
      exact (ih (s.setHeld name held) held fun p member => sub p (List.mem_cons_of_mem _ member)).trans
        (same s name (sub name List.mem_cons_self) held)
  intro s
  have sub : ∀ p ∈ taken raises packages s, p ∈ packages := fun p member => (mem_taken member).1
  rw [state_aptHold silent, all _ _ _ fun p member => sub p ((List.takeWhile_sublist _).subset member),
    all _ _ _ sub]

theorem held_aptHold_iff (packages : List String) {body : Action} (silent : Keeps id body)
    (s : System) :
    (∀ package ∈ packages, ((aptHold raises packages body).exec s).2.held package = s.held package) ↔
      ∀ package ∈ taken raises packages s, raises (.unhold package) = none := by
  simp only [state_aptHold silent, held_setAllHeld]
  constructor
  · intro restored package member
    obtain ⟨present, unheld⟩ := mem_taken member
    by_contra refused
    have stays : package ∉ (taken raises packages s).takeWhile
        fun package => (raises (.unhold package)).isNone := by
      intro released
      have quiet := List.mem_takeWhile_imp (p := fun package => (raises (.unhold package)).isNone)
        released
      exact refused (Option.isNone_iff_eq_none.mp quiet)
    have held := restored package present
    rw [if_neg stays, if_pos member, unheld] at held
    cases held
  · intro quiet package _
    have released : (taken raises packages s).takeWhile
        (fun package => (raises (.unhold package)).isNone) = taken raises packages s := by
      rw [List.takeWhile_eq_self_iff]
      intro package member
      exact Option.isNone_iff_eq_none.mpr (quiet package member)
    rw [released]
    split
    · exact (mem_taken ‹_›).2.symm
    · rfl

/-! ## The package freedombox -/

def HoldsFreedombox (raises : AptStep → Option Exception) (s : System) : Prop :=
  raises (.showhold freedombox) = none ∧
    (s.held freedombox = false → raises .touchFlag = none ∧ raises (.hold freedombox) = none)

theorem state_aptHoldFreedombox_of_holds (body : Action) {s : System}
    (holds : HoldsFreedombox raises s) :
    ((aptHoldFreedombox raises body).exec s).2 =
      leaveHold (s.held freedombox) (body.exec (enterHold s)).2 := by
  obtain ⟨shown, entered⟩ := holds
  simp only [aptHoldFreedombox, shown, exec_bind, exec_get, exec_attempt_none, id]
  rw [state_tryFinally, exec_modify]
  cases held : s.held freedombox with
  | true => simp [enterHold, held, Effect.when]
  | false =>
    obtain ⟨touched, set⟩ := entered held
    simp [enterHold, held, Effect.when, exec_bind, touched, set, attempt, System.setHeld]

theorem state_aptHoldFreedombox_of_not_holds (body : Action) {s : System}
    (fails : ¬ HoldsFreedombox raises s) :
    (∀ package ≠ freedombox,
      ((aptHoldFreedombox raises body).exec s).2.held package = s.held package) ∧
    ((aptHoldFreedombox raises body).exec s).2.held freedombox = s.held freedombox := by
  have left : ∀ s' : System, s'.held = s.held → s.held freedombox = false →
      (leaveHold false s').held = s.held := by
    intro s' same unheld
    rw [leaveHold, if_pos (.inl rfl)]
    funext package
    by_cases here : package = freedombox
    · simp [aptUnholdFreedombox, System.setHeld, here, unheld]
    · simp [aptUnholdFreedombox, System.setHeld, here, same]
  suffices same : ((aptHoldFreedombox raises body).exec s).2.held = s.held by
    rw [same]
    exact ⟨fun _ _ => rfl, rfl⟩
  cases shown : raises (.showhold freedombox) with
  | some e => simp only [aptHoldFreedombox, exec_bind, exec_attempt_some shown]
  | none =>
    simp only [aptHoldFreedombox, exec_bind, exec_get, exec_attempt_none shown, id]
    rw [state_tryFinally, exec_modify]
    cases held : s.held freedombox with
    | true => exact absurd ⟨shown, fun unheld => absurd (held.symm.trans unheld) (by simp)⟩ fails
    | false =>
      dsimp only
      apply left _ _ held
      rw [when_of rfl]
      cases touched : raises .touchFlag with
      | some e => simp only [exec_bind, exec_attempt_some rfl]
      | none =>
        cases set : raises (.hold freedombox) with
        | some e => simp only [exec_bind, exec_attempt_some rfl, exec_attempt_none rfl]
        | none => exact absurd ⟨shown, fun _ => ⟨touched, set⟩⟩ fails

theorem keeps_leaveHold {γ : Type} {f : System → γ}
    (same : ∀ s, f (aptUnholdFreedombox s) = f s) (currentHold : Bool) (s : System) :
    f (leaveHold currentHold s) = f s := by
  rw [leaveHold]
  split
  · exact same s
  · rfl

theorem keeps_aptHoldFreedombox {γ : Type} {f : System → γ} {body : Action}
    (unhold : ∀ s, f (aptUnholdFreedombox s) = f s)
    (flag : ∀ s : System, f { s with aptHoldFlag := true } = f s)
    (hold : ∀ s, f (s.setHeld freedombox true) = f s) (keeps : Keeps f body) :
    Keeps f (aptHoldFreedombox raises body) := by
  apply Keeps.bind (keeps_attempt fun _ => rfl)
  intro _
  apply Keeps.bind keeps_get
  intro s
  apply Keeps.tryFinally
  · apply Keeps.bind _ fun _ => keeps
    apply Keeps.when
    exact Keeps.bind (keeps_attempt flag) fun _ => keeps_attempt hold
  · exact keeps_modify (keeps_leaveHold unhold _)

end ActionUtils

namespace Upgrades

variable (env : Environment)

/-! ## The contexts of an upgrade -/

theorem silent_work (step : Step) : Keeps id (work env step) :=
  keeps_attempt fun _ => rfl

theorem silent_upgrade : Keeps id (upgrade env) := by
  apply (silent_work env .aptUpdate).bind
  intro _
  apply (silent_work env .aptFix).bind
  intro _
  apply (silent_work env .debconfSetSelections).when.bind
  intro _
  apply (silent_work env .packagesRemoveObsolete).when.bind
  intro _
  apply (silent_work env .aptFullUpgrade).bind
  intro _
  exact silent_work env .aptAutoremove

def aptRaises (step : AptStep) : Option Exception :=
  env.raises (.apt step)

def Suspends (s : System) : Prop :=
  env.isSupported = true → env.raises .takeSnapshot = none ∧ env.raises .loadAugeas = none ∧
    (isAptSnapshotsEnabled s = true → env.raises (.disableAptSnapshot "yes") = none)

def holding : Action :=
  aptHoldPackages env (upgrade env)

theorem holding_eq : holding env = aptHoldFreedombox (aptRaises env)
    (aptHold (aptRaises env) packagesWithPrompts (upgrade env)) := rfl

def inner : Action :=
  servicesDisable (holding env)

theorem state_perform (s : System) :
    ((perform env).exec s).2 = ((snapshotRunAndDisable env (inner env)).exec s).2 := by
  apply state_bind_of_keeps
  intro _
  apply (silent_work env .unattendedUpgrades).bind
  intro _
  apply (silent_work env .freedomboxRestart).bind
  intro _
  exact silent_work env .triggerOnComplete

theorem not_freedombox {package : String} (member : package ∈ packagesWithPrompts) :
    package ≠ freedombox := by
  rintro rfl
  exact absurd member (by decide)

theorem holding_freedombox_iff (s : System) :
    ((holding env).exec s).2.held freedombox = s.held freedombox ↔
      (aptRaises env (.showhold freedombox) = none → s.held freedombox = true →
        s.aptHoldFlag = false) := by
  by_cases holds : HoldsFreedombox (aptRaises env) s
  · have inside : Keeps (fun s : System => (s.held freedombox, s.aptHoldFlag))
        (aptHold (aptRaises env) packagesWithPrompts (upgrade env)) := by
      apply keeps_aptHold _ (silent_upgrade env)
      intro s package member held
      simp [System.setHeld, Ne.symm (not_freedombox member)]
    have final := state_aptHoldFreedombox_of_holds
      (aptHold (aptRaises env) packagesWithPrompts (upgrade env)) holds
    rw [← holding_eq] at final
    have kept := inside (enterHold s)
    simp only [Prod.mk.injEq] at kept
    obtain ⟨heldKept, flagKept⟩ := kept
    rw [final]
    cases held : s.held freedombox with
    | false => simp [leaveHold, aptUnholdFreedombox, System.setHeld]
    | true =>
      have same : enterHold s = s := by
        rw [enterHold, if_pos held]
      rw [same] at heldKept flagKept ⊢
      cases flagged : s.aptHoldFlag with
      | false => simp [leaveHold, heldKept, flagKept, flagged, held]
      | true => simp [leaveHold, flagKept, flagged, aptUnholdFreedombox, System.setHeld, holds.1]
  · have same := (state_aptHoldFreedombox_of_not_holds
      (aptHold (aptRaises env) packagesWithPrompts (upgrade env)) holds).2
    constructor
    · intro _ shown held
      exact absurd ⟨shown, fun unheld => absurd (held.symm.trans unheld) (by simp)⟩ holds
    · intro _
      exact same

theorem holding_packages_iff (s : System) :
    (∀ package ∈ packagesWithPrompts, ((holding env).exec s).2.held package = s.held package) ↔
      (HoldsFreedombox (aptRaises env) s → ∀ package ∈ taken (aptRaises env) packagesWithPrompts s,
        aptRaises env (.unhold package) = none) := by
  by_cases holds : HoldsFreedombox (aptRaises env) s
  · have before : ∀ package ∈ packagesWithPrompts, (enterHold s).held package = s.held package := by
      intro package member
      rw [enterHold]
      split
      · rfl
      · simp [System.setHeld, not_freedombox member]
    have after : ∀ package ∈ packagesWithPrompts, ((holding env).exec s).2.held package =
        ((aptHold (aptRaises env) packagesWithPrompts (upgrade env)).exec
          (enterHold s)).2.held package := by
      intro package member
      rw [holding_eq, state_aptHoldFreedombox_of_holds _ holds]
      apply keeps_leaveHold (f := fun s => s.held package)
      intro s
      simp [aptUnholdFreedombox, System.setHeld, not_freedombox member]
    have inside : (∀ package ∈ packagesWithPrompts,
        ((aptHold (aptRaises env) packagesWithPrompts (upgrade env)).exec
          (enterHold s)).2.held package = (enterHold s).held package) ↔ _ :=
      held_aptHold_iff packagesWithPrompts (silent_upgrade env) (enterHold s)
    rw [taken_congr before] at inside
    constructor
    · intro restored _
      apply inside.mp
      intro package member
      rw [← after package member, restored package member, before package member]
    · intro quiet package member
      rw [after package member, inside.mpr (quiet holds) package member, before package member]
  · have same := (state_aptHoldFreedombox_of_not_holds
      (aptHold (aptRaises env) packagesWithPrompts (upgrade env)) holds).1
    constructor
    · intro _ entered
      exact absurd entered holds
    · intro _ package member
      exact same package (not_freedombox member)

/-! ## The services around them -/

theorem keeps_holding {γ : Type} {f : System → γ}
    (same : ∀ (s : System) (held : String → Bool) (flag : Bool),
      f { s with held := held, aptHoldFlag := flag } = f s) : Keeps f (holding env) := by
  have inside : Keeps f (aptHold (aptRaises env) packagesWithPrompts (upgrade env)) :=
    keeps_aptHold (fun s _ _ _ => same s _ s.aptHoldFlag) (silent_upgrade env)
  have unhold : ∀ s, f (aptUnholdFreedombox s) = f s := fun s => same s _ false
  have flag : ∀ s : System, f { s with aptHoldFlag := true } = f s := fun s => same s s.held true
  have hold : ∀ s, f (s.setHeld freedombox true) = f s := fun s => same s _ s.aptHoldFlag
  rw [holding_eq]
  exact keeps_aptHoldFreedombox unhold flag hold inside

theorem held_inner (s : System) : ∃ s' : System, s'.held = s.held ∧
    s'.aptHoldFlag = s.aptHoldFlag ∧ ((inner env).exec s).2.held = ((holding env).exec s').2.held := by
  have state := state_serviceEnsureStopped quassel (holding env) s
  change ((inner env).exec s).2 = _ at state
  rw [state]
  split
  · exact ⟨serviceDisable quassel s, rfl, rfl, rfl⟩
  · exact ⟨s, rfl, rfl, rfl⟩

theorem holdsFreedombox_congr {raises : AptStep → Option Exception} {s s' : System}
    (same : s'.held = s.held) : HoldsFreedombox raises s' ↔ HoldsFreedombox raises s := by
  rw [HoldsFreedombox, HoldsFreedombox, same]

theorem inner_services (s : System) :
    ((inner env).exec s).2.enabled quassel =
      (if s.running quassel = true then true else s.enabled quassel) ∧
    ((inner env).exec s).2.running quassel = s.running quassel := by
  have state := state_serviceEnsureStopped quassel (holding env) s
  change ((inner env).exec s).2 = _ at state
  rw [state]
  by_cases running : s.running quassel = true
  · simp [running, serviceEnable, System.setService]
  · have enabledKept : Keeps System.enabled (holding env) := keeps_holding env fun _ _ _ => rfl
    have runningKept : Keeps System.running (holding env) := keeps_holding env fun _ _ _ => rfl
    rw [if_neg running, if_neg running, enabledKept s, runningKept s]
    exact ⟨rfl, rfl⟩

theorem inner_snapshots : Keeps System.disableAptSnapshot (inner env) := by
  have inside : Keeps System.disableAptSnapshot (holding env) := keeps_holding env fun _ _ _ => rfl
  have service : ∀ (s : System) (on : Bool),
      (s.setService quassel on).disableAptSnapshot = s.disableAptSnapshot := fun _ _ => rfl
  exact keeps_serviceEnsureStopped service inside

/-! ## All of it -/

def suspended (s : System) : System :=
  if env.isSupported = true ∧ isAptSnapshotsEnabled s = true then
    { s with disableAptSnapshot := some "yes" }
  else s

theorem exec_work_none {step : Step} (quiet : env.raises step = none) (s : System) :
    (work env step).exec s = (.ok (), s) :=
  exec_attempt_none quiet id s

theorem exec_work_some {step : Step} {e : Exception} (raised : env.raises step = some e)
    (s : System) : (work env step).exec s = (.error e, s) :=
  exec_attempt_some raised id s

theorem state_snapshotRunAndDisable_of_not_suspends (body : Action) {s : System}
    (fails : ¬ Suspends env s) : ((snapshotRunAndDisable env body).exec s).2 = s := by
  rw [Suspends, Classical.not_imp] at fails
  obtain ⟨supported, fails⟩ := fails
  rw [snapshotRunAndDisable, if_pos supported]
  rcases taken : env.raises .takeSnapshot with _ | e
  · rcases loaded : env.raises .loadAugeas with _ | e
    · simp only [exec_bind, exec_work_none env taken, exec_work_none env loaded, exec_get]
      have enabled : isAptSnapshotsEnabled s = true ∧
          ∃ e, env.raises (.disableAptSnapshot "yes") = some e := by
        by_contra none
        apply fails
        refine ⟨taken, loaded, ?_⟩
        intro enabled
        by_contra some
        exact none ⟨enabled, Option.ne_none_iff_exists'.mp some⟩
      obtain ⟨enabled, e, raised⟩ := enabled
      rw [when_of enabled, disableAptSnapshot, exec_attempt_some raised]
    · simp only [exec_bind, exec_work_none env taken, exec_work_some env loaded]
  · simp only [exec_bind, exec_work_some env taken]

theorem state_snapshotRunAndDisable_of_suspends (body : Action) {s : System}
    (suspends : Suspends env s) :
    ((snapshotRunAndDisable env body).exec s).2 =
      if env.isSupported = true ∧ isAptSnapshotsEnabled s = true ∧
        env.raises (.disableAptSnapshot "no") = none then
        { (body.exec (suspended env s)).2 with disableAptSnapshot := some "no" }
      else (body.exec (suspended env s)).2 := by
  rw [snapshotRunAndDisable]
  by_cases supported : env.isSupported = true
  · obtain ⟨taken, loaded, disabled⟩ := suspends supported
    rw [if_pos supported]
    simp only [exec_bind, exec_work_none env taken, exec_work_none env loaded, exec_get]
    by_cases enabled : isAptSnapshotsEnabled s = true
    · have start : suspended env s = { s with disableAptSnapshot := some "yes" } :=
        if_pos ⟨supported, enabled⟩
      rw [when_of enabled, when_of enabled, disableAptSnapshot,
        exec_attempt_none (disabled enabled), start]
      dsimp only
      rw [state_tryFinally]
      rcases again : env.raises (.disableAptSnapshot "no") with _ | e
      · rw [if_pos ⟨supported, enabled, rfl⟩, disableAptSnapshot, exec_attempt_none again]
      · rw [if_neg (by simp), disableAptSnapshot, exec_attempt_some again]
    · have start : suspended env s = s := if_neg fun both => enabled both.2
      rw [when_of_not enabled, when_of_not enabled, exec_pure, start,
        if_neg fun all => enabled all.2.1]
      dsimp only
      rw [state_tryFinally, exec_pure]
  · have start : suspended env s = s := if_neg fun both => supported both.1
    rw [if_neg supported, start, if_neg fun all => supported all.1]

structure Restored (s s' : System) : Prop where
  packages : ∀ package ∈ packagesWithPrompts, s'.held package = s.held package
  freedombox : s'.held freedombox = s.held freedombox
  snapshots : isAptSnapshotsEnabled s' = isAptSnapshotsEnabled s
  enabled : s'.enabled quassel = s.enabled quassel
  running : s'.running quassel = s.running quassel

/-- If the contexts are entered at all: the snapshots can be enabled again, quassel does not run
without being enabled, freedombox is not on hold together with the flag, and the hold of each
package that is held for the upgrade can be released. -/
structure Restorable (s : System) : Prop where
  snapshots : Suspends env s → env.isSupported = true → isAptSnapshotsEnabled s = true →
    env.raises (.disableAptSnapshot "no") = none
  quassel : Suspends env s → s.running quassel = true → s.enabled quassel = true
  freedombox : Suspends env s → aptRaises env (.showhold freedombox) = none →
    s.held freedombox = true → s.aptHoldFlag = false
  packages : Suspends env s → HoldsFreedombox (aptRaises env) s →
    ∀ package ∈ taken (aptRaises env) packagesWithPrompts s, aptRaises env (.unhold package) = none

theorem suspended_rest {γ : Type} {f : System → γ}
    (same : ∀ (s : System) value, f { s with disableAptSnapshot := value } = f s) (s : System) :
    f (suspended env s) = f s := by
  rw [suspended]
  split
  · exact same s _
  · rfl

section Suspended

variable {env} {s : System}

theorem rest_snapshotRunAndDisable (suspends : Suspends env s) {γ : Type} {f : System → γ}
    (same : ∀ (s : System) value, f { s with disableAptSnapshot := value } = f s) :
    f ((snapshotRunAndDisable env (inner env)).exec s).2 =
      f ((inner env).exec (suspended env s)).2 := by
  rw [state_snapshotRunAndDisable_of_suspends env _ suspends]
  split
  · exact same _ _
  · rfl

theorem held_perform (suspends : Suspends env s) : ∃ s' : System, s'.held = s.held ∧
    s'.aptHoldFlag = s.aptHoldFlag ∧
      ((perform env).exec s).2.held = ((holding env).exec s').2.held := by
  obtain ⟨s', held, flag, after⟩ := held_inner env (suspended env s)
  refine ⟨s', ?_, ?_, ?_⟩
  · rw [held]
    exact suspended_rest env (f := System.held) (fun _ _ => rfl) s
  · rw [flag]
    exact suspended_rest env (f := System.aptHoldFlag) (fun _ _ => rfl) s
  · rw [state_perform, rest_snapshotRunAndDisable suspends (f := System.held) fun _ _ => rfl]
    exact after

theorem perform_freedombox_iff (suspends : Suspends env s) :
    ((perform env).exec s).2.held freedombox = s.held freedombox ↔
      (aptRaises env (.showhold freedombox) = none → s.held freedombox = true →
        s.aptHoldFlag = false) := by
  obtain ⟨s', held, flag, after⟩ := held_perform suspends
  rw [after, ← held, ← flag]
  exact holding_freedombox_iff env s'

theorem perform_packages_iff (suspends : Suspends env s) :
    (∀ package ∈ packagesWithPrompts, ((perform env).exec s).2.held package = s.held package) ↔
      (HoldsFreedombox (aptRaises env) s → ∀ package ∈ taken (aptRaises env) packagesWithPrompts s,
        aptRaises env (.unhold package) = none) := by
  obtain ⟨s', held, _, after⟩ := held_perform suspends
  have taken : taken (aptRaises env) packagesWithPrompts s' =
      taken (aptRaises env) packagesWithPrompts s := taken_congr fun package _ => by rw [held]
  rw [after, ← held, ← taken, ← holdsFreedombox_congr held]
  exact holding_packages_iff env s'

theorem perform_snapshots_iff (suspends : Suspends env s) :
    isAptSnapshotsEnabled ((perform env).exec s).2 = isAptSnapshotsEnabled s ↔
      (env.isSupported = true → isAptSnapshotsEnabled s = true →
        env.raises (.disableAptSnapshot "no") = none) := by
  have kept := inner_snapshots env (suspended env s)
  rw [state_perform, state_snapshotRunAndDisable_of_suspends env _ suspends]
  by_cases both : env.isSupported = true ∧ isAptSnapshotsEnabled s = true
  · obtain ⟨supported, enabled⟩ := both
    have start : suspended env s = { s with disableAptSnapshot := some "yes" } :=
      if_pos ⟨supported, enabled⟩
    rw [start] at kept ⊢
    by_cases quiet : env.raises (.disableAptSnapshot "no") = none
    · rw [if_pos ⟨supported, enabled, quiet⟩, enabled]
      simp [isAptSnapshotsEnabled, quiet]
    · rw [if_neg fun all => quiet all.2.2, enabled, isAptSnapshotsEnabled, kept]
      simp [supported, quiet]
  · have start : suspended env s = s := if_neg both
    rw [start] at kept ⊢
    rw [if_neg fun all => both ⟨all.1, all.2.1⟩, isAptSnapshotsEnabled, kept]
    constructor
    · intro _ supported enabled
      exact absurd ⟨supported, enabled⟩ both
    · intro _
      rfl

theorem perform_services (suspends : Suspends env s) :
    ((perform env).exec s).2.enabled quassel =
      (if s.running quassel = true then true else s.enabled quassel) ∧
    ((perform env).exec s).2.running quassel = s.running quassel := by
  obtain ⟨enabled, running⟩ := inner_services env (suspended env s)
  have enabledStart := suspended_rest env (f := fun s => s.enabled quassel) (fun _ _ => rfl) s
  have runningStart := suspended_rest env (f := fun s => s.running quassel) (fun _ _ => rfl) s
  have enabledAfter := rest_snapshotRunAndDisable suspends (f := fun s => s.enabled quassel)
    fun _ _ => rfl
  have runningAfter := rest_snapshotRunAndDisable suspends (f := fun s => s.running quassel)
    fun _ _ => rfl
  rw [state_perform, enabledAfter, runningAfter, enabled, running, enabledStart, runningStart]
  exact ⟨rfl, rfl⟩

theorem perform_enabled_iff (suspends : Suspends env s) :
    ((perform env).exec s).2.enabled quassel = s.enabled quassel ↔
      (s.running quassel = true → s.enabled quassel = true) := by
  rw [(perform_services suspends).1]
  split
  · rename_i running
    rw [running]
    exact ⟨fun same _ => same.symm, fun all => (all rfl).symm⟩
  · rename_i stopped
    exact ⟨fun _ running => absurd running stopped, fun _ => rfl⟩

end Suspended

theorem perform_restores_iff (s : System) :
    Restored s ((perform env).exec s).2 ↔ Restorable env s := by
  by_cases suspends : Suspends env s
  · constructor
    · intro restored
      exact
        { snapshots := fun _ => (perform_snapshots_iff suspends).mp restored.snapshots
          quassel := fun _ => (perform_enabled_iff suspends).mp restored.enabled
          freedombox := fun _ => (perform_freedombox_iff suspends).mp restored.freedombox
          packages := fun _ => (perform_packages_iff suspends).mp restored.packages }
    · intro restorable
      exact
        { packages := (perform_packages_iff suspends).mpr (restorable.packages suspends)
          freedombox := (perform_freedombox_iff suspends).mpr (restorable.freedombox suspends)
          snapshots := (perform_snapshots_iff suspends).mpr (restorable.snapshots suspends)
          enabled := (perform_enabled_iff suspends).mpr (restorable.quassel suspends)
          running := (perform_services suspends).2 }
  · rw [state_perform, state_snapshotRunAndDisable_of_not_suspends env _ suspends]
    constructor
    · intro _
      exact ⟨fun h => absurd h suspends, fun h => absurd h suspends, fun h => absurd h suspends,
        fun h => absurd h suspends⟩
    · intro _
      exact ⟨fun _ _ => rfl, rfl, rfl, rfl, rfl⟩

def startedByHand : System where
  held _ := false
  aptHoldFlag := false
  enabled _ := false
  running name := name = quassel
  disableAptSnapshot := none

theorem quassel_enabled_by_upgrade :
    ¬ Restored startedByHand ((perform ⟨true, fun _ => none⟩).exec startedByHand).2 := by
  intro restored
  have suspends : Suspends ⟨true, fun _ => none⟩ startedByHand := fun _ => ⟨rfl, rfl, fun _ => rfl⟩
  have enabled := (perform_enabled_iff suspends).mp restored.enabled (by simp [startedByHand])
  simp [startedByHand] at enabled

end Upgrades

end Plinth
