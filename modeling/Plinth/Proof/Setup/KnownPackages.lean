import Plinth.Model.Setup
import Plinth.Proof.Registries

/-! # Packages that have been processed -/

namespace Plinth.Setup

open Python Exception Atomic Effect Package

/-! ## Known versions -/

def packagesKnown (table : KVStore.Table) : Value :=
  KVStore.valueAt "packages_known" (.dict []) table

def Known (known : Value) (package version : String) : Prop :=
  ∃ items, entry known package = some (some (.dict items)) ∧
    lookup "version" items = some (.str version)

theorem known_congr {known known' : Value} {package version : String}
    (same : entry known' package = entry known package) :
    Known known' package version ↔ Known known package version := by
  rw [Known, Known, same]

theorem versionKnown_of_known {known : Value} {package version : String}
    (found : Known known package version) :
    ∃ packageKnown, dictGet known package (.dict []) = .ok packageKnown ∧
      dictGet packageKnown "version" .none = .ok (.str version) := by
  obtain ⟨items, entered, looked⟩ := found
  cases known with
  | dict packages =>
    refine ⟨.dict items, ?_, ?_⟩
    · rw [dictGet, Option.some.inj entered]
      rfl
    · rw [dictGet, looked]
      rfl
  | _ => cases entered

theorem appNeedsSetupRerun_cons {known : Value} {cache : Cache} {package version installed : String}
    (packages : List String) (found : Known known package version)
    (here : installedVersion cache package = some installed) :
    appNeedsSetupRerun known cache (package :: packages) =
      if version = installed then appNeedsSetupRerun known cache packages else .ok true := by
  obtain ⟨packageKnown, first, second⟩ := versionKnown_of_known found
  rw [appNeedsSetupRerun, here]
  dsimp only
  rw [Effect.bind_of_ok first (Effect.bind_of_ok second rfl)]
  by_cases same : version = installed
  · simp [isText, same]
  · simp only [isText, same, decide_false, if_neg Bool.false_ne_true, if_false]
    rfl

theorem appNeedsSetupRerun_of_known {known : Value} {cache : Cache} {packages : List String}
    (all : ∀ package ∈ packages, ∀ version, installedVersion cache package = some version →
      Known known package version) : appNeedsSetupRerun known cache packages = .ok false := by
  induction packages with
  | nil => rfl
  | cons package packages ih =>
    rw [List.forall_mem_cons] at all
    cases installed : installedVersion cache package with
    | none => rw [appNeedsSetupRerun, installed]
    | some version =>
      rw [appNeedsSetupRerun_cons _ (all.1 version installed) installed, if_pos rfl]
      exact ih all.2

theorem appNeedsSetupRerun_of_changed {known : Value} {cache : Cache} {packages : List String}
    (version : String → String) (all : ∀ package ∈ packages, Known known package (version package))
    (installed : ∀ package ∈ packages, (installedVersion cache package).isSome = true)
    (changed : ∃ package ∈ packages, installedVersion cache package ≠ some (version package)) :
    appNeedsSetupRerun known cache packages = .ok true := by
  induction packages with
  | nil =>
    obtain ⟨package, member, _⟩ := changed
    exact absurd member List.not_mem_nil
  | cons package packages ih =>
    rw [List.forall_mem_cons] at all installed
    obtain ⟨here, found⟩ := Option.isSome_iff_exists.mp installed.1
    rw [appNeedsSetupRerun_cons _ all.1 found]
    split
    · rename_i same
      apply ih all.2 installed.2
      obtain ⟨other, member, different⟩ := changed
      rcases List.mem_cons.mp member with rfl | member
      · rw [found, same] at different
        exact absurd rfl different
      · exact ⟨other, member, different⟩
    · rfl

/-! ## Marking and forgetting -/

theorem jsonData_packagesKnown (table : KVStore.Table) : JsonData (packagesKnown table) :=
  KVStore.jsonData_valueAt (.dict [] List.nodup_nil (by simp)) table

theorem exec_getKnown (table : KVStore.Table) :
    getKnown.exec table = (.ok (packagesKnown table), table) := by
  rw [getKnown, KVStore.getDefault, Program.exec, packagesKnown, KVStore.valueAt]
  split <;> simp_all [Program.exec]

theorem exec_store (result : Value → Except Exception Value) (table : KVStore.Table)
    (valid : ∀ new, result (packagesKnown table) = .ok new → JsonData new) :
    (getKnown >>= fun known => Program.lift (result known) >>= KVStore.set "packages_known").exec
        table = match result (packagesKnown table) with
      | .error e => (.error e, table)
      | .ok new => (.ok (), KVStore.put "packages_known" new table) := by
  rw [Program.exec_bind, exec_getKnown]
  dsimp only
  have lifted : (Program.lift (result (packagesKnown table)) :
      Program KVStore.Table Exception Value).exec table = (result (packagesKnown table), table) := rfl
  rw [Program.exec_bind, lifted]
  cases stored : result (packagesKnown table) with
  | error e => rfl
  | ok new =>
    dsimp only
    rw [KVStore.set_of_jsonData (valid new stored)]
    rfl

theorem exec_call (call : Call) (table : KVStore.Table) :
    (∃ e, call.program.exec table = (.error e, table)) ∨
      ∃ new, call.program.exec table = (.ok (), KVStore.put "packages_known" new table) ∧
        call.update (packagesKnown table) = some new ∧ JsonData new := by
  have valid : ∀ new, call.update (packagesKnown table) = some new → JsonData new :=
    fun _ changed => (touches_update call).valid (jsonData_packagesKnown table) changed
  cases call with
  | markKnown installed packages =>
    have ran := exec_store (fun known => packages.foldlM (markOne installed) known) table
      fun new marked => valid new (by rw [Call.update, marked]; rfl)
    cases marked : packages.foldlM (markOne installed) (packagesKnown table) with
    | error e =>
      rw [marked] at ran
      exact .inl ⟨e, ran⟩
    | ok new =>
      rw [marked] at ran
      have updated : Call.update (.markKnown installed packages) (packagesKnown table) = some new := by
        rw [Call.update, marked]
        rfl
      exact .inr ⟨new, ran, updated, valid new updated⟩
  | unmarkKnown packages =>
    have ran := exec_store (fun known => packages.foldlM unmarkOne known) table
      fun new unmarked => valid new (by rw [Call.update, unmarked]; rfl)
    cases unmarked : packages.foldlM unmarkOne (packagesKnown table) with
    | error e =>
      rw [unmarked] at ran
      exact .inl ⟨e, ran⟩
    | ok new =>
      rw [unmarked] at ran
      have updated : Call.update (.unmarkKnown packages) (packagesKnown table) = some new := by
        rw [Call.update, unmarked]
        rfl
      exact .inr ⟨new, ran, updated, valid new updated⟩

theorem settles_change (call : Call) (packages : List String) : Settles call.change packages := by
  apply List.pairwise_of_forall
  rintro package _ rfl old new changed
  exact change_twice changed

theorem known_after_mark {installed : String → Option String} {packages : List String}
    {known new : Value} (updated : Call.update (.markKnown installed packages) known = some new)
    (package version : String) :
    (package ∈ packages → installed package = some version → Known new package version) ∧
      (package ∉ packages ∨ installed package = none → entry new package = entry known package) := by
  rw [update_eq] at updated
  obtain ⟨others, those⟩ := changeEntries_entry (settles_change _ _) updated
  constructor
  · intro member found
    have changed : package ∈ Call.changed (.markKnown installed packages) :=
      List.mem_filter.mpr ⟨member, by rw [found]; rfl⟩
    obtain ⟨old, value, _, changes, result⟩ := those package changed
    rw [Call.change, found] at changes
    cases items : old.getD (.dict []) with
    | dict items' =>
      rw [items] at changes
      cases changes
      exact ⟨_, result, by rw [lookup_setKey, if_pos rfl]⟩
    | _ =>
      rw [items] at changes
      cases changes
  · intro untouched
    apply others
    intro changed
    obtain ⟨member, found⟩ := List.mem_filter.mp changed
    rcases untouched with absent | none
    · exact absent member
    · rw [none] at found
      cases found

theorem known_after_unmark {packages : List String} {known new : Value}
    (updated : Call.update (.unmarkKnown packages) known = some new) {package : String}
    (absent : package ∉ packages) : entry new package = entry known package :=
  (touches_update (.unmarkKnown packages)).frame updated package absent

/-! ## What is marked stays known -/

def Unchanged (env : Package.Environment) (since now : Nat) (package : String) : Prop :=
  ∀ t, since ≤ t → t ≤ now → (env.cache t).get? package = (env.cache since).get? package

def KnownInv (env : Package.Environment) (s : Package.State) : Prop :=
  ∀ record ∈ s.marked, record.1 ≤ s.now ∧ (Unchanged env record.1 s.now record.2 →
    ∀ version, installedVersion (env.cache record.1) record.2 = some version →
      Known (packagesKnown s.table) record.2 version)

def Grows (s s' : Package.State) : Prop :=
  s.now ≤ s'.now ∧ ∀ record ∈ s.marked, record ∈ s'.marked

def Sound {α : Type} (env : Package.Environment) (m : Effect Package.State Exception α) : Prop :=
  ∀ s, (KnownInv env s → KnownInv env (m.exec s).2) ∧ Grows s (m.exec s).2

section Sound

variable {env : Package.Environment} {α β : Type}

theorem Grows.refl (s : Package.State) : Grows s s :=
  ⟨Nat.le_refl _, fun _ member => member⟩

theorem Grows.trans {s s' s'' : Package.State} (first : Grows s s') (later : Grows s' s'') :
    Grows s s'' :=
  ⟨Nat.le_trans first.1 later.1, fun record member => later.2 record (first.2 record member)⟩

theorem Unchanged.earlier {since now later : Nat} {package : String} (bound : now ≤ later)
    (unchanged : Unchanged env since later package) : Unchanged env since now package :=
  fun t first last => unchanged t first (Nat.le_trans last bound)

theorem Unchanged.installed {since now t : Nat} {package : String}
    (unchanged : Unchanged env since now package) (first : since ≤ t) (last : t ≤ now) :
    installedVersion (env.cache t) package = installedVersion (env.cache since) package := by
  rw [installedVersion, installedVersion, unchanged t first last]

theorem sound_of_state {m : Effect Package.State Exception α}
    (same : ∀ s, (m.exec s).2 = s) : Sound env m := by
  intro s
  rw [same s]
  exact ⟨id, .refl s⟩

theorem Sound.bind {m : Effect Package.State Exception α}
    {rest : α → Effect Package.State Exception β} (first : Sound env m)
    (later : ∀ a, Sound env (rest a)) : Sound env (m >>= rest) := by
  intro s
  rw [exec_bind]
  have here := first s
  generalize m.exec s = outcome at here ⊢
  obtain ⟨e | a, s'⟩ := outcome
  · exact here
  · have there := later a s'
    exact ⟨fun inv => there.1 (here.1 inv), here.2.trans there.2⟩

theorem Sound.when {c : Prop} [Decidable c] {m : Effect Package.State Exception Unit}
    (sound : Sound env m) : Sound env (Effect.when c m) := by
  by_cases holds : c
  · rw [when_of holds]
    exact sound
  · rw [when_of_not holds]
    exact sound_of_state fun _ => rfl

theorem Sound.forEach {l : List β} {body : β → Effect Package.State Exception Unit}
    (each : ∀ b ∈ l, Sound env (body b)) : Sound env (Effect.forEach l body) := by
  induction l with
  | nil => exact sound_of_state fun _ => rfl
  | cons b l ih =>
    apply (each b List.mem_cons_self).bind
    intro _
    exact ih fun b' member => each b' (List.mem_cons_of_mem _ member)

theorem knownInv_later {s s' : Package.State} (inv : KnownInv env s) (later : s.now ≤ s'.now)
    (table : s'.table = s.table) (marked : s'.marked = s.marked) : KnownInv env s' := by
  intro record member
  rw [marked] at member
  obtain ⟨past, known⟩ := inv record member
  refine ⟨Nat.le_trans past later, fun unchanged => ?_⟩
  rw [table]
  exact known (unchanged.earlier later)

theorem sound_takeMoment : Sound env takeMoment := by
  intro s
  exact ⟨fun inv => knownInv_later inv (Nat.le_succ _) rfl rfl, Nat.le_succ _, fun _ member => member⟩

theorem sound_openCache : Sound env (openCache env) :=
  sound_takeMoment.bind fun _ => sound_of_state fun _ => rfl

theorem sound_lift (result : Except Exception α) :
    Sound env (lift result : Effect Package.State Exception α) := by
  apply sound_of_state
  intro s
  rw [exec_lift]

theorem sound_transaction (raises : Nat → Option Exception) :
    Sound env (transaction raises) := by
  apply sound_takeMoment.bind
  intro now
  cases raises now with
  | none => exact sound_of_state fun _ => rfl
  | some e => exact sound_of_state fun _ => rfl

theorem exec_onTable (program : Program KVStore.Table Exception α) (s : Package.State) :
    (onTable program).exec s =
      ((program.exec s.table).1, { s with table := (program.exec s.table).2 }) := by
  simp only [onTable, exec_bind, exec_get, exec_modify, exec_lift]

theorem packagesKnown_put {new : Value} (data : JsonData new) (table : KVStore.Table) :
    packagesKnown (KVStore.put "packages_known" new table) = new :=
  KVStore.valueAt_put data table

theorem exec_transaction (raises : Nat → Option Exception) (s : Package.State) :
    (transaction raises).exec s = match raises s.now with
      | some e => (.error e, { s with now := s.now + 1 })
      | none => (.ok (), { s with now := s.now + 1 }) := by
  simp only [transaction, takeMoment, exec_bind, exec_get, exec_modify, exec_pure]
  cases raises s.now <;> rfl

theorem sound_uninstall (packages : List String) : Sound env (Package.uninstall env packages) := by
  intro s
  rw [Package.uninstall, exec_bind, exec_transaction]
  cases removing : env.uninstallTransaction s.now packages with
  | some e => exact ⟨fun inv => knownInv_later inv (Nat.le_succ _) rfl rfl, Nat.le_succ _, fun _ h => h⟩
  | none =>
    dsimp only
    rw [exec_onTable]
    refine ⟨fun inv => ?_, Nat.le_succ _, fun _ h => h⟩
    rcases exec_call (.unmarkKnown packages) s.table with ⟨e, ran⟩ | ⟨new, ran, updated, data⟩
    · rw [Call.program] at ran
      rw [ran]
      exact knownInv_later inv (Nat.le_succ _) rfl rfl
    · rw [Call.program] at ran
      rw [ran]
      intro record member
      obtain ⟨past, known⟩ := inv record member
      refine ⟨Nat.le_succ_of_le past, ?_⟩
      intro unchanged version installed
      have absent : record.2 ∉ packages := by
        intro removed
        have gone := env.removed s.now packages removing record.2 removed
        rw [unchanged.installed (Nat.le_succ_of_le past) (Nat.le_refl _), installed] at gone
        cases gone
      dsimp only
      rw [packagesKnown_put data, known_congr (known_after_unmark updated absent)]
      exact known (unchanged.earlier (Nat.le_succ _)) version installed

theorem sound_markKnownNow (packages : List String) : Sound env (markKnownNow env packages) := by
  intro s
  simp only [markKnownNow, openCache, takeMoment, exec_bind, exec_get, exec_modify, exec_pure,
    exec_onTable]
  rcases exec_call (.markKnown (installedVersion (env.cache s.now)) packages) s.table with
    ⟨e, ran⟩ | ⟨new, ran, updated, data⟩
  · rw [Call.program] at ran
    rw [ran]
    exact ⟨fun inv => knownInv_later inv (Nat.le_succ _) rfl rfl, Nat.le_succ _, fun _ h => h⟩
  · rw [Call.program] at ran
    rw [ran]
    refine ⟨fun inv => ?_, Nat.le_succ _, fun _ h => List.mem_append_left _ h⟩
    intro record member
    have marks := known_after_mark updated record.2
    rcases List.mem_append.mp member with member | member
    · obtain ⟨past, known⟩ := inv record member
      refine ⟨Nat.le_succ_of_le past, ?_⟩
      intro unchanged version installed
      dsimp only
      rw [packagesKnown_put data]
      have now := unchanged.installed past (Nat.le_succ _)
      rw [installed] at now
      by_cases again : record.2 ∈ packages
      · exact (marks version).1 again now
      · rw [known_congr ((marks version).2 (.inl again))]
        exact known (unchanged.earlier (Nat.le_succ _)) version installed
    · obtain ⟨package, named, rfl⟩ := List.mem_map.mp member
      refine ⟨Nat.le_succ _, ?_⟩
      intro _ version installed
      dsimp only
      rw [packagesKnown_put data]
      exact (marks version).1 named installed

/-! ## Operations -/

theorem sound_assertInstalled (cache : Cache) (package : String) :
    Sound env (assertInstalled cache package) := by
  rw [assertInstalled]
  split
  · exact sound_of_state fun _ => rfl
  · split <;> exact sound_of_state fun _ => rfl

theorem sound_install (allowInstall : Bool) (packages : List String) :
    Sound env (install env allowInstall packages) := by
  rw [install]
  split
  · exact (sound_transaction _).bind fun _ => sound_markKnownNow packages
  · apply sound_openCache.bind
    intro cache
    exact Sound.forEach fun package _ => sound_assertInstalled cache package

theorem sound_findConflicts (component : Packages) : Sound env (component.findConflicts env) := by
  rw [Packages.findConflicts]
  split
  · exact sound_of_state fun _ => rfl
  · exact sound_openCache.bind fun _ => sound_of_state fun _ => rfl

theorem sound_setup (allowInstall : Bool) (component : Packages) :
    Sound env (component.setup env allowInstall) := by
  apply (sound_findConflicts component).bind
  intro packagesToRemove
  apply (Sound.when (sound_uninstall packagesToRemove)).bind
  intro _
  apply sound_openCache.bind
  intro cache
  exact (sound_lift _).bind fun packages => sound_install allowInstall packages

theorem sound_uninstallPackages (app : Package.App) (component : Packages) :
    Sound env (component.uninstall env app) := by
  apply (sound_transaction _).bind
  intro _
  apply sound_openCache.bind
  intro cache
  exact (sound_of_state fun _ => rfl).bind fun s => sound_uninstall _

theorem sound_setupComponent (allowInstall : Bool) (component : Component) :
    Sound env (Package.App.setupComponent env allowInstall component) := by
  cases component with
  | packages component => exact sound_setup allowInstall component
  | other componentId => exact sound_transaction _

theorem sound_uninstallComponent (app : Package.App) (component : Component) :
    Sound env (Package.App.uninstallComponent env app component) := by
  cases component with
  | packages component => exact sound_uninstallPackages app component
  | other componentId => exact sound_transaction _

theorem sound_setVersion (appId : String) (version : Nat) :
    Sound env (modify fun s =>
      { s with setupVersion := Function.update s.setupVersion appId version }) := by
  intro s
  exact ⟨fun inv => knownInv_later inv (Nat.le_refl _) rfl rfl, Nat.le_refl _, fun _ h => h⟩

theorem sound_attemptUpgrade (app : Package.App) (allowInstall : Bool) :
    Sound env (do
      transaction env.refreshPackageLists
      attemptUpgradeForApp env app allowInstall) := by
  apply (sound_transaction _).bind
  intro _
  apply sound_takeMoment.bind
  intro now
  apply (sound_lift _).bind
  intro packages
  exact (sound_install allowInstall packages).when

theorem sound_runSetup (app : Package.App) (allowInstall : Bool) :
    Sound env (runSetup env app allowInstall) := by
  apply (sound_of_state fun _ => rfl).bind
  intro s
  apply (sound_attemptUpgrade app allowInstall).when.bind
  intro _
  apply (Sound.forEach fun component _ => sound_setupComponent allowInstall component).bind
  intro _
  exact sound_setVersion _ _

theorem sound_runUninstall (app : Package.App) : Sound env (runUninstall env app) := by
  apply (sound_transaction _).bind
  intro _
  apply (Sound.forEach fun component _ => sound_uninstallComponent app component).bind
  intro _
  exact sound_setVersion _ _

theorem knownInv_step (s : Package.State) (event : Event) (inv : KnownInv env s) :
    KnownInv env (step env s event) := by
  cases event with
  | setup app allowInstall => exact (sound_runSetup app allowInstall s).1 inv
  | uninstall app => exact (sound_runUninstall app s).1 inv
  | elapse moments => exact knownInv_later inv (Nat.le_add_right _ _) rfl rfl

theorem grows_step (s : Package.State) (event : Event) : Grows s (step env s event) := by
  cases event with
  | setup app allowInstall => exact (sound_runSetup app allowInstall s).2
  | uninstall app => exact (sound_runUninstall app s).2
  | elapse moments => exact ⟨Nat.le_add_right _ _, fun _ h => h⟩

def Resolved (env : Package.Environment) (since : Nat) (s : Package.State) (component : Packages) :
    Prop :=
  ∃ t packages, since ≤ t ∧ t ≤ s.now ∧ component.getActualPackages (env.cache t) = .ok packages ∧
    ∀ package ∈ packages, ∃ marking, (marking, package) ∈ s.marked

theorem Resolved.grows {since : Nat} {s s' : Package.State} {component : Packages}
    (resolved : Resolved env since s component) (grows : Grows s s') :
    Resolved env since s' component := by
  obtain ⟨t, packages, first, last, actual, marked⟩ := resolved
  refine ⟨t, packages, first, Nat.le_trans last grows.1, actual, ?_⟩
  intro package member
  obtain ⟨marking, logged⟩ := marked package member
  exact ⟨marking, grows.2 _ logged⟩

theorem Grows.of_exec {m : Effect Package.State Exception α} {s s' : Package.State}
    {result : Except Exception α} (sound : Sound env m) (ran : m.exec s = (result, s')) :
    Grows s s' := by
  have grows := (sound s).2
  rw [ran] at grows
  exact grows

theorem exec_openCache (env : Package.Environment) (s : Package.State) :
    (openCache env).exec s = (.ok (env.cache s.now), { s with now := s.now + 1 }) := by
  simp only [openCache, takeMoment, exec_bind, exec_get, exec_modify, exec_pure]

theorem marked_of_install {packages : List String} {s s' : Package.State}
    (ran : (install env true packages).exec s = (.ok (), s')) :
    ∀ package ∈ packages, ∃ marking, (marking, package) ∈ s'.marked := by
  obtain ⟨_, s₁, _, ran⟩ := returns_of_bind ran
  obtain ⟨_, s₂, got, ran⟩ := returns_of_bind ran
  obtain ⟨_, s₃, _, ran⟩ := returns_of_bind ran
  obtain ⟨_, s₄, _, ran⟩ := returns_of_bind ran
  rw [exec_modify] at ran
  cases ran
  intro package member
  exact ⟨_, List.mem_append_right _ (List.mem_map_of_mem member)⟩

theorem resolved_of_setup {component : Packages} {s s' : Package.State}
    (ran : (component.setup env true).exec s = (.ok (), s')) :
    Resolved env s.now s' component := by
  obtain ⟨packagesToRemove, s₁, found, ran⟩ := returns_of_bind ran
  obtain ⟨_, s₂, removed, ran⟩ := returns_of_bind ran
  obtain ⟨cache, s₃, opened, ran⟩ := returns_of_bind ran
  obtain ⟨packages, s₄, lifted, ran⟩ := returns_of_bind ran
  have first := (Grows.of_exec (sound_findConflicts component) found).trans
    (Grows.of_exec (sound_uninstall packagesToRemove).when removed)
  have last := Grows.of_exec (sound_install true packages) ran
  rw [exec_openCache] at opened
  cases opened
  rw [exec_lift] at lifted
  cases actual : component.getActualPackages (env.cache s₂.now) with
  | error e =>
    rw [actual] at lifted
    cases lifted
  | ok packages' =>
    rw [actual] at lifted
    cases lifted
    exact ⟨s₂.now, packages, first.1, Nat.le_trans (Nat.le_succ _) last.1, actual,
      marked_of_install ran⟩

theorem resolved_of_forEach {components : List Component} {s s' : Package.State} {since : Nat}
    (ran : (forEach components (Package.App.setupComponent env true)).exec s = (.ok (), s'))
    (start : since ≤ s.now) :
    ∀ component, .packages component ∈ components → Resolved env since s' component := by
  induction components generalizing s with
  | nil => exact fun _ member => absurd member List.not_mem_nil
  | cons first components ih =>
    obtain ⟨_, s₁, here, ran⟩ := returns_of_bind ran
    have grows := Grows.of_exec (sound_setupComponent true first) here
    have later := Grows.of_exec
      (Sound.forEach fun component _ => sound_setupComponent true component) ran
    intro component member
    rcases List.mem_cons.mp member with rfl | member
    · obtain ⟨t, packages, earliest, resolved⟩ := resolved_of_setup here
      exact Resolved.grows ⟨t, packages, Nat.le_trans start earliest, resolved⟩ later
    · exact ih ran (Nat.le_trans start grows.1) component member

theorem resolved_of_runSetup {app : Package.App} {s s' : Package.State}
    (ran : (runSetup env app true).exec s = (.ok (), s')) :
    ∀ component ∈ app.packages, Resolved env s.now s' component := by
  obtain ⟨current, s₁, got, ran⟩ := returns_of_bind ran
  obtain ⟨_, s₂, upgraded, ran⟩ := returns_of_bind ran
  obtain ⟨_, s₃, components, ran⟩ := returns_of_bind ran
  rw [exec_modify] at ran
  cases ran
  cases got
  have start := (Grows.of_exec (sound_attemptUpgrade app true).when upgraded).1
  intro component member
  obtain ⟨found, present, same⟩ := List.mem_filterMap.mp member
  cases found with
  | packages _ =>
    cases same
    exact resolved_of_forEach components start component present
  | other _ => cases same

end Sound

/-! ## After the setup of an app -/

/-- Since the setup of the app, from its first state to its last, the components have stood for the
same packages, and no package has changed since it was marked. -/
structure Kept (env : Package.Environment) (app : Package.App) (before after : Package.State) (now : Nat) :
    Prop where
  stand : ∀ component ∈ app.packages, ∀ t, before.now ≤ t → t ≤ now →
    component.getActualPackages (env.cache t) = component.getActualPackages (env.cache now)
  unchanged : ∀ record ∈ after.marked, Unchanged env record.1 now record.2

theorem getActualPackages_ok {cache : Cache} {app : Package.App} {packages : List String}
    (actual : getActualPackages cache app = .ok packages) :
    ∀ package ∈ packages, ∃ component ∈ app.packages, ∃ names,
      component.getActualPackages cache = .ok names ∧ package ∈ names := by
  rw [getActualPackages] at actual
  cases found : app.packages.mapM (Packages.getActualPackages cache) with
  | error e =>
    rw [found] at actual
    cases actual
  | ok names =>
    rw [found] at actual
    cases actual
    intro package member
    obtain ⟨those, listed, member⟩ := List.mem_flatten.mp member
    obtain ⟨component, present, resolved⟩ := (mem_mapM_iff found those).mp listed
    exact ⟨component, present, those, resolved, member⟩

theorem known_of_kept {env : Package.Environment} {app : Package.App} {s s₁ s₂ : Package.State}
    (packages : List String) (start : s.marked = [])
    (rerun : (runSetup env app true).exec s = (.ok (), s₁)) (later : List Event)
    (reached : s₂ = Runs.run (step env) s₁ later) (kept : Kept env app s s₁ s₂.now)
    (actual : getActualPackages (env.cache s₂.now) app = .ok packages) :
    ∀ package ∈ packages, ∀ version, installedVersion (env.cache s₂.now) package = some version →
      Known (packagesKnown s₂.table) package version := by
  have inv : KnownInv env s := by
    intro record member
    rw [start] at member
    exact absurd member List.not_mem_nil
  have inv₁ : KnownInv env s₁ := by
    have kept := (sound_runSetup app true s).1 inv
    rw [rerun] at kept
    exact kept
  have inv₂ : KnownInv env s₂ := by
    rw [reached]
    exact Runs.invariant_run _ knownInv_step s₁ later inv₁
  have grows : Grows s₁ s₂ := by
    rw [reached]
    exact Runs.invariant_run (Grows s₁) (fun s event h => h.trans (grows_step s event)) s₁ later
      (.refl s₁)
  intro package member version installed
  obtain ⟨component, present, names, resolved, member⟩ := getActualPackages_ok actual package member
  obtain ⟨t, names', first, last, resolved', marked⟩ := resolved_of_runSetup rerun component present
  rw [kept.stand component present t first (Nat.le_trans last grows.1), resolved] at resolved'
  cases resolved'
  obtain ⟨marking, logged⟩ := marked package member
  obtain ⟨past, known⟩ := inv₂ _ (grows.2 _ logged)
  have unchanged := kept.unchanged _ logged
  apply known unchanged
  rw [← unchanged.installed past (Nat.le_refl _)]
  exact installed

def rerunNeeded (env : Package.Environment) (app : Package.App) (s : Package.State) :
    Except Exception Bool :=
  match getActualPackages (env.cache s.now) app with
  | .error _ => .ok false
  | .ok packages => appNeedsSetupRerun (packagesKnown s.table) (env.cache s.now) packages

/-- The packages of the app are the same and installed in both states, and one of them has another
version. -/
def VersionChanged (env : Package.Environment) (app : Package.App) (s s' : Package.State) : Prop :=
  ∃ packages, getActualPackages (env.cache s.now) app = .ok packages ∧
    getActualPackages (env.cache s'.now) app = .ok packages ∧
    (∀ package ∈ packages, (installedVersion (env.cache s.now) package).isSome = true ∧
      (installedVersion (env.cache s'.now) package).isSome = true) ∧
    ∃ package ∈ packages,
      installedVersion (env.cache s'.now) package ≠ installedVersion (env.cache s.now) package

/-- The setup of an app has been rerun. As long as its packages do not change after they have been
marked, it is not rerun again, whatever else is set up and uninstalled; once one of them has another
version, with all of them installed, it is. -/
theorem rerun_needed_once_changed (env : Package.Environment) (app : Package.App)
    (s s₁ s₂ : Package.State) (later : List Event) (start : s.marked = [])
    (rerun : (runSetup env app true).exec s = (.ok (), s₁))
    (reached : s₂ = Runs.run (step env) s₁ later) (kept : Kept env app s s₁ s₂.now) :
    rerunNeeded env app s₂ = .ok false ∧
      ∀ moments, VersionChanged env app s₂ (step env s₂ (.elapse moments)) →
        rerunNeeded env app (step env s₂ (.elapse moments)) = .ok true := by
  have known := fun packages => known_of_kept packages start rerun later reached kept
  constructor
  · rw [rerunNeeded]
    cases actual : getActualPackages (env.cache s₂.now) app with
    | error e => rfl
    | ok packages => exact appNeedsSetupRerun_of_known (known packages actual)
  · rintro moments ⟨packages, actual, same, installed, package, member, changed⟩
    rw [rerunNeeded, same]
    have version : ∀ package ∈ packages, installedVersion (env.cache s₂.now) package =
        some ((installedVersion (env.cache s₂.now) package).getD "") := by
      intro package member
      obtain ⟨version, found⟩ := Option.isSome_iff_exists.mp (installed package member).1
      rw [found]
      rfl
    apply appNeedsSetupRerun_of_changed fun package =>
      (installedVersion (env.cache s₂.now) package).getD ""
    · exact fun package member => known packages actual package member _ (version package member)
    · exact fun package member => (installed package member).2
    · refine ⟨package, member, ?_⟩
      rw [← version package member]
      exact changed

/-! ## A package that changes during the setup -/

theorem exec_markKnownNow (env : Package.Environment) {packages : List String} {new : Value}
    {s : Package.State} (marked : packages.foldlM (markOne (installedVersion (env.cache s.now)))
      (packagesKnown s.table) = .ok new) :
    (markKnownNow env packages).exec s = (.ok (),
      { s with
        now := s.now + 1
        table := KVStore.put "packages_known" new s.table
        marked := s.marked ++ packages.map fun package => (s.now, package) }) := by
  have ran := exec_store
    (fun known => packages.foldlM (markOne (installedVersion (env.cache s.now))) known) s.table
    fun new' marked' => (touches_update (.markKnown (installedVersion (env.cache s.now)) packages)).valid
      (jsonData_packagesKnown s.table) (by rw [Call.update, marked']; rfl)
  rw [marked] at ran
  have ran : (markKnown (installedVersion (env.cache s.now)) packages).exec s.table =
      (.ok (), KVStore.put "packages_known" new s.table) := ran
  simp only [markKnownNow, openCache, takeMoment, exec_bind, exec_get, exec_modify, exec_pure,
    exec_onTable, ran]

theorem exec_setup_one {env : Package.Environment} {package : String} {new : Value}
    {s : Package.State} (rerun : Bool)
    (candidate : ((env.cache s.now).get? package).any CachePackage.candidate = true)
    (installs : env.installTransaction (s.now + 1) [package] = none)
    (marked : markOne (installedVersion (env.cache (s.now + 2))) (packagesKnown s.table) package =
      .ok new) :
    (Packages.setup env true ⟨[.package package], [], none, rerun⟩).exec s = (.ok (),
      { s with
        now := s.now + 3
        table := KVStore.put "packages_known" new s.table
        marked := s.marked ++ [(s.now + 2, package)] }) := by
  have actual : Packages.getActualPackages (env.cache s.now) ⟨[.package package], [], none, rerun⟩ =
      .ok [package] := by
    rw [Packages.getActualPackages, List.mapM_cons, PackageExpression.actual, if_pos candidate]
    rfl
  have folded : [package].foldlM (markOne (installedVersion (env.cache (s.now + 2))))
      (packagesKnown s.table) = .ok new := by
    rw [List.foldlM_cons, marked]
    rfl
  have marks := exec_markKnownNow env (s := { s with now := s.now + 1 + 1 }) folded
  simp only [Packages.setup, Packages.findConflicts, if_pos, exec_bind, exec_pure, exec_openCache]
  rw [when_of_not (by simp)]
  simp only [exec_pure, exec_lift, actual, install, if_true, exec_bind,
    exec_transaction, installs, marks]
  rfl

def packageAt (version : String) : CachePackage := ⟨some version, true, []⟩

def twoPackages (first second : String) : Cache where
  entries := [("p", packageAt first), ("q", packageAt second)]
  nodup := by simp

def upgradedAt (change : Nat) : Package.Environment where
  apps := []
  cache t := if t < change then twoPackages "1" "1" else twoPackages "2" "1"
  installTransaction _ _ := none
  uninstallTransaction _ _ := some (RuntimeError "Apt command failed")
  refreshPackageLists _ := none
  component _ _ := none
  forceUpgrade _ _ := .ok []
  removed := by
    intro now packages h
    cases h

def twoComponents : Package.App where
  appId := "a"
  isEssential := false
  version := 1
  components := [.packages ⟨[.package "p"], [], none, true⟩, .packages ⟨[.package "q"], [], none, true⟩]

def installedState : Package.State := ⟨0, fun _ => none, fun _ => 1, []⟩

def versionOf (version : String) : Value := .dict [(.str "version", .str version)]

def firstKnown : Value := .dict [(.str "p", versionOf "1")]

def bothKnown : Value := .dict [(.str "p", versionOf "1"), (.str "q", versionOf "1")]

def rerunState : Package.State :=
  ⟨8, KVStore.put "packages_known" bothKnown
    (KVStore.put "packages_known" firstKnown installedState.table),
    Function.update installedState.setupVersion "a" 1, [(4, "p"), (7, "q")]⟩

theorem candidate_upgradedAt (change t : Nat) (package : String) (listed : package = "p" ∨ package = "q") :
    (((upgradedAt change).cache t).get? package).any CachePackage.candidate = true := by
  have cached : (upgradedAt change).cache t = if t < change then twoPackages "1" "1" else
      twoPackages "2" "1" := rfl
  rw [cached]
  rcases listed with rfl | rfl <;> split <;> decide

theorem installedVersion_upgradedAt (change t : Nat) :
    installedVersion ((upgradedAt change).cache t) "p" = (if t < change then some "1" else some "2") ∧
      installedVersion ((upgradedAt change).cache t) "q" = some "1" := by
  have cached : (upgradedAt change).cache t = if t < change then twoPackages "1" "1" else
      twoPackages "2" "1" := rfl
  rw [cached]
  split <;> decide

theorem jsonData_versionOf (version : String) : JsonData (versionOf version) := by
  apply jsonData_dict_iff.mpr
  exact ⟨[("version", .str version)], rfl, by simp, by simpa using .str version⟩

theorem jsonData_firstKnown : JsonData firstKnown := by
  apply jsonData_dict_iff.mpr
  exact ⟨[("p", versionOf "1")], rfl, by simp, by simpa using jsonData_versionOf "1"⟩

theorem jsonData_bothKnown : JsonData bothKnown := by
  apply jsonData_dict_iff.mpr
  exact ⟨[("p", versionOf "1"), ("q", versionOf "1")], rfl, by simp,
    by simpa using jsonData_versionOf "1"⟩

theorem exec_rerun {change : Nat} (late : 4 < change) :
    (runSetup (upgradedAt change) twoComponents true).exec installedState = (.ok (), rerunState) := by
  have firstMarked : markOne (installedVersion ((upgradedAt change).cache 4))
      (packagesKnown installedState.table) "p" = .ok firstKnown := by
    rw [markOne, (installedVersion_upgradedAt change 4).1, if_pos late]
    rfl
  have secondMarked : markOne (installedVersion ((upgradedAt change).cache 7))
      (packagesKnown (KVStore.put "packages_known" firstKnown installedState.table)) "q" =
        .ok bothKnown := by
    rw [packagesKnown_put jsonData_firstKnown, markOne, (installedVersion_upgradedAt change 7).2]
    rfl
  have first := exec_setup_one
    (s := ⟨2, installedState.table, installedState.setupVersion, []⟩) true
    (candidate_upgradedAt change 2 "p" (.inl rfl)) rfl firstMarked
  have second := exec_setup_one
    (s := ⟨5, KVStore.put "packages_known" firstKnown installedState.table,
      installedState.setupVersion, [(4, "p")]⟩) true
    (candidate_upgradedAt change 5 "q" (.inr rfl)) rfl secondMarked
  have components : (twoComponents.setup (upgradedAt change) true).exec
      ⟨2, installedState.table, installedState.setupVersion, []⟩ =
        (.ok (), ⟨8, rerunState.table, installedState.setupVersion, rerunState.marked⟩) := by
    rw [Package.App.setup, twoComponents, forEach, exec_bind, Package.App.setupComponent, first]
    dsimp only
    rw [forEach, exec_bind, Package.App.setupComponent, List.nil_append, second]
    rfl
  rw [runSetup, exec_bind, exec_get]
  dsimp only
  have upgrade : (Effect.when (installedState.setupVersion twoComponents.appId ≠ 0) do
      transaction (upgradedAt change).refreshPackageLists
      attemptUpgradeForApp (upgradedAt change) twoComponents true).exec installedState =
        (.ok (), ⟨2, installedState.table, installedState.setupVersion, []⟩) := by
    have skipped : (Effect.when (([] : List String) ≠ []) (install (upgradedAt change) true [])) =
        pure () := if_neg fun h => h rfl
    have none : (upgradedAt change).refreshPackageLists installedState.now = Option.none := rfl
    have nothing : ∀ now, (upgradedAt change).forceUpgrade now twoComponents = .ok [] := fun _ => rfl
    rw [when_of (by decide), exec_bind, exec_transaction, none]
    simp only [attemptUpgradeForApp, takeMoment, exec_bind, exec_get, exec_modify, exec_pure,
      exec_lift, nothing, skipped]
    rfl
  rw [exec_bind, upgrade]
  dsimp only
  rw [exec_bind, components]
  rfl

theorem getActualPackages_upgradedAt (change t : Nat) :
    getActualPackages ((upgradedAt change).cache t) twoComponents = .ok ["p", "q"] := by
  have cached : (upgradedAt change).cache t = if t < change then twoPackages "1" "1" else
      twoPackages "2" "1" := rfl
  rw [cached]
  split <;> rfl

theorem known_rerunState : Known (packagesKnown rerunState.table) "p" "1" ∧
    Known (packagesKnown rerunState.table) "q" "1" := by
  rw [rerunState, packagesKnown_put jsonData_bothKnown]
  exact ⟨⟨_, rfl, rfl⟩, ⟨_, rfl, rfl⟩⟩

theorem rerun_needed_once_changed_upgraded :
    rerunNeeded (upgradedAt 9) twoComponents rerunState = .ok false ∧
      rerunNeeded (upgradedAt 9) twoComponents (step (upgradedAt 9) rerunState (.elapse 1)) =
        .ok true := by
  have before : ∀ t, t ≤ 8 → (upgradedAt 9).cache t = twoPackages "1" "1" :=
    fun t last => if_pos (Nat.lt_succ_of_le last)
  have kept : Kept (upgradedAt 9) twoComponents installedState rerunState rerunState.now := by
    constructor
    · intro component _ t _ last
      rw [before t last, before rerunState.now (Nat.le_refl 8)]
    · intro record member t _ last
      have marking : record.1 ≤ 8 := by
        rcases List.mem_cons.mp member with rfl | member
        · decide
        · rw [List.mem_singleton.mp member]
          decide
      rw [before t last, before record.1 marking]
  have fixpoint := rerun_needed_once_changed (upgradedAt 9) twoComponents installedState rerunState
    rerunState [] rfl (exec_rerun (by decide)) rfl kept
  refine ⟨fixpoint.1, fixpoint.2 1 ?_⟩
  refine ⟨["p", "q"], getActualPackages_upgradedAt 9 8, getActualPackages_upgradedAt 9 9, ?_, "p",
    List.mem_cons_self, ?_⟩
  · intro package member
    rcases List.mem_cons.mp member with rfl | member
    · exact ⟨by decide, by decide⟩
    · rw [List.mem_singleton.mp member]
      exact ⟨by decide, by decide⟩
  · decide

theorem rerun_needed_again :
    ¬ ∀ (env : Package.Environment) (app : Package.App) (s s₁ s₂ : Package.State) (later : List Event),
      s.marked = [] → (runSetup env app true).exec s = (.ok (), s₁) →
      s₂ = Runs.run (step env) s₁ later →
      (∀ t, s₁.now ≤ t → ∀ package, (env.cache t).get? package = (env.cache s₁.now).get? package) →
      rerunNeeded env app s₂ = .ok false := by
  intro fixpoint
  have settled := fixpoint (upgradedAt 5) twoComponents installedState rerunState rerunState [] rfl
    (exec_rerun (by decide)) rfl fun t first package => by
      have after : (upgradedAt 5).cache t = twoPackages "2" "1" :=
        if_neg (Nat.not_lt_of_le (Nat.le_trans (by decide) first))
      rw [after]
      rfl
  rw [rerunNeeded, getActualPackages_upgradedAt] at settled
  dsimp only at settled
  have rerun := appNeedsSetupRerun_cons ["q"] known_rerunState.1
    (installedVersion_upgradedAt 5 8).1
  rw [if_neg (by decide)] at rerun
  cases settled.symm.trans rerun

end Plinth.Setup
