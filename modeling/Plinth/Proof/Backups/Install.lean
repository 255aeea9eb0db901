import Plinth.Model.Backups.Install
import Plinth.Proof.Setup.Isolation

/-! # Which apps are set up before a restore -/

namespace Plinth.Backups

open Effect Python Exception Setup

variable {startup : Startup} {versions : Startup.Versions}

/-! ## The setup of an app -/

def started (startup : Startup) (versions : Startup.Versions) : List Package.App → List String
  | [] => []
  | app :: rest =>
    if app.version ≤ versions app.appId then started startup versions rest
    else match startup.outcome app with
      | .refused => []
      | .raises _ => [app.appId]
      | .completes => app.appId :: started startup versions rest

theorem exec_setupApp (app : Package.App) (progress : Progress) :
    (setupApp startup app).exec progress =
      if app.version ≤ progress.versions app.appId then (.ok (), progress)
      else match startup.outcome app with
        | .refused => (.error (KeyError (.str "Operation in progress/scheduled")), progress)
        | .raises e => (.error e, ⟨progress.versions, progress.runs ++ [app.appId]⟩)
        | .completes => (.ok (), ⟨Function.update progress.versions app.appId app.version,
            progress.runs ++ [app.appId]⟩) := by
  simp only [setupApp, exec_bind, exec_get, exec_lift, runSetupOnApp, true_and]
  by_cases current : app.version ≤ progress.versions app.appId
  · simp only [if_pos current, exec_pure]
  · simp only [if_neg current]
    cases startup.outcome app <;> simp [join, exec_bind]

section Loop

variable {appIds : List String} {essential : Bool}

instance decidableSelects (app : Package.App) : Decidable (Startup.Selects appIds essential app) :=
  inferInstanceAs (Decidable (_ ∧ _))

def body (startup : Startup) (appIds : List String) (essential : Bool) (app : Package.App) :
    Installing Unit :=
  if essential = true ∧ app.isEssential = false then pure ()
  else if appIds ≠ [] ∧ app.appId ∉ appIds then pure ()
  else setupApp startup app

theorem body_eq (app : Package.App) :
    body startup appIds essential app =
      if Startup.Selects appIds essential app then setupApp startup app else pure () := by
  unfold body
  split
  · rename_i other
    have passed : ¬ Startup.Selects appIds essential app := fun selects => selects.1 other
    rw [if_neg passed]
  · rename_i wanted
    split
    · rename_i other
      have passed : ¬ Startup.Selects appIds essential app := fun selects => selects.2 other
      rw [if_neg passed]
    · rename_i listed
      have selects : Startup.Selects appIds essential app := ⟨wanted, listed⟩
      rw [if_pos selects]

theorem runs_loop (apps : List Package.App) (progress : Progress)
    (nodup : (apps.map Package.App.appId).Nodup)
    (same : ∀ app ∈ apps, progress.versions app.appId = versions app.appId) :
    ((forEach apps (body startup appIds essential)).exec progress).2.runs = progress.runs ++
      started startup versions (apps.filter fun app => Startup.Selects appIds essential app) := by
  induction apps generalizing progress with
  | nil => exact (List.append_nil _).symm
  | cons app apps ih =>
    obtain ⟨fresh, nodup⟩ := List.nodup_cons.mp nodup
    obtain ⟨here, same⟩ := List.forall_mem_cons.mp same
    rw [forEach, exec_bind, body_eq]
    by_cases selects : Startup.Selects appIds essential app
    · rw [if_pos selects, List.filter_cons_of_pos (by simpa using selects), started,
        exec_setupApp, here]
      by_cases current : app.version ≤ versions app.appId
      · rw [if_pos current, if_pos current]
        exact ih progress nodup same
      · rw [if_neg current, if_neg current]
        cases startup.outcome app with
        | refused => exact (List.append_nil _).symm
        | raises e => rfl
        | completes =>
          have same' : ∀ other ∈ apps, Function.update progress.versions app.appId app.version
              other.appId = versions other.appId := by
            intro other member
            have different : other.appId ≠ app.appId := fun named =>
              fresh (named ▸ List.mem_map_of_mem member)
            rw [Function.update_of_ne different, same other member]
          refine (ih _ nodup same').trans ?_
          rw [List.append_assoc]
          rfl
    · rw [if_neg selects, List.filter_cons_of_neg (by simpa using selects)]
      exact ih progress nodup same

end Loop

/-! ## Exactly the apps of a list -/

theorem mem_of_mem_started {apps : List Package.App} {appId : String}
    (member : appId ∈ started startup versions apps) : appId ∈ apps.map Package.App.appId := by
  induction apps with
  | nil => exact member
  | cons app apps ih =>
    rw [started] at member
    split at member
    · exact List.mem_cons_of_mem _ (ih member)
    · cases outcome : startup.outcome app with
      | refused =>
        rw [outcome] at member
        exact absurd member List.not_mem_nil
      | raises e =>
        rw [outcome] at member
        rw [List.mem_singleton.mp member]
        exact List.mem_cons_self
      | completes =>
        rw [outcome] at member
        obtain rfl | member := List.mem_cons.mp member
        · exact List.mem_cons_self
        · exact List.mem_cons_of_mem _ (ih member)

def Proceeds (startup : Startup) : List Package.App → Prop
  | [] => True
  | app :: rest => 0 < app.version ∧ startup.outcome app ≠ .refused ∧
      (rest ≠ [] → startup.outcome app = .completes) ∧ Proceeds startup rest

theorem needsInstall_iff (app : Package.App) :
    needsInstall versions app = true ↔
      versions app.appId < app.version ∨ versions app.appId = 0 := by
  unfold needsInstall getSetupState
  rw [decide_eq_true_iff]
  split
  · simp
    omega
  · split
    · simp
      omega
    · simp
      omega

theorem started_exactly_iff {apps : List Package.App} (nodup : (apps.map Package.App.appId).Nodup)
    (needed : ∀ app ∈ apps, needsInstall versions app = true) :
    (∀ appId, appId ∈ started startup versions apps ↔ appId ∈ apps.map Package.App.appId) ↔
      Proceeds startup apps := by
  induction apps with
  | nil => exact iff_of_true (fun _ => Iff.rfl) trivial
  | cons app apps ih =>
    obtain ⟨fresh, nodup⟩ := List.nodup_cons.mp nodup
    obtain ⟨needed, later⟩ := List.forall_mem_cons.mp needed
    rw [needsInstall_iff] at needed
    have listed : app.appId ∈ (app :: apps).map Package.App.appId := List.mem_cons_self
    rw [started, Proceeds]
    split
    · rename_i current
      refine iff_of_false (fun all => ?_) fun proceeds => ?_
      · exact fresh (mem_of_mem_started ((all app.appId).mpr listed))
      · omega
    · rename_i older
      have positive : 0 < app.version := by omega
      cases outcome : startup.outcome app with
      | refused =>
        refine iff_of_false (fun all => ?_) fun proceeds => proceeds.2.1 rfl
        exact absurd ((all app.appId).mpr listed) List.not_mem_nil
      | raises e =>
        dsimp only
        constructor
        · intro all
          have last : apps = [] := by
            rw [List.eq_nil_iff_forall_not_mem]
            intro other member
            have named := (all other.appId).mpr
              (List.mem_cons_of_mem _ (List.mem_map_of_mem member))
            exact fresh (List.mem_singleton.mp named ▸ List.mem_map_of_mem member)
          rw [last]
          exact ⟨positive, by simp, fun some => absurd rfl some, trivial⟩
        · rintro ⟨-, -, last, -⟩
          have none : apps = [] := by
            by_contra some
            cases last some
          rw [none]
          exact fun _ => Iff.rfl
      | completes =>
        dsimp only
        have rest : (∀ appId, appId ∈ app.appId :: started startup versions apps ↔
            appId ∈ (app :: apps).map Package.App.appId) ↔ ∀ appId,
              appId ∈ started startup versions apps ↔ appId ∈ apps.map Package.App.appId := by
          constructor
          · intro all appId
            have here := all appId
            rw [List.map_cons, List.mem_cons, List.mem_cons] at here
            constructor
            · exact mem_of_mem_started
            · intro member
              refine (here.mpr (.inr member)).resolve_left ?_
              rintro rfl
              exact fresh member
          · intro all appId
            rw [List.map_cons, List.mem_cons, List.mem_cons, all]
        rw [rest, ih nodup later]
        simp [positive]

/-! ## The essential apps -/

def outdated (startup : Startup) (versions : Startup.Versions) : List Package.App :=
  startup.apps.filter fun app => app.isEssential = true ∧ versions app.appId < app.version

theorem started_nil_iff (apps : List Package.App) :
    started startup versions apps = [] ↔
      ∀ app ∈ (apps.filter fun app => versions app.appId < app.version).head?,
        startup.outcome app = .refused := by
  induction apps with
  | nil => simp [started]
  | cons app apps ih =>
    rw [started]
    by_cases current : app.version ≤ versions app.appId
    · rw [if_pos current, ih, List.filter_cons_of_neg (by simpa using current)]
    · rw [if_neg current, List.filter_cons_of_pos (by simpa using current)]
      cases outcome : startup.outcome app <;> simp [outcome]

/-! ## The apps to restore -/

def wanted (startup : Startup) (versions : Startup.Versions) (components : List BackupRestore) :
    List Package.App :=
  startup.apps.filter fun app =>
    needsInstall versions app ∧ app.appId ∈ components.map (·.appId)

def Known (startup : Startup) (component : BackupRestore) : Prop :=
  ∃ app ∈ startup.apps, app.appId = component.appId

theorem getApp_eq_ok_iff {appId : String} {app : Package.App} :
    getApp startup appId = .ok app ↔ app ∈ startup.apps ∧ app.appId = appId := by
  unfold getApp
  cases found : startup.apps.find? fun app => app.appId = appId with
  | none =>
    rw [List.find?_eq_none] at found
    refine iff_of_false (by simp) ?_
    rintro ⟨member, named⟩
    exact found app member (decide_eq_true named)
  | some other =>
    have member := List.mem_of_find?_eq_some found
    have named : other.appId = appId := by simpa using List.find?_some found
    dsimp only
    rw [Except.ok.injEq]
    constructor
    · rintro rfl
      exact ⟨member, named⟩
    · rintro ⟨member', named'⟩
      exact List.inj_on_of_nodup_map startup.nodup member member' (named.trans named'.symm)

theorem appsToSetup_returns_iff (components : List BackupRestore) :
    (∃ appIds, appsToSetup startup versions components = .ok appIds) ↔
      ∀ component ∈ components, Known startup component := by
  induction components with
  | nil => exact iff_of_true ⟨[], rfl⟩ fun _ member => absurd member List.not_mem_nil
  | cons component components ih =>
    rw [List.forall_mem_cons, ← ih]
    constructor
    · rintro ⟨appIds, found⟩
      obtain ⟨app, got, found⟩ := ok_of_bind found
      obtain ⟨others, rest, -⟩ := ok_of_bind found
      exact ⟨⟨app, getApp_eq_ok_iff.mp got⟩, others, rest⟩
    · rintro ⟨⟨app, known⟩, others, rest⟩
      exact ⟨_, bind_of_ok (getApp_eq_ok_iff.mpr known) (bind_of_ok rest rfl)⟩

def Wanted (startup : Startup) (versions : Startup.Versions) (components : List BackupRestore)
    (appId : String) : Prop :=
  ∃ component ∈ components, component.appId = appId ∧
    ∃ app ∈ startup.apps, app.appId = appId ∧ needsInstall versions app = true

theorem mem_wanted_iff {components : List BackupRestore} {appId : String} :
    appId ∈ (wanted startup versions components).map Package.App.appId ↔
      Wanted startup versions components appId := by
  simp only [wanted, Wanted, List.mem_map, List.mem_filter, decide_eq_true_eq]
  constructor
  · rintro ⟨app, ⟨member, needs, component, selected, same⟩, rfl⟩
    exact ⟨component, selected, same, app, member, rfl, needs⟩
  · rintro ⟨component, selected, rfl, app, member, same, needs⟩
    exact ⟨app, ⟨member, needs, component, selected, same.symm⟩, same⟩

theorem mem_appsToSetup_iff {components : List BackupRestore} {appIds : List String}
    (found : appsToSetup startup versions components = .ok appIds) (appId : String) :
    appId ∈ appIds ↔ Wanted startup versions components appId := by
  induction components generalizing appIds with
  | nil =>
    cases found
    simp [Wanted]
  | cons component components ih =>
    obtain ⟨app, got, found⟩ := ok_of_bind found
    obtain ⟨others, rest, found⟩ := ok_of_bind found
    obtain rfl := Except.ok.inj found
    obtain ⟨member, named⟩ := getApp_eq_ok_iff.mp got
    have here : (component.appId = appId ∧ ∃ app ∈ startup.apps, app.appId = appId ∧
        needsInstall versions app = true) ↔
        appId = app.appId ∧ needsInstall versions app = true := by
      constructor
      · rintro ⟨rfl, other, member', named', needs⟩
        obtain rfl := List.inj_on_of_nodup_map startup.nodup member member'
          (named.trans named'.symm)
        exact ⟨named.symm, needs⟩
      · rintro ⟨rfl, needs⟩
        exact ⟨named.symm, app, member, rfl, needs⟩
    have cons : Wanted startup versions (component :: components) appId ↔
        (appId = app.appId ∧ needsInstall versions app = true) ∨
          Wanted startup versions components appId := by
      rw [← here]
      exact List.exists_mem_cons_iff ..
    rw [cons, ← ih rest]
    split
    · rename_i needs
      simp [needs]
    · rename_i current
      simp [current]

/-! ## The whole setup -/

theorem runs_runSetupOnApps (appIds : List String) :
    ((runSetupOnApps startup appIds).exec ⟨versions, []⟩).2.runs =
      started startup versions (startup.apps.filter fun app =>
        if appIds = [] then app.isEssential = true else app.appId ∈ appIds) := by
  have loop (appIds : List String) (essential : Bool) :
      ((forEach startup.apps (body startup appIds essential)).exec ⟨versions, []⟩).2.runs =
        started startup versions
          (startup.apps.filter fun app => Startup.Selects appIds essential app) :=
    runs_loop startup.apps ⟨versions, []⟩ startup.nodup fun _ _ => rfl
  unfold runSetupOnApps
  split
  · rename_i none
    refine (loop [] true).trans ?_
    congr 1
    apply List.filter_congr
    intro app _
    simp [Startup.Selects]
  · rename_i some
    refine (loop appIds false).trans ?_
    congr 1
    apply List.filter_congr
    intro app _
    simp [Startup.Selects, some]

def SetsUpExactly (startup : Startup) (versions : Startup.Versions)
    (components : List BackupRestore) : Prop :=
  ∀ appId, appId ∈
      ((installAppsBeforeRestore startup components).exec ⟨versions, []⟩).2.runs ↔
    Wanted startup versions components appId

/-- Exactly the apps to restore that need a setup get one, when there is such an app and each of
them has its turn. Without such an app, the essential apps have to be up to date, unless the first
of them that is not is refused, or the app of a component is not known. -/
theorem restore_sets_up_exactly_iff (startup : Startup) (versions : Startup.Versions)
    (components : List BackupRestore) :
    SetsUpExactly startup versions components ↔
      if wanted startup versions components = [] then
        (∀ component ∈ components, Known startup component) →
          ∀ app ∈ (outdated startup versions).head?, startup.outcome app = .refused
      else (∀ component ∈ components, Known startup component) ∧
        Proceeds startup (wanted startup versions components) := by
  unfold SetsUpExactly
  simp only [← mem_wanted_iff]
  by_cases known : ∀ component ∈ components, Known startup component
  · obtain ⟨appIds, found⟩ := (appsToSetup_returns_iff components).mpr known
    have ran : (installAppsBeforeRestore startup components).exec ⟨versions, []⟩ =
        (runSetupOnApps startup appIds).exec ⟨versions, []⟩ := by
      rw [installAppsBeforeRestore, exec_bind, exec_get]
      dsimp only
      rw [exec_bind, exec_lift, found]
    have listed (appId : String) : appId ∈ appIds ↔
        appId ∈ (wanted startup versions components).map Package.App.appId := by
      rw [mem_appsToSetup_iff found, mem_wanted_iff]
    rw [ran, runs_runSetupOnApps]
    by_cases none : wanted startup versions components = []
    · have empty : appIds = [] := by
        rw [List.eq_nil_iff_forall_not_mem]
        intro appId member
        rw [listed, none] at member
        exact List.not_mem_nil member
      have essentials : (startup.apps.filter fun app => app.isEssential = true).filter
          (fun app => versions app.appId < app.version) = outdated startup versions := by
        rw [List.filter_filter, outdated]
        apply List.filter_congr
        intro app _
        simp [Bool.and_comm]
      rw [if_pos none, none, empty]
      simp only [if_true, List.map_nil, List.not_mem_nil, iff_false,
        ← List.eq_nil_iff_forall_not_mem]
      rw [started_nil_iff, essentials]
      exact ⟨fun refused _ => refused, fun refused => refused known⟩
    · have some : appIds ≠ [] := by
        intro empty
        apply none
        rw [List.eq_nil_iff_forall_not_mem]
        intro app member
        have absent := (listed app.appId).mpr (List.mem_map_of_mem member)
        rw [empty] at absent
        exact List.not_mem_nil absent
      have queue : startup.apps.filter (fun app =>
          if appIds = [] then app.isEssential = true else app.appId ∈ appIds) =
            wanted startup versions components := by
        apply List.filter_congr
        intro app member
        rw [if_neg some, decide_eq_decide, listed]
        constructor
        · intro present
          obtain ⟨other, inside, named⟩ := List.mem_map.mp present
          obtain rfl := List.inj_on_of_nodup_map startup.nodup (List.mem_of_mem_filter inside)
            member named
          exact of_decide_eq_true (List.mem_filter.mp inside).2
        · intro here
          exact List.mem_map_of_mem (List.mem_filter.mpr ⟨member, decide_eq_true here⟩)
      have nodup : ((wanted startup versions components).map Package.App.appId).Nodup :=
        startup.nodup.sublist (List.filter_sublist.map _)
      have needed : ∀ app ∈ wanted startup versions components, needsInstall versions app = true :=
        fun app member => (of_decide_eq_true (List.mem_filter.mp member).2).1
      rw [queue, if_neg none, started_exactly_iff nodup needed]
      exact (and_iff_right known).symm
  · have ran : ((installAppsBeforeRestore startup components).exec ⟨versions, []⟩).2.runs = [] := by
      rw [installAppsBeforeRestore, exec_bind, exec_get]
      dsimp only
      rw [exec_bind, exec_lift]
      cases found : appsToSetup startup versions components with
      | ok appIds => exact absurd ((appsToSetup_returns_iff components).mp ⟨appIds, found⟩) known
      | error e => rfl
    rw [ran]
    by_cases none : wanted startup versions components = []
    · rw [if_pos none, none]
      exact iff_of_true (fun _ => Iff.rfl) fun all => absurd all known
    · rw [if_neg none]
      refine iff_of_false (fun all => none ?_) fun all => known all.1
      rw [List.eq_nil_iff_forall_not_mem]
      exact fun app member => List.not_mem_nil ((all app.appId).mpr (List.mem_map_of_mem member))

theorem restore_of_current_sets_up_essential :
    let apps : List Package.App := [⟨"firewall", true, 2, []⟩, ⟨"wiki", false, 1, []⟩]
    ¬ SetsUpExactly ⟨apps, by decide, fun _ => .completes⟩ (fun _ => 1)
      [⟨"wiki", ⟨[], []⟩, ⟨[], []⟩, ⟨[], []⟩, [], []⟩] := by
  intro apps exactly
  have ran : ((installAppsBeforeRestore ⟨apps, by decide, fun _ => .completes⟩
      [⟨"wiki", ⟨[], []⟩, ⟨[], []⟩, ⟨[], []⟩, [], []⟩]).exec ⟨fun _ => 1, []⟩).2.runs =
        ["firewall"] := by
    decide +kernel
  obtain ⟨component, selected, named, -⟩ := (exactly "firewall").mp (ran ▸ List.mem_cons_self)
  rw [List.mem_singleton.mp selected] at named
  exact absurd named (by decide)

end Plinth.Backups
