import Plinth.Model.Setup

/-! # Apps whose setup fails -/

namespace Plinth.Setup

open Python Exception Atomic Effect Package

theorem pairwise_iff_split {α : Type} {R : α → α → Prop} {l : List α} :
    l.Pairwise R ↔ ∀ before a after, l = before ++ a :: after → ∀ b ∈ before, R b a := by
  constructor
  · rintro pairs before a after rfl b member
    exact (List.pairwise_append.mp pairs).2.2 b member a List.mem_cons_self
  · intro pairs
    induction l with
    | nil => exact List.Pairwise.nil
    | cons b l ih =>
      apply List.Pairwise.cons
      · intro a member
        obtain ⟨before, after, rfl⟩ := List.append_of_mem member
        exact pairs (b :: before) a after rfl b List.mem_cons_self
      · apply ih
        rintro before a after rfl c member
        exact pairs (b :: before) a after rfl c (List.mem_cons_of_mem _ member)

/-! ## The loop at startup -/

namespace Startup

variable {startup : Startup} {appIds : List String} {essential : Bool} {versions : Versions}

def Selects (appIds : List String) (essential : Bool) (app : Package.App) : Prop :=
  ¬ (essential = true ∧ app.isEssential = false) ∧ ¬ (appIds ≠ [] ∧ app.appId ∉ appIds)

def Due (appIds : List String) (essential : Bool) (versions : Versions) (app : Package.App) : Prop :=
  Selects appIds essential app ∧ versions app.appId < app.version

theorem due_congr {next : Versions} {app : Package.App} (same : next app.appId = versions app.appId) :
    Due appIds essential next app ↔ Due appIds essential versions app := by
  rw [Due, Due, same]

def body (startup : Startup) (appIds : List String) (essential : Bool) (app : Package.App) :
    Effect Versions Exception Unit :=
  if essential = true ∧ app.isEssential = false then pure ()
  else if appIds ≠ [] ∧ app.appId ∉ appIds then pure ()
  else startup.setupApp app

theorem exec_body_of_not_due {app : Package.App} (due : ¬ Due appIds essential versions app) :
    (startup.body appIds essential app).exec versions = (.ok (), versions) := by
  rw [body]
  split
  · rfl
  · split
    · rfl
    · rename_i essentials selected
      have current : app.version ≤ versions app.appId := by
        by_contra older
        exact due ⟨⟨essentials, selected⟩, Nat.lt_of_not_le older⟩
      have none : runSetupOnApp (startup.outcome app) app (versions app.appId) false = .ok none :=
        if_pos ⟨rfl, current⟩
      simp only [setupApp, exec_bind, exec_get, none, exec_lift, exec_pure]

theorem exec_body_of_completes {app : Package.App} (due : Due appIds essential versions app)
    (completes : startup.outcome app = .completes) :
    (startup.body appIds essential app).exec versions =
      (.ok (), Function.update versions app.appId app.version) := by
  obtain ⟨⟨essentials, selected⟩, older⟩ := due
  have operation : runSetupOnApp .completes app (versions app.appId) false = .ok (some .completes) :=
    if_neg fun h => Nat.not_le_of_lt older h.2
  rw [body, if_neg essentials, if_neg selected]
  simp only [setupApp, completes, exec_bind, exec_get, operation, exec_lift, join, exec_modify]

theorem exec_body_of_fails {app : Package.App} (due : Due appIds essential versions app)
    (fails : startup.outcome app ≠ .completes) :
    ∃ e, (startup.body appIds essential app).exec versions = (.error e, versions) := by
  obtain ⟨⟨essentials, selected⟩, older⟩ := due
  rw [body, if_neg essentials, if_neg selected]
  cases outcome : startup.outcome app with
  | completes => exact absurd outcome fails
  | refused =>
    have refused : runSetupOnApp .refused app (versions app.appId) false =
        .error (KeyError (.str "Operation in progress/scheduled")) :=
      if_neg fun h => Nat.not_le_of_lt older h.2
    refine ⟨KeyError (.str "Operation in progress/scheduled"), ?_⟩
    simp only [setupApp, outcome, exec_bind, exec_get, refused, exec_lift]
  | raises e =>
    have operation : runSetupOnApp (.raises e) app (versions app.appId) false =
        .ok (some (.raises e)) :=
      if_neg fun h => Nat.not_le_of_lt older h.2
    refine ⟨e, ?_⟩
    simp only [setupApp, outcome, exec_bind, exec_get, operation, exec_lift, join]

variable (startup versions) in
theorem exec_loop_other (appIds : List String) (essential : Bool) (apps : List Package.App) (appId : String)
    (other : ∀ app ∈ apps, app.appId = appId → ¬ Due appIds essential versions app ∨
      startup.outcome app ≠ .completes)
    (nodup : (apps.map Package.App.appId).Nodup) :
    ((forEach apps (startup.body appIds essential)).exec versions).2 appId = versions appId := by
  induction apps generalizing versions with
  | nil => rfl
  | cons app apps ih =>
    rw [List.map_cons, List.nodup_cons] at nodup
    rw [forEach, exec_bind]
    have later : ∀ next : Versions, next appId = versions appId →
        ((forEach apps (startup.body appIds essential)).exec next).2 appId = versions appId := by
      intro next same
      rw [← same]
      apply ih _ _ nodup.2
      intro app' member named
      rw [due_congr (named ▸ same)]
      exact other app' (List.mem_cons_of_mem _ member) named
    by_cases due : Due appIds essential versions app
    · by_cases completes : startup.outcome app = .completes
      · rw [exec_body_of_completes due completes]
        apply later
        apply Function.update_of_ne
        rintro rfl
        rcases other app List.mem_cons_self rfl with undue | fails
        · exact undue due
        · exact fails completes
      · obtain ⟨e, raised⟩ := exec_body_of_fails due completes
        rw [raised]
    · rw [exec_body_of_not_due due]
      exact later versions rfl

theorem exec_loop_reached {before after : List Package.App} {app : Package.App}
    (nodup : ((before ++ app :: after).map Package.App.appId).Nodup)
    (unblocked : ∀ f ∈ before, Due appIds essential versions f → startup.outcome f = .completes)
    (due : Due appIds essential versions app) (completes : startup.outcome app = .completes) :
    ((forEach (before ++ app :: after) (startup.body appIds essential)).exec versions).2 app.appId =
      app.version := by
  induction before generalizing versions with
  | nil =>
    rw [List.nil_append, List.map_cons, List.nodup_cons] at nodup
    rw [List.nil_append, forEach, exec_bind, exec_body_of_completes due completes]
    have own := exec_loop_other startup
      (Function.update versions app.appId app.version) appIds essential after app.appId
      (fun other member named => absurd (List.mem_map.mpr ⟨other, member, named⟩) nodup.1) nodup.2
    rw [own, Function.update_self]
  | cons f before ih =>
    rw [List.cons_append, List.map_cons, List.nodup_cons] at nodup
    have others : ∀ g ∈ before ++ app :: after, g.appId ≠ f.appId :=
      fun g member same => nodup.1 (List.mem_map.mpr ⟨g, member, same⟩)
    rw [List.cons_append, forEach, exec_bind]
    have later : ∀ next : Versions, (∀ appId ≠ f.appId, next appId = versions appId) →
        ((forEach (before ++ app :: after) (startup.body appIds essential)).exec next).2 app.appId =
          app.version := by
      intro next same
      apply ih nodup.2
      · intro g member dueThen
        rw [due_congr (same _ (others g (List.mem_append_left _ member)))] at dueThen
        exact unblocked g (List.mem_cons_of_mem _ member) dueThen
      · rw [due_congr (same _ (others app (List.mem_append_right _ List.mem_cons_self)))]
        exact due
    by_cases dueFirst : Due appIds essential versions f
    · rw [exec_body_of_completes dueFirst (unblocked f List.mem_cons_self dueFirst)]
      exact later _ fun appId other => Function.update_of_ne other _ _
    · rw [exec_body_of_not_due dueFirst]
      exact later versions fun _ _ => rfl

theorem exec_loop_blocked {before after : List Package.App} {f : Package.App}
    (nodup : ((before ++ f :: after).map Package.App.appId).Nodup)
    (due : Due appIds essential versions f) (fails : startup.outcome f ≠ .completes) :
    ∃ e next, (forEach (before ++ f :: after) (startup.body appIds essential)).exec versions =
      (.error e, next) ∧ ∀ app ∈ f :: after, next app.appId = versions app.appId := by
  induction before generalizing versions with
  | nil =>
    obtain ⟨e, raised⟩ := exec_body_of_fails due fails
    refine ⟨e, versions, ?_, fun _ _ => rfl⟩
    rw [List.nil_append, forEach, exec_bind, raised]
  | cons g before ih =>
    rw [List.cons_append, List.map_cons, List.nodup_cons] at nodup
    have others : ∀ app ∈ f :: after, app.appId ≠ g.appId := by
      intro app member same
      exact nodup.1 (List.mem_map.mpr ⟨app, List.mem_append_right _ member, same⟩)
    rw [List.cons_append, forEach, exec_bind]
    by_cases dueFirst : Due appIds essential versions g
    · by_cases completes : startup.outcome g = .completes
      · rw [exec_body_of_completes dueFirst completes]
        have same : ∀ app ∈ f :: after,
            Function.update versions g.appId g.version app.appId = versions app.appId :=
          fun app member => Function.update_of_ne (others app member) _ _
        obtain ⟨e, next, raised, unchanged⟩ :=
          ih nodup.2 ((due_congr (same f List.mem_cons_self)).mpr due)
        exact ⟨e, next, raised, fun app member => (unchanged app member).trans (same app member)⟩
      · obtain ⟨e, raised⟩ := exec_body_of_fails dueFirst completes
        exact ⟨e, versions, by rw [raised], fun _ _ => rfl⟩
    · rw [exec_body_of_not_due dueFirst]
      exact ih nodup.2 due

/-! ## Attempts at startup -/

def NeedsSetup (isFirstSetup : Bool) (versions : Versions) (app : Package.App) : Prop :=
  versions app.appId < app.version ∧
    (app.isEssential = true ∨ isFirstSetup = false ∧ versions app.appId ≠ 0)

theorem isSetupRequired_iff {app : Package.App} (older : versions app.appId < app.version) :
    isSetupRequired versions app = true ↔ app.isEssential = true ∨ versions app.appId ≠ 0 := by
  have outdated : ¬ (versions app.appId ≠ 0 ∧ app.version ≤ versions app.appId) :=
    fun h => Nat.not_le_of_lt older h.2
  rw [isSetupRequired, decide_eq_true_eq, getSetupState, if_neg outdated]
  by_cases new : versions app.appId = 0 <;> simp [new]

theorem exec_attempt (startup : Startup) (isFirstSetup : Bool) (versions : Versions) :
    ∃ appIds essential, (startup.attempt isFirstSetup).exec versions =
        (forEach startup.apps (startup.body appIds essential)).exec versions ∧
      ∀ app ∈ startup.apps,
        Due appIds essential versions app ↔ NeedsSetup isFirstSetup versions app := by
  cases isFirstSetup with
  | true =>
    refine ⟨[], true, rfl, ?_⟩
    intro app _
    simp [Due, Selects, NeedsSetup, and_comm]
  | false =>
    have listed : ∀ app ∈ startup.apps,
        (app.appId ∈ startup.getAppsForRegularSetup versions ↔
          isSetupRequired versions app = true) := by
      intro app member
      rw [getAppsForRegularSetup, List.mem_map]
      constructor
      · rintro ⟨other, found, same⟩
        obtain ⟨member', required⟩ := List.mem_filter.mp found
        rw [← List.inj_on_of_nodup_map startup.nodup member' member same]
        exact required
      · intro required
        exact ⟨app, List.mem_filter.mpr ⟨member, required⟩, rfl⟩
    have attempted : (startup.attempt false).exec versions =
        (startup.runSetupOnApps (startup.getAppsForRegularSetup versions)).exec versions := by
      rw [attempt, if_neg Bool.false_ne_true, exec_bind, exec_get]
    rw [attempted, runSetupOnApps]
    by_cases nothing : startup.getAppsForRegularSetup versions = []
    · refine ⟨[], true, ?_, ?_⟩
      · rw [if_pos nothing]
        rfl
      · intro app member
        have absent := listed app member
        rw [nothing] at absent
        constructor
        · rintro ⟨⟨essentials, _⟩, older⟩
          refine ⟨older, .inl ?_⟩
          simpa using essentials
        · rintro ⟨older, required⟩
          rw [isSetupRequired_iff older] at absent
          exact absurd (absent.mpr (required.imp_right (·.2))) List.not_mem_nil
    · refine ⟨startup.getAppsForRegularSetup versions, false, ?_, ?_⟩
      · rw [if_neg nothing]
        rfl
      · intro app member
        constructor
        · rintro ⟨⟨_, selected⟩, older⟩
          have present : app.appId ∈ startup.getAppsForRegularSetup versions := by
            by_contra absent
            exact selected ⟨nothing, absent⟩
          rw [listed app member, isSetupRequired_iff older] at present
          exact ⟨older, present.imp_right fun installed => ⟨rfl, installed⟩⟩
        · rintro ⟨older, required⟩
          have present := listed app member
          rw [isSetupRequired_iff older] at present
          refine ⟨⟨fun h => Bool.false_ne_true h.1, ?_⟩, older⟩
          exact fun h => h.2 (present.mpr (required.imp_right (·.2)))

def Blocked (startup : Startup) (versions : Versions) (f app : Package.App) : Prop :=
  NeedsSetup (startup.isFirstSetup versions) versions f ∧ startup.outcome f ≠ .completes ∧
    NeedsSetup (startup.isFirstSetup versions) versions app ∧ startup.outcome app = .completes

def Isolated (startup : Startup) (attempts : Nat) (versions : Versions) : Prop :=
  ∀ app ∈ startup.apps, NeedsSetup (startup.isFirstSetup versions) versions app →
    startup.outcome app = .completes →
      startup.runSetupOnStartup attempts versions app.appId = app.version

theorem needsSetup_congr {isFirstSetup : Bool} {next : Versions} {app : Package.App}
    (same : next app.appId = versions app.appId) :
    NeedsSetup isFirstSetup next app ↔ NeedsSetup isFirstSetup versions app := by
  rw [NeedsSetup, NeedsSetup, same]

theorem retry_blocked {before after : List Package.App} {f : Package.App} (isFirstSetup : Bool)
    (split : startup.apps = before ++ f :: after) (due : NeedsSetup isFirstSetup versions f)
    (fails : startup.outcome f ≠ .completes) (attempts : Nat) :
    ∀ app ∈ after, startup.retry isFirstSetup attempts versions app.appId = versions app.appId := by
  induction attempts generalizing versions with
  | zero => exact fun _ _ => rfl
  | succ attempts ih =>
    obtain ⟨appIds, essential, attempted, dueIff⟩ := exec_attempt startup isFirstSetup versions
    have nodup := startup.nodup
    rw [split] at attempted nodup
    have member : f ∈ startup.apps := by
      rw [split]
      exact List.mem_append_right _ List.mem_cons_self
    obtain ⟨e, next, raised, unchanged⟩ :=
      exec_loop_blocked nodup ((dueIff f member).mpr due) fails
    intro app after
    rw [retry, attempted, raised]
    dsimp only
    rw [ih ((needsSetup_congr (unchanged f List.mem_cons_self)).mpr due) app after]
    exact unchanged app (List.mem_cons_of_mem _ after)

theorem retry_current {app : Package.App} (isFirstSetup : Bool) (member : app ∈ startup.apps)
    (current : versions app.appId = app.version) (attempts : Nat) :
    startup.retry isFirstSetup attempts versions app.appId = app.version := by
  induction attempts generalizing versions with
  | zero => exact current
  | succ attempts ih =>
    obtain ⟨appIds, essential, attempted, dueIff⟩ := exec_attempt startup isFirstSetup versions
    have kept : ((startup.attempt isFirstSetup).exec versions).2 app.appId = app.version := by
      rw [attempted, exec_loop_other startup _ appIds essential startup.apps app.appId _ startup.nodup, current]
      intro other member' named
      have same := List.inj_on_of_nodup_map startup.nodup member' member named
      subst same
      refine .inl fun due => ?_
      exact Nat.lt_irrefl _ (current ▸ due.2)
    rw [retry]
    cases ended : (startup.attempt isFirstSetup).exec versions with
    | mk result next =>
      rw [ended] at kept
      cases result with
      | ok _ => exact kept
      | error e => exact ih kept

theorem isolated_iff (startup : Startup) (attempts : Nat) (versions : Versions) :
    Isolated startup (attempts + 1) versions ↔
      startup.apps.Pairwise fun f app => ¬ Blocked startup versions f app := by
  rw [pairwise_iff_split]
  constructor
  · rintro isolated before app after split f member ⟨due, fails, needs, completes⟩
    obtain ⟨first, between, rfl⟩ := List.append_of_mem member
    have split' : startup.apps = first ++ f :: (between ++ app :: after) := by
      rw [split, List.append_assoc, List.cons_append]
    have member' : app ∈ startup.apps := by
      rw [split]
      exact List.mem_append_right _ List.mem_cons_self
    have kept := retry_blocked (startup.isFirstSetup versions) split' due fails (attempts + 1) app
      (List.mem_append_right _ List.mem_cons_self)
    have set := isolated app member' needs completes
    rw [runSetupOnStartup, kept] at set
    exact Nat.lt_irrefl _ (set ▸ needs.1)
  · intro unblocked app member needs completes
    obtain ⟨before, after, split⟩ := List.append_of_mem member
    obtain ⟨appIds, essential, attempted, dueIff⟩ :=
      exec_attempt startup (startup.isFirstSetup versions) versions
    have nodup := startup.nodup
    have reached : ((startup.attempt (startup.isFirstSetup versions)).exec versions).2 app.appId =
        app.version := by
      rw [split] at nodup attempted
      rw [attempted]
      apply exec_loop_reached nodup _ ((dueIff app member).mpr needs) completes
      intro f earlier due
      have member' : f ∈ startup.apps := by
        rw [split]
        exact List.mem_append_left _ earlier
      by_contra fails
      exact unblocked before app after split f earlier
        ⟨(dueIff f member').mp due, fails, needs, completes⟩
    rw [runSetupOnStartup, retry]
    cases ended : (startup.attempt (startup.isFirstSetup versions)).exec versions with
    | mk result next =>
      rw [ended] at reached
      cases result with
      | ok _ => exact reached
      | error e => exact retry_current _ member reached attempts

end Startup

/-! ## Apps after dpkg -/

namespace DpkgHandler

variable {handler : DpkgHandler} {app : Package.App}

def Selected (handler : DpkgHandler) (attempt : Nat) (app : Package.App) : Prop :=
  isInterested app = true ∧ isSelected (handler.snapshot attempt app) app = .ok true

def Raises (handler : DpkgHandler) (attempt : Nat) (app : Package.App) : Prop :=
  isInterested app = true ∧ ((∃ e, isSelected (handler.snapshot attempt app) app = .error e) ∨
    isSelected (handler.snapshot attempt app) app = .ok true ∧
      handler.outcome attempt app ≠ .completes)

theorem exec_rerunSetup_of_completes {w : World String}
    (completes : handler.outcome w.attempt app = .completes) :
    (handler.rerunSetup app).exec w =
      (.ok (), { w with carriedOut := w.carriedOut ++ [app.appId] }) := by
  have operation : runSetupOnApp .completes app (handler.snapshot w.attempt app).setupVersion true =
      .ok (some .completes) :=
    if_neg fun h => Bool.noConfusion h.1
  rw [rerunSetup, Program.exec, completes]
  dsimp only
  rw [operation]
  rfl

theorem exec_rerunSetup_of_fails {w : World String}
    (fails : handler.outcome w.attempt app ≠ .completes) :
    ∃ e, (handler.rerunSetup app).exec w = (.error (.unknown e), w) := by
  rw [rerunSetup, Program.exec]
  cases outcome : handler.outcome w.attempt app with
  | completes => exact absurd outcome fails
  | refused => exact ⟨_, rfl⟩
  | raises e => exact ⟨e, rfl⟩

theorem exec_postInvokeOnApp (handler : DpkgHandler) (app : Package.App) (w : World String) :
    ∃ result w', (handler.postInvokeOnApp app).exec w = (result, w') ∧ w'.attempt = w.attempt ∧
      ((∃ e, result = .error (.unknown e)) ∧ handler.Raises w.attempt app ∧
          w'.carriedOut = w.carriedOut ∨
        result = .ok () ∧ handler.Selected w.attempt app ∧
          handler.outcome w.attempt app = .completes ∧
          w'.carriedOut = w.carriedOut ++ [app.appId] ∨
        result = .ok () ∧ ¬ handler.Selected w.attempt app ∧ ¬ handler.Raises w.attempt app ∧
          w'.carriedOut = w.carriedOut) := by
  rw [postInvokeOnApp]
  by_cases interested : isInterested app = true
  · rw [if_pos interested, Program.exec]
    cases selected : isSelected (handler.snapshot w.attempt app) app with
    | error e =>
      exact ⟨_, _, rfl, rfl, .inl ⟨⟨e, rfl⟩, ⟨interested, .inl ⟨e, selected⟩⟩, rfl⟩⟩
    | ok again =>
      cases again with
      | false =>
        refine ⟨_, _, rfl, rfl, .inr (.inr ⟨rfl, ?_, ?_, rfl⟩)⟩
        · rintro ⟨_, h⟩
          rw [selected] at h
          cases h
        · rintro ⟨_, ⟨e, h⟩ | ⟨h, _⟩⟩ <;>
          · rw [selected] at h
            cases h
      | true =>
        by_cases completes : handler.outcome w.attempt app = .completes
        · have set := exec_rerunSetup_of_completes (w := World.read app.appId w) completes
          exact ⟨_, _, set, rfl, .inr (.inl ⟨rfl, ⟨interested, selected⟩, completes, rfl⟩)⟩
        · obtain ⟨e, raised⟩ := exec_rerunSetup_of_fails (w := World.read app.appId w) completes
          exact ⟨_, _, raised, rfl,
            .inl ⟨⟨e, rfl⟩, ⟨interested, .inr ⟨selected, completes⟩⟩, rfl⟩⟩
  · rw [if_neg interested]
    exact ⟨_, _, rfl, rfl, .inr (.inr ⟨rfl, fun h => interested h.1, fun h => interested h.1, rfl⟩)⟩

def Reaches (handler : DpkgHandler) (attempt : Nat) (apps : List Package.App) (app : Package.App) : Prop :=
  ∃ before after, apps = before ++ app :: after ∧ ∀ f ∈ before, ¬ handler.Raises attempt f

theorem reaches_cons_iff {attempt : Nat} {first : Package.App} {apps : List Package.App}
    (fine : ¬ handler.Raises attempt first) :
    handler.Reaches attempt (first :: apps) app ↔ app = first ∨ handler.Reaches attempt apps app := by
  constructor
  · rintro ⟨before, after, split, unblocked⟩
    cases before with
    | nil =>
      cases split
      exact .inl rfl
    | cons f before =>
      cases split
      exact .inr ⟨before, after, rfl, fun g member => unblocked g (List.mem_cons_of_mem _ member)⟩
  · rintro (rfl | ⟨before, after, rfl, unblocked⟩)
    · exact ⟨[], apps, rfl, fun f member => absurd member List.not_mem_nil⟩
    · refine ⟨first :: before, after, rfl, ?_⟩
      intro f member
      rcases List.mem_cons.mp member with rfl | member
      · exact fine
      · exact unblocked f member

theorem reaches_of_raises {attempt : Nat} {first : Package.App} {apps : List Package.App}
    (raises : handler.Raises attempt first) (reaches : handler.Reaches attempt (first :: apps) app) :
    app = first := by
  obtain ⟨before, after, split, unblocked⟩ := reaches
  cases before with
  | nil =>
    cases split
    rfl
  | cons f before =>
    cases split
    exact absurd raises (unblocked first List.mem_cons_self)

def Carries (handler : DpkgHandler) (attempt : Nat) (apps : List Package.App) (app : Package.App) : Prop :=
  handler.Reaches attempt apps app ∧ handler.Selected attempt app ∧
    handler.outcome attempt app = .completes

theorem carries_cons_iff {attempt : Nat} {first : Package.App} {apps : List Package.App}
    (fine : ¬ handler.Raises attempt first) (appId : String) :
    (∃ app, app.appId = appId ∧ handler.Carries attempt (first :: apps) app) ↔
      (first.appId = appId ∧ handler.Selected attempt first ∧
        handler.outcome attempt first = .completes) ∨
      ∃ app, app.appId = appId ∧ handler.Carries attempt apps app := by
  simp only [Carries, reaches_cons_iff fine]
  constructor
  · rintro ⟨app, named, rfl | reaches, set⟩
    · exact .inl ⟨named, set⟩
    · exact .inr ⟨app, named, reaches, set⟩
  · rintro (⟨named, set⟩ | ⟨app, named, reaches, set⟩)
    · exact ⟨first, named, .inl rfl, set⟩
    · exact ⟨app, named, .inr reaches, set⟩

theorem exec_postInvokeOnApps (handler : DpkgHandler) (apps : List Package.App) (w : World String) :
    ∃ result w', (handler.postInvokeOnApps apps).exec w = (result, w') ∧ w'.attempt = w.attempt ∧
      ((∃ e, result = .error (.unknown e)) ∧ (∃ f ∈ apps, handler.Raises w.attempt f) ∨
        result = .ok () ∧ ∀ f ∈ apps, ¬ handler.Raises w.attempt f) ∧
      ∀ appId, appId ∈ w'.carriedOut ↔ appId ∈ w.carriedOut ∨
        ∃ app, app.appId = appId ∧ handler.Carries w.attempt apps app := by
  induction apps generalizing w with
  | nil =>
    refine ⟨_, _, rfl, rfl, .inr ⟨rfl, fun f member => absurd member List.not_mem_nil⟩, ?_⟩
    intro appId
    refine (or_iff_left ?_).symm
    rintro ⟨app, _, ⟨before, after, split, _⟩, _⟩
    cases before <;> cases split
  | cons first apps ih =>
    rw [postInvokeOnApps, Program.exec_bind]
    obtain ⟨result, w', ran, same, outcome⟩ := handler.exec_postInvokeOnApp first w
    rw [ran]
    rcases outcome with ⟨⟨e, rfl⟩, raises, carried⟩ | ⟨rfl, selected, completes, carried⟩ |
      ⟨rfl, unselected, fine, carried⟩
    · refine ⟨_, w', rfl, same, .inl ⟨⟨e, rfl⟩, first, List.mem_cons_self, raises⟩, ?_⟩
      intro appId
      rw [carried]
      refine (or_iff_left ?_).symm
      rintro ⟨app, _, reaches, selected, completes⟩
      rw [reaches_of_raises raises reaches] at selected completes
      obtain ⟨_, ⟨e', failed⟩ | ⟨_, fails⟩⟩ := raises
      · cases failed.symm.trans selected.2
      · exact fails completes
    · have fine : ¬ handler.Raises w.attempt first := by
        rintro ⟨_, ⟨e, failed⟩ | ⟨_, fails⟩⟩
        · cases failed.symm.trans selected.2
        · exact fails completes
      obtain ⟨result, w'', later, same', outcome, others⟩ := ih w'
      rw [same] at same' outcome others
      refine ⟨result, w'', later, same', ?_, ?_⟩
      · rcases outcome with ⟨failed, f, member, raises⟩ | ⟨ended, none⟩
        · exact .inl ⟨failed, f, List.mem_cons_of_mem _ member, raises⟩
        · exact .inr ⟨ended, List.forall_mem_cons.mpr ⟨fine, none⟩⟩
      · intro appId
        rw [others, carried, List.mem_append, List.mem_singleton, carries_cons_iff fine, or_assoc]
        simp only [selected, completes, and_self, and_true, eq_comm]
    · obtain ⟨result, w'', later, same', outcome, others⟩ := ih w'
      rw [same] at same' outcome others
      refine ⟨result, w'', later, same', ?_, ?_⟩
      · rcases outcome with ⟨failed, f, member, raises⟩ | ⟨ended, none⟩
        · exact .inl ⟨failed, f, List.mem_cons_of_mem _ member, raises⟩
        · exact .inr ⟨ended, List.forall_mem_cons.mpr ⟨fine, none⟩⟩
      · intro appId
        rw [others, carried, carries_cons_iff fine]
        simp only [unselected, false_and, and_false, false_or]

def Opens (handler : DpkgHandler) (attempt : Nat) : Prop :=
  handler.isShuttingDown attempt = false ∧ handler.isPackageManagerBusy attempt = false

def Ends (handler : DpkgHandler) (attempt : Nat) : Prop :=
  handler.Opens attempt ∧ ∀ app ∈ handler.apps, ¬ handler.Raises attempt app

def GoesOn (handler : DpkgHandler) (attempt : Nat) : Prop :=
  handler.isShuttingDown attempt = false ∧ handler.waitEvent attempt = false ∧
    ¬ handler.Ends attempt

theorem exec_attempt (attempt : Handler String Unit) (w : World String) :
    (tryAttempt attempt).exec w = match attempt.exec w.begin with
      | (.ok _, w') => (.ok false, { w' with completed := true })
      | (.error failure, w') => (.ok (retries failure), w') := by
  have begun : (act World.begin : Handler String Unit).exec w = (.ok (), w.begin) := rfl
  rw [tryAttempt, Program.exec_tryCatch, Program.exec_bind, begun]
  dsimp only
  rw [Program.exec_bind]
  rcases attempt.exec w.begin with ⟨_ | _, w'⟩ <;> rfl

theorem exec_tryAttempt (handler : DpkgHandler) (w : World String) :
    ∃ again w', (tryAttempt handler.attemptPostInvoke).exec w = (.ok again, w') ∧
      w'.attempt = w.attempt ∧
      (again = true ↔ handler.isShuttingDown w.attempt = false ∧ ¬ handler.Ends w.attempt) ∧
      ∀ appId, appId ∈ w'.carriedOut ↔ appId ∈ w.carriedOut ∨
        handler.Opens w.attempt ∧
          ∃ app, app.appId = appId ∧ handler.Carries w.attempt handler.apps app := by
  rw [exec_attempt, attemptPostInvoke, Program.exec]
  have same : (World.begin w).attempt = w.attempt := rfl
  rw [same]
  by_cases stopping : handler.isShuttingDown w.attempt = true
  · rw [if_pos stopping]
    refine ⟨_, _, rfl, rfl, ?_, ?_⟩
    · simp [retries, stopping]
    · simp [World.begin, Opens, stopping]
  · rw [if_neg stopping]
    by_cases busy : handler.isPackageManagerBusy w.attempt = true
    · rw [if_pos busy]
      refine ⟨_, _, rfl, rfl, ?_, ?_⟩
      · simp [retries, stopping, Ends, Opens, busy]
      · simp [World.begin, Opens, busy]
    · rw [if_neg busy]
      obtain ⟨result, w', ran, kept, outcome, carried⟩ :=
        handler.exec_postInvokeOnApps handler.apps (World.begin w)
      have opens : handler.Opens w.attempt := by simpa [Opens] using And.intro stopping busy
      rw [id, ran]
      rcases outcome with ⟨⟨e, rfl⟩, f, member, raises⟩ | ⟨rfl, fine⟩
      · refine ⟨true, w', rfl, kept, ?_, ?_⟩
        · have unfinished : ¬ handler.Ends w.attempt := fun ends => ends.2 f member raises
          simp [stopping, unfinished]
        · intro appId
          rw [carried]
          simp only [opens, true_and]
          exact Iff.rfl
      · refine ⟨false, _, rfl, kept, ?_, ?_⟩
        · have finished : handler.Ends w.attempt := ⟨opens, fine⟩
          simp [finished]
        · intro appId
          dsimp only
          rw [carried]
          simp only [opens, true_and]
          exact Iff.rfl

theorem exists_step_iff (goesOn ends : Nat → Prop) (left : Nat) :
    (∃ j < left + 1, (∀ k < j, goesOn k) ∧ ends j) ↔
      ends 0 ∨ goesOn 0 ∧ ∃ j < left, (∀ k < j, goesOn (k + 1)) ∧ ends (j + 1) := by
  constructor
  · rintro ⟨j, bound, before, here⟩
    cases j with
    | zero => exact .inl here
    | succ j =>
      refine .inr ⟨before 0 (Nat.succ_pos j), j, Nat.lt_of_succ_lt_succ bound, ?_, here⟩
      exact fun k earlier => before (k + 1) (Nat.succ_lt_succ earlier)
  · rintro (here | ⟨first, j, bound, before, here⟩)
    · exact ⟨0, Nat.succ_pos left, fun k earlier => absurd earlier (Nat.not_lt_zero k), here⟩
    · refine ⟨j + 1, Nat.succ_lt_succ bound, ?_, here⟩
      intro k earlier
      cases k with
      | zero => exact first
      | succ k => exact before k (Nat.lt_of_succ_lt_succ earlier)

theorem exec_attempts (handler : DpkgHandler) (left : Nat) (w : World String) (appId : String) :
    appId ∈ ((attempts handler.waitEvent handler.attemptPostInvoke left).exec w).2.carriedOut ↔
      appId ∈ w.carriedOut ∨ ∃ j < left, (∀ k < j, handler.GoesOn (w.attempt + k)) ∧
        handler.Opens (w.attempt + j) ∧
          ∃ app, app.appId = appId ∧ handler.Carries (w.attempt + j) handler.apps app := by
  induction left generalizing w with
  | zero =>
    refine (or_iff_left ?_).symm
    rintro ⟨j, bound, _⟩
    exact Nat.not_lt_zero j bound
  | succ left ih =>
    obtain ⟨again, w', ran, kept, goesOn, carried⟩ := handler.exec_tryAttempt w
    rw [attempts, Program.exec_bind, ran]
    dsimp only
    have steps := exists_step_iff (fun k => handler.GoesOn (w.attempt + k)) (fun j =>
      handler.Opens (w.attempt + j) ∧
        ∃ app, app.appId = appId ∧ handler.Carries (w.attempt + j) handler.apps app) left
    rw [steps, Nat.add_zero, ← or_assoc, ← carried]
    cases again with
    | false =>
      refine (or_iff_left ?_).symm
      rintro ⟨⟨running, _, unfinished⟩, _⟩
      exact absurd (goesOn.mpr ⟨running, unfinished⟩) Bool.false_ne_true
    | true =>
      obtain ⟨running, unfinished⟩ := goesOn.mp rfl
      have waited : (wait handler.waitEvent : Handler String Bool).exec w' =
          (.ok (handler.waitEvent w'.attempt), { w' with attempt := w'.attempt + 1 }) := rfl
      rw [if_pos rfl, Program.exec_bind, waited, kept]
      dsimp only
      cases event : handler.waitEvent w.attempt with
      | true =>
        refine (or_iff_left ?_).symm
        rintro ⟨⟨_, h, _⟩, _⟩
        rw [event] at h
        cases h
      | false =>
        rw [if_neg Bool.false_ne_true, ih]
        have first : handler.GoesOn w.attempt := ⟨running, event, unfinished⟩
        simp only [first, true_and, Nat.add_assoc, Nat.add_comm 1]

def carriedOut (handler : DpkgHandler) (first : Nat) : List String :=
  (handler.onDpkgInvoked.exec ⟨first, [], false, false, false, []⟩).2.carriedOut

theorem mem_carriedOut_iff (handler : DpkgHandler) (first : Nat) (appId : String) :
    appId ∈ handler.carriedOut first ↔ ∃ j < handleAttempts,
      (∀ k < j, handler.GoesOn (first + k)) ∧ handler.Opens (first + j) ∧
        ∃ app, app.appId = appId ∧ handler.Carries (first + j) handler.apps app := by
  rw [carriedOut, onDpkgInvoked, exec_attempts]
  exact or_iff_right List.not_mem_nil

def Steady (handler : DpkgHandler) (first : Nat) (app : Package.App) : Prop :=
  ∀ j < handleAttempts, handler.outcome (first + j) app = .completes ∧
    ((∀ k < j, ¬ (handler.Opens (first + k) ∧ handler.Carries (first + k) handler.apps app)) →
      handler.Selected (first + j) app)

def Isolated (handler : DpkgHandler) (first : Nat) : Prop :=
  ∀ app ∈ handler.apps, handler.Steady first app → app.appId ∈ handler.carriedOut first

def Unblocked (handler : DpkgHandler) (first : Nat) (app : Package.App) : Prop :=
  ∃ j < handleAttempts, (∀ k < j, handler.isShuttingDown (first + k) = false ∧
    handler.waitEvent (first + k) = false) ∧ handler.Opens (first + j) ∧
    handler.Reaches (first + j) handler.apps app

theorem unblocked_of_mem {first : Nat} (member : app ∈ handler.apps)
    (carried : app.appId ∈ handler.carriedOut first) : handler.Unblocked first app := by
  obtain ⟨j, bound, before, opens, other, named, reaches, _⟩ :=
    (handler.mem_carriedOut_iff first app.appId).mp carried
  have present : other ∈ handler.apps := by
    obtain ⟨earlier, later, split, _⟩ := reaches
    rw [split]
    exact List.mem_append_right _ List.mem_cons_self
  have same := List.inj_on_of_nodup_map handler.nodup present member named
  subst same
  exact ⟨j, bound, fun k earlier => ⟨(before k earlier).1, (before k earlier).2.1⟩, opens, reaches⟩

theorem reaches_of_ends {attempt : Nat} (member : app ∈ handler.apps)
    (ends : handler.Ends attempt) : handler.Reaches attempt handler.apps app := by
  obtain ⟨before, after, split⟩ := List.append_of_mem member
  refine ⟨before, after, split, ?_⟩
  intro f earlier
  apply ends.2
  rw [split]
  exact List.mem_append_left _ earlier

theorem exists_reach {first j : Nat} (member : app ∈ handler.apps)
    (before : ∀ k < j, handler.isShuttingDown (first + k) = false ∧
      handler.waitEvent (first + k) = false)
    (opens : handler.Opens (first + j)) (reaches : handler.Reaches (first + j) handler.apps app) :
    ∃ i ≤ j, (∀ k < i, handler.GoesOn (first + k)) ∧ handler.Opens (first + i) ∧
      handler.Reaches (first + i) handler.apps app := by
  induction j using Nat.strong_induction_on with
  | _ j ih =>
    by_cases ended : ∃ k < j, handler.Ends (first + k)
    · obtain ⟨k, earlier, ends⟩ := ended
      obtain ⟨i, bound, made⟩ := ih k earlier
        (fun k' h => before k' (Nat.lt_trans h earlier)) ends.1 (reaches_of_ends member ends)
      exact ⟨i, Nat.le_trans bound (Nat.le_of_lt earlier), made⟩
    · refine ⟨j, Nat.le_refl j, ?_, opens, reaches⟩
      intro k earlier
      exact ⟨(before k earlier).1, (before k earlier).2, fun h => ended ⟨k, earlier, h⟩⟩

theorem isolated_iff (handler : DpkgHandler) (first : Nat) :
    handler.Isolated first ↔
      ∀ app ∈ handler.apps, handler.Steady first app → handler.Unblocked first app := by
  constructor
  · intro isolated app member steady
    exact unblocked_of_mem member (isolated app member steady)
  · intro unblocked app member steady
    obtain ⟨last, inRange, before, opens, reaches⟩ := unblocked app member steady
    obtain ⟨j, bound, goesOn, opens, reaches⟩ := exists_reach member before opens reaches
    have bound := Nat.lt_of_le_of_lt bound inRange
    rw [mem_carriedOut_iff]
    by_cases earlier : ∃ k < j, handler.Opens (first + k) ∧
        handler.Carries (first + k) handler.apps app
    · obtain ⟨k, before, opens', carries⟩ := earlier
      exact ⟨k, Nat.lt_trans before bound, fun i h => goesOn i (Nat.lt_trans h before), opens',
        app, rfl, carries⟩
    · obtain ⟨completes, selected⟩ := steady j bound
      refine ⟨j, bound, goesOn, opens, app, rfl, reaches, selected ?_, completes⟩
      exact fun k before carries => earlier ⟨k, before, carries⟩

end DpkgHandler

/-- The apps whose setup does not fail are set up exactly if, at startup, none of them comes after
one that fails, and, after dpkg, one of the attempts comes to each of them. -/
theorem bulk_setup_isolated_iff (startup : Startup) (attempts : Nat) (versions : Startup.Versions)
    (handler : DpkgHandler) (first : Nat) :
    (startup.Isolated (attempts + 1) versions ↔
      startup.apps.Pairwise fun f app => ¬ startup.Blocked versions f app) ∧
    (handler.Isolated first ↔
      ∀ app ∈ handler.apps, handler.Steady first app → handler.Unblocked first app) :=
  ⟨startup.isolated_iff attempts versions, handler.isolated_iff first⟩

/-! ## An app that keeps failing -/

def failingFirst : Startup where
  apps := [⟨"bad", true, 1, []⟩, ⟨"good", true, 1, []⟩]
  nodup := by decide
  outcome app := if app.appId = "bad" then .raises (RuntimeError "Apt command failed") else .completes

theorem later_app_not_set_up :
    ¬ ((∀ (startup : Startup) (attempts : Nat) (versions : Startup.Versions),
        startup.Isolated (attempts + 1) versions) ∧
      ∀ (handler : DpkgHandler) (first : Nat), handler.Isolated first) := by
  rintro ⟨isolated, _⟩
  have set := isolated failingFirst 0 (fun _ => 0) ⟨"good", true, 1, []⟩
    (List.mem_cons_of_mem _ List.mem_cons_self) ⟨by decide, .inl rfl⟩ rfl
  have unset : failingFirst.runSetupOnStartup 1 (fun _ => 0) "good" = 0 := rfl
  exact absurd (unset.symm.trans set) (by decide)

end Plinth.Setup
