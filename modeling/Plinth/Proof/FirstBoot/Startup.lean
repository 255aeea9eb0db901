import Plinth.Model.FirstBoot.Startup
import Plinth.Proof.FirstBoot.Wizard

/-!
# When the first boot wizard is set as completed

A thread sets the wizard as completed when it has found no pending step in the list it holds. The
list has every step if the setup thread was there before the first request.
-/

namespace Plinth.FirstBoot.Startup

variable (site : Site)

def Declared (step : Step) : Prop :=
  ∃ app ∈ site.apps, app.isEssential ∧ step ∈ app.firstBootSteps

def Whole (steps : List Step) : Prop :=
  ∀ step, Declared site step → step ∈ steps

def AllDone (w : Wizard) : Prop :=
  ∀ step, Declared site step → w.done step.id

def InTime (w : Wizard) : Prop :=
  w.firstbootCompleted ∨ w.isCompleted = some true → AllDone site w

/-! ## The loop over the steps -/

def Accounts (w : Wizard) : Phase → Prop
  | .storeCompleted completed => completed → AllDone site w
  | .pending _ steps rest => ∀ step ∈ steps, step ∈ rest ∨ w.done step.id
  | .complete _ => AllDone site w
  | .record _ => AllDone site w
  | _ => True

theorem AllDone.mono {w w' : Wizard} (all : AllDone site w)
    (more : ∀ id, w.done id → w'.done id) : AllDone site w' :=
  fun step declared => more _ (all step declared)

theorem Accounts.mono {w w' : Wizard} {phase : Phase} (accounts : Accounts site w phase)
    (more : ∀ id, w.done id → w'.done id) : Accounts site w' phase := by
  cases phase with
  | storeCompleted completed => exact fun h => (accounts h).mono site more
  | pending use steps rest => exact fun step member => (accounts step member).imp_right (more _)
  | complete use => exact AllDone.mono site accounts more
  | record use => exact AllDone.mono site accounts more
  | _ => trivial

theorem done_mono (w : Wizard) (request : Request) (phase : Phase) (id : String) :
    w.done id → (advance site w request phase).1.done id := by
  cases phase with
  | markDone marked =>
    intro h
    show Function.update w.done marked true id = true
    by_cases same : id = marked
    · rw [same, Function.update_self]
    · rw [Function.update_of_ne same]
      exact h
  | collect use apps found => cases apps <;> exact fun h => h
  | pending use steps rest => cases rest <;> exact fun h => h
  | _ => exact fun h => h

def HoldsWhole (phase : Phase) : Prop :=
  ∀ use steps, phase = .pending use steps [] → usePending use ≠ none → Whole site steps

theorem accounts_useSteps {w : Wizard} {request : Request} {steps : List Step} {use : Use}
    {next : Phase} (continues : useSteps site request steps use = some next) :
    Accounts site w next := by
  cases use with
  | url completed =>
    simp only [useSteps] at continues
    split at continues
    · cases continues
    · split at continues
      · cases continues
        trivial
      · split at continues <;> cases continues
        trivial
  | redirect | mark | next =>
    cases continues
    exact fun step member => .inl member

theorem accounts_afterPending {w : Wizard} {isCompleted : Bool} {use : Use} {next : Phase}
    (continues : afterPending isCompleted use = some next) : Accounts site w next := by
  cases use with
  | redirect => cases isCompleted <;> cases continues; trivial
  | mark => cases continues; trivial
  | _ => cases continues

theorem accounts_advance {w : Wizard} {request : Request} {phase next : Phase}
    (inTime : InTime site w) (accounts : Accounts site w phase) (whole : HoldsWhole site phase)
    (continues : (advance site w request phase).2 = some next) :
    Accounts site (advance site w request phase).1 next := by
  cases phase with
  | start => 
      simp only [advance] at continues
      split at continues <;> cases continues <;> trivial
  | isCompleted =>
    simp only [advance] at continues
    split at continues <;> cases continues <;> trivial
  | readCompleted =>
    cases continues
    exact fun h => inTime (.inl h)
  | storeCompleted completed => cases continues; trivial
  | returnCompleted => cases continues; trivial
  | getSteps use =>
    simp only [advance] at continues
    split at continues <;> cases continues <;> trivial
  | collect use apps found => cases apps <;> cases continues <;> trivial
  | returnSteps use =>
    obtain ⟨steps, _, continues⟩ := Option.bind_eq_some_iff.mp continues
    exact accounts_useSteps site continues
  | pending use steps rest =>
    cases rest with
    | nil =>
      have all : AllDone site w := by
        intro step declared
        have walked := whole use steps rfl (by rw [show usePending use = some next from continues]; simp)
        rcases accounts step (walked step declared) with h | h
        · cases h
        · exact h
      cases use <;> cases continues <;> exact all
    | cons step rest =>
      simp only [advance] at continues ⊢
      split at continues
      · rename_i done
        cases continues
        intro other member
        rcases accounts other member with h | h
        · rcases List.mem_cons.mp h with rfl | h
          · exact .inr done
          · exact .inl h
        · exact .inr h
      · exact accounts_afterPending site continues
  | complete use => cases continues; exact accounts
  | record use => exact accounts_afterPending site continues
  | view =>
    simp only [advance] at continues
    split at continues
    · obtain ⟨id, _, rfl⟩ := Option.map_eq_some_iff.mp continues
      trivial
    · cases continues
  | markDone id => cases continues; trivial

theorem inTime_advance {w : Wizard} (request : Request) {phase : Phase}
    (inTime : InTime site w) (accounts : Accounts site w phase) :
    InTime site (advance site w request phase).1 := by
  cases phase with
  | storeCompleted completed =>
    rintro (h | h)
    · exact inTime (.inl h)
    · exact accounts (Option.some.inj h)
  | complete use => exact fun _ => accounts
  | record use => exact fun _ => accounts
  | markDone id =>
    intro h
    exact AllDone.mono site (inTime h) (done_mono site w request (.markDone id))
  | collect use apps found => cases apps <;> exact inTime
  | pending use steps rest => cases rest <;> exact inTime
  | _ => exact inTime

/-! ## Runs that end in time -/

structure Sound (s : System) : Prop where
  inTime : InTime site s.toWizard
  accounts : ∀ i request phase, s.requests i = some (request, phase) →
    Accounts site s.toWizard phase

def Timely (s : System) (event : Event) : Prop :=
  ∀ i request phase, event = .advance i → s.requests i = some (request, phase) →
    HoldsWhole site phase

theorem advanceSetup_done (w : Wizard) (succeeds : Bool) (phase : SetupPhase) :
    (advanceSetup site w succeeds phase).1.done = w.done ∧
      (advanceSetup site w succeeds phase).1.firstbootCompleted = w.firstbootCompleted ∧
      (advanceSetup site w succeeds phase).1.isCompleted = w.isCompleted := by
  cases phase with
  | attempt isFirst => cases isFirst <;> exact ⟨rfl, rfl, rfl⟩
  | apps isFirst rest =>
    cases rest with
    | nil => cases isFirst <;> exact ⟨rfl, rfl, rfl⟩
    | cons app rest =>
      simp only [advanceSetup]
      split
      · exact ⟨rfl, rfl, rfl⟩
      · split <;> exact ⟨rfl, rfl, rfl⟩
  | _ => exact ⟨rfl, rfl, rfl⟩

theorem Sound.step {s : System} (sound : Sound site s) {event : Event} (timely : Timely site s event) :
    Sound site (step site s event) := by
  cases event with
  | arrive i request =>
    unfold Startup.step
    dsimp only
    cases free : s.requests i with
    | some busy => exact sound
    | none =>
      refine ⟨sound.inTime, ?_⟩
      intro j other phase h
      change Function.update s.requests i _ j = some (other, phase) at h
      by_cases same : j = i
      · rw [same, Function.update_self] at h
        cases h
        trivial
      · rw [Function.update_of_ne same] at h
        exact sound.accounts j other phase h
  | advance i =>
    unfold Startup.step
    dsimp only
    cases busy : s.requests i with
    | none => exact sound
    | some request =>
      obtain ⟨request, phase⟩ := request
      have here := sound.accounts i request phase busy
      refine ⟨inTime_advance site request sound.inTime here, ?_⟩
      intro j other next h
      change Function.update s.requests i _ j = some (other, next) at h
      by_cases same : j = i
      · rw [same, Function.update_self] at h
        obtain ⟨phase', continues, pair⟩ := Option.map_eq_some_iff.mp h
        cases pair
        exact accounts_advance site sound.inTime here (timely i request phase rfl busy) continues
      · rw [Function.update_of_ne same] at h
        exact (sound.accounts j other next h).mono site (done_mono site s.toWizard request phase)
  | setup succeeds =>
    obtain ⟨done, completed, cached⟩ := advanceSetup_done site s.toWizard succeeds s.setup
    refine ⟨?_, ?_⟩
    · intro h
      change (advanceSetup site s.toWizard succeeds s.setup).1.firstbootCompleted = true ∨
        (advanceSetup site s.toWizard succeeds s.setup).1.isCompleted = some true at h
      rw [completed, cached] at h
      exact AllDone.mono site (sound.inTime h) fun id h => by rw [← done] at h; exact h
    · intro i request phase h
      exact (sound.accounts i request phase h).mono site fun id h => by rw [← done] at h; exact h
  | install id =>
    unfold Startup.step
    dsimp only
    cases site.app? id with
    | none => exact sound
    | some app => exact ⟨sound.inTime, fun i request phase h =>
      (sound.accounts i request phase h).mono site fun _ h => h⟩
  | postSetup =>
    exact ⟨sound.inTime, fun i request phase h =>
      (sound.accounts i request phase h).mono site fun _ h => h⟩
  | restart =>
    refine ⟨?_, ?_⟩
    · rintro (h | h)
      · exact sound.inTime (.inl h)
      · cases h
    · intro i request phase h
      cases h

/-! ## Runs whose requests come after the flag -/

def SetUp (w : Wizard) : Prop :=
  ∀ app ∈ site.apps, app.isEssential → w.needsSetup app = false

def Sees (w : Wizard) : Phase → Prop
  | .start => True
  | .view => True
  | .collect _ rest found => SetUp site w ∧
      ∀ app ∈ site.apps, app.isEssential → app ∈ rest ∨ ∀ step ∈ app.firstBootSteps, step ∈ found
  | .pending _ steps _ => SetUp site w ∧ Whole site steps
  | _ => SetUp site w

def Progress (w : Wizard) : SetupPhase → Prop
  | .apps true rest | .signal true rest =>
    ∀ app ∈ site.apps, app.isEssential → app ∈ rest ∨ w.needsSetup app = false
  | .finish => SetUp site w
  | _ => True

/-- No request comes in before the setup thread has set `is_first_setup_running`, as long as an
essential app needs setup. -/
def AfterFlag (s : System) (event : Event) : Prop :=
  ∀ i request, event = .arrive i request → s.isFirstSetupRunning ∨ SetUp site s.toWizard

theorem Sees.mono {w w' : Wizard} {phase : Phase} (sees : Sees site w phase)
    (more : ∀ app ∈ site.apps, w.needsSetup app = false → w'.needsSetup app = false) :
    Sees site w' phase := by
  have setUp (h : SetUp site w) : SetUp site w' :=
    fun app member essential => more app member (h app member essential)
  cases phase with
  | start => trivial
  | view => trivial
  | collect use rest found => exact ⟨setUp sees.1, sees.2⟩
  | pending use steps rest => exact ⟨setUp sees.1, sees.2⟩
  | _ => exact setUp sees

theorem advance_setupVersion (w : Wizard) (request : Request) (phase : Phase) :
    (advance site w request phase).1.setupVersion = w.setupVersion ∧
      (advance site w request phase).1.isFirstSetupRunning = w.isFirstSetupRunning := by
  cases phase with
  | collect use apps found => cases apps <;> exact ⟨rfl, rfl⟩
  | pending use steps rest => cases rest <;> exact ⟨rfl, rfl⟩
  | _ => exact ⟨rfl, rfl⟩

theorem whole_sortSteps {steps : List Step} (whole : Whole site steps) :
    Whole site (sortSteps steps) :=
  fun step declared => mem_sortSteps.mpr (whole step declared)

theorem sees_useSteps {w : Wizard} {request : Request} {steps : List Step} {use : Use}
    {next : Phase} (setUp : SetUp site w) (whole : Whole site steps)
    (continues : useSteps site request steps use = some next) : Sees site w next := by
  cases use with
  | url completed =>
    simp only [useSteps] at continues
    split at continues
    · cases continues
    · split at continues
      · cases continues
        exact setUp
      · split at continues <;> cases continues
        trivial
  | redirect | mark | next =>
    cases continues
    exact ⟨setUp, whole⟩

theorem sees_afterPending {w : Wizard} {isCompleted : Bool} {use : Use} {next : Phase}
    (setUp : SetUp site w) (continues : afterPending isCompleted use = some next) :
    Sees site w next := by
  cases use with
  | redirect => cases isCompleted <;> cases continues; trivial
  | mark => cases continues; exact setUp
  | _ => cases continues

theorem sees_advance {w : Wizard} {request : Request} {phase next : Phase}
    (blocked : w.isFirstSetupRunning ∨ SetUp site w)
    (cached : ∀ steps, w.allSteps = some steps → Whole site steps) (sees : Sees site w phase)
    (continues : (advance site w request phase).2 = some next) : Sees site w next := by
  cases phase with
  | start =>
    simp only [advance] at continues
    split at continues
    · cases continues
      trivial
    · rename_i free
      cases continues
      exact blocked.resolve_left fun running => free (.inr running)
  | isCompleted =>
    simp only [advance] at continues
    split at continues <;> cases continues <;> exact sees
  | readCompleted => cases continues; exact sees
  | storeCompleted completed => cases continues; exact sees
  | returnCompleted => cases continues; exact sees
  | getSteps use =>
    simp only [advance] at continues
    split at continues
    · cases continues
      exact ⟨sees, fun app member _ => .inl member⟩
    · cases continues
      exact sees
  | collect use apps found =>
    cases apps with
    | nil => cases continues; exact sees.1
    | cons app apps =>
      cases continues
      refine ⟨sees.1, ?_⟩
      intro other member essential
      rcases sees.2 other member essential with h | h
      · rcases List.mem_cons.mp h with rfl | h
        · right
          intro step declared
          rw [sees.1 other member essential]
          exact List.mem_append_right _ declared
        · exact .inl h
      · right
        intro step declared
        split
        · exact h step declared
        · exact List.mem_append_left _ (h step declared)
  | returnSteps use =>
    obtain ⟨steps, held, continues⟩ := Option.bind_eq_some_iff.mp continues
    exact sees_useSteps site sees (cached steps held) continues
  | pending use steps rest =>
    cases rest with
    | nil => cases use <;> cases continues <;> exact sees.1
    | cons step rest =>
      simp only [advance] at continues
      split at continues
      · cases continues
        exact sees
      · exact sees_afterPending site sees.1 continues
  | complete use => cases continues; exact sees
  | record use => exact sees_afterPending site sees continues
  | view =>
    simp only [advance] at continues
    split at continues
    · rename_i shown
      obtain ⟨id, _, rfl⟩ := Option.map_eq_some_iff.mp continues
      simp only [processView, Bool.and_eq_true, Bool.not_eq_true'] at shown
      exact blocked.resolve_left (by simp [shown.1.2])
    · cases continues
  | markDone id => cases continues; exact sees

theorem cached_advance {w : Wizard} {request : Request} {phase : Phase}
    (cached : ∀ steps, w.allSteps = some steps → Whole site steps) (sees : Sees site w phase) :
    ∀ steps, (advance site w request phase).1.allSteps = some steps → Whole site steps := by
  cases phase with
  | collect use apps found =>
    cases apps with
    | nil =>
      intro steps h
      cases h
      apply whole_sortSteps
      rintro step ⟨app, member, essential, declared⟩
      rcases sees.2 app member essential with h | h
      · cases h
      · exact h step declared
    | cons app apps => exact cached
  | pending use steps rest => cases rest <;> exact cached
  | _ => exact cached

theorem needsSetup_update {w : Wizard} {app : App} (member : app ∈ site.apps) (other : App)
    (ready : w.needsSetup other = false) :
    Wizard.needsSetup { w with setupVersion := Function.update w.setupVersion app.id app.version }
      other = false := by
  unfold Wizard.needsSetup at ready ⊢
  by_cases same : other.id = app.id
  · have pos := site.version_pos app member
    simp only [same, Function.update_self, decide_eq_false_iff_not]
    omega
  · simpa [Function.update_of_ne same] using ready

theorem needsSetup_updated {w : Wizard} {app : App} (member : app ∈ site.apps) :
    Wizard.needsSetup { w with setupVersion := Function.update w.setupVersion app.id app.version }
      app = false := by
  have pos := site.version_pos app member
  simp only [Wizard.needsSetup, Function.update_self, decide_eq_false_iff_not]
  omega

def Known : SetupPhase → Prop
  | .apps _ rest | .signal _ rest => ∀ app ∈ rest, app ∈ site.apps
  | _ => True

theorem known_advanceSetup (w : Wizard) (succeeds : Bool) {phase : SetupPhase}
    (known : Known site phase) : Known site (advanceSetup site w succeeds phase).2 := by
  have essential : ∀ app ∈ essentialApps site, app ∈ site.apps :=
    fun app member => List.mem_of_mem_filter member
  cases phase with
  | attempt isFirst =>
    cases isFirst with
    | true => exact essential
    | false =>
      simp only [advanceSetup, Known, regularApps]
      split
      · exact essential
      · exact fun app member => List.mem_of_mem_filter member
  | apps isFirst rest =>
    cases rest with
    | nil => cases isFirst <;> trivial
    | cons app rest =>
      have later : ∀ app ∈ rest, app ∈ site.apps :=
        fun app member => known app (List.mem_cons_of_mem _ member)
      simp only [advanceSetup]
      split
      · exact later
      · split
        · exact later
        · trivial
  | signal isFirst rest => exact known
  | sleeping isFirst => cases succeeds <;> trivial
  | _ => trivial

theorem needsSetup_advanceSetup (w : Wizard) (succeeds : Bool) {phase : SetupPhase}
    (known : Known site phase) (other : App) (ready : w.needsSetup other = false) :
    (advanceSetup site w succeeds phase).1.needsSetup other = false := by
  cases phase with
  | attempt isFirst => cases isFirst <;> exact ready
  | apps isFirst rest =>
    cases rest with
    | nil => cases isFirst <;> exact ready
    | cons app rest =>
      simp only [advanceSetup]
      split
      · exact ready
      · split
        · exact needsSetup_update site (known app List.mem_cons_self) other ready
        · exact ready
  | _ => exact ready

theorem progress_advanceSetup (w : Wizard) (succeeds : Bool) {phase : SetupPhase}
    (known : Known site phase) (progress : Progress site w phase) :
    Progress site (advanceSetup site w succeeds phase).1
      (advanceSetup site w succeeds phase).2 := by
  cases phase with
  | attempt isFirst =>
    cases isFirst with
    | true => exact fun app member essential => .inl (List.mem_filter.mpr ⟨member, essential⟩)
    | false => trivial
  | apps isFirst rest =>
    cases rest with
    | nil =>
      cases isFirst with
      | true =>
        intro app member essential
        rcases progress app member essential with h | h
        · cases h
        · exact h
      | false => trivial
    | cons app rest =>
      cases isFirst with
      | false =>
        simp only [advanceSetup]
        split
        · trivial
        · split <;> trivial
      | true =>
        have member : app ∈ site.apps := known app List.mem_cons_self
        have pos := site.version_pos app member
        simp only [advanceSetup]
        split
        · rename_i current
          intro other there essential
          rcases progress other there essential with h | h
          · rcases List.mem_cons.mp h with rfl | h
            · right
              simp only [Wizard.needsSetup, decide_eq_false_iff_not]
              omega
            · exact .inl h
          · exact .inr h
        · split
          · intro other there essential
            rcases progress other there essential with h | h
            · rcases List.mem_cons.mp h with rfl | h
              · exact .inr (needsSetup_updated site member)
              · exact .inl h
            · exact .inr (needsSetup_update site member other h)
          · trivial
  | signal isFirst rest => cases isFirst <;> exact progress
  | sleeping isFirst => cases succeeds <;> trivial
  | _ => trivial

theorem blocked_advanceSetup {w : Wizard} (succeeds : Bool) {phase : SetupPhase}
    (known : Known site phase) (progress : Progress site w phase)
    (blocked : w.isFirstSetupRunning ∨ SetUp site w) :
    (advanceSetup site w succeeds phase).1.isFirstSetupRunning ∨
      SetUp site (advanceSetup site w succeeds phase).1 := by
  have ready (setUp : SetUp site w) : SetUp site (advanceSetup site w succeeds phase).1 :=
    fun app member essential =>
      needsSetup_advanceSetup site w succeeds known app (setUp app member essential)
  rcases blocked with running | setUp
  · cases phase with
    | finish => exact .inr (ready progress)
    | attempt isFirst =>
      cases isFirst with
      | true => exact .inl rfl
      | false => exact .inl running
    | apps isFirst rest =>
      left
      cases rest with
      | nil => cases isFirst <;> exact running
      | cons app rest =>
        simp only [advanceSetup]
        split
        · exact running
        · split <;> exact running
    | _ => exact .inl running
  · exact .inr (ready setUp)

theorem cached_advanceSetup {w : Wizard} (succeeds : Bool) {phase : SetupPhase}
    (cached : ∀ steps, w.allSteps = some steps → Whole site steps) :
    ∀ steps, (advanceSetup site w succeeds phase).1.allSteps = some steps → Whole site steps := by
  cases phase with
  | attempt isFirst => cases isFirst <;> exact cached
  | apps isFirst rest =>
    cases rest with
    | nil => cases isFirst <;> exact cached
    | cons app rest =>
      simp only [advanceSetup]
      split
      · exact cached
      · split <;> exact cached
  | signal isFirst rest =>
    intro steps h
    cases h
  | _ => exact cached

structure Guarded (s : System) : Prop where
  blocked : (s.isFirstSetupRunning ∨ SetUp site s.toWizard) ∨ ∀ i, s.requests i = none
  cached : ∀ steps, s.allSteps = some steps → Whole site steps
  sees : ∀ i request phase, s.requests i = some (request, phase) → Sees site s.toWizard phase
  known : Known site s.setup
  progress : Progress site s.toWizard s.setup

theorem Progress.mono {w w' : Wizard} {phase : SetupPhase} (progress : Progress site w phase)
    (more : ∀ app ∈ site.apps, w.needsSetup app = false → w'.needsSetup app = false) :
    Progress site w' phase := by
  cases phase with
  | apps isFirst rest | signal isFirst rest =>
    cases isFirst with
    | true =>
      exact fun app member essential => (progress app member essential).imp_right (more app member)
    | false => trivial
  | finish => exact fun app member essential => more app member (progress app member essential)
  | _ => trivial

theorem Guarded.step {s : System} (guarded : Guarded site s) {event : Event}
    (afterFlag : AfterFlag site s event) : Guarded site (step site s event) := by
  cases event with
  | arrive i request =>
    unfold Startup.step
    dsimp only
    cases free : s.requests i with
    | some busy => exact guarded
    | none =>
      refine ⟨.inl (afterFlag i request rfl), guarded.cached, ?_, guarded.known,
        guarded.progress⟩
      intro j other phase h
      change Function.update s.requests i _ j = some (other, phase) at h
      by_cases same : j = i
      · rw [same, Function.update_self] at h
        cases h
        trivial
      · rw [Function.update_of_ne same] at h
        exact guarded.sees j other phase h
  | advance i =>
    unfold Startup.step
    dsimp only
    cases busy : s.requests i with
    | none => exact guarded
    | some request =>
      obtain ⟨request, phase⟩ := request
      have here := guarded.sees i request phase busy
      have blocked : s.isFirstSetupRunning ∨ SetUp site s.toWizard := by
        apply guarded.blocked.resolve_right
        intro idle
        rw [idle i] at busy
        cases busy
      obtain ⟨versions, running⟩ := advance_setupVersion site s.toWizard request phase
      have same (app : App) (ready : s.needsSetup app = false) :
          (advance site s.toWizard request phase).1.needsSetup app = false := by
        unfold Wizard.needsSetup at ready ⊢
        rw [versions]
        exact ready
      refine ⟨.inl ?_, cached_advance site guarded.cached here, ?_, guarded.known,
        guarded.progress.mono site fun app _ => same app⟩
      · apply blocked.imp
        · intro h
          exact running.trans h
        · exact fun setUp app member essential => same app (setUp app member essential)
      · intro j other next h
        change Function.update s.requests i _ j = some (other, next) at h
        by_cases own : j = i
        · rw [own, Function.update_self] at h
          obtain ⟨phase', continues, pair⟩ := Option.map_eq_some_iff.mp h
          cases pair
          exact (sees_advance site blocked guarded.cached here continues).mono site
            fun app _ => same app
        · rw [Function.update_of_ne own] at h
          exact (guarded.sees j other next h).mono site fun app _ => same app
  | setup succeeds =>
    have ready := needsSetup_advanceSetup site s.toWizard succeeds guarded.known
    refine ⟨?_, cached_advanceSetup site succeeds guarded.cached, ?_,
      known_advanceSetup site s.toWizard succeeds guarded.known,
      progress_advanceSetup site s.toWizard succeeds guarded.known guarded.progress⟩
    · exact guarded.blocked.imp_left
        (blocked_advanceSetup site succeeds guarded.known guarded.progress)
    · intro i request phase h
      exact (guarded.sees i request phase h).mono site fun app _ => ready app
  | install id =>
    unfold Startup.step
    dsimp only
    cases found : site.app? id with
    | none => exact guarded
    | some app =>
      have member : app ∈ site.apps := List.mem_of_find?_eq_some found
      have ready := needsSetup_update (w := s.toWizard) site member
      refine ⟨?_, guarded.cached, ?_, guarded.known, guarded.progress.mono site fun app _ => ready app⟩
      · apply guarded.blocked.imp_left
        exact Or.imp_right fun setUp other there essential => ready other (setUp other there essential)
      · intro i request phase h
        exact (guarded.sees i request phase h).mono site fun app _ => ready app
  | postSetup =>
    refine ⟨guarded.blocked, ?_, guarded.sees, guarded.known, guarded.progress⟩
    intro steps h
    cases h
  | restart =>
    refine ⟨.inr fun _ => rfl, ?_, ?_, trivial, trivial⟩
    · intro steps h
      cases h
    · intro i request phase h
      cases h

theorem Guarded.timely {s : System} (guarded : Guarded site s) (event : Event) :
    Timely site s event := by
  rintro i request phase rfl busy use steps rfl _
  exact (guarded.sees i request _ busy).2

/-! ## The result -/

structure Starting (s : System) : Prop where
  inTime : s.firstbootCompleted → AllDone site s.toWizard
  allSteps : s.allSteps = none
  isCompleted : s.isCompleted = none
  setup : s.setup = .waiting
  idle : ∀ i, s.requests i = none

theorem Starting.sound {s : System} (starting : Starting site s) : Sound site s := by
  refine ⟨?_, ?_⟩
  · rintro (h | h)
    · exact starting.inTime h
    · rw [starting.isCompleted] at h
      cases h
  · intro i request phase h
    rw [starting.idle] at h
    cases h

theorem Starting.guarded {s : System} (starting : Starting site s) : Guarded site s := by
  refine ⟨.inr starting.idle, ?_, ?_, ?_, ?_⟩
  · intro steps h
    rw [starting.allSteps] at h
    cases h
  · intro i request phase h
    rw [starting.idle] at h
    cases h
  · rw [starting.setup]
    trivial
  · rw [starting.setup]
    trivial

theorem timely_of_afterFlag {s : System} (guarded : Guarded site s) (events : List Event)
    (afterFlag : Runs.Throughout (step site) (AfterFlag site) s events) :
    Runs.Throughout (step site) (Timely site) s events := by
  induction events generalizing s with
  | nil => trivial
  | cons event events ih =>
    exact ⟨guarded.timely site event, ih (guarded.step site afterFlag.1) afterFlag.2⟩

theorem completed_in_time (s : System) (starting : Starting site s) (events : List Event) :
    (Runs.Throughout (step site) (Timely site) s events →
      InTime site (Runs.run (step site) s events).toWizard) ∧
    (Runs.Throughout (step site) (AfterFlag site) s events →
      Runs.Throughout (step site) (Timely site) s events) := by
  constructor
  · intro timely
    have sound := Runs.invariant_run_of_throughout (Sound site)
      (fun _ _ sound timely => sound.step site timely) s events (starting.sound site) timely
    exact sound.inTime
  · exact timely_of_afterFlag site (starting.guarded site) events

/-! ### A request that comes first -/

def newBox : System where
  setupVersion _ := 0
  done _ := false
  firstbootCompleted := false
  allSteps := none
  isCompleted := none
  isFirstSetupRunning := false
  requests _ := none
  setup := .waiting

theorem starting_newBox : Starting smallSite newBox := by
  constructor
  · intro h
    cases h
  all_goals first | rfl | exact fun _ => rfl

def homePage : Request :=
  ⟨"/freedombox/".toList, false, false, none, none⟩

def earlyRequest : List Event :=
  .arrive 0 homePage :: List.replicate 16 (.advance 0)

theorem completed_before_setup :
    Starting smallSite newBox ∧
      ¬ ∀ events, InTime smallSite (Runs.run (step smallSite) newBox events).toWizard := by
  refine ⟨starting_newBox, ?_⟩
  intro inTime
  have completed : (Runs.run (step smallSite) newBox earlyRequest).firstbootCompleted = true := by
    decide +kernel
  have pending : (Runs.run (step smallSite) newBox earlyRequest).done "users_firstboot" = false := by
    decide +kernel
  have third : (⟨"users", true, 1, [usersFirstboot]⟩ : App) ∈ smallSite.apps :=
    List.mem_cons_of_mem _ (List.mem_cons_of_mem _ List.mem_cons_self)
  have declared : Declared smallSite usersFirstboot := ⟨_, third, rfl, List.mem_cons_self⟩
  have done := inTime earlyRequest (.inl completed) usersFirstboot declared
  exact absurd (pending.symm.trans done) Bool.false_ne_true

def lateRequest : List Event :=
  [.setup true, .setup true, .arrive 0 homePage, .advance 0, .advance 0]

theorem completed_in_time_late :
    Starting smallSite newBox ∧ Runs.Throughout (step smallSite) (AfterFlag smallSite) newBox lateRequest ∧
      Runs.Throughout (step smallSite) (Timely smallSite) newBox lateRequest ∧
      InTime smallSite (Runs.run (step smallSite) newBox lateRequest).toWizard := by
  have afterFlag : Runs.Throughout (step smallSite) (AfterFlag smallSite) newBox lateRequest := by
    refine ⟨?_, ?_, ?_, ?_, ?_, trivial⟩
    · rintro i request h
      cases h
    · rintro i request h
      cases h
    · intro _ _ _
      left
      decide +kernel
    · rintro i request h
      cases h
    · rintro i request h
      cases h
  have timely := (completed_in_time smallSite newBox starting_newBox lateRequest).2 afterFlag
  exact ⟨starting_newBox, afterFlag, timely,
    (completed_in_time smallSite newBox starting_newBox lateRequest).1 timely⟩

end Plinth.FirstBoot.Startup
