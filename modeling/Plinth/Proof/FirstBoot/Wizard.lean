import Plinth.Model.FirstBoot.Wizard

/-!
# Who is made an administrator by the first boot wizard

No request of a visitor adds an administrator once the step for the first account is done, exactly
if the wizard is completed by then or the form for the account does not come.
-/

namespace Plinth.FirstBoot

open Python.Text Stateful

variable (site : Site)

/-! ## The steps -/

def Wizard.steps (w : Wizard) : List Step :=
  w.allSteps.getD (sortSteps (w.availableSteps site.apps))

def Wizard.completed (w : Wizard) : Bool :=
  w.isCompleted.getD w.firstbootCompleted

def Wizard.requestsFirstboot (w : Wizard) (path : List Char) : Bool :=
  (w.steps site).any fun step => startswith path (site.reverse step.url)

def Wizard.Fresh (w : Wizard) : Prop :=
  ∀ steps, w.allSteps = some steps → steps = sortSteps (w.availableSteps site.apps)

theorem mem_sortSteps {steps : List Step} {step : Step} : step ∈ sortSteps steps ↔ step ∈ steps :=
  List.mem_insertionSort _

theorem Wizard.Fresh.mem_steps_iff {w : Wizard} (fresh : w.Fresh site) (step : Step) :
    step ∈ w.steps site ↔ step ∈ w.availableSteps site.apps := by
  have same : w.steps site = sortSteps (w.availableSteps site.apps) := by
    cases cached : w.allSteps with
    | none => simp [steps, cached]
    | some steps => simpa [Wizard.steps, cached] using fresh steps cached
  rw [same]
  exact mem_sortSteps

theorem Wizard.mem_availableSteps_iff {w : Wizard} {apps : List App} {step : Step} :
    step ∈ w.availableSteps apps ↔
      ∃ app ∈ apps, w.setupVersion app.id ≠ 0 ∧ step ∈ app.firstBootSteps := by
  simp [availableSteps, needsSetup]

@[simp] theorem getSteps_fst (s : State) : (getSteps site s).1 = s.steps site := by
  rw [getSteps, run_get_bind]
  cases cached : s.allSteps with
  | none => simp [Wizard.steps, cached]; rfl
  | some steps => simp [Wizard.steps, cached]; rfl

/-! ## What a request leaves alone -/

structure Kept (s s' : State) : Prop where
  users : s'.users = s.users
  admins : s'.admins = s.admins
  sessions : s'.sessions = s.sessions
  secret : s'.secret = s.secret
  setupVersion : s'.setupVersion = s.setupVersion
  isFirstSetupRunning : s'.isFirstSetupRunning = s.isFirstSetupRunning
  fresh : s.Fresh site → s'.Fresh site

instance : Std.Refl (Kept site) where
  refl _ := ⟨rfl, rfl, rfl, rfl, rfl, rfl, id⟩

instance : IsTrans State (Kept site) where
  trans _ _ _ first second :=
    ⟨second.users.trans first.users, second.admins.trans first.admins,
      second.sessions.trans first.sessions, second.secret.trans first.secret,
      second.setupVersion.trans first.setupVersion,
      second.isFirstSetupRunning.trans first.isFirstSetupRunning, second.fresh ∘ first.fresh⟩

theorem moves_getSteps : Moves (Kept site) (getSteps site) := by
  apply moves_get_bind
  intro s
  cases cached : s.allSteps with
  | some steps => exact ⟨rfl, rfl, rfl, rfl, rfl, rfl, id⟩
  | none =>
    refine ⟨rfl, rfl, rfl, rfl, rfl, rfl, ?_⟩
    rintro _ steps h
    cases h
    rfl

theorem moves_isFirstbootUrl (path : List Char) : Moves (Kept site) (isFirstbootUrl site path) :=
  (moves_getSteps site).bind fun _ => moves_pure _

theorem moves_nextStepOrNone : Moves (Kept site) (nextStepOrNone site) :=
  (moves_getSteps site).bind fun _ => moves_get.bind fun _ => moves_pure _

theorem moves_setCompleted : Moves (Kept site) setCompleted :=
  fun _ => ⟨rfl, rfl, rfl, rfl, rfl, rfl, id⟩

theorem moves_markStepDone (id : String) : Moves (Kept site) (markStepDone site id) := by
  apply Moves.bind
  · exact fun _ => ⟨rfl, rfl, rfl, rfl, rfl, rfl, fun fresh => fresh⟩
  · intro _
    apply (moves_nextStepOrNone site).bind
    intro next
    cases next with
    | none => exact moves_setCompleted site
    | some next => exact moves_pure _

theorem moves_isCompleted : Moves (Kept site) isCompleted := by
  apply moves_get_bind
  intro s
  cases s.isCompleted with
  | some completed => exact ⟨rfl, rfl, rfl, rfl, rfl, rfl, id⟩
  | none => exact ⟨rfl, rfl, rfl, rfl, rfl, rfl, id⟩

theorem isCompleted_fst (s : State) : (isCompleted s).1 = s.completed := by
  rw [isCompleted, run_get_bind]
  cases cached : s.isCompleted with
  | none => simp [Wizard.completed, cached]; rfl
  | some completed => simp [Wizard.completed, cached]; rfl

theorem isCompleted_snd (s : State) :
    (isCompleted s).2 = { s with isCompleted := some s.completed } := by
  rw [isCompleted, run_get_bind]
  cases cached : s.isCompleted with
  | none => simp [Wizard.completed, cached]; rfl
  | some completed =>
    have same : s.completed = completed := by simp [Wizard.completed, cached]
    show s = { s with isCompleted := some s.completed }
    rw [same, ← cached]

theorem isFirstbootUrl_fst (path : List Char) (s : State) :
    (isFirstbootUrl site path s).1 = s.requestsFirstboot site path := by
  rw [isFirstbootUrl, run_bind, getSteps_fst]
  rfl

theorem moves_processRequest (request : Request) : Moves (Kept site) (processRequest site request) := by
  apply moves_get_bind
  intro s
  split
  · exact moves_pure _ s
  · split
    · exact moves_pure _ s
    · apply (moves_isCompleted site).bind
      intro completed
      apply (moves_isFirstbootUrl site _).bind
      intro requests
      split
      · exact moves_pure _
      · split
        · apply (moves_nextStepOrNone site).bind
          intro next
          cases next with
          | none => exact (moves_setCompleted site).bind fun _ => moves_pure _
          | some next => exact moves_pure _
        · split <;> exact moves_pure _

theorem moves_dispatch (request : Request) : Moves (Kept site) (dispatch site request) := by
  apply (moves_processRequest site request).bind
  intro redirect
  cases redirect with
  | some name => exact moves_pure _
  | none =>
    apply moves_get_bind (R := Kept site)
    intro s
    cases site.resolve request.path with
    | none => exact moves_pure _ s
    | some page => exact moves_pure _ s

theorem passes_of_exempt {request : Request} (exempt : isExempt site request.path) (s : State) :
    (processRequest site request s).1 = none := by
  show ((if _ then _ else _ : Web (Option String)) s).1 = none
  rw [if_pos exempt]
  rfl

theorem passes_firstboot_iff {request : Request} {s : State}
    (exempt : ¬ isExempt site request.path) (running : s.isFirstSetupRunning = false)
    (requests : s.requestsFirstboot site request.path) :
    (processRequest site request s).1 = none ↔
      (startswith request.path (site.reverse "first_boot:welcome") ∨ s.secret = none ∨
        (s.sessions request.session).secretProvided ∨ s.isUserAdmin request.session) ∧
      s.completed = false := by
  have later : (isFirstbootUrl site request.path (isCompleted s).2).1 = true := by
    rw [isFirstbootUrl_fst, isCompleted_snd]
    exact requests
  show ((if _ then _ else if _ then _ else _ : Web (Option String)) s).1 = none ↔ _
  rw [if_neg exempt, if_neg (by simp [running]), run_bind, run_bind, isCompleted_fst, later]
  constructor
  · intro passes
    split at passes
    · cases passes
    · rename_i accepted
      split at passes
      · rename_i other
        exact absurd rfl other.2
      · split at passes
        · cases passes
        · rename_i incomplete
          constructor
          · by_contra refused
            simp only [not_or] at refused
            obtain ⟨welcome, secret, provided, admin⟩ := refused
            exact accepted ⟨rfl, welcome, Option.isSome_iff_ne_none.mpr secret, provided, admin⟩
          · simpa using incomplete
  · rintro ⟨accepted, completed⟩
    rw [if_neg, if_neg, if_neg]
    · rfl
    · simp [completed]
    · simp
    · rintro ⟨_, welcome, secret, provided, admin⟩
      rcases accepted with h | h | h | h
      · exact welcome h
      · simp [h] at secret
      · exact provided h
      · exact admin h

/-! ## The views -/

theorem reverse_inj {name name' : String} :
    site.reverse name = site.reverse name' ↔ site.path name = site.path name' :=
  List.append_right_inj _

theorem startswith_reverse (name name' : String) :
    startswith (site.reverse name) (site.reverse name') =
      startswith (site.path name) (site.path name') := by
  rw [startswith, startswith, Bool.eq_iff_iff, List.isPrefixOf_iff_prefix, List.isPrefixOf_iff_prefix]
  exact List.prefix_append_right_inj _

theorem resolve_usersFirstboot :
    site.resolve (site.reverse "users:firstboot") =
      some ⟨.usersFirstboot, "users", true, false⟩ := by
  have welcome : ¬ (site.reverse "users:firstboot" = site.reverse "first_boot:index" ∨
      site.reverse "users:firstboot" = site.reverse "first_boot:welcome") := by
    rw [reverse_inj, reverse_inj]
    show ¬ ("users/firstboot/".toList = "firstboot/".toList ∨
      "users/firstboot/".toList = "firstboot/welcome/".toList)
    decide
  have complete : ¬ site.reverse "users:firstboot" = site.reverse "first_boot:complete" := by
    rw [reverse_inj]
    show ¬ "users/firstboot/".toList = "firstboot/complete/".toList
    decide
  rw [Site.resolve, if_neg welcome, if_neg complete, if_pos rfl]

theorem view_of_resolve {path : List Char} {page : Page} (resolved : site.resolve path = some page) :
    page.view ∈ [.welcome, .complete, .login, .logout] ∨
      page.view = .usersFirstboot ∧ path = site.reverse "users:firstboot" ∨
      site.otherPage path = some page := by
  unfold Site.resolve at resolved
  split at resolved
  · cases resolved
    simp
  · split at resolved
    · cases resolved
      simp
    · split at resolved
      · cases resolved
        simp_all
      · split at resolved
        · cases resolved
          simp
        · split at resolved
          · cases resolved
            simp
          · exact .inr (.inr resolved)

theorem path_of_usersFirstboot {path : List Char} {page : Page}
    (resolved : site.resolve path = some page) (view : page.view = .usersFirstboot) :
    path = site.reverse "users:firstboot" := by
  rcases view_of_resolve site resolved with known | ⟨_, here⟩ | other
  · simp [view] at known
  · exact here
  · rcases site.others path page other with h | ⟨h, _⟩ | ⟨slug, h⟩ <;> simp [view] at h

theorem not_exempt_usersFirstboot : ¬ isExempt site (site.reverse "users:firstboot") := by
  simp only [isExempt, startswith_reverse]
  show ¬ (startswith "users/firstboot/".toList "accounts/login/".toList ||
    startswith "users/firstboot/".toList "help/".toList ||
    startswith "users/firstboot/".toList "status/".toList)
  decide

theorem not_welcome_usersFirstboot :
    ¬ startswith (site.reverse "users:firstboot") (site.reverse "first_boot:welcome") := by
  rw [startswith_reverse]
  show ¬ startswith "users/firstboot/".toList "firstboot/welcome/".toList
  decide

theorem Kept.isUserAdmin {s s' : State} (kept : Kept site s s') (session : Nat) :
    s'.isUserAdmin session = s.isUserAdmin session := by
  rw [State.isUserAdmin, State.isUserAdmin, kept.sessions, kept.admins]

theorem Kept.processView {s s' : State} (kept : Kept site s s') (request : Request) (page : Page) :
    processView site s' request page = processView site s request page := by
  unfold FirstBoot.processView
  rw [kept.isUserAdmin, kept.sessions, kept.isFirstSetupRunning]
  have same : s'.isUpToDate = s.isUpToDate := by
    funext app
    simp only [Wizard.isUpToDate, kept.setupVersion]
  rw [same]

theorem dispatch_iff {s : State} {request : Request} {view : View} :
    (dispatch site request s).1 = some view ↔
      (processRequest site request s).1 = none ∧
        ∃ page, site.resolve request.path = some page ∧ processView site s request page ∧
          page.view = view := by
  have kept := moves_processRequest site request s
  unfold dispatch
  rw [run_bind]
  cases redirect : (processRequest site request s).1 with
  | some name =>
    constructor
    · intro h
      cases h
    · rintro ⟨h, _⟩
      cases h
  | none =>
    change (((get : Web State) >>= _) (processRequest site request s).2).1 = _ ↔ _
    rw [run_get_bind]
    cases resolved : site.resolve request.path with
    | none =>
      constructor
      · intro h
        cases h
      · rintro ⟨_, page, h, _⟩
        cases h
    | some page =>
      show (if processView site (processRequest site request s).2 request page then
        some page.view else none) = some view ↔ _
      rw [kept.processView]
      constructor
      · intro h
        split at h
        · rename_i shown
          exact ⟨rfl, page, rfl, shown, Option.some.inj h⟩
        · cases h
      · rintro ⟨_, other, h, shown, rfl⟩
        cases h
        exact if_pos shown

/-! ## Administrators -/

def SameAdmins (s s' : State) : Prop :=
  s'.admins = s.admins

instance : Std.Refl SameAdmins where
  refl _ := rfl

instance : IsTrans State SameAdmins where
  trans _ _ _ first second := second.trans first

theorem moves_setSession (session : Nat) (change : Session → Session) :
    Moves SameAdmins (setSession session change) :=
  fun _ => rfl

theorem same_markStepDone (id : String) : Moves SameAdmins (markStepDone site id) :=
  (moves_markStepDone site id).mono fun _ _ kept => kept.admins

theorem same_welcome (request : Request) : Moves SameAdmins (runView site request .welcome) := by
  apply moves_get_bind
  intro s
  cases request.body with
  | secret text =>
    dsimp only
    split
    · exact ((moves_setSession _ _).bind fun _ => same_markStepDone site _) s
    · rfl
  | _ => exact rfl

theorem same_login (request : Request) : Moves SameAdmins (runView site request .login) := by
  apply moves_get_bind
  intro s
  cases request.body with
  | login username =>
    dsimp only
    split
    · exact moves_setSession _ _ s
    · rfl
  | _ => exact rfl

theorem same_other (request : Request) : Moves SameAdmins (runView site request .other) := by
  unfold runView
  cases request.body with
  | other steps => exact moves_forM (same_markStepDone site) steps
  | _ => exact moves_pure _

theorem admins_saveAccount (session : Nat) (username : String) (isAuthenticated : Bool) (s : State) :
    (saveAccount site session username isAuthenticated s).2.admins =
      setAdmin username true s.admins := by
  have marked := same_markStepDone site "users_firstboot" { s with users := username :: s.users }
  cases isAuthenticated with
  | true => exact congrArg (setAdmin username true) marked
  | false => exact congrArg (setAdmin username true) marked

def Request.HasAccount (request : Request) (s : State) (username : String) : Prop :=
  (∃ isAuthenticated, request.body = .account username true isAuthenticated) ∧ username ∉ s.users

theorem admins_usersFirstboot (request : Request) (s : State) :
    (runView site request .usersFirstboot s).2.admins = s.admins ∧
        (∀ username, ¬ request.HasAccount s username) ∨
      ∃ username, request.HasAccount s username ∧
        (runView site request .usersFirstboot s).2.admins = setAdmin username true s.admins := by
  unfold runView Request.HasAccount
  dsimp only
  rw [run_bind, run_get]
  cases request.body with
  | account username isValid isAuthenticated =>
    by_cases accepted : isValid ∧ username ∉ s.users
    · right
      obtain ⟨valid, free⟩ := accepted
      refine ⟨username, ⟨⟨isAuthenticated, by rw [valid]⟩, free⟩, ?_⟩
      show ((if _ then _ else _ : Web Unit) s).2.admins = _
      rw [if_pos ⟨valid, free⟩]
      exact admins_saveAccount site _ _ _ s
    · left
      constructor
      · show ((if _ then _ else _ : Web Unit) s).2.admins = _
        rw [if_neg accepted]
        rfl
      · rintro _ ⟨⟨_, sent⟩, free⟩
        cases sent
        exact accepted ⟨rfl, free⟩
  | skip => exact .inl ⟨same_markStepDone site _ s, fun _ ⟨⟨_, sent⟩, _⟩ => by cases sent⟩
  | _ => exact .inl ⟨rfl, fun _ ⟨⟨_, sent⟩, _⟩ => by cases sent⟩

theorem admins_userUpdate {request : Request} {slug : String} {s : State}
    (visitor : s.isUserAdmin request.session = false) :
    (runView site request (.userUpdate slug) s).2.admins = s.admins := by
  unfold runView
  dsimp only
  rw [run_bind, run_get]
  cases request.body with
  | update username isAdmin isDeleted =>
    show ((if _ then if _ then _ else if _ then _ else _ else _ : Web Unit) s).2.admins = _
    split
    · rw [if_neg (by simp [visitor])]
      split
      · rename_i own
        have other : slug ∉ s.admins := by
          rw [State.isUserAdmin, own] at visitor
          simpa using visitor
        show s.admins.map _ = _
        nth_rewrite 2 [← List.map_id s.admins]
        apply List.map_congr_left
        intro user member
        apply if_neg
        rintro rfl
        exact other member
      · rfl
    · rfl
  | _ => rfl

theorem not_shown_userCreate {s : State} {request : Request} {page : Page}
    (resolved : site.resolve request.path = some page) (view : page.view = .userCreate)
    (visitor : s.isUserAdmin request.session = false) : ¬ processView site s request page := by
  have restricted : page.isPublic = false ∧ page.isNonAdmin = false := by
    rcases view_of_resolve site resolved with known | ⟨h, _⟩ | other
    · simp [view] at known
    · simp [view] at h
    · rcases site.others _ page other with h | ⟨_, restricted⟩ | ⟨slug, h⟩
      · simp [view] at h
      · exact restricted
      · simp [view] at h
  simp [processView, visitor, restricted]

theorem admins_of_visitor {s : State} {request : Request}
    (visitor : s.isUserAdmin request.session = false) :
    (step site s (.request request)).admins = s.admins ∧
        ((dispatch site request s).1 = some .usersFirstboot →
          ∀ username, ¬ request.HasAccount s username) ∨
      (dispatch site request s).1 = some .usersFirstboot ∧
        ∃ username, request.HasAccount s username ∧
          (step site s (.request request)).admins = setAdmin username true s.admins := by
  have kept := moves_dispatch site request s
  have visitor' := (kept.isUserAdmin site request.session).trans visitor
  have other {view : View} (called : (dispatch site request s).1 = some view)
      (differs : view ≠ .usersFirstboot)
      (same : (runView site request view (dispatch site request s).2).2.admins =
        (dispatch site request s).2.admins) :
      (step site s (.request request)).admins = s.admins ∧
        ((dispatch site request s).1 = some .usersFirstboot →
          ∀ username, ¬ request.HasAccount s username) := by
    constructor
    · rw [step, handle, run_bind, called]
      exact same.trans kept.admins
    · intro h
      rw [called] at h
      exact absurd (Option.some.inj h) differs
  cases called : (dispatch site request s).1 with
  | none =>
    left
    constructor
    · rw [step, handle, run_bind, called]
      exact kept.admins
    · intro h
      cases h
  | some view =>
    cases view with
    | usersFirstboot =>
      have handled : (step site s (.request request)) =
          (runView site request .usersFirstboot (dispatch site request s).2).2 := by
        rw [step, handle, run_bind, called]
      rw [handled]
      have sent (username : String) : request.HasAccount (dispatch site request s).2 username ↔
          request.HasAccount s username := by
        rw [Request.HasAccount, kept.users]
        rfl
      rcases admins_usersFirstboot site request (dispatch site request s).2 with
        ⟨same, none⟩ | ⟨username, account, more⟩
      · exact .inl ⟨same.trans kept.admins, fun _ username => (sent username).not.mp (none username)⟩
      · exact .inr ⟨rfl, username, (sent username).mp account, more.trans (by rw [kept.admins])⟩
    | welcome => exact .inl (called ▸ other called (by simp) (same_welcome site request _))
    | login => exact .inl (called ▸ other called (by simp) (same_login site request _))
    | other => exact .inl (called ▸ other called (by simp) (same_other site request _))
    | logout => exact .inl (called ▸ other called (by simp) rfl)
    | complete => exact .inl (called ▸ other called (by simp) rfl)
    | userUpdate slug =>
      exact .inl (called ▸ other called (by simp) (admins_userUpdate site visitor'))
    | userCreate =>
      obtain ⟨_, page, resolved, shown, view⟩ := (dispatch_iff site).mp called
      have hidden := not_shown_userCreate site resolved view visitor
      exact absurd shown hidden

def OffersAccount (s : State) (session : Nat) : Prop :=
  s.isFirstSetupRunning = false ∧ (∃ app, site.app? "users" = some app ∧ s.isUpToDate app) ∧
    (s.secret = none ∨ (s.sessions session).secretProvided) ∧ s.completed = false

theorem shown_usersFirstboot_iff {s : State} {request : Request}
    (here : request.path = site.reverse "users:firstboot") :
    processView site s request ⟨.usersFirstboot, "users", true, false⟩ ↔
      s.isFirstSetupRunning = false ∧ ∃ app, site.app? "users" = some app ∧ s.isUpToDate app := by
  have login : startswith request.path (site.reverse "users:login") = false := by
    have exempt := not_exempt_usersFirstboot site
    rw [here]
    simp only [isExempt, Bool.or_eq_true, not_or, Bool.not_eq_true] at exempt
    exact exempt.1.1
  unfold processView
  rw [login]
  dsimp only
  cases site.app? "users" <;> simp

theorem requestsFirstboot_of_mem {s : State} {step : Step} (fresh : s.Fresh site)
    (available : step ∈ s.availableSteps site.apps) :
    s.requestsFirstboot site (site.reverse step.url) := by
  rw [Wizard.requestsFirstboot, List.any_eq_true]
  refine ⟨step, (fresh.mem_steps_iff site step).mpr available, ?_⟩
  rw [startswith, List.isPrefixOf_iff_prefix]

theorem usersFirstboot_available {s : State} {app : App} (known : site.app? "users" = some app)
    (upToDate : s.isUpToDate app) : usersFirstboot ∈ s.availableSteps site.apps := by
  have member := List.mem_of_find?_eq_some known
  have id : app.id = "users" := by simpa using List.find?_some known
  rw [Wizard.mem_availableSteps_iff]
  refine ⟨app, member, ?_, site.users_steps app member id⟩
  simp only [Wizard.isUpToDate, decide_eq_true_eq] at upToDate
  exact upToDate.1

theorem dispatch_usersFirstboot_iff {s : State} {request : Request} (fresh : s.Fresh site)
    (visitor : s.isUserAdmin request.session = false) :
    (dispatch site request s).1 = some .usersFirstboot ↔
      request.path = site.reverse "users:firstboot" ∧ OffersAccount site s request.session := by
  rw [dispatch_iff]
  have passes (here : request.path = site.reverse "users:firstboot")
      (shown : s.isFirstSetupRunning = false ∧ ∃ app, site.app? "users" = some app ∧ s.isUpToDate app) :
      (processRequest site request s).1 = none ↔
        (s.secret = none ∨ (s.sessions request.session).secretProvided) ∧ s.completed = false := by
    obtain ⟨running, app, known, upToDate⟩ := shown
    have requests := requestsFirstboot_of_mem site fresh (usersFirstboot_available site known upToDate)
    rw [passes_firstboot_iff site (by rw [here]; exact not_exempt_usersFirstboot site) running
      (by rw [here]; exact requests), here, visitor]
    simp [not_welcome_usersFirstboot site]
  constructor
  · rintro ⟨none, page, resolved, shown, view⟩
    have here := path_of_usersFirstboot site resolved view
    rw [here, resolve_usersFirstboot] at resolved
    cases resolved
    have shown := (shown_usersFirstboot_iff site here).mp shown
    have passed := (passes here shown).mp none
    exact ⟨here, shown.1, shown.2, passed⟩
  · rintro ⟨here, running, upToDate, passed⟩
    have reached := (passes here ⟨running, upToDate⟩).mpr passed
    refine ⟨reached, ⟨.usersFirstboot, "users", true, false⟩, ?_, ?_, rfl⟩
    · rw [here]
      exact resolve_usersFirstboot site
    · exact (shown_usersFirstboot_iff site here).mpr ⟨running, upToDate⟩

def AsksNoSecret (s : State) (path : List Char) : Prop :=
  isExempt site path ∨
    startswith path (site.reverse "first_boot:welcome") ∧ s.completed = false

theorem dispatch_step_iff {s : State} {request : Request} {step : Step} (fresh : s.Fresh site)
    (visitor : s.isUserAdmin request.session = false) (secret : s.secret ≠ none)
    (unknown : (s.sessions request.session).secretProvided = false)
    (available : step ∈ s.availableSteps site.apps) (here : request.path = site.reverse step.url) :
    (dispatch site request s).1 ≠ none ↔
      AsksNoSecret site s request.path ∧
        ∃ page, site.resolve request.path = some page ∧ processView site s request page := by
  have running {page : Page} (shown : processView site s request page) :
      s.isFirstSetupRunning = false := by
    simp only [processView, Bool.and_eq_true, Bool.not_eq_true'] at shown
    exact shown.1.2
  have passes (running : s.isFirstSetupRunning = false) :
      (processRequest site request s).1 = none ↔ AsksNoSecret site s request.path := by
    by_cases exempt : isExempt site request.path
    · simp only [passes_of_exempt site exempt, AsksNoSecret, exempt, true_or]
    · have requests := requestsFirstboot_of_mem site fresh available
      rw [passes_firstboot_iff site exempt running (by rw [here]; exact requests)]
      simp [AsksNoSecret, exempt, visitor, secret, unknown]
  rw [Option.ne_none_iff_exists']
  constructor
  · rintro ⟨view, called⟩
    obtain ⟨none, page, resolved, shown, _⟩ := (dispatch_iff site).mp called
    exact ⟨(passes (running shown)).mp none, page, resolved, shown⟩
  · rintro ⟨asks, page, resolved, shown⟩
    have none := (passes (running shown)).mpr asks
    exact ⟨page.view, (dispatch_iff site).mpr ⟨none, page, resolved, shown, rfl⟩⟩

/-! ## Runs -/

structure Sound (request : Request) (s s' : State) : Prop where
  secret : s'.secret = s.secret
  fresh : s.Fresh site → s'.Fresh site
  known : (∀ user ∈ s.admins, user ∈ s.users) → ∀ user ∈ s'.admins, user ∈ s'.users
  provided : ∀ i, (s'.sessions i).secretProvided → (s.sessions i).secretProvided ∨
    i = request.session ∧ ∃ text, request.body = .secret text ∧
      (s.secret = none ∨ s.secret = some text)

instance (request : Request) : Std.Refl (Sound site request) where
  refl _ := ⟨rfl, id, id, fun _ => .inl⟩

instance (request : Request) : IsTrans State (Sound site request) where
  trans _ _ _ first second := by
    refine ⟨second.secret.trans first.secret, second.fresh ∘ first.fresh,
      second.known ∘ first.known, ?_⟩
    intro i provided
    rcases second.provided i provided with before | now
    · exact first.provided i before
    · rw [first.secret] at now
      exact .inr now

theorem Kept.sound {s s' : State} (kept : Kept site s s') (request : Request) :
    Sound site request s s' := by
  refine ⟨kept.secret, kept.fresh, ?_, ?_⟩
  · rw [kept.admins, kept.users]
    exact id
  · intro i provided
    rw [kept.sessions] at provided
    exact .inl provided

theorem sound_markStepDone (request : Request) (id : String) :
    Moves (Sound site request) (markStepDone site id) :=
  (moves_markStepDone site id).mono fun _ _ kept => kept.sound site request

theorem sound_setSession (request : Request) (change : Session → Session)
    (keeps : ∀ session, (change session).secretProvided → session.secretProvided) :
    Moves (Sound site request) (setSession request.session change) := by
  intro s
  refine ⟨rfl, id, id, ?_⟩
  intro i provided
  left
  change (Function.update s.sessions request.session _ i).secretProvided at provided
  by_cases own : i = request.session
  · subst own
    rw [Function.update_self] at provided
    exact keeps _ provided
  · rwa [Function.update_of_ne own] at provided

theorem login_secretProvided (username : String) (session : Session) :
    (session.login username).secretProvided → session.secretProvided := by
  unfold Session.login
  split
  · exact id
  · split
    · exact id
    · intro h
      cases h

theorem setAdmin_known {users admins : List String} {username : String} (isAdmin : Bool)
    (member : username ∈ users) (known : ∀ user ∈ admins, user ∈ users) :
    ∀ user ∈ setAdmin username isAdmin admins, user ∈ users := by
  intro user h
  unfold setAdmin at h
  split at h
  · split at h
    · exact known user h
    · rcases List.mem_cons.mp h with rfl | h
      · exact member
      · exact known user h
  · exact known user (List.mem_of_mem_filter h)

theorem sound_saveAccount (request : Request) (username : String) (isAuthenticated : Bool) :
    Moves (Sound site request) (saveAccount site request.session username isAuthenticated) := by
  intro s
  let added : State := { s with users := username :: s.users }
  let marked := (markStepDone site "users_firstboot" added).2
  have kept : Kept site added marked := moves_markStepDone site "users_firstboot" added
  have first : Sound site request s added :=
    ⟨rfl, id, fun known user member => List.mem_cons_of_mem _ (known user member), fun _ => .inl⟩
  have third : Sound site request marked
      { marked with admins := setAdmin username true marked.admins } := by
    have member : username ∈ marked.users := by
      rw [kept.users]
      exact List.mem_cons_self
    exact ⟨rfl, id, setAdmin_known true member, fun _ => .inl⟩
  have saved := IsTrans.trans _ _ _ first (IsTrans.trans _ _ _ (kept.sound site request) third)
  cases isAuthenticated with
  | false => exact saved
  | true =>
    have signedIn := sound_setSession site request _ (login_secretProvided username)
      { marked with admins := setAdmin username true marked.admins }
    exact IsTrans.trans _ _ _ saved signedIn

theorem sound_updateUser (request : Request) (s : State) (slug username : String) :
    Sound site request s (s.updateUser slug username) := by
  refine ⟨rfl, id, ?_, fun _ => .inl⟩
  intro known user member
  obtain ⟨old, admin, rfl⟩ := List.mem_map.mp member
  exact List.mem_map_of_mem (known old admin)

theorem sound_deleteUser (request : Request) (s : State) (username : String) :
    Sound site request s (s.deleteUser username) := by
  refine ⟨rfl, id, ?_, ?_⟩
  · intro known user member
    obtain ⟨member, other⟩ := List.mem_filter.mp member
    exact List.mem_filter.mpr ⟨known user member, other⟩
  · intro i provided
    left
    change ((s.sessions i).delete username).secretProvided at provided
    unfold Session.delete at provided
    split at provided <;> exact provided

theorem sound_runView (request : Request) (view : View) :
    Moves (Sound site request) (runView site request view) := by
  cases view with
  | complete => exact moves_pure _
  | logout =>
    apply sound_setSession
    intro _ h
    cases h
  | welcome =>
    apply moves_get_bind
    intro s
    cases sent : request.body with
    | secret text =>
      dsimp only
      split
      · rename_i right
        apply IsTrans.trans _ _ _ _ (sound_markStepDone site request _ _)
        refine ⟨rfl, id, id, ?_⟩
        intro i provided
        change (Function.update s.sessions request.session _ i).secretProvided at provided
        by_cases own : i = request.session
        · exact .inr ⟨own, text, sent, right⟩
        · rw [Function.update_of_ne own] at provided
          exact .inl provided
      · exact Std.Refl.refl s
    | _ => exact Std.Refl.refl s
  | usersFirstboot =>
    apply moves_get_bind
    intro s
    cases request.body with
    | skip => exact sound_markStepDone site request _ s
    | account username isValid isAuthenticated =>
      dsimp only
      split
      · exact sound_saveAccount site request _ _ s
      · exact Std.Refl.refl s
    | _ => exact Std.Refl.refl s
  | login =>
    apply moves_get_bind
    intro s
    cases request.body with
    | login username =>
      dsimp only
      split
      · exact sound_setSession site request _ (login_secretProvided username) s
      · exact Std.Refl.refl s
    | _ => exact Std.Refl.refl s
  | userCreate =>
    apply moves_get_bind
    intro s
    cases request.body with
    | create username isAdmin =>
      dsimp only
      split
      · refine ⟨rfl, id, ?_, fun _ => .inl⟩
        intro known
        apply setAdmin_known isAdmin List.mem_cons_self
        intro user member
        exact List.mem_cons_of_mem _ (known user member)
      · exact Std.Refl.refl s
    | _ => exact Std.Refl.refl s
  | userUpdate slug =>
    apply moves_get_bind
    intro s
    cases request.body with
    | update username isAdmin isDeleted =>
      dsimp only
      split
      · rename_i valid
        split
        · split
          · exact sound_deleteUser site request s slug
          · apply IsTrans.trans _ _ _ (sound_updateUser site request s slug username)
            refine ⟨rfl, id, ?_, fun _ => .inl⟩
            apply setAdmin_known
            have renamed := List.mem_map_of_mem
              (f := fun user => if user = slug then username else user) valid.1
            simpa [State.updateUser] using renamed
        · split
          · exact sound_updateUser site request s slug username
          · exact Std.Refl.refl s
      · exact Std.Refl.refl s
    | _ => exact Std.Refl.refl s
  | other =>
    unfold runView
    cases request.body with
    | other steps => exact moves_forM (sound_markStepDone site request) steps
    | _ => exact moves_pure _

theorem sound_request (request : Request) (s : State) :
    Sound site request s (step site s (.request request)) := by
  have kept := (moves_dispatch site request s).sound site request
  rw [step, handle, run_bind]
  cases (dispatch site request s).1 with
  | none => exact kept
  | some view => exact IsTrans.trans _ _ _ kept (sound_runView site request view _)

def Supplied (events : List Event) (secret : Option (List Char)) (session : Nat) : Prop :=
  ∃ request, Event.request request ∈ events ∧ request.session = session ∧
    ∃ text, request.body = .secret text ∧ secret = some text

structure Initial (s : State) : Prop where
  allSteps : s.allSteps = none
  known : ∀ user ∈ s.admins, user ∈ s.users
  sessions : ∀ i, s.sessions i = ⟨none, false⟩

structure Reached (s₀ : State) (events : List Event) (s : State) : Prop where
  secret : s.secret = s₀.secret
  fresh : s.Fresh site
  known : ∀ user ∈ s.admins, user ∈ s.users
  provided : s₀.secret ≠ none → ∀ i, (s.sessions i).secretProvided → Supplied events s₀.secret i

variable {site}

theorem Initial.reached {s : State} (initial : Initial s) : Reached site s [] s := by
  refine ⟨rfl, ?_, initial.known, ?_⟩
  · intro steps h
    rw [initial.allSteps] at h
    cases h
  · intro _ i h
    rw [initial.sessions] at h
    cases h

theorem Reached.step {s₀ s : State} {events : List Event} (reached : Reached site s₀ events s)
    (event : Event) : Reached site s₀ (events ++ [event]) (step site s event) := by
  have earlier {i : Nat} (supplied : Supplied events s₀.secret i) :
      Supplied (events ++ [event]) s₀.secret i := by
    obtain ⟨request, member, rest⟩ := supplied
    exact ⟨request, List.mem_append_left _ member, rest⟩
  cases event with
  | setup id =>
    have provided := fun hidden i h => earlier (reached.provided hidden i h)
    unfold FirstBoot.step
    dsimp only
    cases site.app? id with
    | none => exact ⟨reached.secret, reached.fresh, reached.known, provided⟩
    | some app =>
      refine ⟨reached.secret, ?_, reached.known, provided⟩
      intro steps h
      cases h
  | firstSetup isRunning =>
    exact ⟨reached.secret, reached.fresh, reached.known, fun hidden i h =>
      earlier (reached.provided hidden i h)⟩
  | request request =>
    have sound := sound_request site request s
    refine ⟨sound.secret.trans reached.secret, sound.fresh reached.fresh,
      sound.known reached.known, ?_⟩
    intro hidden i h
    rcases sound.provided i h with before | ⟨rfl, text, sent, right⟩
    · exact earlier (reached.provided hidden i before)
    · rw [reached.secret] at right
      have here : Event.request request ∈ events ++ [.request request] := by simp
      exact ⟨request, here, rfl, text, sent, right.resolve_left hidden⟩

theorem Reached.run {s₀ s : State} {before : List Event} (reached : Reached site s₀ before s)
    (events : List Event) :
    Reached site s₀ (before ++ events) (Runs.run (FirstBoot.step site) s events) := by
  induction events generalizing before s with
  | nil => simpa using reached
  | cons event events ih =>
    have next := ih (reached.step event)
    rwa [List.append_assoc] at next

/-! ## The result -/

def AddsAdmin (site : Site) (s : State) (request : Request) : Prop :=
  ∃ user ∈ (step site s (.request request)).admins, user ∉ s.admins

def DoesStep (site : Site) (s : State) (request : Request) : Prop :=
  (∃ step ∈ s.availableSteps site.apps, step.id ≠ "firstboot_welcome" ∧
      request.path = site.reverse step.url) ∧
    (dispatch site request s).1 ≠ none

theorem addsAdmin_iff {s : State} {request : Request} (fresh : s.Fresh site)
    (known : ∀ user ∈ s.admins, user ∈ s.users)
    (visitor : s.isUserAdmin request.session = false) :
    AddsAdmin site s request ↔
      request.path = site.reverse "users:firstboot" ∧ OffersAccount site s request.session ∧
        ∃ username, request.HasAccount s username := by
  rw [← and_assoc, ← dispatch_usersFirstboot_iff site fresh visitor, AddsAdmin]
  rcases admins_of_visitor site visitor with ⟨same, none⟩ | ⟨called, username, account, more⟩
  · constructor
    · rintro ⟨user, member, other⟩
      rw [same] at member
      exact absurd member other
    · rintro ⟨called, username, account⟩
      exact absurd account (none called username)
  · have new : username ∉ s.admins := fun member => account.2 (known username member)
    constructor
    · intro _
      exact ⟨called, username, account⟩
    · intro _
      refine ⟨username, ?_, new⟩
      rw [more]
      simp [setAdmin, new]

def GivenOnce (site : Site) (s₀ : State) (events : List Event) : Prop :=
  ∀ before request after, events = before ++ .request request :: after →
    let s := Runs.run (step site) s₀ before
    s.isUserAdmin request.session = false →
      (s.done "users_firstboot" → ¬ AddsAdmin site s request) ∧
      (s.secret ≠ none → ¬ Supplied before s₀.secret request.session → ¬ DoesStep site s request)

/-- No request takes one of the two ways around the wizard: the form for the first account while
the wizard is not completed, and a page of a step for which the secret is not asked. -/
def Guarded (site : Site) (s₀ : State) (events : List Event) : Prop :=
  ∀ before request after, events = before ++ .request request :: after →
    let s := Runs.run (step site) s₀ before
    s.isUserAdmin request.session = false →
      (s.done "users_firstboot" → request.path = site.reverse "users:firstboot" →
        OffersAccount site s request.session → ∀ username, ¬ request.HasAccount s username) ∧
      (s.secret ≠ none → ¬ Supplied before s₀.secret request.session →
        ∀ step ∈ s.availableSteps site.apps, step.id ≠ "firstboot_welcome" →
          request.path = site.reverse step.url → AsksNoSecret site s request.path →
            ∀ page, site.resolve request.path = some page → ¬ processView site s request page)

theorem given_once_iff (site : Site) (s₀ : State) (initial : Initial s₀) (events : List Event) :
    GivenOnce site s₀ events ↔ Guarded site s₀ events := by
  unfold GivenOnce Guarded
  apply forall_congr'
  intro before
  apply forall_congr'
  intro request
  apply forall₂_congr
  intro after _
  have start : Reached site s₀ [] s₀ := initial.reached
  have reached := start.run before
  rw [List.nil_append] at reached
  generalize Runs.run (step site) s₀ before = s at reached ⊢
  apply imp_congr_right
  intro visitor
  apply and_congr
  · apply imp_congr_right
    intro _
    rw [addsAdmin_iff reached.fresh reached.known visitor]
    simp only [not_and, not_exists]
  · apply imp_congr_right
    intro secret
    apply imp_congr_right
    intro supplied
    have unknown : (s.sessions request.session).secretProvided = false := by
      rw [Bool.eq_false_iff]
      intro provided
      rw [reached.secret] at secret
      exact supplied (reached.provided secret request.session provided)
    constructor
    · intro never step available other here asks page resolved shown
      apply never
      refine ⟨⟨step, available, other, here⟩, ?_⟩
      exact (dispatch_step_iff site reached.fresh visitor secret unknown available here).mpr
        ⟨asks, page, resolved, shown⟩
    · rintro guarded ⟨⟨step, available, other, here⟩, called⟩
      obtain ⟨asks, page, resolved, shown⟩ :=
        (dispatch_step_iff site reached.fresh visitor secret unknown available here).mp called
      exact guarded step available other here asks page resolved shown

/-! ### Two administrators -/

def backportsWizard : Step := ⟨"backports_wizard", "upgrades:backports-firstboot", 5⟩

def smallSite : Site where
  apps := [⟨"first_boot", true, 1, [firstbootWelcome]⟩, ⟨"upgrades", true, 1, [backportsWizard]⟩,
    ⟨"users", true, 1, [usersFirstboot]⟩]
  scriptPrefix := "/freedombox/".toList
  otherPath _ := "sys/upgrades/firstboot/backports/".toList
  otherPage path := if path = "/freedombox/sys/upgrades/firstboot/backports/".toList then
    some ⟨.other, "upgrades", false, false⟩ else none
  version_pos := by simp
  users_steps := by simp
  others := by
    intro path page h
    split at h
    · cases h
      exact .inl rfl
    · cases h

def afterSetup : State where
  setupVersion _ := 1
  done _ := false
  firstbootCompleted := false
  allSteps := none
  isCompleted := none
  isFirstSetupRunning := false
  secret := none
  users := []
  admins := []
  sessions _ := ⟨none, false⟩

theorem initial_afterSetup : Initial afterSetup :=
  ⟨rfl, by simp [afterSetup], fun _ => rfl⟩

def ownerRequests : List Event :=
  [.request ⟨0, smallSite.reverse "first_boot:welcome", .secret []⟩,
    .request ⟨0, smallSite.reverse "users:firstboot", .account "owner" true true⟩]

def visitorRequest : Request :=
  ⟨1, smallSite.reverse "users:firstboot", .account "visitor" true true⟩

theorem visitor_becomes_administrator :
    ¬ GivenOnce smallSite afterSetup (ownerRequests ++ [.request visitorRequest]) := by
  intro given
  have now := given ownerRequests visitorRequest [] rfl (by decide +kernel)
  exact now.1 (by decide +kernel) ⟨"visitor", by decide +kernel, by decide +kernel⟩

theorem given_once_to_the_owner :
    Initial afterSetup ∧
      (GivenOnce smallSite afterSetup ownerRequests ↔ Guarded smallSite afterSetup ownerRequests) :=
  ⟨initial_afterSetup, given_once_iff smallSite afterSetup initial_afterSetup ownerRequests⟩

end Plinth.FirstBoot
