import Plinth.Proof.Backups.Services

/-! # The system after an operation -/

namespace Plinth.Backups

open Effect

/-! ## Restarting -/

def RestartsReturn (env : Environment) (active : Resource → Bool) : List ServiceHandler → Prop :=
  Every fun handler after =>
    made active handler after = true → env.fault (.restart handler.position) = none

def Restarted (active : Resource → Bool) (handlers : List ServiceHandler) (r : Resource) : Prop :=
  ∃ before handler after, handlers = before ++ handler :: after ∧
    made active handler after = true ∧ handler.service.resource = r

theorem restarted_cons {active : Resource → Bool} {handler : ServiceHandler}
    {rest : List ServiceHandler} {r : Resource} :
    Restarted active (handler :: rest) r ↔
      made active handler rest = true ∧ handler.service.resource = r ∨ Restarted active rest r := by
  have all := every_cons (fun handler after =>
    ¬ (made active handler after = true ∧ handler.service.resource = r)) handler rest
  simp only [Every] at all
  rw [← not_iff_not]
  simp only [Restarted, not_exists, not_or, not_and] at all ⊢
  exact all

theorem active_setActive (s : System) (r r' : Resource) :
    (s.setActive r true).active r' = true ↔ s.active r' = true ∨ r = r' := by
  by_cases same : r' = r
  · simp [System.setActive, same]
  · simp [System.setActive, same, Ne.symm same]

theorem restartWith_spec (env : Environment) (active : Resource → Bool) (handler : ServiceHandler)
    (rest : List ServiceHandler) (s₁ : System) :
    Triple (· = s₁)
      ({ handler with was := some (made active handler rest) }.restartWith env
        (·.setActive handler.service.resource true))
      (fun _ s => s.locked = s₁.locked ∧
        (made active handler rest = true → env.fault (.restart handler.position) = none) ∧
        ∀ r, s.active r = true ↔ s₁.active r = true ∨
          made active handler rest = true ∧ handler.service.resource = r)
      (fun _ s => s.locked = s₁.locked ∧ made active handler rest = true ∧
        env.fault (.restart handler.position) ≠ none) := by
  refine Triple.when (fun happens => ?_) fun skipped => ?_
  · rw [Option.some.injEq] at happens
    refine (privileged_spec env (.restart handler.position)
      (·.setActive handler.service.resource true) (· = s₁)).conseq (fun _ => id) ?_ ?_
    · rintro _ s ⟨fault, _, rfl, rfl⟩
      exact ⟨rfl, fun _ => fault, fun r => by simp [active_setActive, happens]⟩
    · rintro e s ⟨-, fault, _, rfl, rfl | rfl⟩
      · exact ⟨rfl, happens, fault⟩
      · exact ⟨rfl, happens, fault⟩
  · rintro s rfl
    rw [Option.some.injEq] at skipped
    exact ⟨rfl, fun happens => absurd happens skipped, fun r => by simp [skipped]⟩

theorem restart_spec (env : Environment) (active : Resource → Bool) (handler : ServiceHandler)
    (rest : List ServiceHandler) (named : ∀ name, handler.service ≠ .system name) (s₁ : System) :
    Triple (· = s₁) ({ handler with was := some (made active handler rest) }.restart env)
      (fun _ s => s.locked = s₁.locked ∧
        (made active handler rest = true → env.fault (.restart handler.position) = none) ∧
        ∀ r, s.active r = true ↔ s₁.active r = true ∨
          made active handler rest = true ∧ handler.service.resource = r)
      (fun _ s => s.locked = s₁.locked ∧ made active handler rest = true ∧
        env.fault (.restart handler.position) ≠ none) := by
  have spec := restartWith_spec env active handler rest s₁
  unfold ServiceHandler.restart
  cases service : handler.service with
  | name name =>
    rw [service] at spec
    exact spec
  | system name => exact absurd service (named name)
  | apache name kind =>
    rw [service] at spec
    exact spec

theorem restoreServices_spec (env : Environment) (active : Resource → Bool)
    (handlers : List ServiceHandler) (named : AllNamed handlers) (s₁ : System) :
    Triple (· = s₁) (restoreServices env (record active handlers))
      (fun _ s => s.locked = s₁.locked ∧ RestartsReturn env active handlers ∧
        ∀ r, s.active r = true ↔ s₁.active r = true ∨ Restarted active handlers r)
      (fun _ s => s.locked = s₁.locked ∧ ¬ RestartsReturn env active handlers) := by
  induction handlers generalizing s₁ with
  | nil =>
    refine Triple.pure ?_
    rintro s rfl
    exact ⟨rfl, every_nil _, fun r => by simp [Restarted]⟩
  | cons handler rest ih =>
    obtain ⟨name, named⟩ := named_cons.mp named
    simp only [RestartsReturn, every_cons, restarted_cons] at ih ⊢
    refine ((restart_spec env active handler rest name s₁).conseq (fun _ => id)
      (fun _ _ => id) ?_).bind fun _ => ?_
    · rintro e s ⟨locked, happens, fault⟩
      exact ⟨locked, fun h => fault (h.1 happens)⟩
    · rintro s₂ ⟨locked, returns, reached⟩
      have later := ih named s₂ s₂ rfl
      rw [restoreServices] at later
      generalize exec _ s₂ = outcome at later ⊢
      obtain ⟨e | _, s⟩ := outcome
      · exact ⟨later.1.trans locked, fun h => later.2 h.2⟩
      · exact ⟨later.1.trans locked, ⟨returns, later.2.1⟩, fun r => by
          rw [later.2.2, reached, or_assoc]⟩

/-! ## The operation -/

structure Respects (env : Environment) (R : System → System → Prop) : Prop where
  refl : ∀ s, R s s
  trans : ∀ s s' s'', R s s' → R s' s'' → R s s''
  hook : ∀ hook component packet s, R s (env.hook hook component packet s).2
  handler : ∀ packet passphrase s, R s (env.handler packet passphrase s).2

variable {env : Environment} {R : System → System → Prop}

theorem foreign_spec (respects : Respects env R) {wrap : String → Error}
    {run : System → Option String × System} (keeps : ∀ s, R s (run s).2) (s₁ : System) :
    Triple (R s₁) (foreign wrap run) (fun _ => R s₁)
      (fun e s => (∃ message, e = wrap message) ∧ R s₁ s) := by
  have current : Triple (R s₁) (get : Call System) (fun s' _ => R s₁ s')
      (fun e s => (∃ message, e = wrap message) ∧ R s₁ s) := Triple.get fun s reached => reached
  refine current.bind fun s' => Triple.extract _ (fun _ => id) fun reached => ?_
  have next : Triple (fun _ => R s₁ s') (set (run s').2 : Call PUnit) (fun _ => R s₁)
      (fun e s => (∃ message, e = wrap message) ∧ R s₁ s) :=
    Triple.set fun _ _ => respects.trans s₁ s' _ reached (keeps s')
  refine next.bind fun _ => ?_
  cases (run s').1 with
  | none => exact Triple.pure fun s h => h
  | some message => exact Triple.throw fun s h => ⟨⟨message, rfl⟩, h⟩

theorem runHooks_spec (respects : Respects env R) (hook : String)
    (components : List BackupRestore) (packet : Packet) (s₁ : System)
    (E : Error → System → Prop) :
    Triple (R s₁) (runHooks env hook components packet) (fun _ => R s₁) E := by
  unfold runHooks
  induction components generalizing packet with
  | nil => exact Triple.pure fun s h => h
  | cons component rest ih =>
    rw [List.foldlM_cons]
    have body : Triple (R s₁) (do
        foreign .handler (env.hook hook component packet)
        return packet : Call Packet) (fun _ => R s₁)
        (fun e s => (∃ message, e = .handler message) ∧ R s₁ s) :=
      (foreign_spec respects (respects.hook hook component packet) s₁).bind
        fun _ => Triple.pure fun s h => h
    exact (body.tryCatch fun e => Triple.pure fun s h => h.2).bind fun packet => ih packet

theorem runOperation_spec (respects : Respects env R) (packet : Packet)
    (passphrase : Option String) (s₁ : System) :
    Triple (R s₁) (runOperation env packet passphrase) (fun _ => R s₁)
      (fun e s => (∃ message, e = .handler message) ∧ R s₁ s) := by
  refine (runHooks_spec respects _ _ _ s₁ _).bind fun packet => ?_
  refine (foreign_spec respects (respects.handler packet passphrase) s₁).bind fun _ => ?_
  exact (runHooks_spec respects _ _ _ s₁ _).bind fun _ => Triple.pure fun s h => h

theorem lockdownApps_spec (components : List BackupRestore) (lockdown : Bool) (s₀ : System)
    (E : Error → System → Prop) :
    Triple (· = s₀) (lockdownApps components lockdown)
      (fun _ s => s.active = s₀.active ∧
        ∀ component ∈ components, s.locked component.appId = lockdown) E := by
  refine Triple.forEach (fun done s => s.active = s₀.active ∧
    ∀ component ∈ done, s.locked component.appId = lockdown) ?_ (fun done component _ => ?_)
    fun _ => id
  · rintro s rfl
    exact ⟨rfl, by simp⟩
  · refine Triple.modify ?_
    rintro s ⟨active, locked⟩
    refine ⟨active, fun other member => ?_⟩
    obtain earlier | rfl := (List.mem_append.mp member).imp_right List.mem_singleton.mp
    · simp only [Function.update_apply]
      split
      · rfl
      · exact locked other earlier
    · simp

structure CallsReturn (env : Environment) (active : Resource → Bool)
    (handlers : List ServiceHandler) : Prop where
  named : AllNamed handlers
  stops : StopsReturn env active handlers
  restarts : RestartsReturn env active handlers

structure Finished (env : Environment) (R : System → System → Prop)
    (components : List BackupRestore) (s₀ s : System) : Prop where
  returned : CallsReturn env s₀.active (createHandlers components)
  unlocked : ∀ component ∈ components, s.locked component.appId = false
  active : ∃ s₁ s₂, R s₁ s₂ ∧
    (∀ r, s₁.active r = (s₀.active r &&
      !(createHandlers components).any fun handler => closes s₀.active handler.service r)) ∧
    ∀ r, s.active r = true ↔
      s₂.active r = true ∨ Restarted s₀.active (createHandlers components) r

structure Interrupted (env : Environment) (R : System → System → Prop)
    (components : List BackupRestore) (s₀ s : System) : Prop where
  failed : ¬ CallsReturn env s₀.active (createHandlers components)
  locked : ∃ s₁ s₂, R s₁ s₂ ∧ (∀ component ∈ components, s₁.locked component.appId = true) ∧
    s.locked = s₂.locked

theorem runLocked_spec (respects : Respects env R) (components : List BackupRestore)
    (packet : Packet) (passphrase : Option String) (s₀ : System) :
    Triple (· = s₀) (runLocked env components packet passphrase)
      (fun _ => Finished env R components s₀)
      (fun e s => Finished env R components s₀ s ∧ (∃ message, e = .handler message) ∨
        Interrupted env R components s₀ s) := by
  refine (lockdownApps_spec components true s₀ _).bind fun _ => ?_
  rintro s₁ ⟨active, locked⟩
  revert s₁
  suffices rest : ∀ s₁ : System, s₁.active = s₀.active →
      (∀ component ∈ components, s₁.locked component.appId = true) →
      Triple (· = s₁) (do
        let originalState ← shutdownServices env components
        tryFinally (runOperation env packet passphrase) do
          restoreServices env originalState
          lockdownApps components false : Call Unit)
        (fun _ => Finished env R components s₀)
        (fun e s => Finished env R components s₀ s ∧ (∃ message, e = .handler message) ∨
          Interrupted env R components s₀ s) from
    fun s₁ active locked => rest s₁ active locked s₁ rfl
  intro s₁ active locked
  refine ((stopServices_spec env s₁ (createHandlers components)).conseq (fun _ => id)
    (fun _ _ => id) ?_).bind fun originalState => ?_
  · rintro e s ⟨same, failed⟩
    refine .inr ⟨fun h => failed ?_, s₁, s₁, respects.refl s₁, locked, same⟩
    rw [active]
    exact ⟨h.named, h.stops⟩
  · rintro s₂ ⟨rfl, stopped, named, stops⟩
    rw [active] at stops
    -- The cleanup, whatever the operation has done.
    have cleanup (E : Error → System → Prop)
        (interrupted : ∀ e s, Interrupted env R components s₀ s → E e s) :
        Triple (R s₂) (do
          restoreServices env (record s₁.active (createHandlers components))
          lockdownApps components false : Call Unit)
          (fun _ => Finished env R components s₀) E := by
      intro s₃ kept
      have restored := restoreServices_spec env s₁.active _ named s₃
      rw [active] at restored ⊢
      refine (restored.conseq (fun _ => id) (fun _ _ => id) ?_).bind (fun _ => ?_) s₃ rfl
      · rintro e s ⟨same, failed⟩
        refine interrupted e s ⟨fun h => failed h.restarts, s₂, s₃, kept, ?_, same⟩
        rw [stopped.locked]
        exact locked
      · rintro s₄ ⟨-, restarts, reached⟩
        have unlocked := lockdownApps_spec components false s₄ E s₄ rfl
        generalize exec _ s₄ = outcome at unlocked ⊢
        obtain ⟨e | _, s⟩ := outcome
        · exact unlocked
        · refine ⟨⟨named, stops, restarts⟩, unlocked.2, s₂, s₃, kept, ?_, ?_⟩
          · intro r
            rw [stopped.active, active]
          · intro r
            rw [unlocked.1]
            exact reached r
    refine Triple.tryFinally (runOperation_spec respects packet passphrase s₂)
      (fun _ => cleanup _ fun _ _ => .inr) (fun e => ?_) s₂ (respects.refl s₂)
    refine Triple.extract (∃ message, e = .handler message) (fun _ h => h.1) fun raised => ?_
    exact (cleanup _ fun _ _ => .inr).conseq (fun _ h => h.2)
      (fun _ s finished => .inl ⟨finished, raised⟩) fun _ _ => id

/-! ## Left as found -/

/-- No app of the components is locked, and every service of theirs that was active is active
again, unless the result is that its own restart raised. -/
structure LeftAsFound (components : List BackupRestore) (s₀ : System)
    (result : Except Error Unit × System) : Prop where
  unlocked : ∀ component ∈ components, result.2.locked component.appId = false
  restored : ∀ component ∈ components, ∀ service ∈ component.services,
    s₀.active service.resource = true → result.2.active service.resource = true ∨
      ∃ handler ∈ createHandlers components, handler.service.resource = service.resource ∧
        result.1 = .error (.raised (.restart handler.position))

/-- Every privileged call that is made returns, and no active service has, after its last
listing, an active socket that it belongs to. -/
structure Undisturbed (env : Environment) (active : Resource → Bool)
    (handlers : List ServiceHandler) : Prop where
  returned : CallsReturn env active handlers
  kept : Every (fun handler after => active handler.service.resource = true →
    (∀ other ∈ after, other.service.resource ≠ handler.service.resource) →
      ∀ other ∈ after, stopsAlong active other.service handler.service.resource = false) handlers

structure SameListed (components : List BackupRestore) (s s' : System) : Prop where
  locked : ∀ component ∈ components, s'.locked component.appId = s.locked component.appId
  active : ∀ component ∈ components, ∀ service ∈ component.services,
    s'.active service.resource = s.active service.resource

structure Quiet (env : Environment) (components : List BackupRestore) : Prop where
  hook : ∀ hook component packet s, SameListed components s (env.hook hook component packet s).2
  handler : ∀ packet passphrase s, SameListed components s (env.handler packet passphrase s).2

theorem mem_createHandlers (components : List BackupRestore) (service : Service) :
    (∃ handler ∈ createHandlers components, handler.service = service) ↔
      ∃ component ∈ components, service ∈ component.services := by
  have services : (createHandlers components).map (·.service) =
      components.flatMap (·.services) := by
    have pairs (l : List (BackupRestore × Service)) (n : Nat) :
        (l.zipIdx n).map (fun entry => entry.1.2) = l.map Prod.snd := by
      induction l generalizing n with
      | nil => rfl
      | cons pair rest ih => simpa using ih (n + 1)
    rw [createHandlers, List.map_map]
    refine (pairs _ 0).trans ?_
    rw [List.map_flatMap]
    simp [Function.comp_def]
  rw [← List.mem_map, services, List.mem_flatMap]

theorem closes_self (active : Resource → Bool) (service : Service) :
    closes active service service.resource = true := by
  simp [closes]

theorem made_iff (active : Resource → Bool) (handler : ServiceHandler)
    (after : List ServiceHandler) :
    made active handler after = true ↔ active handler.service.resource = true ∧
      ∀ other ∈ after, closes active other.service handler.service.resource = false := by
  simp [made]

theorem kept_iff (active : Resource → Bool) (handlers : List ServiceHandler) :
    Every (fun handler after => active handler.service.resource = true →
      (∀ other ∈ after, other.service.resource ≠ handler.service.resource) →
        ∀ other ∈ after, stopsAlong active other.service handler.service.resource = false)
      handlers ↔
    ∀ handler ∈ handlers, active handler.service.resource = true →
      Restarted active handlers handler.service.resource := by
  induction handlers with
  | nil => simp [every_nil]
  | cons handler rest ih =>
    rw [every_cons, ih]
    simp only [restarted_cons, List.forall_mem_cons, made_iff]
    constructor
    · rintro ⟨first, later⟩
      refine ⟨fun activeAtStart => ?_, fun other member activeAtStart =>
        .inr (later other member activeAtStart)⟩
      by_cases again : ∃ other ∈ rest, other.service.resource = handler.service.resource
      · obtain ⟨other, member, same⟩ := again
        rw [← same] at activeAtStart ⊢
        exact .inr (later other member activeAtStart)
      · have last : ∀ other ∈ rest, other.service.resource ≠ handler.service.resource :=
          fun other member same => again ⟨other, member, same⟩
        refine .inl ⟨⟨activeAtStart, fun other member => ?_⟩, trivial⟩
        simp [closes, last other member, first activeAtStart last other member]
    · rintro ⟨first, later⟩
      refine ⟨fun activeAtStart last other member => ?_, fun other member activeAtStart => ?_⟩
      · obtain ⟨⟨-, closed⟩, -⟩ | ⟨before, again, after, rfl, -, same⟩ := first activeAtStart
        · have := closed other member
          rw [closes, Bool.or_eq_false_iff] at this
          exact this.2
        · exact absurd same (last again (by simp))
      · refine (later other member activeAtStart).resolve_left ?_
        rintro ⟨⟨-, closed⟩, same⟩
        have := closed other member
        rw [same, closes_self] at this
        cases this

theorem leftAsFound_of_undisturbed (components : List BackupRestore) (packet : Packet)
    (passphrase : Option String) (s₀ : System)
    (undisturbed : Undisturbed env s₀.active (createHandlers components)) :
    LeftAsFound components s₀ ((runLocked env components packet passphrase).exec s₀) := by
  have respects : Respects env fun _ _ => True :=
    ⟨fun _ => trivial, fun _ _ _ _ _ => trivial, fun _ _ _ _ => trivial, fun _ _ _ => trivial⟩
  have spec := runLocked_spec respects components packet passphrase s₀ s₀ rfl
  have finished : Finished env (fun _ _ => True) components s₀
      ((runLocked env components packet passphrase).exec s₀).2 := by
    generalize exec _ s₀ = outcome at spec ⊢
    obtain ⟨e | _, s⟩ := outcome
    · exact spec.elim (fun h => h.1) fun h => absurd undisturbed.returned h.failed
    · exact spec
  refine ⟨finished.unlocked, fun component member service listed activeAtStart => .inl ?_⟩
  obtain ⟨s₁, s₂, -, -, active⟩ := finished.active
  obtain ⟨handler, member', rfl⟩ :=
    (mem_createHandlers components service).mpr ⟨component, member, listed⟩
  exact (active _).mpr (.inr ((kept_iff _ _).mp undisturbed.kept handler member' activeAtStart))

theorem undisturbed_of_leftAsFound (components : List BackupRestore) (packet : Packet)
    (passphrase : Option String) (s₀ : System) (quiet : Quiet env components)
    (left : LeftAsFound components s₀ ((runLocked env components packet passphrase).exec s₀)) :
    Undisturbed env s₀.active (createHandlers components) := by
  have respects : Respects env (SameListed components) := by
    refine ⟨fun s => ⟨fun _ _ => rfl, fun _ _ _ _ => rfl⟩, fun s s' s'' first second => ?_,
      quiet.hook, quiet.handler⟩
    exact ⟨fun component member =>
        (second.locked component member).trans (first.locked component member),
      fun component member service listed => (second.active component member service listed).trans
        (first.active component member service listed)⟩
  have spec := runLocked_spec respects components packet passphrase s₀ s₀ rfl
  generalize exec _ s₀ = outcome at spec left
  have ended : Finished env (SameListed components) components s₀ outcome.2 ∧
      ∀ step, outcome.1 ≠ .error (.raised step) := by
    obtain ⟨e | _, s⟩ := outcome
    · obtain ⟨finished, message, rfl⟩ | interrupted := spec
      · exact ⟨finished, by simp⟩
      · obtain ⟨s₁, s₂, same, locked, locked'⟩ := interrupted.locked
        cases components with
        | nil =>
          exact absurd ⟨by simp [AllNamed, createHandlers], every_nil _, every_nil _⟩
            interrupted.failed
        | cons component rest =>
          have unlocked := left.unlocked component List.mem_cons_self
          rw [locked', same.locked component List.mem_cons_self,
            locked component List.mem_cons_self] at unlocked
          cases unlocked
    · exact ⟨spec, by simp⟩
  obtain ⟨finished, notRaised⟩ := ended
  refine ⟨finished.returned, (kept_iff _ _).mpr fun handler member activeAtStart => ?_⟩
  obtain ⟨s₁, s₂, same, stopped, active⟩ := finished.active
  obtain ⟨component, member', listed⟩ :=
    (mem_createHandlers components handler.service).mp ⟨handler, member, rfl⟩
  obtain restored | ⟨other, -, -, raised⟩ :=
    left.restored component member' handler.service listed activeAtStart
  · refine ((active _).mp restored).resolve_left fun still => ?_
    -- It was stopped, and the hooks and the handler have not started it.
    rw [same.active component member' handler.service listed, stopped, Bool.and_eq_true,
      Bool.not_eq_true'] at still
    have closed := List.any_eq_false.mp still.2 handler member
    exact closed (closes_self _ _)
  · exact absurd raised (notRaised _)

/-- Backing up and restoring leave the system as they found it when no privileged call raises and
no service is closed by its socket first; and only then, as far as the hooks and the handler do
not do it themselves. -/
theorem left_as_found_iff (env : Environment) (components : List BackupRestore) (s₀ : System)
    (path passphrase comment : Option String) :
    (Undisturbed env s₀.active (createHandlers components) →
        LeftAsFound components s₀ ((backupApps env components path passphrase comment).exec s₀)) ∧
      (Quiet env components →
        (LeftAsFound components s₀ ((backupApps env components path passphrase comment).exec s₀) ↔
          Undisturbed env s₀.active (createHandlers components))) ∧
      ∀ s₁, env.runSetup components s₀ = (none, s₁) →
        (Undisturbed env s₁.active (createHandlers components) →
          LeftAsFound components s₁ ((restoreApps env components path passphrase).exec s₀)) ∧
        (Quiet env components →
          (LeftAsFound components s₁ ((restoreApps env components path passphrase).exec s₀) ↔
            Undisturbed env s₁.active (createHandlers components))) := by
  have sufficient (packet : Packet) (s : System) :
      Undisturbed env s.active (createHandlers components) →
        LeftAsFound components s ((runLocked env components packet passphrase).exec s) :=
    leftAsFound_of_undisturbed components packet passphrase s
  have exact (packet : Packet) (s : System) (quiet : Quiet env components) :
      LeftAsFound components s ((runLocked env components packet passphrase).exec s) ↔
        Undisturbed env s.active (createHandlers components) :=
    ⟨undisturbed_of_leftAsFound components packet passphrase s quiet,
      sufficient packet s⟩
  refine ⟨sufficient _ s₀, exact _ s₀, fun s₁ installed => ?_⟩
  have restore : (restoreApps env components path passphrase).exec s₀ =
      (runLocked env components (.create "restore" "/" components path none) passphrase).exec
        s₁ := by
    have installs : (foreign .setup (env.runSetup components)).exec s₀ = (.ok (), s₁) := by
      rw [foreign, exec_bind, exec_get]
      dsimp only
      rw [installed]
      rfl
    rw [restoreApps, exec_bind, installs]
  rw [restore]
  exact ⟨sufficient _ s₁, exact _ s₁⟩

def stopRaises : Environment where
  fault step := if step = .stop 0 then some .before else none
  runSetup _ s := (none, s)
  hook _ _ _ s := (none, s)
  handler _ _ s := (none, s)

def twoApps : List BackupRestore :=
  [⟨"a", ⟨[], []⟩, ⟨[], []⟩, ⟨[], []⟩, [.name "a"], []⟩,
    ⟨"b", ⟨[], []⟩, ⟨[], []⟩, ⟨[], []⟩, [.name "b"], []⟩]

def allActive : System := ⟨fun _ => false, fun _ => true⟩

theorem stopRaises_left :
    (((backupApps stopRaises twoApps none none none).exec allActive).2.locked "a" = true ∧
        ((backupApps stopRaises twoApps none none none).exec allActive).2.active
          (.unit "b.service") = false) ∧
      ¬ LeftAsFound twoApps allActive
        ((backupApps stopRaises twoApps none none none).exec allActive) := by
  have locked :
      ((backupApps stopRaises twoApps none none none).exec allActive).2.locked "a" = true := by
    decide
  refine ⟨⟨locked, by decide⟩, fun left => ?_⟩
  have unlocked := left.unlocked ⟨"a", ⟨[], []⟩, ⟨[], []⟩, ⟨[], []⟩, [.name "a"], []⟩ (by decide)
  rw [locked] at unlocked
  cases unlocked

theorem stopRaises_quiet : Quiet stopRaises twoApps :=
  ⟨fun _ _ _ _ => ⟨fun _ _ => rfl, fun _ _ _ _ => rfl⟩,
    fun _ _ _ => ⟨fun _ _ => rfl, fun _ _ _ _ => rfl⟩⟩

theorem left_as_found_iff_stopRaises :
    (LeftAsFound twoApps allActive
        ((backupApps stopRaises twoApps none none none).exec allActive) ↔
      Undisturbed stopRaises allActive.active (createHandlers twoApps)) ∧
    (LeftAsFound twoApps allActive
        ((restoreApps stopRaises twoApps none none).exec allActive) ↔
      Undisturbed stopRaises allActive.active (createHandlers twoApps)) :=
  have both := left_as_found_iff stopRaises twoApps allActive none none none
  ⟨both.2.1 stopRaises_quiet, (both.2.2 allActive rfl).2 stopRaises_quiet⟩

end Plinth.Backups
