import Plinth.Model.Backups.Api

/-!
# Shutting services down and restoring them

The handlers are stopped from the last to the first. A handler has something to stop when its
service is active at the start and no handler after it has closed the service.
-/

namespace Plinth.Backups

open Effect

def Service.resource : Service → Resource
  | .name service => .unit (unitName service)
  | .system service => .unit (unitName service)
  | .apache site kind => .apache site kind

def stopsAlong (active : Resource → Bool) : Service → Resource → Bool
  | .name service, r => endsWith service ".socket" && active (.unit (unitName service)) &&
      r == .unit (unitName (getServiceUnit service))
  | _, _ => false

def closes (active : Resource → Bool) (service : Service) (r : Resource) : Bool :=
  service.resource == r || stopsAlong active service r

def made (active : Resource → Bool) (handler : ServiceHandler) (after : List ServiceHandler) :
    Bool :=
  active handler.service.resource &&
    !after.any fun other => closes active other.service handler.service.resource

def Every (P : ServiceHandler → List ServiceHandler → Prop) (handlers : List ServiceHandler) :
    Prop :=
  ∀ before handler after, handlers = before ++ handler :: after → P handler after

theorem every_nil (P : ServiceHandler → List ServiceHandler → Prop) : Every P [] := by
  intro before handler after h
  simp at h

theorem every_cons (P : ServiceHandler → List ServiceHandler → Prop) (handler : ServiceHandler)
    (rest : List ServiceHandler) : Every P (handler :: rest) ↔ P handler rest ∧ Every P rest := by
  constructor
  · intro all
    refine ⟨all [] handler rest rfl, ?_⟩
    rintro before other after rfl
    exact all (handler :: before) other after rfl
  · rintro ⟨first, all⟩ before other after h
    cases before with
    | nil =>
      obtain ⟨rfl, rfl⟩ := List.cons_eq_cons.mp h
      exact first
    | cons _ before =>
      obtain ⟨-, h⟩ := List.cons_eq_cons.mp h
      exact all before other after h

/-! ## Unit names -/

theorem endsWith_iff (name suffix : String) :
    endsWith name suffix = true ↔ suffix.toList <:+ name.toList := by
  rw [endsWith, List.isSuffixOf_iff_suffix]

theorem endsWith_append (name suffix : String) : endsWith (name ++ suffix) suffix = true := by
  rw [endsWith_iff, String.toList_append]
  exact List.suffix_append ..

theorem not_service_and_socket {name : String} (service : endsWith name ".service" = true)
    (socket : endsWith name ".socket" = true) : False := by
  rw [endsWith_iff] at service socket
  obtain ⟨base, h⟩ := service
  obtain ⟨base', h'⟩ := socket
  have last := congrArg List.getLast? (h.trans h'.symm)
  simp at last

theorem unitName_of_service {name : String} (service : endsWith name ".service" = true) :
    unitName name = name := by
  simp [unitName, service]

theorem unitName_of_socket {name : String} (socket : endsWith name ".socket" = true) :
    unitName name = name := by
  simp [unitName, socket]

theorem eq_of_unitName_socket {name other : String} (socket : endsWith name ".socket" = true)
    (same : unitName other = unitName name) : other = name := by
  rw [unitName_of_socket socket] at same
  rw [unitName] at same
  split at same
  · exact same
  · subst same
    exact (not_service_and_socket (endsWith_append ..) socket).elim

theorem closes_socket {active : Resource → Bool} {service : Service} {name : String}
    (socket : endsWith name ".socket" = true)
    (closed : closes active service (.unit (unitName name)) = true) :
    service = .name name ∨ service = .system name := by
  cases service with
  | name other =>
    rw [closes, Bool.or_eq_true, beq_iff_eq, Service.resource, Resource.unit.injEq] at closed
    obtain same | along := closed
    · exact .inl (congrArg _ (eq_of_unitName_socket socket same))
    · simp only [stopsAlong, Bool.and_eq_true, beq_iff_eq, Resource.unit.injEq] at along
      have service : endsWith (getServiceUnit other) ".service" = true := endsWith_append ..
      rw [unitName_of_service service, unitName_of_socket socket] at along
      exact (not_service_and_socket (along.2 ▸ service) socket).elim
  | system other =>
    rw [closes, Bool.or_eq_true, beq_iff_eq, Service.resource, Resource.unit.injEq] at closed
    obtain same | along := closed
    · exact .inr (congrArg _ (eq_of_unitName_socket socket same))
    · cases along
  | apache other kind => simp [closes, Service.resource, stopsAlong] at closed

/-! ## Stopping -/

def record (active : Resource → Bool) : List ServiceHandler → List ServiceHandler
  | [] => []
  | handler :: rest => { handler with was := some (made active handler rest) } :: record active rest

structure Stopped (s₀ : System) (handlers : List ServiceHandler) (s : System) : Prop where
  locked : s.locked = s₀.locked
  active : ∀ r, s.active r =
    (s₀.active r && !handlers.any fun handler => closes s₀.active handler.service r)

def AllNamed (handlers : List ServiceHandler) : Prop :=
  ∀ handler ∈ handlers, ∀ name, handler.service ≠ .system name

theorem made_of_stopped {s₀ s : System} {rest : List ServiceHandler} (stopped : Stopped s₀ rest s)
    (handler : ServiceHandler) :
    s.active handler.service.resource = made s₀.active handler rest :=
  stopped.active _

theorem privileged_spec (env : Environment) (step : Step) (act : System → System)
    (P : System → Prop) :
    Triple P (privileged env step act)
      (fun _ s => env.fault step = none ∧ ∃ s', P s' ∧ s = act s')
      (fun e s => e = .raised step ∧ env.fault step ≠ none ∧ ∃ s', P s' ∧ (s = s' ∨ s = act s')) := by
  unfold privileged
  cases fault : env.fault step with
  | none => exact Triple.modify fun s holds => ⟨rfl, s, holds, rfl⟩
  | some moment =>
    cases moment with
    | before => exact Triple.throw fun s holds => ⟨rfl, by simp, s, holds, .inl rfl⟩
    | after =>
      have acted : Triple P (modify act : Call Unit) (fun _ s => ∃ s', P s' ∧ s = act s')
          (fun _ _ => False) := Triple.modify fun s holds => ⟨s, holds, rfl⟩
      refine (acted.conseq (fun _ => id) (fun _ _ => id) fun _ _ => False.elim).bind
        fun _ => Triple.throw ?_
      rintro s ⟨s', holds, rfl⟩
      exact ⟨rfl, by simp, s', holds, .inr rfl⟩

theorem locked_serviceStop (name : String) (s : System) : (serviceStop name s).locked = s.locked := by
  rw [serviceStop]
  split <;> rfl

theorem active_serviceStop (name : String) (s : System) (r : Resource) :
    (serviceStop name s).active r =
      (s.active r && !(Resource.unit (unitName name) == r ||
        (endsWith name ".socket" && r == .unit (unitName (getServiceUnit name))))) := by
  rw [serviceStop]
  split <;> rename_i socket
  · simp only [serviceAction, System.setActive, Function.update_apply, socket, Bool.true_and]
    by_cases along : r = .unit (unitName (getServiceUnit name))
    · simp [along]
    · by_cases same : r = .unit (unitName name)
      · simp [same]
      · have other : (Resource.unit (unitName name) == r) = false := by simpa using Ne.symm same
        simp [along, same, other]
  · simp only [serviceAction, System.setActive, Function.update_apply, socket, Bool.false_and,
      Bool.or_false]
    by_cases same : r = .unit (unitName name)
    · simp [same]
    · have other : (Resource.unit (unitName name) == r) = false := by simpa using Ne.symm same
      simp [same, other]

theorem stopped_cons {s₀ s : System} {handler : ServiceHandler} {rest : List ServiceHandler}
    (stopped : Stopped s₀ rest s) {stop : System → System}
    (locked : (stop s).locked = s.locked)
    (stops : ∀ r, (stop s).active r = (s.active r && !closes s₀.active handler.service r)) :
    Stopped s₀ (handler :: rest) (stop s) where
  locked := locked.trans stopped.locked
  active r := by
    rw [stops, stopped.active, List.any_cons, Bool.not_or, Bool.and_assoc,
      Bool.and_comm (!rest.any _)]

theorem stopped_cons_of_not_made {s₀ s : System} {handler : ServiceHandler}
    {rest : List ServiceHandler} (stopped : Stopped s₀ rest s) (named : AllNamed rest)
    (unmade : made s₀.active handler rest = false) : Stopped s₀ (handler :: rest) s where
  locked := stopped.locked
  active r := by
    rw [stopped.active, List.any_cons]
    cases activeAtStart : s₀.active r with
    | false => simp
    | true =>
      cases closed : closes s₀.active handler.service r with
      | false => simp
      | true =>
        suffices earlier : rest.any (fun other => closes s₀.active other.service r) = true by
          simp [earlier]
        rw [closes, Bool.or_eq_true, beq_iff_eq] at closed
        obtain rfl | along := closed
        · simpa [made, activeAtStart] using unmade
        · cases service : handler.service with
          | name name =>
            simp only [service, stopsAlong, Bool.and_eq_true, beq_iff_eq] at along
            obtain ⟨⟨socket, socketActive⟩, rfl⟩ := along
            simp only [made, service, Service.resource, socketActive, Bool.true_and,
              Bool.not_eq_false', List.any_eq_true] at unmade
            obtain ⟨other, member, closed⟩ := unmade
            refine List.any_eq_true.mpr ⟨other, member, ?_⟩
            obtain same | same := closes_socket socket closed
            · simp [same, closes, stopsAlong, socket, socketActive]
            · exact absurd same (named other member name)
          | system name => simp [service, stopsAlong] at along
          | apache name kind => simp [service, stopsAlong] at along

theorem stopWith_spec (env : Environment) {s₀ : System} {handler : ServiceHandler}
    {rest : List ServiceHandler} (named : AllNamed rest) {stop : System → System}
    (locked : ∀ s, (stop s).locked = s.locked)
    (stops : s₀.active handler.service.resource = true → ∀ s r, (stop s).active r =
      (s.active r && !closes s₀.active handler.service r)) :
    Triple (Stopped s₀ rest) (handler.stopWith env handler.service.resource stop)
      (fun handler' s => handler' = { handler with was := some (made s₀.active handler rest) } ∧
        Stopped s₀ (handler :: rest) s ∧
        (made s₀.active handler rest = true → env.fault (.stop handler.position) = none))
      (fun _ s => s.locked = s₀.locked ∧ made s₀.active handler rest = true ∧
        env.fault (.stop handler.position) ≠ none) := by
  have current : Triple (Stopped s₀ rest) (get : Call System)
      (fun s' s => Stopped s₀ rest s ∧ Stopped s₀ rest s')
      (fun _ s => s.locked = s₀.locked ∧ made s₀.active handler rest = true ∧
        env.fault (.stop handler.position) ≠ none) :=
    Triple.get fun s stopped => ⟨stopped, stopped⟩
  refine current.bind fun s' => Triple.extract _ (fun s h => h.2) fun stopped' => ?_
  rw [made_of_stopped stopped']
  cases happens : made s₀.active handler rest with
  | true =>
    have activeAtStart : s₀.active handler.service.resource = true := by
      simp only [made, Bool.and_eq_true] at happens
      exact happens.1
    refine Triple.bind ((privileged_spec env (.stop handler.position) stop
      (Stopped s₀ rest)).conseq (fun s h => h.1) (fun _ _ => id) ?_) fun _ => Triple.pure ?_
    · rintro e s ⟨-, fault, s₁, stopped, rfl | rfl⟩
      · exact ⟨stopped.locked, rfl, fault⟩
      · exact ⟨(locked s₁).trans stopped.locked, rfl, fault⟩
    · rintro s ⟨fault, s₁, stopped, rfl⟩
      exact ⟨rfl, stopped_cons stopped (locked s₁) (stops activeAtStart s₁), fun _ => fault⟩
  | false =>
    rintro s ⟨stopped, -⟩
    exact ⟨rfl, stopped_cons_of_not_made stopped named happens, nofun⟩

theorem named_cons {handler : ServiceHandler} {rest : List ServiceHandler} :
    AllNamed (handler :: rest) ↔ (∀ name, handler.service ≠ .system name) ∧ AllNamed rest := by
  simp [AllNamed]

theorem stop_spec (env : Environment) {s₀ : System} {handler : ServiceHandler}
    {rest : List ServiceHandler} (named : AllNamed rest) :
    Triple (Stopped s₀ rest) (handler.stop env)
      (fun handler' s => handler' = { handler with was := some (made s₀.active handler rest) } ∧
        Stopped s₀ (handler :: rest) s ∧ (∀ name, handler.service ≠ .system name) ∧
        (made s₀.active handler rest = true → env.fault (.stop handler.position) = none))
      (fun _ s => s.locked = s₀.locked ∧ ((∀ name, handler.service ≠ .system name) →
        made s₀.active handler rest = true ∧ env.fault (.stop handler.position) ≠ none)) := by
  unfold ServiceHandler.stop
  cases service : handler.service with
  | name name =>
    have stops : s₀.active handler.service.resource = true → ∀ s r,
        (serviceStop name s).active r = (s.active r && !closes s₀.active handler.service r) := by
      rw [service]
      intro activeAtStart s r
      simp only [Service.resource] at activeAtStart
      simp [active_serviceStop, closes, stopsAlong, Service.resource, activeAtStart]
    have spec := stopWith_spec env named (locked_serviceStop name) stops
    rw [service] at spec
    exact spec.conseq (fun _ => id) (fun _ s h => ⟨h.1, h.2.1, by simp, h.2.2⟩)
      fun _ s h => ⟨h.1, fun _ => h.2⟩
  | system name =>
    exact Triple.throw fun s stopped => ⟨stopped.locked, fun named => absurd rfl (named name)⟩
  | apache name kind =>
    have stops : s₀.active handler.service.resource = true → ∀ (s : System) r,
        (s.setActive (.apache name kind) false).active r =
          (s.active r && !closes s₀.active handler.service r) := by
      rw [service]
      intro _ s r
      by_cases same : r = .apache name kind
      · simp [System.setActive, closes, Service.resource, same]
      · have other : (Resource.apache name kind == r) = false := by simpa using Ne.symm same
        simp [System.setActive, closes, stopsAlong, Service.resource, same, other]
    have locked : ∀ s : System, (s.setActive (.apache name kind) false).locked = s.locked :=
      fun _ => rfl
    have spec := stopWith_spec env named locked stops
    rw [service] at spec
    exact spec.conseq (fun _ => id) (fun _ s h => ⟨h.1, h.2.1, by simp, h.2.2⟩)
      fun _ s h => ⟨h.1, fun _ => h.2⟩

def StopsReturn (env : Environment) (active : Resource → Bool) : List ServiceHandler → Prop :=
  Every fun handler after =>
    made active handler after = true → env.fault (.stop handler.position) = none

theorem stopServices_spec (env : Environment) (s₀ : System) (handlers : List ServiceHandler) :
    Triple (· = s₀) (stopServices env handlers)
      (fun recorded s => recorded = record s₀.active handlers ∧ Stopped s₀ handlers s ∧
        AllNamed handlers ∧ StopsReturn env s₀.active handlers)
      (fun _ s => s.locked = s₀.locked ∧
        ¬ (AllNamed handlers ∧ StopsReturn env s₀.active handlers)) := by
  induction handlers with
  | nil =>
    refine Triple.pure ?_
    rintro s rfl
    exact ⟨rfl, ⟨rfl, by simp⟩, by simp [AllNamed], every_nil _⟩
  | cons handler rest ih =>
    simp only [StopsReturn, every_cons, named_cons] at ih ⊢
    refine (ih.conseq (fun _ => id) (fun _ _ => id) ?_).bind fun recorded => ?_
    · rintro e s ⟨locked, failed⟩
      exact ⟨locked, fun h => failed ⟨h.1.2, h.2.2⟩⟩
    · refine Triple.extract (recorded = record s₀.active rest ∧ AllNamed rest ∧
        StopsReturn env s₀.active rest) (fun s h => ⟨h.1, h.2.2⟩) ?_
      rintro ⟨rfl, named, returns⟩
      refine ((stop_spec env named).conseq (fun s h => h.2.1) (fun _ _ => id) ?_).bind
        fun handler' => Triple.pure ?_
      · rintro e s ⟨locked, failed⟩
        exact ⟨locked, fun h => (failed h.1.1).2 (h.2.1 (failed h.1.1).1)⟩
      · rintro s ⟨rfl, stopped, name, fault⟩
        exact ⟨rfl, stopped, ⟨name, named⟩, fault, returns⟩

end Plinth.Backups
