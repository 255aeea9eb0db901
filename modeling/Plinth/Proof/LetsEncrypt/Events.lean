import Plinth.Model.LetsEncrypt.Events

/-! # Delivery of certificate events -/

namespace Plinth.LetsEncrypt

open Effect Python Exception Pathlib

variable {env : Environment} {event : Event} {domains : List (List Char)} {lineage : List Char}
  {s s' : System}

/-! ## One component -/

def isSetUp (env : Environment) (component : Component) : Bool :=
  match componentNeedsSetup env component with
  | .ok false => true
  | _ => false

def stoppedBy (env : Environment) (event : Event) (domains : List (List Char))
    (lineage : List Char) (component : Component) : Option Exception :=
  match componentNeedsSetup env component with
  | .error e => some e
  | .ok true => none
  | .ok false =>
    match env.handler component event domains lineage with
    | .ok _ => none
    | .error e => if e.isinstance .exception then none else some e

def deliveriesTo (env : Environment) (event : Event) (domains : List (List Char))
    (lineage : List Char) (components : List Component) : List Delivery :=
  (components.filter (isSetUp env)).map fun component =>
    ⟨component.componentId, event, domains, lineage⟩

def System.deliver (s : System) (deliveries : List Delivery) : System :=
  { s with deliveries := s.deliveries ++ deliveries }

def outcome (stopped : Option Exception) : Except Exception Unit :=
  match stopped with
  | some e => .error e
  | none => .ok ()

theorem exec_handle (component : Component) : (handle env event domains lineage component).exec s =
    (outcome (stoppedBy env event domains lineage component),
      s.deliver (deliveriesTo env event domains lineage [component])) := by
  have nothing : s.deliver [] = s := by
    rw [System.deliver, List.append_nil]
  unfold handle stoppedBy deliveriesTo isSetUp
  rw [exec_bind, exec_lift]
  cases asked : componentNeedsSetup env component with
  | error e => simp [asked, nothing, outcome]
  | ok needsSetup =>
    cases needsSetup with
    | true => simp [asked, nothing, outcome]
    | false =>
      dsimp only
      rw [if_neg (by decide), exec_bind, exec_modify]
      simp only [asked, List.filter_cons_of_pos, List.filter_nil, List.map_cons, List.map_nil]
      cases env.handler component event domains lineage with
      | ok u => rfl
      | error e =>
        dsimp only
        by_cases caught : e.isinstance .exception = true
        · rw [if_pos caught, if_pos caught]
          rfl
        · rw [if_neg caught, if_neg caught]
          rfl

/-! ## All components -/

def reached (env : Environment) (event : Event) (domains : List (List Char))
    (lineage : List Char) : List Component → List Component
  | [] => []
  | component :: rest =>
    component :: if (stoppedBy env event domains lineage component).isSome then []
      else reached env event domains lineage rest

theorem reached_subset {components : List Component} :
    reached env event domains lineage components ⊆ components := by
  induction components with
  | nil => exact List.Subset.refl []
  | cons component rest ih =>
    rw [reached]
    split
    · exact List.cons_subset_cons component (List.nil_subset rest)
    · exact List.cons_subset_cons component ih

theorem deliveriesTo_cons (component : Component) (components : List Component) :
    deliveriesTo env event domains lineage (component :: components) =
      deliveriesTo env event domains lineage [component] ++
        deliveriesTo env event domains lineage components := by
  unfold deliveriesTo
  rw [← List.map_append, ← List.filter_append, List.singleton_append]

theorem exec_handle_all (components : List Component) :
    (forEach components (handle env event domains lineage)).exec s =
      (outcome (components.findSome? (stoppedBy env event domains lineage)),
        s.deliver (deliveriesTo env event domains lineage
          (reached env event domains lineage components))) := by
  induction components generalizing s with
  | nil =>
    rw [forEach, exec_pure, reached, deliveriesTo, System.deliver]
    simp [outcome]
  | cons component rest ih =>
    rw [forEach, reached, List.findSome?_cons]
    cases stopped : stoppedBy env event domains lineage component with
    | some e =>
      have ran : (handle env event domains lineage component).exec s = (.error e,
          s.deliver (deliveriesTo env event domains lineage [component])) := by
        rw [exec_handle, stopped]
        rfl
      rw [exec_bind_of_error ran]
      rfl
    | none =>
      have ran : (handle env event domains lineage component).exec s = (.ok (),
          s.deliver (deliveriesTo env event domains lineage [component])) := by
        rw [exec_handle, stopped]
        rfl
      rw [exec_bind_of_ok ran, ih, if_neg (by simp), deliveriesTo_cons component (reached _ _ _ _ _)]
      simp [System.deliver]

def StopsLast (env : Environment) (event : Event) (domains : List (List Char))
    (lineage : List Char) : Prop :=
  env.components.Pairwise fun earlier later =>
    stoppedBy env event domains lineage earlier ≠ none → isSetUp env later = false

theorem deliveriesTo_eq_nil_iff (components : List Component) :
    deliveriesTo env event domains lineage components = [] ↔
      ∀ component ∈ components, isSetUp env component = false := by
  simp [deliveriesTo, List.filter_eq_nil_iff]

theorem deliveriesTo_reached_iff (components : List Component) :
    deliveriesTo env event domains lineage (reached env event domains lineage components) =
        deliveriesTo env event domains lineage components ↔
      components.Pairwise fun earlier later =>
        stoppedBy env event domains lineage earlier ≠ none → isSetUp env later = false := by
  induction components with
  | nil => simp [reached]
  | cons component rest ih =>
    rw [List.pairwise_cons, ← ih, reached]
    cases stopped : stoppedBy env event domains lineage component with
    | none =>
      rw [if_neg (by simp), deliveriesTo_cons component rest, deliveriesTo_cons component,
        List.append_cancel_left_eq]
      simp
    | some e =>
      rw [if_pos (by simp), deliveriesTo_cons component rest, List.self_eq_append_right,
        deliveriesTo_eq_nil_iff]
      constructor
      · intro none_set_up
        have nothing : ∀ part, part ⊆ rest → deliveriesTo env event domains lineage part = [] :=
          fun part within => (deliveriesTo_eq_nil_iff part).mpr fun other member =>
            none_set_up other (within member)
        refine ⟨fun other member _ => none_set_up other member, ?_⟩
        rw [nothing rest (List.Subset.refl rest), nothing _ reached_subset]
      · intro ⟨none_set_up, _⟩ other member
        exact none_set_up other member (by simp)

/-! ## The whole event -/

def System.send (s : System) (event : Event) (domains : List (List Char))
    (lineage : Option (List Char)) : System :=
  { s with events := s.events ++ [(event, domains, lineage)] }

def System.record (s : System) (lineage : List Char) (time : Int) : System :=
  { s with lastSeenModifiedTime := s.lastSeenModifiedTime.set (lineageKey lineage) time }

theorem exec_certificateSetLastSeenModifiedTime (lineage : List Char) :
    (certificateSetLastSeenModifiedTime env lineage).exec s =
      match env.getModifiedTime (path lineage).name with
      | .ok time => (.ok (), s.record lineage time)
      | .error e => (.error e, s) := by
  unfold certificateSetLastSeenModifiedTime
  rw [exec_bind, exec_lift]
  cases env.getModifiedTime (path lineage).name <;> rfl

variable {given : Option (List Char)}

theorem exec_onCertificateEventSync_of_unknown {e : Exception}
    (unknown : lineageOf domains given = .error e) :
    (onCertificateEventSync env event domains given).exec s =
      (.error e, s.send event domains given) := by
  unfold onCertificateEventSync
  rw [exec_bind_of_ok (exec_modify _ s), unknown]
  rfl

theorem exec_onCertificateEventSync_of_stopped (known : lineageOf domains given = .ok lineage)
    {e : Exception}
    (stopped : env.components.findSome? (stoppedBy env event domains lineage) = some e) :
    (onCertificateEventSync env event domains given).exec s =
      (.error e, (s.send event domains given).deliver
        (deliveriesTo env event domains lineage
          (reached env event domains lineage env.components))) := by
  unfold onCertificateEventSync
  rw [exec_bind_of_ok (exec_modify _ s), known, exec_bind_of_ok (exec_lift _ _)]
  apply exec_bind_of_error
  rw [exec_handle_all, stopped]
  rfl

theorem reached_of_completes {components : List Component}
    (completes : components.findSome? (stoppedBy env event domains lineage) = none) :
    reached env event domains lineage components = components := by
  induction components with
  | nil => rfl
  | cons component rest ih =>
    rw [List.findSome?_cons] at completes
    cases stopped : stoppedBy env event domains lineage component with
    | some e =>
      rw [stopped] at completes
      cases completes
    | none =>
      rw [stopped] at completes
      rw [reached, stopped, if_neg (by simp), ih completes]

theorem exec_onCertificateEventSync_of_completes (known : lineageOf domains given = .ok lineage)
    (completes : env.components.findSome? (stoppedBy env event domains lineage) = none) :
    (onCertificateEventSync env event domains given).exec s =
      (Effect.when (IsNew event) (certificateSetLastSeenModifiedTime env lineage)).exec
        ((s.send event domains given).deliver
          (deliveriesTo env event domains lineage env.components)) := by
  unfold onCertificateEventSync
  rw [exec_bind_of_ok (exec_modify _ s), known, exec_bind_of_ok (exec_lift _ _)]
  apply exec_bind_of_ok
  rw [exec_handle_all, completes, reached_of_completes completes]
  rfl

/-- Every component that is set up receives the event once, and the time of the lineage of a new
certificate is recorded. -/
structure Notified (env : Environment) (event : Event) (domains : List (List Char))
    (given : Option (List Char)) (s s' : System) : Prop where
  delivered : ∃ source, (∀ lineage, lineageOf domains given = .ok lineage → source = lineage) ∧
    s'.deliveries = s.deliveries ++ deliveriesTo env event domains source env.components
  recorded : ∀ lineage, lineageOf domains given = .ok lineage → IsNew event →
    ∃ time, env.getModifiedTime (path lineage).name = .ok time ∧
      s'.lastSeenModifiedTime.get? (lineageKey lineage) = some time

/-- No component that is set up is left out, and nothing but the certificate's own time is needed
to record it. -/
def Isolated (env : Environment) (event : Event) (domains : List (List Char))
    (given : Option (List Char)) (s : System) : Prop :=
  match lineageOf domains given with
  | .error _ => ∀ component ∈ env.components, isSetUp env component = false
  | .ok lineage => StopsLast env event domains lineage ∧
      (IsNew event → ∃ time, env.getModifiedTime (path lineage).name = .ok time ∧
        (env.components.findSome? (stoppedBy env event domains lineage) = none ∨
          s.lastSeenModifiedTime.get? (lineageKey lineage) = some time))

theorem notified_iff_of_known {s' : System} (known : lineageOf domains given = .ok lineage) :
    Notified env event domains given s s' ↔
      s'.deliveries = s.deliveries ++ deliveriesTo env event domains lineage env.components ∧
      (IsNew event → ∃ time, env.getModifiedTime (path lineage).name = .ok time ∧
        s'.lastSeenModifiedTime.get? (lineageKey lineage) = some time) := by
  constructor
  · intro notified
    obtain ⟨source, same, delivered⟩ := notified.delivered
    rw [same lineage known] at delivered
    exact ⟨delivered, notified.recorded lineage known⟩
  · intro ⟨delivered, recorded⟩
    have only : ∀ other, lineageOf domains given = .ok other → lineage = other :=
      fun other found => Except.ok.inj (known.symm.trans found)
    exact ⟨⟨lineage, only, delivered⟩, fun other found => only other found ▸ recorded⟩

theorem deliveries_of_completes (known : lineageOf domains given = .ok lineage)
    (completes : env.components.findSome? (stoppedBy env event domains lineage) = none) :
    ((onCertificateEventSync env event domains given).exec s).2.deliveries =
      s.deliveries ++ deliveriesTo env event domains lineage env.components := by
  rw [exec_onCertificateEventSync_of_completes known completes]
  by_cases new : IsNew event
  · rw [when_of new, exec_certificateSetLastSeenModifiedTime]
    cases env.getModifiedTime (path lineage).name <;> rfl
  · rw [when_of_not new]
    rfl

/-- Delivery is isolated exactly when no component that is set up comes after one that ends it, and
a new certificate's time can be read and is not kept from being recorded. -/
theorem notified_iff : Notified env event domains given s
      ((onCertificateEventSync env event domains given).exec s).2 ↔
    Isolated env event domains given s := by
  cases known : lineageOf domains given with
  | error e =>
    rw [exec_onCertificateEventSync_of_unknown known, Isolated, known]
    constructor
    · intro notified
      obtain ⟨lineage, -, delivered⟩ := notified.delivered
      exact (deliveriesTo_eq_nil_iff _).mp (List.self_eq_append_right.mp delivered)
    · intro none_set_up
      constructor
      · refine ⟨[], fun lineage found => ?_, ?_⟩
        · rw [known] at found
          cases found
        · rw [(deliveriesTo_eq_nil_iff _).mpr none_set_up]
          exact (List.append_nil _).symm
      · intro lineage found
        rw [known] at found
        cases found
  | ok lineage =>
    rw [notified_iff_of_known known, Isolated, known]
    dsimp only
    cases stopped : env.components.findSome? (stoppedBy env event domains lineage) with
    | some e =>
      rw [exec_onCertificateEventSync_of_stopped known stopped]
      apply and_congr
      · exact (List.append_right_inj s.deliveries).trans (deliveriesTo_reached_iff _)
      · simp [System.deliver, System.send]
    | none =>
      have last : StopsLast env event domains lineage := by
        rw [StopsLast, ← deliveriesTo_reached_iff, reached_of_completes stopped]
      rw [and_iff_right (deliveries_of_completes known stopped), and_iff_right last,
        exec_onCertificateEventSync_of_completes known stopped]
      apply imp_congr_right
      intro new
      rw [when_of new, exec_certificateSetLastSeenModifiedTime]
      cases env.getModifiedTime (path lineage).name with
      | error e => simp
      | ok time => simp [System.record]

def removedApp : Environment where
  components := [⟨"letsencrypt-removed", some "removed"⟩, ⟨"letsencrypt-kept", some "kept"⟩]
  needsSetup appId := if appId = "kept" then some (.ok false) else none
  handler _ _ _ _ := .ok ()
  getModifiedTime _ := .ok 1

theorem kept_app_hears_nothing :
    ¬ Notified removedApp .renewed ["example.org".toList] none ⟨OrderedDict.empty, [], []⟩
      ((onCertificateEventSync removedApp .renewed ["example.org".toList] none).exec
        ⟨OrderedDict.empty, [], []⟩).2 := by
  intro notified
  obtain ⟨source, _, delivered⟩ := notified.delivered
  have silent : ((onCertificateEventSync removedApp .renewed ["example.org".toList] none).exec
      ⟨OrderedDict.empty, [], []⟩).2.deliveries = [] := by decide +kernel
  have set_up : isSetUp removedApp ⟨"letsencrypt-kept", some "kept"⟩ = true := by
    simp [isSetUp, componentNeedsSetup, removedApp]
  rw [silent, List.nil_append] at delivered
  have left_out := (deliveriesTo_eq_nil_iff _).mp delivered.symm _
    (List.mem_cons_of_mem _ List.mem_cons_self)
  rw [set_up] at left_out
  cases left_out

end Plinth.LetsEncrypt

/-! ## Which domains are repaired how -/

namespace Plinth.LetsEncrypt

open Effect Python Exception Pathlib

variable {env : RepairEnvironment} {status : Status} {s : RepairState}

def HasCertificate (status : Status) (domain : List Char) : Prop :=
  ∃ domainStatus, status.domains.get? domain = some (some domainStatus) ∧
    domainStatus.certificateAvailable = true

/-! ## What each domain gets -/

def obtaining (env : RepairEnvironment) (domain : List Char) : List Call :=
  [.certificateObtain domain, .obtain domain] ++
    match env.obtain domain with
    | .ok _ => [.onCertificateEvent .obtained [domain] none]
    | .error _ => []

def reobtaining (domain : List Char) : List Call :=
  [.certificateReobtain domain, .obtain domain]

theorem calls_certificateObtain (domain : List Char) :
    ((certificateObtain env domain).exec s).2.calls = s.calls ++ obtaining env domain := by
  unfold certificateObtain privilegedObtain call obtaining
  rw [exec_bind_of_ok (exec_modify _ s), exec_bind, exec_bind_of_ok (exec_modify _ _), exec_lift]
  cases env.obtain domain <;> simp

theorem calls_certificateReobtain (domain : List Char) :
    ((certificateReobtain env domain).exec s).2.calls = s.calls ++ reobtaining domain := by
  unfold certificateReobtain privilegedObtain call reobtaining
  rw [exec_bind_of_ok (exec_modify _ s), exec_bind_of_ok (exec_modify _ _), exec_lift]
  simp

theorem hasCertificate_iff {domain : List Char} {domainStatus : Option DomainStatus}
    (listed : status.domains.get? domain = some domainStatus) :
    HasCertificate status domain ↔ certificateAvailable domainStatus = true := by
  rw [HasCertificate, listed]
  cases domainStatus <;> simp [certificateAvailable]

instance decidableHasCertificate (domain : List Char) : Decidable (HasCertificate status domain) :=
  match listed : status.domains.get? domain with
  | none => .isFalse fun ⟨_, found, _⟩ => by simp [listed] at found
  | some _ => decidable_of_iff _ (hasCertificate_iff listed).symm

def performed (env : RepairEnvironment) (status : Status) (domain : List Char) : List Call :=
  match status.domains.get? domain with
  | none => []
  | some domainStatus =>
    if certificateAvailable domainStatus = true then obtaining env domain else reobtaining domain

theorem calls_repairDomain (domain : List Char) :
    ((repairDomain env status domain).exec s).2.calls =
      s.calls ++ performed env status domain := by
  unfold repairDomain performed
  cases status.domains.get? domain with
  | none => exact (List.append_nil s.calls).symm
  | some domainStatus =>
    dsimp only
    split
    · exact calls_certificateObtain domain
    · exact calls_certificateReobtain domain

theorem calls_catchException (e : Exception) :
    ((catchException e).exec s).2.calls = s.calls := by
  unfold catchException
  split <;> rfl

/-! ## All failed checks -/

def FailedCheck.failingDomain (check : FailedCheck) : Option (List Char) :=
  if IsDomainCheck check then check.domain else none

theorem calls_repairCheck (check : FailedCheck) :
    ((repairCheck env status check).exec s).2.calls =
      s.calls ++ (check.failingDomain.elim [] (performed env status)) := by
  unfold repairCheck FailedCheck.failingDomain
  by_cases domainCheck : IsDomainCheck check
  · rw [when_of domainCheck, if_pos domainCheck]
    cases check.domain with
    | none => exact (List.append_nil s.calls).symm
    | some domain =>
      have calls : ((repairDomain env status domain).exec s).2.calls =
        s.calls ++ performed env status domain := calls_repairDomain domain
      dsimp only [Option.elim_some]
      rw [exec_tryCatch, ← calls]
      obtain ⟨e | u, s'⟩ := (repairDomain env status domain).exec s
      · exact calls_catchException e
      · rfl
  · rw [when_of_not domainCheck, if_neg domainCheck]
    exact (List.append_nil s.calls).symm

theorem calls_forEach_repairCheck (checks : List FailedCheck) : ∃ handled, handled <+: checks ∧
    ((forEach checks (repairCheck env status)).exec s).2.calls =
      s.calls ++ (handled.filterMap FailedCheck.failingDomain).flatMap
        (performed env status) := by
  induction checks generalizing s with
  | nil => exact ⟨[], List.prefix_rfl, (List.append_nil s.calls).symm⟩
  | cons check rest ih =>
    have first : ((repairCheck env status check).exec s).2.calls = _ := calls_repairCheck check
    have single : ∀ handled : List FailedCheck,
        ((check :: handled).filterMap FailedCheck.failingDomain).flatMap
            (performed env status) =
          check.failingDomain.elim [] (performed env status) ++
            (handled.filterMap FailedCheck.failingDomain).flatMap (performed env status) := by
      intro handled
      cases found : check.failingDomain <;> simp [found]
    rw [forEach]
    generalize ran : (repairCheck env status check).exec s = outcome at first
    obtain ⟨e | u, s₁⟩ := outcome
    · refine ⟨[check], by simp, ?_⟩
      rw [exec_bind_of_error ran, first, single []]
      simp
    · obtain ⟨handled, isPrefix, calls⟩ : ∃ handled, handled <+: rest ∧
          ((forEach rest (repairCheck env status)).exec s₁).2.calls = _ := ih
      refine ⟨check :: handled, List.cons_prefix_cons.mpr ⟨rfl, isPrefix⟩, ?_⟩
      rw [exec_bind_of_ok ran, calls, first, single, List.append_assoc]

/-! ## What each domain should get -/

def intended (env : RepairEnvironment) (status : Status) (domain : List Char) : List Call :=
  if HasCertificate status domain then reobtaining domain else obtaining env domain

def Repairs (env : RepairEnvironment) (failedChecks : List FailedCheck) (s : RepairState) : Prop :=
  ∀ status, env.getStatus = .ok status →
    ((repair env failedChecks).exec s).2.calls =
      s.calls ++ (failedChecks.filterMap FailedCheck.failingDomain).flatMap (intended env status)

theorem performed_of_hasCertificate {domain : List Char} (has : HasCertificate status domain) :
    performed env status domain = obtaining env domain := by
  obtain ⟨domainStatus, listed, _⟩ := id has
  have available := (hasCertificate_iff listed).mp has
  unfold performed
  rw [listed]
  exact if_pos available

theorem performed_of_no_certificate {domain : List Char} (has : ¬ HasCertificate status domain) :
    performed env status domain = reobtaining domain ∨ performed env status domain = [] := by
  unfold performed
  cases listed : status.domains.get? domain with
  | none => exact .inr rfl
  | some domainStatus => exact .inl (if_neg (mt (hasCertificate_iff listed).mpr has))

theorem inverted {domain other : List Char} :
    (.certificateObtain other ∈ performed env status domain → HasCertificate status other) ∧
      (.certificateReobtain other ∈ performed env status domain →
        ¬ HasCertificate status other) := by
  by_cases has : HasCertificate status domain
  · rw [performed_of_hasCertificate has, obtaining]
    constructor
    · intro member
      have same : other = domain := by
        cases obtained : env.obtain domain <;> simpa [obtained] using member
      exact same ▸ has
    · intro member
      cases obtained : env.obtain domain <;> simp [obtained] at member
  · have cases_of : performed env status domain = _ ∨ _ := performed_of_no_certificate has
    rcases cases_of with calls | calls
    · rw [calls, reobtaining]
      constructor
      · intro member
        simp at member
      · intro member
        have same : other = domain := by simpa using member
        exact same ▸ has
    · simp [calls]

theorem mem_intended (domain : List Char) :
    (HasCertificate status domain → .certificateReobtain domain ∈ intended env status domain) ∧
      (¬ HasCertificate status domain →
        .certificateObtain domain ∈ intended env status domain) := by
  constructor
  · intro has
    rw [intended, if_pos has]
    exact List.mem_cons_self
  · intro has
    rw [intended, if_neg has]
    exact List.mem_append_left _ List.mem_cons_self

theorem calls_repair {failedChecks : List FailedCheck} (known : env.getStatus = .ok status) :
    ((repair env failedChecks).exec s).2.calls =
      ((forEach failedChecks (repairCheck env status)).exec s).2.calls := by
  unfold repair
  rw [known, exec_bind_of_ok (exec_lift _ s), exec_bind]
  obtain ⟨e | u, s'⟩ := (forEach failedChecks (repairCheck env status)).exec s
  · rfl
  · dsimp only
    rw [exec_lift]

/-- The repair is right exactly when there is nothing to repair: no failed check of a domain, or no
status to go by. -/
theorem repairs_iff (failedChecks : List FailedCheck) : Repairs env failedChecks s ↔
    (∃ e, env.getStatus = .error e) ∨ ∀ check ∈ failedChecks, check.failingDomain = none := by
  constructor
  · intro repairs
    cases known : env.getStatus with
    | error e => exact .inl ⟨e, rfl⟩
    | ok status =>
      refine .inr fun check listed => ?_
      obtain ⟨handled, _, calls⟩ : ∃ handled, handled <+: failedChecks ∧
          ((forEach failedChecks (repairCheck env status)).exec s).2.calls = _ :=
        calls_forEach_repairCheck failedChecks
      rw [← calls_repair known, repairs status known, List.append_cancel_left_eq] at calls
      cases failing : check.failingDomain with
      | none => rfl
      | some domain =>
        have mentioned : domain ∈ failedChecks.filterMap FailedCheck.failingDomain :=
          List.mem_filterMap.mpr ⟨check, listed, failing⟩
        have made : ∀ c ∈ intended env status domain,
            ∃ other, c ∈ performed env status other := by
          intro c member
          have called := List.mem_flatMap.mpr ⟨domain, mentioned, member⟩
          rw [calls] at called
          obtain ⟨other, _, found⟩ := List.mem_flatMap.mp called
          exact ⟨other, found⟩
        by_cases has : HasCertificate status domain
        · obtain ⟨other, found⟩ := made _ ((mem_intended domain).1 has)
          exact absurd has (inverted.2 found)
        · obtain ⟨other, found⟩ := made _ ((mem_intended domain).2 has)
          exact absurd (inverted.1 found) has
  · rintro (⟨e, unknown⟩ | nothing) status known
    · rw [unknown] at known
      cases known
    · obtain ⟨handled, isPrefix, calls⟩ : ∃ handled, handled <+: failedChecks ∧
          ((forEach failedChecks (repairCheck env status)).exec s).2.calls = _ :=
        calls_forEach_repairCheck failedChecks
      have none_failing : ∀ checks ⊆ failedChecks,
          checks.filterMap FailedCheck.failingDomain = [] := fun checks within =>
        List.filterMap_eq_nil_iff.mpr fun check listed => nothing check (within listed)
      rw [calls_repair known, calls, none_failing handled isPrefix.subset,
        none_failing failedChecks (List.Subset.refl _)]
      rfl

def oneNewDomain : RepairEnvironment where
  getStatus := .ok ⟨⟨[("example.org".toList, none)], by decide⟩, by simp⟩
  obtain _ := .ok ()
  appRepair _ := .ok false

theorem new_domain_is_reobtained : ¬ Repairs oneNewDomain
    [⟨"letsencrypt-domain-example.org".toList, some "example.org".toList⟩] ⟨[], []⟩ := by
  intro repairs
  have calls := repairs _ rfl
  revert calls
  decide +kernel

end Plinth.LetsEncrypt
