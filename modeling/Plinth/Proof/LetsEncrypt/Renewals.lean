import Plinth.Proof.LetsEncrypt.Events

/-! # Renewals that were missed -/

namespace Plinth.LetsEncrypt

open Effect Python Exception Pathlib

variable {env : Environment} {s s' : System}

/-! ## Lineages -/

theorem path_of_isPart {domain : List Char} (isPart : IsPart domain) :
    (path domain).root = [] ∧ (path domain).parts = [domain] := by
  have joined : ['/'].intercalate [domain] = domain := by simp
  have all : ∀ part ∈ [domain], IsPart part := by simpa using isPart
  have first := PurePath.head_intercalate_parts all
  have split := PurePath.splitOn_intercalate_parts all
  rw [joined] at first split
  exact ⟨(Os.initialSlashes_eq_nil_iff domain).mpr first, split⟩

theorem path_liveLineage (domain : List Char) :
    path (liveLineage domain) = (path liveDirectory).join (path domain) :=
  PurePath.path_text _

theorem lineageKey_liveLineage (domain : List Char) :
    lineageKey (liveLineage domain) = liveLineage domain := by
  rw [lineageKey, path_liveLineage]
  rfl

theorem name_liveLineage {domain : List Char} (isPart : IsPart domain) :
    (path (liveLineage domain)).name = domain := by
  obtain ⟨root, parts⟩ := path_of_isPart isPart
  rw [path_liveLineage, PurePath.name, PurePath.join]
  dsimp only
  rw [if_pos root, parts, List.getLast?_append]
  rfl

theorem liveLineage_injective {domain other : List Char} (isPart : IsPart domain)
    (otherIsPart : IsPart other) (same : liveLineage domain = liveLineage other) :
    domain = other := by
  rw [← name_liveLineage isPart, same, name_liveLineage otherIsPart]

theorem lineageOf_liveLineage (domains : List (List Char)) (domain : List Char) :
    lineageOf domains (some (liveLineage domain)) = .ok (liveLineage domain) := by
  have nonempty : decide (liveLineage domain ≠ []) = true :=
    decide_eq_true (PurePath.text_ne_nil _)
  unfold lineageOf
  rw [Option.filter_some, if_pos nonempty]

/-! ## What is due -/

def IsDue (s : System) (domainStatus : DomainStatus) : Prop :=
  certificateGetLastSeenModifiedTime s domainStatus.lineage < domainStatus.modifiedTime

instance (s : System) : DecidablePred (IsDue s) := fun _ => inferInstanceAs (Decidable (_ < _))

def dueEntry (s : System) (entry : List Char × Option DomainStatus) :
    Option (List Char × DomainStatus) :=
  (entry.2.filter (IsDue s ·)).map fun domainStatus => (entry.1, domainStatus)

def due (s : System) (entries : List (List Char × Option DomainStatus)) :
    List (List Char × DomainStatus) :=
  entries.filterMap (dueEntry s)

def renewal (renewed : List Char × DomainStatus) :
    Event × List (List Char) × Option (List Char) :=
  (.renewed, Text.words renewed.1, some renewed.2.lineage)

theorem mem_due_iff {entries : List (List Char × Option DomainStatus)} {domain : List Char}
    {domainStatus : DomainStatus} : (domain, domainStatus) ∈ due s entries ↔
      (domain, some domainStatus) ∈ entries ∧ IsDue s domainStatus := by
  simp only [due, dueEntry, List.mem_filterMap, Option.map_eq_some_iff, Option.filter_eq_some_iff,
    decide_eq_true_eq, Prod.mk.injEq]
  constructor
  · rintro ⟨⟨_, found⟩, member, _, ⟨rfl, isDue⟩, rfl, rfl⟩
    exact ⟨member, isDue⟩
  · intro ⟨member, isDue⟩
    exact ⟨_, member, _, ⟨rfl, isDue⟩, rfl, rfl⟩

def Completes (env : Environment) (renewed : List Char × DomainStatus) : Prop :=
  env.components.findSome?
      (stoppedBy env .renewed (Text.words renewed.1) renewed.2.lineage) = none ∧
    ∃ time, env.getModifiedTime renewed.1 = .ok time ∧ renewed.2.modifiedTime ≤ time

/-! ## One entry of the status -/

inductive Reported (env : Environment) (renewed : List Char × DomainStatus) (s : System) :
    Except Exception Unit × System → Prop
  | recorded (s' : System) (time : Int)
      (completes : env.components.findSome?
        (stoppedBy env .renewed (Text.words renewed.1) renewed.2.lineage) = none)
      (read : env.getModifiedTime renewed.1 = .ok time)
      (sent : s'.events = s.events ++ [renewal renewed])
      (times : s'.lastSeenModifiedTime = s.lastSeenModifiedTime.set renewed.2.lineage time) :
      Reported env renewed s (.ok (), s')
  | raised (e : Exception) (s' : System) (incomplete : ¬ Completes env renewed)
      (sent : s'.events = s.events ++ [renewal renewed])
      (times : s'.lastSeenModifiedTime = s.lastSeenModifiedTime) :
      Reported env renewed s (.error e, s')

def Live (entry : List Char × Option DomainStatus) : Prop :=
  ∀ domainStatus, entry.2 = some domainStatus →
    IsPart entry.1 ∧ domainStatus.lineage = liveLineage entry.1

theorem exec_handleModified_of_not_due {entry : List Char × Option DomainStatus}
    (not_due : dueEntry s entry = none) : (handleModified env entry).exec s = (.ok (), s) := by
  obtain ⟨domain, found⟩ := entry
  cases found with
  | none => rfl
  | some domainStatus =>
    have seen : ¬ IsDue s domainStatus := by simpa [dueEntry] using not_due
    unfold handleModified
    dsimp only
    unfold IsDue at seen
    rw [exec_bind_of_ok (exec_get s), when_of_not seen]
    rfl

theorem reported_handleModified {entry : List Char × Option DomainStatus}
    {renewed : List Char × DomainStatus} (live : Live entry)
    (isDue : dueEntry s entry = some renewed) :
    Reported env renewed s ((handleModified env entry).exec s) := by
  obtain ⟨domain, found⟩ := entry
  cases found with
  | none => cases isDue
  | some domainStatus =>
    obtain ⟨newer, rfl⟩ : IsDue s domainStatus ∧ (domain, domainStatus) = renewed := by
      simpa [dueEntry] using isDue
    obtain ⟨isPart, lineage⟩ := live domainStatus rfl
    have known := lineageOf_liveLineage (Text.words domain) domain
    have name := name_liveLineage isPart
    have key := lineageKey_liveLineage domain
    dsimp only at lineage name
    rw [← lineage] at known name key
    unfold handleModified
    dsimp only
    unfold IsDue at newer
    rw [exec_bind_of_ok (exec_get s), when_of newer]
    cases stopped : env.components.findSome?
        (stoppedBy env .renewed (Text.words domain) domainStatus.lineage) with
    | some e =>
      rw [exec_onCertificateEventSync_of_stopped known stopped]
      refine .raised e _ (fun ⟨completes, _⟩ => ?_) rfl rfl
      rw [stopped] at completes
      cases completes
    | none =>
      rw [exec_onCertificateEventSync_of_completes known stopped, when_of (.inr rfl),
        exec_certificateSetLastSeenModifiedTime, name]
      cases read : env.getModifiedTime domain with
      | error e =>
        refine .raised e _ (fun ⟨_, time, found, _⟩ => ?_) rfl rfl
        rw [read] at found
        cases found
      | ok time =>
        refine .recorded _ time stopped read rfl ?_
        rw [System.record, key]
        rfl

/-! ## The whole status -/

theorem dueEntry_congr {entry : List Char × Option DomainStatus}
    (same : ∀ domainStatus, entry.2 = some domainStatus →
      s'.lastSeenModifiedTime.get? domainStatus.lineage =
        s.lastSeenModifiedTime.get? domainStatus.lineage) :
    dueEntry s' entry = dueEntry s entry := by
  obtain ⟨domain, found⟩ := entry
  cases found with
  | none => rfl
  | some domainStatus =>
    have iff : IsDue s' domainStatus ↔ IsDue s domainStatus := by
      rw [IsDue, IsDue, certificateGetLastSeenModifiedTime, certificateGetLastSeenModifiedTime,
        same domainStatus rfl]
    rw [dueEntry, dueEntry, Option.filter_some, Option.filter_some, decide_eq_decide.mpr iff]

theorem eq_of_dueEntry {entry : List Char × Option DomainStatus}
    {renewed : List Char × DomainStatus} (isDue : dueEntry s entry = some renewed) :
    entry = (renewed.1, some renewed.2) := by
  obtain ⟨domain, found⟩ := entry
  cases found with
  | none => cases isDue
  | some domainStatus =>
    obtain ⟨_, rfl⟩ : IsDue s domainStatus ∧ (domain, domainStatus) = renewed := by
      simpa [dueEntry] using isDue
    rfl

theorem due_cons_of_not_due {entry : List Char × Option DomainStatus}
    (not_due : dueEntry s entry = none) (entries : List (List Char × Option DomainStatus)) :
    due s (entry :: entries) = due s entries :=
  List.filterMap_cons_none not_due

theorem due_cons_of_due {entry : List Char × Option DomainStatus}
    {renewed : List Char × DomainStatus} (isDue : dueEntry s entry = some renewed)
    (entries : List (List Char × Option DomainStatus)) :
    due s (entry :: entries) = renewed :: due s entries :=
  List.filterMap_cons_some isDue

theorem live_of_mem_due {entries : List (List Char × Option DomainStatus)}
    (live : ∀ entry ∈ entries, Live entry) {renewed : List Char × DomainStatus}
    (member : renewed ∈ due s entries) :
    IsPart renewed.1 ∧ renewed.2.lineage = liveLineage renewed.1 :=
  live _ (mem_due_iff.mp member).1 renewed.2 rfl

theorem domain_eq_of_lineage_eq {entries : List (List Char × Option DomainStatus)}
    (live : ∀ entry ∈ entries, Live entry) {renewed other : List Char × DomainStatus}
    (member : renewed ∈ due s entries) (otherMember : other ∈ due s' entries)
    (same : renewed.2.lineage = other.2.lineage) : renewed.1 = other.1 := by
  obtain ⟨isPart, lineage⟩ := live_of_mem_due live member
  obtain ⟨otherIsPart, otherLineage⟩ := live_of_mem_due live otherMember
  rw [lineage, otherLineage] at same
  exact liveLineage_injective isPart otherIsPart same

structure Ran (env : Environment) (s s' : System) (done rest : List (List Char × DomainStatus)) :
    Prop where
  sent : s'.events = s.events ++ (done ++ rest.take 1).map renewal
  completes : ∀ renewed ∈ done, env.components.findSome?
    (stoppedBy env .renewed (Text.words renewed.1) renewed.2.lineage) = none
  recorded : ∀ renewed ∈ done, ∃ time, env.getModifiedTime renewed.1 = .ok time ∧
    s'.lastSeenModifiedTime.get? renewed.2.lineage = some time
  raises : ∀ renewed ∈ rest.head?, ¬ Completes env renewed
  kept : ∀ lineage, (∀ renewed ∈ done, renewed.2.lineage ≠ lineage) →
    s'.lastSeenModifiedTime.get? lineage = s.lastSeenModifiedTime.get? lineage

theorem ran_forEach_handleModified {entries : List (List Char × Option DomainStatus)}
    (live : ∀ entry ∈ entries, Live entry) (distinct : (entries.map Prod.fst).Nodup) :
    ∃ done rest, due s entries = done ++ rest ∧
      Ran env s ((forEach entries (handleModified env)).exec s).2 done rest := by
  induction entries generalizing s with
  | nil => exact ⟨[], [], rfl, by simp [forEach], by simp, by simp, by simp, fun _ _ => rfl⟩
  | cons entry rest ih =>
    obtain ⟨headLive, restLive⟩ := List.forall_mem_cons.mp live
    obtain ⟨fresh, restDistinct⟩ := List.nodup_cons.mp distinct
    rw [forEach]
    cases isDue : dueEntry s entry with
    | none =>
      rw [due_cons_of_not_due isDue]
      rw [exec_bind_of_ok (exec_handleModified_of_not_due isDue)]
      exact ih restLive restDistinct
    | some renewed =>
      obtain rfl := eq_of_dueEntry isDue
      have elsewhere : ∀ entry ∈ rest, ∀ domainStatus, entry.2 = some domainStatus →
          domainStatus.lineage ≠ renewed.2.lineage := by
        intro entry member domainStatus found same
        obtain ⟨otherIsPart, otherLineage⟩ := restLive entry member domainStatus found
        obtain ⟨isPart, lineage⟩ := headLive renewed.2 rfl
        rw [otherLineage, lineage] at same
        have sameDomain := liveLineage_injective otherIsPart isPart same
        exact fresh (sameDomain ▸ List.mem_map_of_mem member)
      rw [due_cons_of_due isDue]
      have reported : Reported env renewed s _ := reported_handleModified headLive isDue
      generalize ran : (handleModified env _).exec s = ended at reported
      cases reported with
      | raised e s₁ incomplete sent times =>
        rw [exec_bind_of_error ran]
        refine ⟨[], _, rfl, ⟨sent, by simp, by simp, ?_, fun lineage _ => ?_⟩⟩
        · simpa using incomplete
        · rw [times]
      | recorded s₁ time completes read sent times =>
        have sameDue : due s₁ rest = due s rest := by
          apply List.filterMap_congr
          intro entry member
          apply dueEntry_congr
          intro domainStatus found
          rw [times, OrderedDict.get?_set, if_neg (elsewhere entry member domainStatus found)]
        obtain ⟨done, later, split, ended⟩ :
            ∃ done later, due s₁ rest = done ++ later ∧ Ran env s₁ _ done later :=
          ih restLive restDistinct
        rw [exec_bind_of_ok ran]
        refine ⟨renewed :: done, later, ?_, ?_⟩
        · rw [← sameDue, split]
          rfl
        · have doneElsewhere : ∀ other ∈ done, other.2.lineage ≠ renewed.2.lineage := by
            intro other member
            have listed : other ∈ due s₁ rest := split ▸ List.mem_append_left later member
            exact elsewhere _ (mem_due_iff.mp listed).1 other.2 rfl
          constructor
          · rw [ended.sent, sent]
            simp
          · exact List.forall_mem_cons.mpr ⟨completes, ended.completes⟩
          · refine List.forall_mem_cons.mpr ⟨⟨time, read, ?_⟩, ended.recorded⟩
            rw [ended.kept _ doneElsewhere, times, OrderedDict.get?_set_self]
          · exact ended.raises
          · intro lineage other
            obtain ⟨notHead, notDone⟩ := List.forall_mem_cons.mp other
            rw [ended.kept lineage notDone, times, OrderedDict.get?_set, if_neg (Ne.symm notHead)]

/-! ## Each renewal is reported once -/

structure Reports (env : Environment) (status : Status) (s : System) : Prop where
  sent : ((certificateHandleModifiedInternal env status).exec s).2.events =
    s.events ++ (due s status.domains.entries).map renewal
  recorded : ∀ renewed ∈ due s status.domains.entries,
    ∃ time, env.getModifiedTime renewed.1 = .ok time ∧
      ((certificateHandleModifiedInternal env status).exec s).2.lastSeenModifiedTime.get?
        renewed.2.lineage = some time
  kept : ∀ lineage, (∀ renewed ∈ due s status.domains.entries, renewed.2.lineage ≠ lineage) →
    ((certificateHandleModifiedInternal env status).exec s).2.lastSeenModifiedTime.get? lineage =
      s.lastSeenModifiedTime.get? lineage
  settled : ((certificateHandleModifiedInternal env status).exec
      ((certificateHandleModifiedInternal env status).exec s).2).2.events =
    ((certificateHandleModifiedInternal env status).exec s).2.events

theorem due_eq_nil_of_silent {done rest : List (List Char × DomainStatus)}
    (ran : Ran env s s' done rest) (silent : s'.events = s.events) : done ++ rest = [] := by
  have nothing : (done ++ rest.take 1).map renewal = [] :=
    List.append_right_eq_self.mp (ran.sent.symm.trans silent)
  cases done with
  | cons first others => cases nothing
  | nil =>
    cases rest with
    | cons first others => cases nothing
    | nil => rfl

theorem isDue_of_get?_eq {domainStatus : DomainStatus}
    (same : s'.lastSeenModifiedTime.get? domainStatus.lineage =
      s.lastSeenModifiedTime.get? domainStatus.lineage)
    (isDue : IsDue s domainStatus) : IsDue s' domainStatus := by
  unfold IsDue certificateGetLastSeenModifiedTime at *
  rw [same]
  exact isDue

theorem domains_due_nodup {entries : List (List Char × Option DomainStatus)}
    (distinct : (entries.map Prod.fst).Nodup) : ((due s entries).map Prod.fst).Nodup := by
  refine distinct.sublist ?_
  induction entries with
  | nil => exact List.Sublist.refl []
  | cons entry rest ih =>
    have tail := ih (List.nodup_cons.mp distinct).2
    cases isDue : dueEntry s entry with
    | none =>
      rw [due_cons_of_not_due isDue]
      exact tail.cons _
    | some renewed =>
      rw [due_cons_of_due isDue, eq_of_dueEntry isDue]
      exact tail.cons_cons _

section Status

variable {status : Status} {done rest : List (List Char × DomainStatus)}

theorem Status.live_entries (status : Status) : ∀ entry ∈ status.domains.entries, Live entry := by
  intro entry member domainStatus found
  exact status.live entry.1 domainStatus (found ▸ member)

theorem completes_of_due_eq_nil (split : due s status.domains.entries = done ++ rest)
    (ran : Ran env s s' done rest) (nothing : due s' status.domains.entries = []) :
    ∀ renewed ∈ due s status.domains.entries, Completes env renewed := by
  have not_due : ∀ renewed ∈ due s status.domains.entries, ¬ IsDue s' renewed.2 := by
    intro renewed member isDue
    have again : renewed ∈ due s' status.domains.entries :=
      mem_due_iff.mpr ⟨(mem_due_iff.mp member).1, isDue⟩
    rw [nothing] at again
    cases again
  have ended : rest = [] := by
    cases rest with
    | nil => rfl
    | cons first others =>
      have member : first ∈ due s status.domains.entries := by simp [split]
      have distinct : ((due s _).map Prod.fst).Nodup := domains_due_nodup status.domains.nodup
      rw [split, List.map_append, List.nodup_append] at distinct
      have notDone : ∀ renewed ∈ done, renewed.2.lineage ≠ first.2.lineage := by
        intro renewed listed same
        have earlier : renewed ∈ due s status.domains.entries := by simp [split, listed]
        have sameDomain := domain_eq_of_lineage_eq status.live_entries earlier member same
        exact distinct.2.2 _ (List.mem_map_of_mem listed) _ List.mem_cons_self sameDomain
      have isDue := (mem_due_iff.mp member).2
      exact absurd (isDue_of_get?_eq (ran.kept _ notDone) isDue) (not_due first member)
  intro renewed member
  have listed : renewed ∈ done := by simpa [split, ended] using member
  obtain ⟨time, read, recorded⟩ := ran.recorded renewed listed
  refine ⟨ran.completes renewed listed, time, read, ?_⟩
  have seen := not_due renewed member
  unfold IsDue certificateGetLastSeenModifiedTime at seen
  rw [recorded] at seen
  exact Int.not_lt.mp seen

theorem due_eq_nil_of_completes (split : due s status.domains.entries = done)
    (ran : Ran env s s' done []) (completes : ∀ renewed ∈ done, Completes env renewed) :
    due s' status.domains.entries = [] := by
  refine List.eq_nil_iff_forall_not_mem.mpr fun renewed member => ?_
  obtain ⟨listed, isDue⟩ := mem_due_iff.mp member
  by_cases reported : renewed ∈ done
  · obtain ⟨time, read, recorded⟩ := ran.recorded renewed reported
    obtain ⟨_, time', read', newer⟩ := completes renewed reported
    obtain rfl : time = time' := Except.ok.inj (read.symm.trans read')
    unfold IsDue certificateGetLastSeenModifiedTime at isDue
    rw [recorded] at isDue
    exact absurd isDue (Int.not_lt.mpr newer)
  · have elsewhere : ∀ other ∈ done, other.2.lineage ≠ renewed.2.lineage := by
      intro other otherReported same
      have otherMember : other ∈ due s status.domains.entries := split ▸ otherReported
      have sameDomain := domain_eq_of_lineage_eq status.live_entries otherMember member same
      have first := (OrderedDict.get?_eq_some_iff _ _ _).mpr (mem_due_iff.mp otherMember).1
      have second := (OrderedDict.get?_eq_some_iff _ _ _).mpr listed
      rw [sameDomain, second] at first
      obtain ⟨domain, domainStatus⟩ := renewed
      obtain ⟨otherDomain, otherStatus⟩ := other
      cases sameDomain
      cases first
      exact reported otherReported
    refine reported (split ▸ mem_due_iff.mpr ⟨listed, ?_⟩)
    exact isDue_of_get?_eq (ran.kept _ elsewhere).symm isDue

end Status

/-- Every renewal is reported and recorded, once, exactly when no component ends the event of any
of them and the time that is read for each is not older than the status. -/
theorem reports_iff (status : Status) : Reports env status s ↔
    ∀ renewed ∈ due s status.domains.entries, Completes env renewed := by
  obtain ⟨done, rest, split, ran⟩ : ∃ done rest, due s status.domains.entries = done ++ rest ∧
      Ran env s ((certificateHandleModifiedInternal env status).exec s).2 done rest :=
    ran_forEach_handleModified status.live_entries status.domains.nodup
  obtain ⟨done', rest', split', ran'⟩ :
      ∃ done rest, due ((certificateHandleModifiedInternal env status).exec s).2
          status.domains.entries = done ++ rest ∧
        Ran env _ ((certificateHandleModifiedInternal env status).exec
          ((certificateHandleModifiedInternal env status).exec s).2).2 done rest :=
    ran_forEach_handleModified status.live_entries status.domains.nodup
  constructor
  · intro reports
    have nothing := due_eq_nil_of_silent ran' reports.settled
    exact completes_of_due_eq_nil split ran (split'.trans nothing)
  · intro completes
    obtain rfl : rest = [] := by
      cases rest with
      | nil => rfl
      | cons first others =>
        exact absurd (completes first (by simp [split])) (ran.raises first rfl)
    rw [List.append_nil] at split
    have nothing := due_eq_nil_of_completes split ran (split ▸ completes)
    obtain ⟨rfl, rfl⟩ := List.append_eq_nil_iff.mp (split'.symm.trans nothing)
    refine ⟨?_, split ▸ ran.recorded, split ▸ ran.kept, ?_⟩
    · rw [ran.sent, split, List.take_nil, List.append_nil]
    · exact ran'.sent.trans (List.append_nil _)

theorem live_of_isPart {domains : List (List Char)} (isPart : ∀ domain ∈ domains, IsPart domain)
    (time : Int) : ∀ domain domainStatus,
      (domain, some domainStatus) ∈ domains.map (fun domain =>
        (domain, some (⟨true, liveLineage domain, time⟩ : DomainStatus))) →
      IsPart domain ∧ domainStatus.lineage = liveLineage domain := by
  intro domain domainStatus member
  obtain ⟨listed, found, same⟩ := List.mem_map.mp member
  cases same
  exact ⟨isPart domain found, rfl⟩

def twoRenewals : Status where
  domains := ⟨["a.org".toList, "b.org".toList].map fun domain =>
    (domain, some ⟨true, liveLineage domain, 1⟩), by decide⟩
  live := live_of_isPart (by decide) 1

theorem second_renewal_is_not_reported :
    ¬ Reports removedApp twoRenewals ⟨OrderedDict.empty, [], []⟩ := by
  intro reports
  have sent := congrArg List.length reports.sent
  revert sent
  decide +kernel

end Plinth.LetsEncrypt
