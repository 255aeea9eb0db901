import Mathlib.Data.List.Perm.Subperm
import Plinth.Proof.Backups.Schedule.Retention
import Plinth.Proof.Backups.Schedule.Spacing

/-! # What a trigger prepares and cleans up -/

namespace Plinth.Backups.Schedule

open Calendar Effect Python Exception Repository

variable {trigger : Trigger}

/-! ## Calls that follow each other -/

def Passes (trigger : Trigger) : List RepositoryCall → List RepositoryCall → Prop
  | _, [] => True
  | past, call :: rest => trigger.fault past call = none ∧ Passes trigger (past ++ [call]) rest

theorem passes_append {past calls calls' : List RepositoryCall} :
    Passes trigger past (calls ++ calls') ↔
      Passes trigger past calls ∧ Passes trigger (past ++ calls) calls' := by
  induction calls generalizing past with
  | nil => simp [Passes]
  | cons call calls ih => simp [Passes, ih, and_assoc]

theorem perform_returns_iff {call : RepositoryCall} {work : Repository → Repository}
    {s s' : Repository} {u : Unit} :
    (perform trigger call work).exec s = (.ok u, s') ↔
      trigger.fault s.calls call = none ∧ s' = work (record call s) := by
  rw [exec_perform]
  rcases trigger.fault s.calls call with _ | ⟨_ | _, e⟩ <;> simp [eq_comm]

theorem listScheduledArchives_returns_iff {s s' : Repository} {entries : List ScheduledArchive} :
    (listScheduledArchives trigger).exec s = (.ok entries, s') ↔
      trigger.fault s.calls .listArchives = none ∧
        scheduledArchives trigger.now s.sorted = .ok entries ∧ s' = record .listArchives s := by
  rw [exec_listScheduledArchives]
  rcases trigger.fault s.calls .listArchives with _ | ⟨_, e⟩ <;> simp [eq_comm]

theorem getRecentBackupTimes_returns_iff {s s' : Repository} {times : Times} :
    (getRecentBackupTimes trigger).exec s = (.ok times, s') ↔
      trigger.fault s.calls .listArchives = none ∧
        lastBackups trigger.now s = .ok times ∧ s' = record .listArchives s := by
  rw [exec_getRecentBackupTimes]
  rcases trigger.fault s.calls .listArchives with _ | ⟨_, e⟩ <;> simp [eq_comm]

def opening (self : Schedule) : List RepositoryCall :=
  [.getInstance self.repositoryUuid, .prepare]

def preparing (self : Schedule) : List RepositoryCall :=
  self.opening ++ [.listArchives]

theorem recentBackups_returns_iff {self : Schedule} {s s' : Repository} {times : Times} :
    (self.recentBackups trigger).exec s = (.ok times, s') ↔
      Passes trigger s.calls self.preparing ∧ lastBackups trigger.now s = .ok times ∧
        s' = afterCalls self.preparing s := by
  have same : record .listArchives (record .prepare
      (record (.getInstance self.repositoryUuid) s)) = afterCalls self.preparing s := by
    simp [record, afterCalls, preparing, opening]
  simp only [recentBackups, exec_bind_eq_ok_iff, perform_returns_iff,
    getRecentBackupTimes_returns_iff]
  constructor
  · rintro ⟨_, _, ⟨got, rfl⟩, _, _, ⟨prepared, rfl⟩, listed, recent, rfl⟩
    exact ⟨⟨got, prepared, listed, trivial⟩, recent, same⟩
  · rintro ⟨⟨got, prepared, listed, -⟩, recent, rfl⟩
    exact ⟨(), _, ⟨got, rfl⟩, (), _, ⟨prepared, rfl⟩, listed, recent, same.symm⟩

/-! ## The backup -/

def backup (trigger : Trigger) (periods : List Period) (comment : String) : Archive :=
  ⟨scheduledName (Period.sorted.filter (· ∈ periods)) trigger.archiveName,
    trigger.storedComment comment, trigger.now⟩

def creating (self : Schedule) (trigger : Trigger) (periods : List Period) (comment : String) :
    List RepositoryCall :=
  [.getInstance self.repositoryUuid, .createArchive (backup trigger periods comment).name
    (trigger.appIds.filter (· ∉ self.unselectedApps)) comment]

def backupText (periods : List Period) : Except Exception String :=
  serializeComment (backupComment (Period.sorted.filter (· ∈ periods)))

theorem addNew_of_free {archive : Archive} {s : Repository}
    (free : archive.name ∉ s.archives.map (·.name)) : addNew archive s = s.add archive free :=
  dif_pos free

theorem createArchive_returns_iff {name comment : String} {appIds : List String}
    {s s' : Repository} {u : Unit} :
    (createArchive trigger name appIds comment).exec s = (.ok u, s') ↔
      name ∉ s.archives.map (·.name) ∧
        trigger.fault s.calls (.createArchive name appIds comment) = none ∧
        s' = addNew ⟨name, trigger.storedComment comment, trigger.now⟩
          (record (.createArchive name appIds comment) s) := by
  simp only [createArchive, exec_bind_eq_ok_iff, exec_get, perform_returns_iff]
  by_cases taken : name ∈ s.archives.map (·.name)
  · refine iff_of_false ?_ fun h => h.1 taken
    rintro ⟨_, _, read, -, s₂, -, raised⟩
    cases read
    rw [when_of taken, exec_throw] at raised
    cases congrArg Prod.fst raised
  · constructor
    · rintro ⟨_, _, read, -, _, ⟨passed, rfl⟩, returned⟩
      cases read
      rw [when_of_not taken] at returned
      exact ⟨taken, passed, (congrArg Prod.snd returned).symm⟩
    · rintro ⟨-, passed, rfl⟩
      refine ⟨s, s, rfl, (), _, ⟨passed, rfl⟩, ?_⟩
      rw [when_of_not taken]
      rfl

theorem runBackup_returns_iff {self : Schedule} {periods : List Period} {s s' : Repository}
    {u : Unit} :
    (self.runBackup trigger periods).exec s = (.ok u, s') ↔
      ∃ comment, backupText periods = .ok comment ∧
        (backup trigger periods comment).name ∉ s.archives.map (·.name) ∧
        Passes trigger s.calls (self.creating trigger periods comment) ∧
        s' = addNew (backup trigger periods comment)
          (afterCalls (self.creating trigger periods comment) s) := by
  have recorded (comment : String) : record (.createArchive (backup trigger periods comment).name
      (trigger.appIds.filter (· ∉ self.unselectedApps)) comment)
        (record (.getInstance self.repositoryUuid) s) =
      afterCalls (self.creating trigger periods comment) s := by
    simp [record, afterCalls, creating]
  simp only [runBackup, exec_bind_eq_ok_iff, perform_returns_iff, exec_lift,
    createArchive_returns_iff]
  constructor
  · rintro ⟨-, _, ⟨got, rfl⟩, comment, _, serialized, free, created, rfl⟩
    obtain ⟨text, rfl⟩ := Prod.mk.inj serialized
    refine ⟨comment, text, free, ⟨got, created, trivial⟩, ?_⟩
    rw [← recorded]
    rfl
  · rintro ⟨comment, serialized, free, ⟨got, created, -⟩, rfl⟩
    refine ⟨(), _, ⟨got, rfl⟩, comment, _, Prod.ext serialized rfl, free, created, ?_⟩
    rw [← recorded]
    rfl

/-! ## The cleanup -/

theorem cleaned_sublist (self : Schedule) (entries : List ScheduledArchive) (counts : Counts) :
    (self.cleaned entries counts).Sublist (entries.map (·.name)) := by
  induction entries generalizing counts with
  | nil => exact .slnil
  | cons entry rest ih =>
    rw [cleaned]
    split
    · exact (ih _).cons _
    · exact (ih _).cons_cons _

theorem filter_of_sublist {α : Type} [DecidableEq α] {l l' : List α} (sub : l.Sublist l')
    (nodup : l'.Nodup) : l'.filter (· ∈ l) = l := by
  have whole : l.filter (· ∈ l) = l := List.filter_eq_self.mpr fun a member => decide_eq_true member
  have part : l.Sublist (l'.filter (· ∈ l)) := by
    conv => lhs; rw [← whole]
    exact sub.filter _
  have few : (l'.filter (· ∈ l)).Subperm l :=
    (nodup.filter _).subperm fun a member => of_decide_eq_true (List.mem_filter.mp member).2
  exact (part.eq_of_length_le few.length_le).symm

def expiredNames (self : Schedule) (now : DateTime) (s : Repository) : List String :=
  (s.sorted.filter (self.expired now s)).map (·.name)

theorem cleaned_archives (self : Schedule) (now : DateTime) (s : Repository) :
    self.cleaned (s.sorted.filterMap (pastEntry now)) (fun _ => 0) = self.expiredNames now s := by
  have perm : s.sorted.Perm s.archives := List.mergeSort_perm _ _
  have nodup : (s.sorted.map (·.name)).Nodup := (perm.map _).nodup_iff.mpr s.names_nodup
  have some := (cleaned_sublist self (s.sorted.filterMap (pastEntry now)) fun _ => 0).trans
    (names_pastEntry now s.sorted)
  rw [← filter_of_sublist some nodup, expiredNames, List.filter_map]
  congr 1
  apply List.filter_congr
  intro archive member
  rw [Bool.eq_iff_iff, ← mem_cleaned_archives_iff self now s (perm.mem_iff.mp member)]
  exact decide_eq_true_iff

theorem knownPeriods_returns_iff {periods : List Value} {known : List Period} :
    knownPeriods periods = .ok known ↔
      (∀ value ∈ periods, isHashable value = true) ∧ carried periods = known := by
  rw [knownPeriods_eq, ← hash_returns_iff]
  cases periods.forM hash <;> simp [Except.map]

theorem cleanupArchives_returns_iff {self : Schedule} {entries : List ScheduledArchive}
    {counts : Counts} {s : Repository} :
    (∃ s', (self.cleanupArchives trigger entries counts).exec s = (.ok (), s')) ↔
      (∀ entry ∈ entries, ∀ value ∈ entry.periods, isHashable value = true) ∧
        Passes trigger s.calls ((self.cleaned entries counts).map .deleteArchive) := by
  induction entries generalizing counts s with
  | nil => exact iff_of_true ⟨s, rfl⟩ ⟨fun _ member => (List.not_mem_nil member).elim, trivial⟩
  | cons entry rest ih =>
    have step : (∃ s', (self.cleanupArchives trigger (entry :: rest) counts).exec s =
          (.ok (), s')) ↔
        (∀ value ∈ entry.periods, isHashable value = true) ∧
          ∃ s₁, (when (!(carried entry.periods).any fun period =>
              count counts (carried entry.periods) period ≤ self.toKeep period)
                (deleteArchive trigger entry.name)).exec s = (.ok (), s₁) ∧
            ∃ s', (self.cleanupArchives trigger rest
              (count counts (carried entry.periods))).exec s₁ = (.ok (), s') := by
      simp only [cleanupArchives, exec_bind_eq_ok_iff, exec_lift]
      constructor
      · rintro ⟨s', known, _, read, ⟨⟩, s₁, deleted, ran⟩
        obtain ⟨found, rfl⟩ := Prod.mk.inj read
        obtain ⟨hashable, rfl⟩ := knownPeriods_returns_iff.mp found
        exact ⟨hashable, s₁, deleted, s', ran⟩
      · rintro ⟨hashable, s₁, deleted, s', ran⟩
        exact ⟨s', carried entry.periods, s,
          Prod.ext (knownPeriods_returns_iff.mpr ⟨hashable, rfl⟩) rfl, (), s₁, deleted, ran⟩
    rw [step, List.forall_mem_cons, and_assoc]
    refine and_congr_right fun _ => ?_
    simp only [ih, cleaned]
    split
    · rename_i keep
      rw [when_of_not (by simp [keep])]
      simp
    · rename_i delete
      rw [when_of (by simpa using delete)]
      simp only [deleteArchive, perform_returns_iff, List.map_cons, Passes]
      constructor
      · rintro ⟨_, ⟨passed, rfl⟩, hashable, later⟩
        exact ⟨hashable, passed, later⟩
      · rintro ⟨hashable, passed, later⟩
        exact ⟨_, ⟨passed, rfl⟩, hashable, later⟩

def expire (self : Schedule) (trigger : Trigger) : Run Unit := do
  self.cleanupArchives trigger (← listScheduledArchives trigger) fun _ => 0

theorem expire_returns_iff {self : Schedule} {s : Repository}
    (readable : ∀ archive ∈ s.archives, Readable trigger.now archive) :
    (∃ s', (self.expire trigger).exec s = (.ok (), s')) ↔
      Passes trigger s.calls (.listArchives ::
        (self.expiredNames trigger.now s).map .deleteArchive) := by
  have readable' : ∀ archive ∈ s.sorted, Readable trigger.now archive :=
    fun archive listed => readable archive ((List.mergeSort_perm _ _).mem_iff.mp listed)
  have listed := scheduledArchives_eq trigger.now fun archive member =>
    (scheduledPeriods_returns_iff archive.comment).mpr (readable' archive member).read
  have hashable := hashable_of_readable readable'
  rw [← cleaned_archives]
  simp only [expire, exec_bind_eq_ok_iff, listScheduledArchives_returns_iff, listed]
  constructor
  · rintro ⟨s', entries, _, ⟨passed, found, rfl⟩, ran⟩
    obtain rfl := Except.ok.inj found
    exact ⟨passed, (cleanupArchives_returns_iff.mp ⟨s', ran⟩).2⟩
  · rintro ⟨passed, later⟩
    have loop := (cleanupArchives_returns_iff (s := record .listArchives s)).mpr ⟨hashable, later⟩
    obtain ⟨s', ran⟩ := loop
    exact ⟨s', _, _, ⟨passed, rfl, rfl⟩, ran⟩

theorem readable_of_lastBackups {now : DateTime} {s : Repository} {times : Times}
    (recent : lastBackups now s = .ok times) : ∀ archive ∈ s.archives, Readable now archive := by
  obtain ⟨entries, listed, found⟩ := ok_of_bind recent
  refine readable_of_listed listed fun entry member => ?_
  obtain ⟨known, read, -⟩ := (recentTimes_spec found).2 entry member
  exact (knownPeriods_returns_iff.mp read).1

theorem readable_backup {periods : List Period} {comment : String}
    (serialized : backupText periods = .ok comment) :
    Readable trigger.now (backup trigger periods comment) := by
  obtain ⟨text, serialized', found⟩ :=
    serializeComment_backupComment (Period.sorted.filter (· ∈ periods))
  obtain rfl := Except.ok.inj (serialized'.symm.trans serialized)
  have stored : (backup trigger periods (escapeBraces text)).comment = text := trigger.stored text
  refine ⟨(scheduledPeriods_returns_iff _).mp ⟨_, stored ▸ found⟩, ?_⟩
  intro items list loaded type listed _ value member
  have again := (scheduledPeriods_eq_some_iff _ _).mpr ⟨items, loaded, type, listed⟩
  rw [stored, found] at again
  obtain rfl := Option.some.inj (Except.ok.inj again)
  obtain ⟨period, -, rfl⟩ := List.mem_map.mp member
  rfl

/-! ## Before the repository is cleaned up -/

def Unreleased (past : List RepositoryCall) (s : Repository) : Prop :=
  ∃ calls, s.calls = past ++ calls ∧ .cleanup ∉ calls

theorem unreleased_self (s : Repository) : Unreleased s.calls s :=
  ⟨[], (List.append_nil _).symm, List.not_mem_nil⟩

theorem Unreleased.record {past : List RepositoryCall} {call : RepositoryCall} {s : Repository}
    (unreleased : Unreleased past s) (other : .cleanup ≠ call) :
    Unreleased past (record call s) := by
  obtain ⟨calls, same, absent⟩ := unreleased
  refine ⟨calls ++ [call], ?_, ?_⟩
  · rw [Repository.record, same, List.append_assoc]
  · rw [List.mem_append, List.mem_singleton]
    exact fun member => member.elim absent other

section Unreleased

variable {past : List RepositoryCall}

theorem unreleased_perform {call : RepositoryCall} {work : Repository → Repository}
    (other : .cleanup ≠ call) (same : ∀ s, (work s).calls = s.calls) :
    Safe (Unreleased past) (perform trigger call work) := by
  have worked (s : Repository) (holds : Unreleased past s) :
      Unreleased past (work (record call s)) := by
    rw [Unreleased, same]
    exact holds.record other
  exact perform_spec (fun _ _ holds => holds.record other) worked fun _ => worked

theorem unreleased_lift {α : Type} (result : Except Exception α) :
    Safe (Unreleased past) (lift result) := by
  cases result with
  | error e => exact safe_throw e
  | ok a => exact safe_pure a

theorem unreleased_listScheduledArchives :
    Safe (Unreleased past) (listScheduledArchives trigger) := by
  refine Safe.bind (Safe.bind (unreleased_perform (by simp) fun _ => rfl) fun _ => ?_) fun _ =>
    unreleased_lift _
  exact safe_get.bind fun _ => safe_pure _

theorem unreleased_runBackup (self : Schedule) (periods : List Period) :
    Safe (Unreleased past) (self.runBackup trigger periods) := by
  refine Safe.bind (unreleased_perform (by simp) fun _ => rfl) fun _ => ?_
  refine (unreleased_lift _).bind fun comment => safe_get.bind fun s => ?_
  refine Safe.bind (unreleased_perform (by simp) (calls_addNew _)) fun _ => ?_
  exact safe_when fun _ => safe_throw _

theorem unreleased_expire (self : Schedule) : Safe (Unreleased past) (self.expire trigger) := by
  refine unreleased_listScheduledArchives.bind fun entries => ?_
  have any : DeletesOnly self (fun _ => True) entries fun _ => 0 :=
    deletesOnly_of_all self (fun _ _ => trivial) _
  exact cleanupArchives_spec (fun _ _ _ holds => holds) (fun _ _ holds => holds.record (by simp))
    self any

end Unreleased

theorem runCleanup_eq (self : Schedule) :
    self.runCleanup trigger = self.expire trigger >>= fun _ => perform trigger .cleanup id := by
  rw [expire, bind_assoc]
  rfl

def Released (past : List RepositoryCall) (s : Repository) : Prop :=
  ∃ calls, s.calls = past ++ calls ++ [.cleanup] ∧ .cleanup ∉ calls

theorem runCleanup_released {self : Schedule} {past : List RepositoryCall} {s s' : Repository}
    (unreleased : Unreleased past s) (returned : (self.expire trigger).exec s = (.ok (), s')) :
    Released past ((self.runCleanup trigger).exec s).2 := by
  have kept : Unreleased past ((self.expire trigger).exec s).2 :=
    (unreleased_expire self).final unreleased
  rw [returned] at kept
  obtain ⟨calls, same, absent⟩ := kept
  rw [runCleanup_eq, exec_bind, returned]
  dsimp only at same ⊢
  rw [exec_perform_id]
  refine ⟨calls, ?_, absent⟩
  rw [← same]
  rfl

theorem runCleanup_unreleased {self : Schedule} {past : List RepositoryCall} {s : Repository}
    (unreleased : Unreleased past s)
    (raised : ¬ ∃ s', (self.expire trigger).exec s = (.ok (), s')) :
    Unreleased past ((self.runCleanup trigger).exec s).2 := by
  have kept : Unreleased past ((self.expire trigger).exec s).2 :=
    (unreleased_expire self).final unreleased
  rw [runCleanup_eq, exec_bind]
  rcases outcome : (self.expire trigger).exec s with ⟨e | _, s'⟩
  · rw [outcome] at kept
    exact kept
  · exact absurd ⟨s', outcome⟩ raised

/-! ## The whole trigger -/

def Prepares (self : Schedule) (trigger : Trigger) (s : Repository) : Prop :=
  self.enabled = true ∧ Passes trigger s.calls self.opening

theorem unreleased_recentBackups {self : Schedule} {s : Repository}
    (prepares : Prepares self trigger s) :
    Unreleased (s.calls ++ self.opening) ((self.recentBackups trigger).exec s).2 := by
  obtain ⟨-, got, prepared, -⟩ := prepares
  have opened : (afterCalls self.opening s).calls = s.calls ++ self.opening := rfl
  have listing : Safe (Unreleased (s.calls ++ self.opening)) (getRecentBackupTimes trigger) :=
    unreleased_listScheduledArchives.bind fun _ => unreleased_lift _
  have listed := listing.final (opened ▸ unreleased_self (afterCalls self.opening s))
  have same : record .prepare (record (.getInstance self.repositoryUuid) s) =
      afterCalls self.opening s := by
    simp [record, afterCalls, opening]
  have first : (perform trigger (.getInstance self.repositoryUuid) id).exec s =
      (.ok (), record (.getInstance self.repositoryUuid) s) :=
    perform_returns_iff.mpr ⟨got, rfl⟩
  have second : (perform trigger .prepare id).exec (record (.getInstance self.repositoryUuid) s) =
      (.ok (), afterCalls self.opening s) :=
    perform_returns_iff.mpr ⟨prepared, same.symm⟩
  rw [recentBackups, exec_bind, first]
  dsimp only
  rw [exec_bind, second]
  exact listed

def retaining (self : Schedule) (now : DateTime) (s : Repository) : List RepositoryCall :=
  .listArchives :: (self.expiredNames now s).map .deleteArchive

/-- The trigger reaches the end: it makes a backup, under a name that is not taken, and none of
its calls raises. -/
structure Completes (schedule : Schedule) (trigger : Trigger) (s : Repository) (times : Times)
    (periods : List Period) (comment : String) : Prop where
  serves : Serves schedule trigger s times periods
  serialized : backupText periods = .ok comment
  free : (backup trigger periods comment).name ∉ s.archives.map (·.name)
  passes : Passes trigger s.calls (schedule.preparing ++
    (schedule.creating trigger periods comment ++
      schedule.retaining trigger.now (addNew (backup trigger periods comment) s)))

theorem proceed_of_serves {self : Schedule} {s : Repository} {times : Times}
    {periods : List Period} (serves : Serves self trigger s times periods) :
    self.proceed trigger times = self.serve trigger periods := by
  obtain ⟨tooLong, found, rfl⟩ := serves.due
  have nonempty : ¬ (self.duePeriods tooLong (self.timeForPeriods trigger.now)).isEmpty = true :=
    fun empty => serves.nonempty (List.isEmpty_iff.mp empty)
  rw [proceed, serves.notTooSoon, found, if_neg Bool.false_ne_true]
  exact if_neg nonempty

theorem archives_addNew_afterCalls (archive : Archive) (calls : List RepositoryCall)
    (s : Repository) :
    (addNew archive (afterCalls calls s)).archives = (addNew archive s).archives := by
  by_cases free : archive.name ∉ s.archives.map (·.name)
  · have added : addNew archive (afterCalls calls s) = (afterCalls calls s).add archive free :=
      dif_pos free
    rw [added, addNew_of_free free]
    rfl
  · have same : addNew archive (afterCalls calls s) = afterCalls calls s := dif_neg free
    have same' : addNew archive s = s := dif_neg free
    rw [same, same']
    rfl

theorem retaining_congr (self : Schedule) (now : DateTime) {s s' : Repository}
    (same : s.archives = s'.archives) : self.retaining now s = self.retaining now s' := by
  have sorted : s.sorted = s'.sorted := by rw [Repository.sorted, same, Repository.sorted]
  have recent : self.mostRecent now s = self.mostRecent now s' := by
    funext period
    rw [mostRecent, sorted, mostRecent]
  have expired : self.expired now s = self.expired now s' := by
    funext archive
    rw [Schedule.expired, recent, Schedule.expired]
  rw [retaining, retaining, expiredNames, expiredNames, sorted, expired]

theorem readable_afterBackup {s : Repository} {times : Times} {periods : List Period}
    {comment : String} (recent : lastBackups trigger.now s = .ok times)
    (serialized : backupText periods = .ok comment) (calls : List RepositoryCall) :
    ∀ archive ∈ (addNew (backup trigger periods comment) (afterCalls calls s)).archives,
      Readable trigger.now archive := by
  rw [archives_addNew_afterCalls]
  intro archive member
  unfold addNew at member
  split at member
  · obtain rfl | member := List.mem_cons.mp member
    · exact readable_backup serialized
    · exact readable_of_lastBackups recent archive member
  · exact readable_of_lastBackups recent archive member

def backedUp (self : Schedule) (trigger : Trigger) (periods : List Period) (comment : String)
    (s : Repository) : Repository :=
  addNew (backup trigger periods comment)
    (afterCalls (self.creating trigger periods comment) (afterCalls self.preparing s))

theorem expire_backedUp_iff {self : Schedule} {s : Repository} {times : Times}
    {periods : List Period} {comment : String} (recent : lastBackups trigger.now s = .ok times)
    (serialized : backupText periods = .ok comment) :
    (∃ s', (self.expire trigger).exec (self.backedUp trigger periods comment s) = (.ok (), s')) ↔
      Passes trigger (s.calls ++ self.preparing ++ self.creating trigger periods comment)
        (self.retaining trigger.now (addNew (backup trigger periods comment) s)) := by
  have same : (self.backedUp trigger periods comment s).archives =
      (addNew (backup trigger periods comment) s).archives := by
    rw [backedUp, archives_addNew_afterCalls, archives_addNew_afterCalls]
  have recent' : lastBackups trigger.now (afterCalls self.preparing s) = .ok times := recent
  have readable : ∀ archive ∈ (self.backedUp trigger periods comment s).archives,
      Readable trigger.now archive := readable_afterBackup recent' serialized _
  rw [expire_returns_iff readable, ← retaining_congr self _ same, backedUp, calls_addNew]
  rfl

theorem state_serve {self : Schedule} {periods : List Period} {s s' : Repository}
    (made : (self.runBackup trigger periods).exec s = (.ok (), s')) :
    ((self.serve trigger periods).exec s).2 = ((self.runCleanup trigger).exec s').2 := by
  rw [serve, exec_bind, made]
  exact state_bind_of_keeps (fun _ => keeps_pure true) s'

theorem runSchedule_released {self : Schedule} {s : Repository} {times : Times}
    {periods : List Period} {comment : String} (enabled : self.enabled = true)
    (completes : Completes self trigger s times periods comment) :
    Released (s.calls ++ self.opening) ((self.runSchedule trigger).exec s).2 := by
  obtain ⟨prepares, passes⟩ := passes_append.mp completes.passes
  obtain ⟨creates, retains⟩ := passes_append.mp passes
  have found := recentBackups_returns_iff.mpr ⟨prepares, completes.serves.recent, rfl⟩
  have made : (self.runBackup trigger periods).exec (afterCalls self.preparing s) =
      (.ok (), self.backedUp trigger periods comment s) :=
    runBackup_returns_iff.mpr
      ⟨comment, completes.serialized, completes.free, creates, rfl⟩
  obtain ⟨s', expired⟩ :=
    (expire_backedUp_iff completes.serves.recent completes.serialized).mpr retains
  have unreleased : Unreleased (s.calls ++ self.opening)
      (self.backedUp trigger periods comment s) := by
    refine ⟨.listArchives :: self.creating trigger periods comment, ?_, ?_⟩
    · rw [backedUp, calls_addNew]
      simp [afterCalls, preparing]
    · simp [creating]
  rw [exec_runSchedule self enabled, found]
  dsimp only
  rw [proceed_of_serves completes.serves, state_serve made]
  exact runCleanup_released unreleased expired

theorem proceed_unreleased {self : Schedule} {s : Repository} {times : Times}
    {past : List RepositoryCall} (recent : lastBackups trigger.now s = .ok times)
    (listed : Passes trigger s.calls self.preparing)
    (started : Unreleased past (afterCalls self.preparing s))
    (stopped : ¬ ∃ periods comment, Completes self trigger s times periods comment) :
    Unreleased past ((self.proceed trigger times).exec (afterCalls self.preparing s)).2 := by
  obtain ⟨result, same, -⟩ | ⟨periods, serves, same⟩ :=
    self.proceed_cases recent (afterCalls self.preparing s)
  · rw [same]
    exact started
  rw [same]
  have backed : Unreleased past
      ((self.runBackup trigger periods).exec (afterCalls self.preparing s)).2 :=
    (unreleased_runBackup self periods).final started
  rcases made : (self.runBackup trigger periods).exec (afterCalls self.preparing s)
    with ⟨e | _, s₂⟩
  · rw [made] at backed
    rwa [serve, exec_bind, made]
  rw [made] at backed
  rw [state_serve made]
  obtain ⟨comment, serialized, free, creates, rfl⟩ := runBackup_returns_iff.mp made
  refine runCleanup_unreleased backed fun returned => ?_
  have retains := (expire_backedUp_iff recent serialized).mp returned
  exact stopped ⟨periods, comment, serves, serialized, free,
    passes_append.mpr ⟨listed, passes_append.mpr ⟨creates, retains⟩⟩⟩

theorem runSchedule_eq {self : Schedule} (enabled : self.enabled = true) :
    self.runSchedule trigger = self.recentBackups trigger >>= self.proceed trigger := by
  simp only [runSchedule, recentBackups, enabled, Bool.not_true, Bool.false_eq_true, if_false,
    bind_assoc]
  rfl

theorem runSchedule_unreleased {self : Schedule} {s : Repository}
    (prepares : Prepares self trigger s)
    (stopped : ¬ ∃ times periods comment, Completes self trigger s times periods comment) :
    Unreleased (s.calls ++ self.opening) ((self.runSchedule trigger).exec s).2 := by
  have started := unreleased_recentBackups prepares
  rw [runSchedule_eq prepares.1]
  rcases found : (self.recentBackups trigger).exec s with ⟨e | times, s₁⟩
  · rw [found] at started
    rw [exec_bind, found]
    exact started
  · rw [exec_bind_of_ok found]
    rw [found] at started
    obtain ⟨listed, recent, rfl⟩ := recentBackups_returns_iff.mp found
    exact proceed_unreleased recent listed started fun completes => stopped ⟨times, completes⟩

/-! ## The claimed release -/

def callsOf (self : Schedule) (trigger : Trigger) (s : Repository) : List RepositoryCall :=
  ((self.runSchedule trigger).exec s).2.calls.drop s.calls.length

/-- After a call of `prepare` that returns there is one of `cleanup`. -/
def Releases (self : Schedule) (trigger : Trigger) (s : Repository) : Prop :=
  ∀ before after, self.callsOf trigger s = before ++ .prepare :: after →
    trigger.fault (s.calls ++ before) .prepare = none → .cleanup ∈ after

theorem callsOf_of_calls {self : Schedule} {s : Repository} {calls : List RepositoryCall}
    (same : ((self.runSchedule trigger).exec s).2.calls = s.calls ++ calls) :
    self.callsOf trigger s = calls := by
  rw [callsOf, same, List.drop_left]

theorem releases_of_not_prepares {self : Schedule} {s : Repository}
    (stopped : ¬ Prepares self trigger s) : self.Releases trigger s := by
  intro before after made passed
  exfalso
  cases enabled : self.enabled with
  | false =>
    have none : self.callsOf trigger s = [] := by
      apply callsOf_of_calls
      simp [runSchedule, enabled]
    rw [none] at made
    exact List.append_ne_nil_of_right_ne_nil before (List.cons_ne_nil _ _) made.symm
  | true =>
    cases got : trigger.fault s.calls (.getInstance self.repositoryUuid) with
    | some fault =>
      have one : self.callsOf trigger s = [.getInstance self.repositoryUuid] := by
        apply callsOf_of_calls
        simp [exec_runSchedule self enabled, recentBackups, exec_bind, exec_perform_id, got,
          record]
      rw [one] at made
      cases before <;> simp at made
    | none =>
      cases prepared : trigger.fault (s.calls ++ [.getInstance self.repositoryUuid]) .prepare with
      | some fault =>
        have two : self.callsOf trigger s = self.opening := by
          apply callsOf_of_calls
          simp [exec_runSchedule self enabled, recentBackups, exec_bind, exec_perform_id, got,
            prepared, record, opening]
        rw [two, opening] at made
        rcases before with _ | ⟨first, _ | ⟨second, rest⟩⟩
        · simp at made
        · obtain ⟨rfl, -⟩ := List.cons.inj made
          rw [prepared] at passed
          cases passed
        · simp at made
      | none => exact stopped ⟨enabled, got, prepared, trivial⟩

theorem mem_of_last {calls before after : List RepositoryCall}
    (same : calls ++ [.cleanup] = before ++ .prepare :: after) : .cleanup ∈ after := by
  obtain rfl | ⟨rest, call, rfl⟩ := List.eq_nil_or_concat after
  · have last := (List.append_inj' same rfl).2
    simp at last
  · have split : before ++ .prepare :: rest.concat call = (before ++ .prepare :: rest) ++ [call] := by
      simp
    have last := (List.append_inj' (same.trans split) rfl).2
    rw [List.concat_eq_append, ← last]
    exact List.mem_append_right _ List.mem_cons_self

/-- The trigger cleans up what it has prepared exactly when it gets to the end. -/
theorem release_iff (self : Schedule) (trigger : Trigger) (s : Repository) :
    self.Releases trigger s ↔
      (Prepares self trigger s →
        ∃ times periods comment, Completes self trigger s times periods comment) := by
  constructor
  · intro releases prepares
    by_contra stopped
    obtain ⟨calls, same, absent⟩ := runSchedule_unreleased prepares stopped
    rw [List.append_assoc] at same
    exact absent (releases _ _ (callsOf_of_calls same) prepares.2.2.1)
  · intro reaches
    by_cases prepares : Prepares self trigger s
    · obtain ⟨times, periods, comment, completes⟩ := reaches prepares
      obtain ⟨calls, same, -⟩ := runSchedule_released prepares.1 completes
      intro before after made _
      rw [List.append_assoc, List.append_assoc] at same
      rw [callsOf_of_calls same, ← List.append_assoc] at made
      exact mem_of_last made
    · exact releases_of_not_prepares prepares

theorem duePeriods_of_keeps_none {self : Schedule} (keepsNone : ∀ period, self.toKeep period = 0)
    (tooLong time : List Period) : self.duePeriods tooLong time = [] := by
  apply List.filter_eq_nil_iff.mpr
  intro period listed
  have disabled : period ∈ self.getDisabledPeriods :=
    List.mem_filter.mpr ⟨listed, decide_eq_true (keepsNone period)⟩
  simp [disabled]

theorem nothing_due_leaves_prepared :
    let schedule : Schedule := ⟨"uuid", true, 0, 0, 0, 2, []⟩
    ¬ schedule.Releases (sampleTrigger 2 (by decide)) ⟨[], List.nodup_nil, [], []⟩ := by
  intro schedule releases
  have prepares : Prepares schedule (sampleTrigger 2 (by decide)) ⟨[], List.nodup_nil, [], []⟩ :=
    ⟨rfl, rfl, rfl, trivial⟩
  have keepsNone : ∀ period, schedule.toKeep period = 0 := by
    intro period
    cases period <;> rfl
  have stopped : ¬ ∃ times periods comment, Completes schedule (sampleTrigger 2 (by decide))
      ⟨[], List.nodup_nil, [], []⟩ times periods comment := by
    rintro ⟨times, periods, comment, completes⟩
    obtain ⟨tooLong, -, due⟩ := completes.serves.due
    rw [duePeriods_of_keeps_none keepsNone] at due
    exact completes.serves.nonempty due
  obtain ⟨calls, same, absent⟩ := runSchedule_unreleased prepares stopped
  rw [List.append_assoc] at same
  exact absent (releases [.getInstance "uuid"] calls (callsOf_of_calls same) rfl)

end Plinth.Backups.Schedule
