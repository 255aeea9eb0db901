import Mathlib.Data.List.Basic
import Plinth.Lib.Runs
import Plinth.Proof.Backups.Schedule.Archives

/-! # Two hours between scheduled backups -/

namespace Plinth.Backups.Schedule

open Calendar Effect Python Exception Repository

variable {trigger : Trigger}

/-! ## The backup -/

structure IsBackup (trigger : Trigger) (periods : List Period) (archive : Archive) : Prop where
  start : archive.start = trigger.now
  comment : scheduledPeriods archive.comment =
    .ok (some (texts (Period.sorted.filter (· ∈ periods))))

theorem knownPeriods_backup (periods : List Period) :
    ∃ known, knownPeriods (texts (Period.sorted.filter (· ∈ periods))) = .ok known ∧
      ∀ period, period ∈ known ↔ period ∈ periods := by
  obtain ⟨known, read, same⟩ := knownPeriods_texts (Period.sorted.filter (· ∈ periods))
  refine ⟨known, read, fun period => ?_⟩
  have sorted : period ∈ Period.sorted := by cases period <;> simp [Period.sorted]
  rw [same, List.mem_filter, and_iff_right sorted, decide_eq_true_eq]

theorem IsBackup.isScheduled {periods : List Period} {archive : Archive}
    (backup : IsBackup trigger periods archive) (nonempty : periods ≠ []) :
    IsScheduled archive := by
  obtain ⟨known, read, same⟩ := knownPeriods_backup periods
  obtain ⟨period, member⟩ := List.exists_mem_of_ne_nil periods nonempty
  exact ⟨_, known, backup.comment, read, List.ne_nil_of_mem ((same period).mpr member)⟩

theorem createArchive_cases (trigger : Trigger) (name : String) (appIds : List String)
    (comment : String) (s : Repository) :
    (∃ e calls, (createArchive trigger name appIds comment).exec s =
      (.error e, afterCalls calls s)) ∨
    ∃ result calls new, (createArchive trigger name appIds comment).exec s =
      (result, (afterCalls calls s).add ⟨name, trigger.storedComment comment, trigger.now⟩ new) := by
  simp only [createArchive, exec_bind, exec_get, exec_perform]
  by_cases taken : name ∈ s.archives.map (·.name)
  · have same (call : RepositoryCall) :
        addNew ⟨name, trigger.storedComment comment, trigger.now⟩ (record call s) =
          afterCalls [call] s := dif_neg (not_not_intro taken)
    refine .inl ?_
    rcases trigger.fault s.calls (.createArchive name appIds comment) with _ | ⟨_ | _, e⟩
    · exact ⟨BorgArchiveExists, [.createArchive name appIds comment], by
        simp only [same, when_of taken, exec_throw]⟩
    · exact ⟨e, [.createArchive name appIds comment], rfl⟩
    · exact ⟨e, [.createArchive name appIds comment], by simp only [same]⟩
  · have same (call : RepositoryCall) :
        addNew ⟨name, trigger.storedComment comment, trigger.now⟩ (record call s) =
          (afterCalls [call] s).add ⟨name, trigger.storedComment comment, trigger.now⟩ taken :=
      dif_pos taken
    rcases trigger.fault s.calls (.createArchive name appIds comment) with _ | ⟨_ | _, e⟩
    · exact .inr ⟨.ok (), [.createArchive name appIds comment], taken, by
        simp only [same, when_of_not taken, exec_pure]⟩
    · exact .inl ⟨e, [.createArchive name appIds comment], rfl⟩
    · exact .inr ⟨.error e, [.createArchive name appIds comment], taken, by simp only [same]⟩

theorem afterCalls_afterCalls (calls calls' : List RepositoryCall) (s : Repository) :
    afterCalls calls' (afterCalls calls s) = afterCalls (calls ++ calls') s := by
  simp [afterCalls]

theorem runBackup_cases (self : Schedule) (trigger : Trigger) (periods : List Period)
    (s : Repository) :
    (∃ e calls, (self.runBackup trigger periods).exec s = (.error e, afterCalls calls s)) ∨
    ∃ result calls archive new, IsBackup trigger periods archive ∧
      (self.runBackup trigger periods).exec s = (result, (afterCalls calls s).add archive new) := by
  obtain ⟨text, serialized, comment⟩ :=
    serializeComment_backupComment (Period.sorted.filter (· ∈ periods))
  have stored : scheduledPeriods (trigger.storedComment (escapeBraces text)) =
      .ok (some (texts (Period.sorted.filter (· ∈ periods)))) := by
    rw [trigger.stored, comment]
  simp only [runBackup, exec_bind, exec_perform_id, exec_lift, serialized]
  rcases trigger.fault s.calls (.getInstance self.repositoryUuid) with _ | ⟨_, e⟩
  · obtain ⟨e, calls, made⟩ | ⟨result, calls, new, made⟩ := createArchive_cases
      trigger _ (trigger.appIds.filter (· ∉ self.unselectedApps)) (escapeBraces text)
        (record (.getInstance self.repositoryUuid) s)
    · exact .inl ⟨e, .getInstance self.repositoryUuid :: calls, by
        dsimp only
        rw [made, show record _ s = afterCalls [.getInstance self.repositoryUuid] s from rfl,
          afterCalls_afterCalls, List.singleton_append]⟩
    · refine .inr ⟨result, .getInstance self.repositoryUuid :: calls, _, new, ⟨rfl, stored⟩, ?_⟩
      dsimp only
      rw [made]
      simp only [record, afterCalls, add, List.append_assoc, List.singleton_append]
  · exact .inl ⟨e, [.getInstance self.repositoryUuid], rfl⟩

/-! ## The cleanup -/

theorem spares_of_first (self : Schedule) {entry : ScheduledArchive} {known : List Period}
    {earlier later : List ScheduledArchive} (read : knownPeriods entry.periods = .ok known)
    (nonempty : known ≠ []) (kept : ∀ period ∈ known, 1 ≤ self.toKeep period)
    (first : ∀ other ∈ earlier, other.name ≠ entry.name ∧
      ∀ known', knownPeriods other.periods = .ok known' → known' = [])
    (others : ∀ other ∈ later, other.name ≠ entry.name) {counts : Counts}
    (zero : ∀ period, counts period = 0) :
    DeletesOnly self (· ≠ entry.name) (earlier ++ entry :: later) counts := by
  induction earlier generalizing counts with
  | nil =>
    intro known' read'
    obtain rfl := Except.ok.inj (read.symm.trans read')
    refine ⟨.inl ?_, deletesOnly_of_all self others _⟩
    obtain ⟨period, member⟩ := List.exists_mem_of_ne_nil known nonempty
    refine ⟨period, member, ?_⟩
    rw [count, if_pos member, zero]
    exact kept period member
  | cons other earlier ih =>
    obtain ⟨⟨different, foreign⟩, first⟩ := List.forall_mem_cons.mp first
    intro known' read'
    obtain rfl := foreign known' read'
    refine ⟨.inr different, ih first fun period => ?_⟩
    rw [count, if_neg List.not_mem_nil, zero]

def Holds (archive : Archive) (made : List Archive) (s : Repository) : Prop :=
  archive ∈ s.archives ∧ s.made = made

def OthersOld (now : DateTime) (archive : Archive) (s : Repository) : Prop :=
  ∀ other ∈ s.archives, other ≠ archive → other.start.instant ≤ now.instant →
    IsScheduled other → other.start.instant + hours 2 ≤ now.instant

theorem start_of_before {s : Repository} {archive : Archive} {before after : List Archive}
    (split : s.sorted = before ++ archive :: after) {other : Archive} (member : other ∈ before) :
    archive.start.instant ≤ other.start.instant := by
  have sorted : s.sorted.Pairwise fun a b => b.start.instant ≤ a.start.instant := by
    have pairwise : s.sorted.Pairwise fun a b =>
        decide (b.start.instant ≤ a.start.instant) = true :=
      List.pairwise_mergeSort (by simp only [decide_eq_true_eq]; omega)
        (by simp only [Bool.or_eq_true, decide_eq_true_eq]; omega) s.archives
    exact pairwise.imp fun h => of_decide_eq_true h
  rw [split, List.pairwise_append] at sorted
  exact sorted.2.2 other member archive List.mem_cons_self

theorem names_of_split {s : Repository} {archive : Archive} {before after : List Archive}
    (split : s.sorted = before ++ archive :: after) :
    ∀ other ∈ before ++ after, other.name ≠ archive.name := by
  have nodup : (s.sorted.map (·.name)).Nodup :=
    ((List.mergeSort_perm s.archives _).map _).nodup_iff.mpr s.names_nodup
  rw [split, List.map_append, List.map_cons, List.nodup_middle, List.nodup_cons,
    ← List.map_append] at nodup
  intro other member same
  exact nodup.1 (List.mem_map.mpr ⟨other, member, same⟩)

theorem spares_backup (self : Schedule) {archive : Archive} {periods : List Period}
    {s : Repository} {entries : List ScheduledArchive} (member : archive ∈ s.archives)
    (backup : IsBackup trigger periods archive) (nonempty : periods ≠ [])
    (kept : ∀ period ∈ periods, 1 ≤ self.toKeep period)
    (old : OthersOld trigger.now archive s)
    (listed : scheduledArchives trigger.now s.sorted = .ok entries) :
    DeletesOnly self (· ≠ archive.name) entries fun _ => 0 := by
  obtain ⟨known, read, same⟩ := knownPeriods_backup periods
  have from_ : ReadFrom trigger.now archive
      ⟨archive.name, texts (Period.sorted.filter (· ∈ periods)), archive.start⟩ :=
    ⟨backup.comment, by rw [backup.start], rfl, rfl⟩
  obtain ⟨before, after, split⟩ := List.append_of_mem (List.mem_mergeSort.mpr member)
  have names := names_of_split split
  rw [sorted, split] at listed
  obtain ⟨earlier, later, rfl, listedBefore, listedAfter⟩ := scheduledArchives_split listed from_
  have knownNonempty : known ≠ [] := by
    obtain ⟨period, present⟩ := List.exists_mem_of_ne_nil periods nonempty
    exact List.ne_nil_of_mem ((same period).mpr present)
  have known_entry : knownPeriods (ScheduledArchive.periods ⟨archive.name,
      texts (Period.sorted.filter (· ∈ periods)), archive.start⟩) = .ok known := read
  refine spares_of_first self known_entry knownNonempty
    (fun period present => kept period ((same period).mp present)) ?_ ?_ fun _ => rfl
  · intro entry present
    obtain ⟨other, here, from'⟩ := (mem_scheduledArchives listedBefore entry).mp present
    have different := names other (List.mem_append_left _ here)
    refine ⟨from'.name ▸ different, fun known' read' => ?_⟩
    by_contra someKnown
    have isOther : other ∈ s.archives :=
      List.mem_mergeSort.mp (split ▸ List.mem_append_left _ here)
    have twoHours := old other isOther (fun same => different (congrArg Archive.name same))
      from'.past ⟨entry.periods, known', from'.comment, read', someKnown⟩
    have late := start_of_before split here
    rw [backup.start] at late
    unfold hours seconds at twoHours
    omega
  · intro entry present
    obtain ⟨other, here, from'⟩ := (mem_scheduledArchives listedAfter entry).mp present
    exact from'.name ▸ names other (List.mem_append_right _ here)

theorem holds_runCleanup (self : Schedule) {archive : Archive} {periods : List Period}
    {s : Repository} (member : archive ∈ s.archives)
    (backup : IsBackup trigger periods archive) (nonempty : periods ≠ [])
    (kept : ∀ period ∈ periods, 1 ≤ self.toKeep period)
    (old : OthersOld trigger.now archive s) :
    Holds archive s.made ((self.runCleanup trigger).exec s).2 := by
  refine runCleanup_spec ?_ (fun _ _ holds => holds) self ⟨member, rfl⟩
    fun entries listed => spares_backup self member backup nonempty kept old listed
  intro name s' other holds
  exact ⟨List.mem_filter.mpr ⟨holds.1, decide_eq_true other.symm⟩, holds.2⟩

/-! ## One trigger -/

def step (s : Repository) (e : Schedule × Trigger) : Repository :=
  ((e.1.runSchedule e.2).exec s).2

structure NoOp (s : Repository) (e : Schedule × Trigger) : Prop where
  archives : (step s e).archives = s.archives
  made : (step s e).made = s.made
  result : ((e.1.runSchedule e.2).exec s).1 ≠ .ok true

structure Makes (s : Repository) (e : Schedule × Trigger) (archive : Archive) : Prop where
  start : archive.start = e.2.now
  scheduled : IsScheduled archive
  old : ∀ other ∈ s.archives, other.start.instant ≤ e.2.now.instant → IsScheduled other →
    other.start.instant + hours 2 ≤ e.2.now.instant
  made : (step s e).made = s.made ++ [archive]
  kept : archive ∈ (step s e).archives

theorem toKeep_of_due {self : Schedule} {tooLong timeFor : List Period} {period : Period}
    (due : period ∈ self.duePeriods tooLong timeFor) : 1 ≤ self.toKeep period := by
  have enabled := (of_decide_eq_true (List.mem_filter.mp due).2).2
  have known : period ∈ Period.all := by cases period <;> simp [Period.all]
  rw [getDisabledPeriods, List.mem_filter, and_iff_right known, decide_eq_true_eq] at enabled
  exact Nat.one_le_iff_ne_zero.mpr enabled

theorem serve_cases {self : Schedule} {s : Repository} {times : Times} {periods : List Period}
    (serves : Serves self trigger s times periods) (calls : List RepositoryCall) :
    (∃ e calls', (self.serve trigger periods).exec (afterCalls calls s) =
      (.error e, afterCalls calls' s)) ∨
    ∃ archive, IsBackup trigger periods archive ∧ Holds archive (s.made ++ [archive])
      ((self.serve trigger periods).exec (afterCalls calls s)).2 := by
  have kept : ∀ period ∈ periods, 1 ≤ self.toKeep period := by
    obtain ⟨tooLong, -, rfl⟩ := serves.due
    exact fun period due => toKeep_of_due due
  simp only [serve, exec_bind]
  obtain ⟨e, calls', failed⟩ | ⟨result, calls', archive, new, backup, added⟩ :=
    self.runBackup_cases trigger periods (afterCalls calls s)
  · exact .inl ⟨e, calls ++ calls', by rw [failed, afterCalls_afterCalls]⟩
  · refine .inr ⟨archive, backup, ?_⟩
    rw [added]
    have member : archive ∈ ((afterCalls calls' (afterCalls calls s)).add archive new).archives :=
      List.mem_cons_self
    have old : OthersOld trigger.now archive
        ((afterCalls calls' (afterCalls calls s)).add archive new) := by
      intro other present different past scheduled
      have before : other ∈ s.archives := (List.mem_cons.mp present).resolve_left different
      exact old_of_notTooSoon serves.recent serves.notTooSoon before past scheduled
    cases result with
    | error e => exact ⟨member, rfl⟩
    | ok _ =>
      have cleaned := self.holds_runCleanup member backup serves.nonempty kept old
      dsimp only
      generalize (self.runCleanup trigger).exec _ = outcome at cleaned ⊢
      obtain ⟨e | _, s'⟩ := outcome
      · exact cleaned
      · exact cleaned

theorem step_cases (s : Repository) (e : Schedule × Trigger) :
    NoOp s e ∨ ∃ archive, Makes s e archive := by
  obtain ⟨self, trigger⟩ := e
  obtain ⟨result, calls, same, other⟩ | ⟨calls, times, periods, serves, same⟩ :=
    self.runSchedule_cases trigger s
  · refine .inl ⟨?_, ?_, ?_⟩
    · rw [step, same]
      rfl
    · rw [step, same]
      rfl
    · rwa [same]
  · obtain ⟨e, calls', failed⟩ | ⟨archive, backup, holds⟩ := serve_cases serves calls
    · rw [← same] at failed
      refine .inl ⟨?_, ?_, ?_⟩
      · rw [step, failed]
        rfl
      · rw [step, failed]
        rfl
      · simp [failed]
    · rw [← same] at holds
      exact .inr ⟨archive, backup.start, backup.isScheduled serves.nonempty,
        fun other member => old_of_notTooSoon serves.recent serves.notTooSoon member,
        holds.2, holds.1⟩

/-! ## Runs -/

structure Spaced (now : Nat) (s : Repository) : Prop where
  apart : s.made.Pairwise fun a b => a.start.instant + hours 2 ≤ b.start.instant
  scheduled : ∀ archive ∈ s.made, IsScheduled archive
  past : ∀ archive ∈ s.made, archive.start.instant ≤ now
  held : ∀ archive ∈ s.made, now < archive.start.instant + hours 2 → archive ∈ s.archives

section Spaced

variable {now : Nat} {s : Repository} {e : Schedule × Trigger}

theorem Spaced.noOp (spaced : Spaced now s) (later : now ≤ e.2.now.instant) {archive : Archive}
    (member : archive ∈ s.made) (recent : e.2.now.instant < archive.start.instant + hours 2) :
    NoOp s e := by
  obtain noOp | ⟨made, makes⟩ := step_cases s e
  · exact noOp
  · have present := spaced.held archive member (Nat.lt_of_le_of_lt later recent)
    have old := makes.old archive present ((spaced.past archive member).trans later)
      (spaced.scheduled archive member)
    exact absurd recent (Nat.not_lt.mpr old)

theorem Spaced.step (spaced : Spaced now s) (later : now ≤ e.2.now.instant) :
    Spaced e.2.now.instant (Schedule.step s e) := by
  obtain noOp | ⟨archive, makes⟩ := step_cases s e
  · refine ⟨noOp.made ▸ spaced.apart, noOp.made ▸ spaced.scheduled, ?_, ?_⟩
    · rw [noOp.made]
      exact fun archive member => (spaced.past archive member).trans later
    · rw [noOp.made, noOp.archives]
      exact fun archive member recent =>
        spaced.held archive member (Nat.lt_of_le_of_lt later recent)
  · have old : ∀ earlier ∈ s.made, earlier.start.instant + hours 2 ≤ e.2.now.instant := by
      intro earlier member
      by_contra recent
      have noOp := spaced.noOp later member (Nat.not_le.mp recent)
      have same := makes.made.symm.trans noOp.made
      simp at same
    refine ⟨?_, ?_, ?_, ?_⟩
    · rw [makes.made, List.pairwise_append]
      refine ⟨spaced.apart, List.pairwise_singleton _ _, fun earlier member new here => ?_⟩
      obtain rfl := List.mem_singleton.mp here
      rw [makes.start]
      exact old earlier member
    all_goals
      rw [makes.made]
      intro new member
      obtain member | member := List.mem_append.mp member
    · exact spaced.scheduled new member
    · obtain rfl := List.mem_singleton.mp member
      exact makes.scheduled
    · exact (spaced.past new member).trans later
    · obtain rfl := List.mem_singleton.mp member
      rw [makes.start]
    · exact fun recent => absurd recent (Nat.not_lt.mpr (old new member))
    · obtain rfl := List.mem_singleton.mp member
      exact fun _ => makes.kept

end Spaced

def madeBy (s : Repository) (e : Schedule × Trigger) : List Archive :=
  (step s e).made.drop s.made.length

theorem NoOp.madeBy {s : Repository} {e : Schedule × Trigger} (noOp : NoOp s e) :
    madeBy s e = [] := by
  rw [Schedule.madeBy, noOp.made, List.drop_length]

theorem Makes.madeBy {s : Repository} {e : Schedule × Trigger} {archive : Archive}
    (makes : Makes s e archive) : madeBy s e = [archive] := by
  rw [Schedule.madeBy, makes.made, List.drop_left]

theorem made_subset_step (s : Repository) (e : Schedule × Trigger) :
    ∀ archive ∈ s.made, archive ∈ (step s e).made := by
  intro archive member
  obtain noOp | ⟨_, makes⟩ := step_cases s e
  · rwa [noOp.made]
  · rw [makes.made]
    exact List.mem_append_left _ member

theorem made_subset_run (s : Repository) (events : List (Schedule × Trigger)) :
    ∀ archive ∈ s.made, archive ∈ (Runs.run step s events).made := by
  induction events generalizing s with
  | nil => exact fun _ => id
  | cons e events ih =>
    exact fun archive member => ih (step s e) archive (made_subset_step s e archive member)

theorem spaced_run {now : Nat} {s : Repository} (spaced : Spaced now s)
    {before after : List (Schedule × Trigger)} {e : Schedule × Trigger}
    (later : ∀ e' ∈ before ++ e :: after, now ≤ e'.2.now.instant)
    (nondecreasing : (before ++ e :: after).Pairwise
      fun e e' => e.2.now.instant ≤ e'.2.now.instant) :
    ∃ now' ≤ e.2.now.instant, Spaced now' (Runs.run step s before) := by
  induction before generalizing now s with
  | nil => exact ⟨now, later e List.mem_cons_self, spaced⟩
  | cons first before ih =>
    obtain ⟨low, nondecreasing⟩ := List.pairwise_cons.mp nondecreasing
    exact ih (spaced.step (later first List.mem_cons_self)) low nondecreasing

/-- Scheduled backups are two hours apart: what a trigger makes, its cleanup keeps, and it holds
back the triggers of the next two hours. -/
theorem scheduled_backups_apart (archives : List Archive)
    (names_nodup : (archives.map (·.name)).Nodup) (triggers : List (Schedule × Trigger))
    (nondecreasing : triggers.Pairwise fun e e' => e.2.now.instant ≤ e'.2.now.instant) :
    (Runs.run step ⟨archives, names_nodup, [], []⟩ triggers).made.Pairwise
        (fun a b => a.start.instant + hours 2 ≤ b.start.instant) ∧
      ∀ before e after, triggers = before ++ e :: after →
        let s := Runs.run step ⟨archives, names_nodup, [], []⟩ before
        (((e.1.runSchedule e.2).exec s).1 = .ok true → madeBy s e ≠ []) ∧
        ∀ archive ∈ madeBy s e, archive.start = e.2.now ∧ archive ∈ (step s e).archives ∧
          ∀ between e' after', after = between ++ e' :: after' →
            e'.2.now.instant < e.2.now.instant + hours 2 →
              NoOp (Runs.run step (step s e) between) e' := by
  have start : Spaced 0 ⟨archives, names_nodup, [], []⟩ :=
    ⟨.nil, fun _ member => absurd member List.not_mem_nil,
      fun _ member => absurd member List.not_mem_nil,
      fun _ member => absurd member List.not_mem_nil⟩
  constructor
  · obtain rfl | ⟨before, e, rfl⟩ := List.eq_nil_or_concat triggers
    · exact .nil
    · rw [List.concat_eq_append] at nondecreasing ⊢
      obtain ⟨now, later, spaced⟩ := spaced_run start (fun _ _ => Nat.zero_le _) nondecreasing
      rw [Runs.run_append]
      exact (spaced.step later).apart
  · rintro before e after rfl
    obtain ⟨now, later, spaced⟩ := spaced_run start (fun _ _ => Nat.zero_le _) nondecreasing
    dsimp only
    generalize Runs.run step _ before = s at spaced ⊢
    constructor
    · intro fires
      obtain noOp | ⟨archive, makes⟩ := step_cases s e
      · exact absurd fires noOp.result
      · rw [makes.madeBy]
        exact List.cons_ne_nil _ _
    · intro archive made
      obtain noOp | ⟨_, makes⟩ := step_cases s e
      · rw [noOp.madeBy] at made
        exact absurd made List.not_mem_nil
      rw [makes.madeBy] at made
      obtain rfl := List.mem_singleton.mp made
      refine ⟨makes.start, makes.kept, ?_⟩
      rintro between e' after' rfl recent
      have rest := (List.pairwise_append.mp nondecreasing).2.1
      obtain ⟨low, rest⟩ := List.pairwise_cons.mp rest
      obtain ⟨now', later', spaced'⟩ := spaced_run (spaced.step later) low rest
      have member : archive ∈ (Runs.run step (step s e) between).made := by
        refine made_subset_run _ between archive ?_
        rw [makes.made]
        exact List.mem_append_right _ List.mem_cons_self
      refine spaced'.noOp later' member ?_
      rwa [makes.start]

/-! ## An example -/

def sampleSchedule : Schedule :=
  ⟨"uuid", true, 5, 3, 3, 2, []⟩

def sampleTrigger (hour : Nat) (h : hour < 24) : Trigger where
  now := ⟨2021, 1, 1, hour, 0, 0, 0, by decide, by omega⟩
  archiveName := "2021-01-01"
  appIds := []
  storedComment := unescapeBraces
  stored := unescapeBraces_escapeBraces
  fault _ _ := none

theorem scheduled_backups_apart_hourly :
    (Runs.run step ⟨[], List.nodup_nil, [], []⟩
      [(sampleSchedule, sampleTrigger 2 (by decide)),
        (sampleSchedule, sampleTrigger 3 (by decide))]).made.Pairwise
          fun a b => a.start.instant + hours 2 ≤ b.start.instant :=
  (scheduled_backups_apart [] List.nodup_nil _ (by decide +kernel)).1

end Plinth.Backups.Schedule
