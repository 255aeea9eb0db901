import Plinth.Proof.Backups.Schedule.Trigger

/-! # Monthly backups -/

namespace Plinth.Backups.Schedule

open Calendar Effect Python Exception Repository

def MonthPassed (last now : DateTime) : Prop :=
  ∃ next, last.monthLater? = some next ∧ next.instant + hours 1 < now.instant

def NextMonthHasDay (last : DateTime) : Prop :=
  last.month = 12 ∨ last.day ≤ daysInMonth last.year (last.month + 1)

def JanuaryPassed (last now : DateTime) : Prop :=
  ∃ january, last.withDate? (last.year + 1) 1 last.day = some january ∧
    january.instant + hours 1 < now.instant

def IncludesMonthly (now : DateTime) (times : Times) : Prop :=
  ∃ periods, tooLongSinceLastBackup now times = .ok periods ∧ .monthly ∈ periods

/-! ## The month after the last backup -/

theorem anHourAfter_of_lt {time now : DateTime} (passed : time.instant + hours 1 < now.instant) :
    anHourAfter time = .ok (time.instant + hours 1) :=
  if_pos (Nat.le_of_lt (Nat.lt_of_lt_of_le passed now.instant_le_max))

theorem eq_of_anHourAfter {time : DateTime} {instant : Nat} (h : anHourAfter time = .ok instant) :
    instant = time.instant + hours 1 := by
  unfold anHourAfter at h
  split at h
  · exact (Except.ok.inj h).symm
  · cases h

theorem mem_monthly_iff {daily weekly passed : Prop} [Decidable daily] [Decidable weekly]
    [Decidable passed] :
    Period.monthly ∈ (if daily then [Period.daily] else []) ++
      (if weekly then [Period.weekly] else []) ++ (if passed then [Period.monthly] else []) ↔
        passed := by
  split <;> split <;> split <;> simp [*]

theorem includesMonthly_iff (now : DateTime) (times : Times) :
    IncludesMonthly now times ↔
      ∃ next, nextMonthly (times .monthly) = .ok next ∧ next.instant + hours 1 < now.instant := by
  constructor
  · rintro ⟨periods, h, member⟩
    obtain ⟨next, found, h⟩ := ok_of_bind h
    obtain ⟨limit, added, h⟩ := ok_of_bind h
    obtain rfl := Except.ok.inj h
    have passed : limit < now.instant := mem_monthly_iff.mp member
    rw [eq_of_anHourAfter added] at passed
    exact ⟨next, found, passed⟩
  · rintro ⟨next, found, passed⟩
    exact ⟨_, bind_of_ok found (bind_of_ok (anHourAfter_of_lt passed) rfl),
      mem_monthly_iff.mpr passed⟩

theorem withDate?_month_thirteen (last : DateTime) (year day : Nat) :
    last.withDate? year 13 day = none := by
  refine dif_neg fun isDate => ?_
  obtain ⟨-, ⟨-, small⟩, -⟩ := isDate
  omega

theorem nextMonthly_of_hasDay {last : DateTime} (hasDay : NextMonthHasDay last) (next : DateTime) :
    nextMonthly last = .ok next ↔ last.monthLater? = some next := by
  obtain ⟨-, ⟨low, high⟩, first, short⟩ := last.isDate
  unfold nextMonthly DateTime.monthLater?
  by_cases december : last.month = 12
  · have clipped : Nat.min last.day (daysInMonth (last.year + 1) 1) = last.day := by
      rw [december] at short
      exact Nat.min_eq_left short
    simp only [december, if_true, clipped, Nat.reduceAdd, withDate?_month_thirteen]
    cases last.withDate? (last.year + 1) 1 last.day <;> simp
  · have day : last.day ≤ daysInMonth last.year (last.month + 1) := hasDay.resolve_left december
    have isDate : IsDate last.year (last.month + 1) last.day :=
      ⟨last.isDate.1, by omega, first, day⟩
    simp only [december, if_false, Nat.min_eq_left day, DateTime.withDate?, dif_pos isDate]
    simp

theorem nextMonthly_of_not_hasDay {last : DateTime} (noDay : ¬ NextMonthHasDay last)
    (next : DateTime) :
    nextMonthly last = .ok next ↔ last.withDate? (last.year + 1) 1 last.day = some next := by
  have missing : last.withDate? last.year (last.month + 1) last.day = none := by
    refine dif_neg fun isDate => noDay (.inr isDate.2.2.2)
  rw [nextMonthly, missing]
  cases last.withDate? (last.year + 1) 1 last.day <;> simp

theorem includesMonthly_iff_of_passed {now : DateTime} {times : Times}
    (passed : MonthPassed (times .monthly) now) :
    IncludesMonthly now times ↔
      NextMonthHasDay (times .monthly) ∨ JanuaryPassed (times .monthly) now := by
  rw [includesMonthly_iff]
  by_cases hasDay : NextMonthHasDay (times .monthly)
  · simp only [nextMonthly_of_hasDay hasDay, hasDay, true_or, iff_true]
    exact passed
  · simp only [nextMonthly_of_not_hasDay hasDay, hasDay, false_or]
    exact Iff.rfl

/-! ## A monthly backup -/

def AsksFor (self : Schedule) (trigger : Trigger) (s : Repository) (period : Period) : Prop :=
  ∃ name appIds periods comment, period ∈ periods ∧
    serializeComment (backupComment periods) = .ok comment ∧
      .createArchive name appIds comment ∈ ((self.runSchedule trigger).exec s).2.calls

theorem recorded_runCleanup (self : Schedule) (trigger : Trigger) {call : RepositoryCall}
    {s : Repository} (member : call ∈ s.calls) :
    call ∈ ((self.runCleanup trigger).exec s).2.calls := by
  have recorded (call' : RepositoryCall) (s : Repository) (member : call ∈ s.calls) :
      call ∈ (record call' s).calls := List.mem_append_left _ member
  exact runCleanup_spec (fun _ _ (_ : True) member => member) recorded self member
    fun entries _ => deletesOnly_of_all self (fun _ _ => trivial) _

section Quiet

variable {trigger : Trigger} (quiet : ∀ calls call, trigger.fault calls call = none)

include quiet

theorem exec_perform_quiet (call : RepositoryCall) (work : Repository → Repository)
    (s : Repository) : (perform trigger call work).exec s = (.ok (), work (record call s)) := by
  rw [exec_perform, quiet]

theorem exec_recentBackups_quiet (self : Schedule) (s : Repository) :
    ∃ calls, (self.recentBackups trigger).exec s =
      (lastBackups trigger.now s, afterCalls calls s) := by
  obtain ⟨calls, e, failed⟩ | found := self.exec_recentBackups trigger s
  · simp only [recentBackups, exec_bind, exec_perform_quiet quiet, exec_getRecentBackupTimes,
      quiet] at failed ⊢
    exact ⟨[.getInstance self.repositoryUuid, .prepare, .listArchives], by
      simp [record, afterCalls]
      rfl⟩
  · exact found

theorem recorded_serve (self : Schedule) (periods : List Period) (s : Repository) :
    ∃ name appIds comment, serializeComment
        (backupComment (Period.sorted.filter (· ∈ periods))) = .ok comment ∧
      .createArchive name appIds comment ∈ ((self.serve trigger periods).exec s).2.calls := by
  obtain ⟨text, serialized, -⟩ :=
    serializeComment_backupComment (Period.sorted.filter (· ∈ periods))
  refine ⟨scheduledName (Period.sorted.filter (· ∈ periods)) trigger.archiveName,
    trigger.appIds.filter (· ∉ self.unselectedApps), escapeBraces text, serialized, ?_⟩
  simp only [serve, runBackup, createArchive, exec_bind, exec_perform_quiet quiet, exec_lift,
    serialized, exec_get]
  generalize scheduledName _ _ = name
  generalize trigger.appIds.filter _ = appIds
  have recorded (archive : Archive) : RepositoryCall.createArchive name appIds (escapeBraces text) ∈
      (addNew archive (record (.createArchive name appIds (escapeBraces text))
        (id (record (.getInstance self.repositoryUuid) s)))).calls := by
    rw [calls_addNew]
    exact List.mem_append_right _ List.mem_cons_self
  have here := recorded ⟨name, trigger.storedComment (escapeBraces text), trigger.now⟩
  generalize addNew _ _ = s' at here ⊢
  by_cases taken : name ∈ s.archives.map (·.name)
  · rw [show (when (name ∈ (id (record (.getInstance self.repositoryUuid) s)).archives.map (·.name))
      (throw BorgArchiveExists) : Run Unit) = throw BorgArchiveExists from when_of taken _]
    exact here
  · rw [show (when (name ∈ (id (record (.getInstance self.repositoryUuid) s)).archives.map (·.name))
      (throw BorgArchiveExists) : Run Unit) = pure () from when_of_not taken _]
    have kept := recorded_runCleanup self trigger here
    dsimp only [exec_pure]
    generalize (self.runCleanup trigger).exec s' = outcome at kept ⊢
    obtain ⟨e | _, s''⟩ := outcome <;> exact kept

end Quiet

/-- For a month that has passed, the code agrees just when the next month has the day of the last
backup, or this day of January has passed as well. A trigger then asks for a monthly backup. -/
theorem monthly_backup_iff {now : DateTime} {times : Times}
    (passed : MonthPassed (times .monthly) now) :
    (IncludesMonthly now times ↔
      NextMonthHasDay (times .monthly) ∨ JanuaryPassed (times .monthly) now) ∧
    ∀ (self : Schedule) (trigger : Trigger) (s : Repository), trigger.now = now →
      (∀ calls call, trigger.fault calls call = none) → self.enabled = true →
      0 < self.monthlyToKeep → lastBackups now s = .ok times →
      isBackupTooSoon now times = false → IncludesMonthly now times →
        AsksFor self trigger s .monthly := by
  refine ⟨includesMonthly_iff_of_passed passed, ?_⟩
  rintro self trigger s rfl quiet enabled keeps recent notTooSoon ⟨tooLong, found, member⟩
  obtain ⟨calls, times_found⟩ := exec_recentBackups_quiet quiet self s
  rw [recent] at times_found
  have due : Period.monthly ∈ self.duePeriods tooLong (self.timeForPeriods trigger.now) := by
    have notDisabled : Period.monthly ∉ self.getDisabledPeriods := by
      intro disabled
      have zero : self.monthlyToKeep = 0 := of_decide_eq_true (List.mem_filter.mp disabled).2
      exact absurd zero (Nat.ne_of_gt keeps)
    simp [duePeriods, Period.all, member, notDisabled]
  have nonempty : (self.duePeriods tooLong (self.timeForPeriods trigger.now)).isEmpty = false := by
    simpa using List.ne_nil_of_mem due
  obtain ⟨name, appIds, comment, serialized, asked⟩ := recorded_serve quiet self
    (self.duePeriods tooLong (self.timeForPeriods trigger.now)) (afterCalls calls s)
  refine ⟨name, appIds, _, comment, List.mem_filter.mpr ⟨?_, decide_eq_true due⟩, serialized, ?_⟩
  · simp [Period.sorted]
  · rw [exec_runSchedule self enabled, times_found]
    simpa only [proceed, notTooSoon, Bool.false_eq_true, if_false, exec_bind, exec_lift, found,
      nonempty] using asked

/-! ## An example -/

def atTwo (year month day : Nat) (isDate : IsDate year month day) : DateTime :=
  ⟨year, month, day, 2, 0, 0, 0, isDate, by decide⟩

theorem monthly_backup_fifteenth :
    IncludesMonthly (atTwo 2021 3 1 (by decide)) fun _ => atTwo 2021 1 15 (by decide) :=
  (monthly_backup_iff ⟨atTwo 2021 2 15 (by decide), rfl, by decide +kernel⟩).1.mpr
    (.inl (.inr (by decide)))

theorem monthly_backup_missed :
    MonthPassed (atTwo 2021 1 31 (by decide)) (atTwo 2021 3 15 (by decide)) ∧
      ¬ IncludesMonthly (atTwo 2021 3 15 (by decide)) fun _ => atTwo 2021 1 31 (by decide) := by
  have passed : MonthPassed (atTwo 2021 1 31 (by decide)) (atTwo 2021 3 15 (by decide)) :=
    ⟨atTwo 2021 2 28 (by decide), rfl, by decide +kernel⟩
  refine ⟨passed, fun included => ?_⟩
  obtain day | ⟨january, found, later⟩ := (includesMonthly_iff_of_passed passed).mp included
  · exact absurd day (by simp [NextMonthHasDay, atTwo, daysInMonth, isLeap])
  · obtain rfl : atTwo 2022 1 31 (by decide) = january := Option.some.inj found
    exact absurd later (by decide +kernel)

end Plinth.Backups.Schedule
