import Plinth.Proof.Backups.Schedule.Release

/-! # How many scheduled archives are left -/

namespace Plinth.Backups.Schedule

open Calendar Effect Python Exception Repository

variable {trigger : Trigger}

theorem archives_of_cleanupArchives {self : Schedule} {entries : List ScheduledArchive}
    {counts : Counts} {s s' : Repository}
    (ran : (self.cleanupArchives trigger entries counts).exec s = (.ok (), s')) :
    s'.archives = s.archives.filter (·.name ∉ self.cleaned entries counts) := by
  induction entries generalizing counts s with
  | nil =>
    cases ran
    simp [cleaned]
  | cons entry rest ih =>
    simp only [cleanupArchives, exec_bind_eq_ok_iff, exec_lift] at ran
    obtain ⟨known, _, read, _, s₁, deleted, ran⟩ := ran
    obtain ⟨found, rfl⟩ := Prod.mk.inj read
    obtain ⟨-, rfl⟩ := knownPeriods_returns_iff.mp found
    rw [ih ran, cleaned]
    split
    · rename_i keep
      rw [when_of_not (by simp [keep])] at deleted
      cases deleted
      rfl
    · rename_i delete
      rw [when_of (by simpa using delete), deleteArchive, perform_returns_iff] at deleted
      obtain ⟨-, rfl⟩ := deleted
      rw [archives_remove, List.filter_filter]
      apply List.filter_congr
      intro archive _
      simp [Bool.and_comm]

theorem archives_of_runCleanup {self : Schedule} {s s' : Repository}
    (ran : (self.runCleanup trigger).exec s = (.ok (), s')) :
    s'.archives = s.archives.filter fun archive => !self.expired trigger.now s archive := by
  simp only [runCleanup, exec_bind_eq_ok_iff, listScheduledArchives_returns_iff,
    perform_returns_iff] at ran
  obtain ⟨entries, _, ⟨-, listed, rfl⟩, _, s₁, cleaned, -, rfl⟩ := ran
  have read := scheduledArchives_eq trigger.now (read_of_scheduledArchives listed)
  obtain rfl := Except.ok.inj (listed.symm.trans read)
  refine (archives_of_cleanupArchives cleaned).trans ?_
  apply List.filter_congr
  intro archive member
  rw [Bool.eq_iff_iff, decide_eq_true_eq, Bool.not_eq_true', ← Bool.not_eq_true]
  exact not_congr (mem_cleaned_archives_iff self trigger.now s member)

def scheduledCount (now : DateTime) (s : Repository) : Nat :=
  s.archives.countP fun archive => (pastPeriods now archive).isSome

theorem mem_mostRecent_of_kept {self : Schedule} {now : DateTime} {s : Repository}
    {archive : Archive} (past : (pastPeriods now archive).isSome = true)
    (kept : self.expired now s archive = false) :
    archive ∈ self.mostRecent now s .daily ++ self.mostRecent now s .weekly ++
      self.mostRecent now s .monthly := by
  by_contra absent
  have expired : self.expired now s archive = true := by
    simp only [List.mem_append, not_or] at absent
    simp [Schedule.expired, past, Period.all, absent]
  rw [kept] at expired
  cases expired

theorem few_kept (self : Schedule) (now : DateTime) (s : Repository) :
    ((s.archives.filter fun archive => !self.expired now s archive).countP fun archive =>
      (pastPeriods now archive).isSome) ≤
        self.dailyToKeep + self.weeklyToKeep + self.monthlyToKeep := by
  rw [List.countP_eq_length_filter, List.filter_filter]
  have nodup : s.archives.Nodup := .of_map _ s.names_nodup
  have sub := (nodup.filter fun archive =>
    (pastPeriods now archive).isSome && !self.expired now s archive).subperm fun archive member => by
      have both := (List.mem_filter.mp member).2
      simp only [Bool.and_eq_true, Bool.not_eq_true'] at both
      exact mem_mostRecent_of_kept both.1 both.2
  have few := sub.length_le
  have each (period : Period) : (self.mostRecent now s period).length ≤ self.toKeep period :=
    List.length_take_le _ _
  have daily := each .daily
  have weekly := each .weekly
  have monthly := each .monthly
  simp only [List.length_append, toKeep] at few daily weekly monthly
  omega

/-- A trigger that has made a backup leaves no more scheduled archives than are to be kept. -/
def Bounded (s : Repository) (e : Schedule × Trigger) : Prop :=
  ((e.1.runSchedule e.2).exec s).1 = .ok true →
    scheduledCount e.2.now (step s e) ≤ e.1.dailyToKeep + e.1.weeklyToKeep + e.1.monthlyToKeep

theorem bounded_step (s : Repository) (e : Schedule × Trigger) : Bounded s e := by
  intro fires
  obtain ⟨result, calls, same, other⟩ | ⟨calls, times, periods, -, same⟩ :=
    e.1.runSchedule_cases e.2 s
  · rw [same] at fires
    exact absurd fires other
  · have ran : (e.1.serve e.2 periods).exec (afterCalls calls s) = (.ok true, step s e) := by
      rw [step, ← same]
      exact Prod.ext fires rfl
    obtain ⟨_, s₁, _, ran⟩ := returns_of_bind ran
    obtain ⟨_, s₂, cleaned, ran⟩ := returns_of_bind ran
    have final : s₂ = step s e := congrArg Prod.snd ran
    rw [scheduledCount, ← final, archives_of_runCleanup cleaned]
    exact few_kept e.1 e.2.now s₁

theorem scheduled_archives_bounded (s : Repository) (triggers : List (Schedule × Trigger)) :
    Runs.Throughout step Bounded s triggers := by
  rw [Runs.throughout_iff]
  intro before e after _
  exact bounded_step (Runs.run step s before) e

end Plinth.Backups.Schedule
