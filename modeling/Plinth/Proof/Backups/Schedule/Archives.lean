import Plinth.Proof.Backups.Schedule.Trigger

/-!
# Scheduled archives

The archives that a trigger counts, and the times of the last backups it takes from them.
-/

namespace Plinth.Backups.Schedule

open Calendar Effect Python Exception Repository

structure ReadFrom (now : DateTime) (archive : Archive) (entry : ScheduledArchive) : Prop where
  comment : scheduledPeriods archive.comment = .ok (some entry.periods)
  past : archive.start.instant ≤ now.instant
  name : entry.name = archive.name
  start : entry.start = archive.start

def IsScheduled (archive : Archive) : Prop :=
  ∃ periods known, scheduledPeriods archive.comment = .ok (some periods) ∧
    knownPeriods periods = .ok known ∧ known ≠ []

/-! ## The list -/

theorem mem_scheduledArchive {now : DateTime} {archive : Archive} {found : Option ScheduledArchive}
    (h : scheduledArchive now archive = .ok found) (entry : ScheduledArchive) :
    found = some entry ↔ ReadFrom now archive entry := by
  obtain ⟨periods, read, h⟩ := ok_of_bind h
  cases periods with
  | none =>
    obtain rfl := Except.ok.inj h
    refine iff_of_false (by simp) fun from_ => ?_
    cases read.symm.trans from_.comment
  | some periods =>
    dsimp only at h
    split at h
    · rename_i future
      obtain rfl := Except.ok.inj h
      exact iff_of_false (by simp) fun from_ => absurd from_.past (Nat.not_le.mpr future)
    · rename_i past
      obtain rfl := Except.ok.inj h
      constructor
      · rintro ⟨⟩
        exact ⟨read, Nat.not_lt.mp past, rfl, rfl⟩
      · rintro ⟨comment, -, name, start⟩
        obtain ⟨name', periods', start'⟩ := entry
        obtain rfl := Option.some.inj (Except.ok.inj (read.symm.trans comment))
        obtain rfl : name' = archive.name := name
        obtain rfl : start' = archive.start := start
        rfl

theorem scheduledArchives_append {now : DateTime} {archives archives' : List Archive}
    {entries : List ScheduledArchive}
    (h : scheduledArchives now (archives ++ archives') = .ok entries) :
    ∃ earlier later, entries = earlier ++ later ∧ scheduledArchives now archives = .ok earlier ∧
      scheduledArchives now archives' = .ok later := by
  induction archives generalizing entries with
  | nil => exact ⟨[], entries, rfl, rfl, h⟩
  | cons archive archives ih =>
    obtain ⟨found, read, h⟩ := ok_of_bind h
    obtain ⟨others, listed, h⟩ := ok_of_bind h
    obtain rfl := Except.ok.inj h
    obtain ⟨earlier, later, rfl, before, after⟩ := ih listed
    exact ⟨found.toList ++ earlier, later, (List.append_assoc ..).symm,
      bind_of_ok read (bind_of_ok before rfl), after⟩

theorem mem_scheduledArchives {now : DateTime} {archives : List Archive}
    {entries : List ScheduledArchive} (h : scheduledArchives now archives = .ok entries)
    (entry : ScheduledArchive) :
    entry ∈ entries ↔ ∃ archive ∈ archives, ReadFrom now archive entry := by
  induction archives generalizing entries with
  | nil =>
    obtain rfl := Except.ok.inj h
    simp
  | cons archive archives ih =>
    obtain ⟨found, read, h⟩ := ok_of_bind h
    obtain ⟨others, listed, h⟩ := ok_of_bind h
    obtain rfl := Except.ok.inj h
    rw [List.mem_append, Option.mem_toList, mem_scheduledArchive read, ih listed]
    simp

theorem scheduledArchives_split {now : DateTime} {before after : List Archive} {archive : Archive}
    {entry : ScheduledArchive} {entries : List ScheduledArchive}
    (h : scheduledArchives now (before ++ archive :: after) = .ok entries)
    (from_ : ReadFrom now archive entry) :
    ∃ earlier later, entries = earlier ++ entry :: later ∧
      scheduledArchives now before = .ok earlier ∧ scheduledArchives now after = .ok later := by
  obtain ⟨earlier, rest, rfl, listed, h⟩ := scheduledArchives_append h
  obtain ⟨found, read, h⟩ := ok_of_bind h
  obtain ⟨later, listed', h⟩ := ok_of_bind h
  obtain rfl := Except.ok.inj h
  obtain rfl := (mem_scheduledArchive read entry).mpr from_
  exact ⟨earlier, later, rfl, listed, listed'⟩

/-! ## The times of the last backups -/

theorem updateTimes_mono (times : Times) (start : DateTime) (period period' : Period) :
    (times period').instant ≤ (updateTimes times start period period').instant := by
  unfold updateTimes
  split
  · by_cases same : period' = period
    · obtain rfl := same
      rw [Function.update_self]
      exact Nat.le_of_lt ‹_›
    · rw [Function.update_of_ne same]
  · exact Nat.le_refl _

theorem updateTimes_reaches (times : Times) (start : DateTime) (period : Period) :
    start.instant ≤ (updateTimes times start period period).instant := by
  unfold updateTimes
  split
  · rw [Function.update_self]
  · exact Nat.not_lt.mp ‹_›

theorem foldl_updateTimes (start : DateTime) (periods : List Period) (times : Times) :
    (∀ period, (times period).instant ≤
      (periods.foldl (updateTimes · start) times period).instant) ∧
    ∀ period ∈ periods, start.instant ≤
      (periods.foldl (updateTimes · start) times period).instant := by
  induction periods generalizing times with
  | nil => exact ⟨fun period => Nat.le_refl _, fun period member => absurd member List.not_mem_nil⟩
  | cons first periods ih =>
    obtain ⟨mono, reaches⟩ := ih (updateTimes times start first)
    refine ⟨fun period => (updateTimes_mono times start first period).trans (mono period), ?_⟩
    intro period member
    obtain rfl | member := List.mem_cons.mp member
    · exact (updateTimes_reaches times start period).trans (mono period)
    · exact reaches period member

theorem recentTimes_spec {entries : List ScheduledArchive} {times times' : Times}
    (h : recentTimes entries times = .ok times') :
    (∀ period, (times period).instant ≤ (times' period).instant) ∧
    ∀ entry ∈ entries, ∃ known, knownPeriods entry.periods = .ok known ∧
      ∀ period ∈ known, entry.start.instant ≤ (times' period).instant := by
  induction entries generalizing times with
  | nil =>
    obtain rfl := Except.ok.inj h
    exact ⟨fun period => Nat.le_refl _, fun entry member => absurd member List.not_mem_nil⟩
  | cons first entries ih =>
    obtain ⟨known, read, h⟩ := ok_of_bind h
    obtain ⟨mono, reaches⟩ := ih h
    obtain ⟨mono', reaches'⟩ := foldl_updateTimes first.start known times
    refine ⟨fun period => (mono' period).trans (mono period), fun entry member => ?_⟩
    obtain rfl | member := List.mem_cons.mp member
    · exact ⟨known, read, fun period present => (reaches' period present).trans (mono period)⟩
    · exact reaches entry member

theorem notTooSoon_iff (now : DateTime) (times : Times) :
    isBackupTooSoon now times = false ↔
      ∀ period, (times period).instant + hours 2 ≤ now.instant := by
  have each (period : Period) : ¬ now.since (times period) < hours 2 ↔
      (times period).instant + hours 2 ≤ now.instant := by
    unfold DateTime.since
    omega
  simp only [isBackupTooSoon, decide_eq_false_iff_not, not_or, each]
  constructor
  · rintro ⟨daily, weekly, monthly⟩ (_ | _ | _)
    · exact daily
    · exact weekly
    · exact monthly
  · intro all
    exact ⟨all _, all _, all _⟩

theorem old_of_notTooSoon {now : DateTime} {s : Repository} {times : Times}
    (recent : lastBackups now s = .ok times) (notTooSoon : isBackupTooSoon now times = false)
    {archive : Archive} (member : archive ∈ s.archives) (past : archive.start.instant ≤ now.instant)
    (scheduled : IsScheduled archive) : archive.start.instant + hours 2 ≤ now.instant := by
  obtain ⟨entries, listed, found⟩ := ok_of_bind recent
  obtain ⟨periods, known, comment, read, nonempty⟩ := scheduled
  have here : archive ∈ s.sorted := List.mem_mergeSort.mpr member
  have entry := (mem_scheduledArchives listed ⟨archive.name, periods, archive.start⟩).mpr
    ⟨archive, here, comment, past, rfl, rfl⟩
  obtain ⟨known', read', reaches⟩ := (recentTimes_spec found).2 _ entry
  obtain rfl := Except.ok.inj (read.symm.trans read')
  obtain ⟨period, present⟩ := List.exists_mem_of_ne_nil known nonempty
  have after := (notTooSoon_iff now times).mp notTooSoon period
  have reached := reaches period present
  exact (Nat.add_le_add_right reached _).trans after

end Plinth.Backups.Schedule
