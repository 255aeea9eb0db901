import Plinth.Lib.Python.Codec
import Plinth.Model.Backups.Privileged
import Plinth.Model.Backups.Schedule

/-! # A trigger of the schedule -/

namespace Plinth.Backups.Schedule

open Calendar Effect Python Exception Repository

variable {trigger : Trigger}

/-! ## Calls -/

theorem exec_perform (call : RepositoryCall) (work : Repository → Repository) (s : Repository) :
    (perform trigger call work).exec s = match trigger.fault s.calls call with
      | none => (.ok (), work (record call s))
      | some (.before, e) => (.error e, record call s)
      | some (.after, e) => (.error e, work (record call s)) := by
  simp only [perform, exec_bind, exec_get, exec_modify]
  rcases trigger.fault s.calls call with _ | ⟨_ | _, e⟩ <;> rfl

theorem exec_perform_id (call : RepositoryCall) (s : Repository) :
    (perform trigger call id).exec s = (match trigger.fault s.calls call with
      | none => .ok ()
      | some (_, e) => .error e, record call s) := by
  rw [exec_perform]
  rcases trigger.fault s.calls call with _ | ⟨_ | _, e⟩ <;> rfl

theorem perform_spec {P : Repository → Prop} {Q : Unit → Repository → Prop}
    {E : Exception → Repository → Prop} {call : RepositoryCall} {work : Repository → Repository}
    (before : ∀ e s, P s → E e (record call s))
    (returns : ∀ s, P s → Q () (work (record call s)))
    (after : ∀ e s, P s → E e (work (record call s))) :
    Triple P (perform trigger call work) Q E := by
  intro s holds
  rw [exec_perform]
  rcases trigger.fault s.calls call with _ | ⟨_ | _, e⟩
  · exact returns s holds
  · exact before e s holds
  · exact after e s holds

theorem calls_addNew (archive : Archive) (s : Repository) : (addNew archive s).calls = s.calls := by
  unfold addNew
  split <;> rfl

theorem exec_listScheduledArchives (s : Repository) :
    (listScheduledArchives trigger).exec s = (match trigger.fault s.calls .listArchives with
      | none => scheduledArchives trigger.now s.sorted
      | some (_, e) => .error e, record .listArchives s) := by
  simp only [listScheduledArchives, listArchives, exec_bind, exec_perform_id]
  cases trigger.fault s.calls .listArchives with
  | some fault => rfl
  | none => exact exec_lift _ _

/-! ## The archives that the trigger finds -/

def lastBackups (now : DateTime) (s : Repository) : Except Exception Times := do
  recentTimes (← scheduledArchives now s.sorted) fun _ => .min

theorem exec_getRecentBackupTimes (s : Repository) :
    (getRecentBackupTimes trigger).exec s = (match trigger.fault s.calls .listArchives with
      | none => lastBackups trigger.now s
      | some (_, e) => .error e, record .listArchives s) := by
  simp only [getRecentBackupTimes, exec_bind, exec_listScheduledArchives, lastBackups]
  cases trigger.fault s.calls .listArchives with
  | some fault => rfl
  | none =>
    cases scheduledArchives trigger.now s.sorted with
    | error e => rfl
    | ok archives => exact exec_lift _ _

/-! ## What the trigger does -/

def afterCalls (calls : List RepositoryCall) (s : Repository) : Repository :=
  { s with calls := s.calls ++ calls }

def recentBackups (self : Schedule) (trigger : Trigger) : Run Times := do
  perform trigger (.getInstance self.repositoryUuid) id
  perform trigger .prepare id
  getRecentBackupTimes trigger

theorem exec_recentBackups (self : Schedule) (trigger : Trigger) (s : Repository) :
    (∃ calls e, (self.recentBackups trigger).exec s = (.error e, afterCalls calls s)) ∨
      ∃ calls, (self.recentBackups trigger).exec s =
        (lastBackups trigger.now s, afterCalls calls s) := by
  simp only [recentBackups, exec_bind, exec_perform_id, exec_getRecentBackupTimes]
  rcases trigger.fault s.calls (.getInstance self.repositoryUuid) with _ | ⟨_, e⟩
  · dsimp only
    rcases trigger.fault (record (.getInstance self.repositoryUuid) s).calls .prepare
      with _ | ⟨_, e⟩
    · dsimp only
      rcases trigger.fault (record .prepare (record (.getInstance self.repositoryUuid) s)).calls
        .listArchives with _ | ⟨_, e⟩
      · exact .inr ⟨[.getInstance self.repositoryUuid, .prepare, .listArchives], by
          simp [afterCalls, record]
          rfl⟩
      · exact .inl ⟨[.getInstance self.repositoryUuid, .prepare, .listArchives], e, by
          simp [afterCalls, record]⟩
    · exact .inl ⟨[.getInstance self.repositoryUuid, .prepare], e, by simp [afterCalls, record]⟩
  · exact .inl ⟨[.getInstance self.repositoryUuid], e, rfl⟩

def serve (self : Schedule) (trigger : Trigger) (periods : List Period) : Run Bool := do
  self.runBackup trigger periods
  self.runCleanup trigger
  return true

structure Serves (schedule : Schedule) (trigger : Trigger) (s : Repository) (times : Times)
    (periods : List Period) : Prop where
  recent : lastBackups trigger.now s = .ok times
  notTooSoon : isBackupTooSoon trigger.now times = false
  due : ∃ tooLong, tooLongSinceLastBackup trigger.now times = .ok tooLong ∧
    periods = schedule.duePeriods tooLong (schedule.timeForPeriods trigger.now)
  nonempty : periods ≠ []

def proceed (self : Schedule) (trigger : Trigger) (times : Times) : Run Bool := do
  if isBackupTooSoon trigger.now times then return false
  let tooLongPeriods ← lift (tooLongSinceLastBackup trigger.now times)
  let periods := self.duePeriods tooLongPeriods (self.timeForPeriods trigger.now)
  if periods.isEmpty then return false
  self.serve trigger periods

theorem exec_runSchedule (self : Schedule) (enabled : self.enabled = true) (s : Repository) :
    (self.runSchedule trigger).exec s = match (self.recentBackups trigger).exec s with
      | (.ok times, s') => (self.proceed trigger times).exec s'
      | (.error e, s') => (.error e, s') := by
  simp only [runSchedule, recentBackups, enabled, Bool.not_true, Bool.false_eq_true, if_false,
    exec_bind]
  rcases (perform trigger (.getInstance self.repositoryUuid) id).exec s with ⟨_ | _, s₁⟩
  · rfl
  · dsimp only
    rcases (perform trigger .prepare id).exec s₁ with ⟨_ | _, s₂⟩
    · rfl
    · dsimp only
      rcases (getRecentBackupTimes trigger).exec s₂ with ⟨_ | times, s₃⟩ <;> rfl

theorem proceed_cases (self : Schedule) {times : Times} {s : Repository}
    (recent : lastBackups trigger.now s = .ok times) (s' : Repository) :
    (∃ result, (self.proceed trigger times).exec s' = (result, s') ∧ result ≠ .ok true) ∨
      ∃ periods, Serves self trigger s times periods ∧
        (self.proceed trigger times).exec s' = (self.serve trigger periods).exec s' := by
  unfold proceed
  cases notTooSoon : isBackupTooSoon trigger.now times with
  | true => exact .inl ⟨.ok false, rfl, by simp⟩
  | false =>
    simp only [Bool.false_eq_true, if_false, exec_bind, exec_lift]
    cases tooLong : tooLongSinceLastBackup trigger.now times with
    | error e => exact .inl ⟨.error e, rfl, by simp⟩
    | ok periods =>
      dsimp only
      split
      · exact .inl ⟨.ok false, rfl, by simp⟩
      · rename_i nonempty
        exact .inr ⟨_, ⟨recent, notTooSoon, ⟨periods, tooLong, rfl⟩,
          fun empty => nonempty (List.isEmpty_iff.mpr empty)⟩, rfl⟩

theorem runSchedule_cases (self : Schedule) (trigger : Trigger) (s : Repository) :
    (∃ result calls, (self.runSchedule trigger).exec s = (result, afterCalls calls s) ∧
      result ≠ .ok true) ∨
    ∃ calls times periods, Serves self trigger s times periods ∧
      (self.runSchedule trigger).exec s =
        (self.serve trigger periods).exec (afterCalls calls s) := by
  cases enabled : self.enabled with
  | false =>
    refine .inl ⟨.ok false, [], ?_, by simp⟩
    simp [runSchedule, enabled, afterCalls]
  | true =>
    rw [exec_runSchedule self enabled]
    obtain ⟨calls, e, failed⟩ | ⟨calls, found⟩ := self.exec_recentBackups trigger s
    · exact .inl ⟨.error e, calls, by rw [failed], by simp⟩
    · rw [found]
      cases recent : lastBackups trigger.now s with
      | error e => exact .inl ⟨.error e, calls, rfl, by simp⟩
      | ok times =>
        obtain ⟨result, same, other⟩ | ⟨periods, serves, same⟩ :=
          self.proceed_cases recent (afterCalls calls s)
        · exact .inl ⟨result, calls, same, other⟩
        · exact .inr ⟨calls, times, periods, serves, same⟩

/-! ## The cleanup -/

def DeletesOnly (self : Schedule) (Deletable : String → Prop) :
    List ScheduledArchive → Counts → Prop
  | [], _ => True
  | entry :: rest, counts => ∀ known, knownPeriods entry.periods = .ok known →
      ((∃ period ∈ known, count counts known period ≤ self.toKeep period) ∨ Deletable entry.name) ∧
        DeletesOnly self Deletable rest (count counts known)

theorem deletesOnly_of_all (self : Schedule) {Deletable : String → Prop}
    {entries : List ScheduledArchive} (all : ∀ entry ∈ entries, Deletable entry.name)
    (counts : Counts) : DeletesOnly self Deletable entries counts := by
  induction entries generalizing counts with
  | nil => trivial
  | cons entry entries ih =>
    intro known read
    refine ⟨.inr (all entry List.mem_cons_self), ih ?_ _⟩
    exact fun other member => all other (List.mem_cons_of_mem _ member)

section Cleanup

variable {Inv : Repository → Prop} {Deletable : String → Prop}
  (deleted : ∀ name s, Deletable name → Inv s → Inv (remove name s))

include deleted

theorem cleanupArchives_spec (recorded : ∀ name s, Inv s → Inv (record (.deleteArchive name) s))
    (self : Schedule) {entries : List ScheduledArchive} {counts : Counts}
    (only : DeletesOnly self Deletable entries counts) :
    Triple Inv (self.cleanupArchives trigger entries counts) (fun _ => Inv) fun _ => Inv := by
  induction entries generalizing counts with
  | nil => exact .pure fun _ => id
  | cons entry entries ih =>
    unfold cleanupArchives
    intro s holds
    simp only [exec_bind, exec_lift]
    cases read : knownPeriods entry.periods with
    | error e => exact holds
    | ok known =>
      obtain ⟨kept, only⟩ := only known read
      have first : Triple Inv
          (Effect.when (!known.any fun period =>
            (count counts known period ≤ self.toKeep period : Bool)) do
              deleteArchive trigger entry.name) (fun _ => Inv) fun _ => Inv := by
        refine .when (fun unkept => ?_) fun _ _ => id
        have deletable : Deletable entry.name := by
          refine kept.resolve_left ?_
          rintro ⟨period, member, enough⟩
          simp only [Bool.not_eq_true', List.any_eq_false, decide_eq_true_eq] at unkept
          exact unkept period member enough
        exact perform_spec (fun _ => recorded _)
          (fun s holds => deleted _ _ deletable (recorded _ s holds))
          fun _ s holds => deleted _ _ deletable (recorded _ s holds)
      simpa only [exec_bind] using (first.bind fun _ => ih only) s holds

theorem runCleanup_spec (recorded : ∀ call s, Inv s → Inv (record call s)) (self : Schedule)
    {s : Repository} (holds : Inv s)
    (only : ∀ entries, scheduledArchives trigger.now s.sorted = .ok entries →
      DeletesOnly self Deletable entries fun _ => 0) :
    Inv ((self.runCleanup trigger).exec s).2 := by
  simp only [runCleanup, exec_bind, exec_listScheduledArchives]
  have listed := recorded .listArchives s holds
  rcases trigger.fault s.calls .listArchives with _ | ⟨_, e⟩
  · cases found : scheduledArchives trigger.now s.sorted with
    | error e => exact listed
    | ok entries =>
      have loop : Triple Inv (self.cleanupArchives trigger entries fun _ => 0)
          (fun _ => Inv) fun _ => Inv :=
        cleanupArchives_spec deleted (fun _ => recorded _) self (only entries found)
      have last : Triple Inv (perform trigger .cleanup id) (fun _ => Inv) fun _ => Inv :=
        perform_spec (fun _ => recorded _) (recorded _) fun _ => recorded _
      simpa only [exec_bind] using (loop.bind fun _ => last).final listed
  · exact listed

end Cleanup

end Plinth.Backups.Schedule

/-! ## Comments of archives -/

namespace Plinth.Backups

open Effect Python Exception

/-! ## Braces -/

theorem undoubled_cons_of_ne {a c : Char} (other : a ≠ c) (text : List Char) :
    undoubled c (a :: text) = a :: undoubled c text := by
  cases text with
  | nil => rfl
  | cons b rest => rw [undoubled, if_neg fun same => other same.1]

theorem doubled_cons (c a : Char) (text : List Char) :
    doubled c (a :: text) = if a = c then c :: c :: doubled c text else a :: doubled c text := by
  unfold doubled
  split <;> simp [*]

theorem undoubled_pair (c : Char) (text : List Char) :
    undoubled c (c :: c :: text) = c :: undoubled c text := by
  rw [undoubled, if_pos ⟨rfl, rfl⟩]

theorem undoubled_doubled (c : Char) (text : List Char) : undoubled c (doubled c text) = text := by
  induction text with
  | nil => rfl
  | cons a text ih =>
    rw [doubled_cons]
    split
    · rename_i same
      rw [undoubled_pair, ih, same]
    · rename_i other
      rw [undoubled_cons_of_ne other, ih]

theorem undoubled_doubled_doubled {c d : Char} (other : d ≠ c) (text : List Char) :
    undoubled c (doubled d (doubled c text)) = doubled d text := by
  induction text with
  | nil => rfl
  | cons a text ih =>
    rw [doubled_cons c, doubled_cons d a text]
    by_cases same : a = c
    · obtain rfl := same
      rw [if_pos rfl, if_neg other.symm, doubled_cons, if_neg other.symm, doubled_cons,
        if_neg other.symm, undoubled_pair, ih]
    · rw [if_neg same, doubled_cons]
      split
      · rw [undoubled_cons_of_ne other, undoubled_cons_of_ne other, ih]
      · rw [undoubled_cons_of_ne same, ih]

theorem unescapeBraces_escapeBraces (text : String) : unescapeBraces (escapeBraces text) = text := by
  simp only [unescapeBraces, escapeBraces, String.toList_ofList]
  rw [undoubled_doubled_doubled (by decide), undoubled_doubled, String.ofList_toList]

theorem escapeBraces_ne_empty {text : String} (nonempty : text ≠ "") : escapeBraces text ≠ "" := by
  intro empty
  have back := unescapeBraces_escapeBraces text
  rw [empty] at back
  exact nonempty back.symm

theorem dumps_ne_empty {data : Value} {text : String} (dumped : dumps jsonDefault data = .ok text) :
    text ≠ "" := by
  unfold dumps at dumped
  cases encoded : encode jsonDefault data with
  | error e =>
    rw [encoded] at dumped
    cases dumped
  | ok document =>
    rw [encoded] at dumped
    cases dumped
    intro empty
    have long := Json.length_print_pos document
    rw [String.ofList_eq_empty_iff.mp empty] at long
    cases long

/-! ## Periods -/

namespace Schedule

def texts (periods : List Period) : List Value :=
  periods.map fun period => .str period.text

theorem jsonData_backupComment (periods : List Period) : JsonData (backupComment periods) := by
  have list : JsonData (.list (texts periods)) := by
    refine .list _ fun value member => ?_
    obtain ⟨period, -, rfl⟩ := List.mem_map.mp member
    exact .str period.text
  have keys : (["type", "periods"] : List String).Nodup := by decide
  refine .dict [("type", .str "scheduled"), ("periods", .list (texts periods))] keys ?_
  intro member present
  obtain rfl | rfl : member = ("type", .str "scheduled") ∨
      member = ("periods", .list (texts periods)) := by simpa using present
  · exact .str "scheduled"
  · exact list

theorem serializeComment_backupComment (periods : List Period) :
    ∃ text, serializeComment (backupComment periods) = .ok (escapeBraces text) ∧
      scheduledPeriods text = .ok (some (texts periods)) := by
  obtain ⟨text, dumped, loaded⟩ := (jsonData_backupComment periods).loads_dumps jsonDefault
  refine ⟨text, bind_of_ok dumped rfl, ?_⟩
  rw [scheduledPeriods, loaded]
  rfl

theorem text_injective {period period' : Period} (same : period.text = period'.text) :
    period = period' := by
  cases period <;> cases period' <;> first | rfl | exact absurd same (by decide)

theorem isNamed_texts (period : Period) (periods : List Period) :
    (texts periods).any (isNamed period) = true ↔ period ∈ periods := by
  simp only [texts, List.any_map, List.any_eq_true, Function.comp_apply, isNamed,
    decide_eq_true_eq]
  constructor
  · rintro ⟨other, member, same⟩
    rwa [← text_injective same]
  · intro member
    exact ⟨period, member, rfl⟩

theorem hash_texts (periods : List Period) : (texts periods).forM hash = .ok () := by
  induction periods with
  | nil => rfl
  | cons period periods ih =>
    rw [texts, List.map_cons, List.forM]
    exact ih

theorem knownPeriods_texts (periods : List Period) :
    ∃ known, knownPeriods (texts periods) = .ok known ∧ ∀ period, period ∈ known ↔
      period ∈ periods := by
  refine ⟨_, bind_of_ok (hash_texts periods) rfl, fun period => ?_⟩
  have known : period ∈ Period.all := by cases period <;> decide
  rw [List.mem_filter, isNamed_texts, and_iff_right known]

/-! ## Comments that are read back -/

/-- Taking back the escape gives the text of the data, whatever braces are in it, and the archive
with this comment is listed with the periods of the data. -/
theorem comment_survives (data : Value) :
    (serializeComment data).map (borgComment false) = (dumps jsonDefault data).map some ∧
      (JsonData data → ∃ text, (serializeComment data).map (borgComment false) = .ok (some text) ∧
        loads text = .ok data ∧
        ∀ items periods now name start, data = .dict items →
          lookup "type" items = some (.str "scheduled") →
          lookup "periods" items = some (.list periods) → start.instant ≤ now.instant →
          scheduledArchives now [⟨name, text, start⟩] = .ok [⟨name, periods, start⟩]) := by
  have survives : (serializeComment data).map (borgComment false) =
      (dumps jsonDefault data).map some := by
    cases dumped : dumps jsonDefault data with
    | error e =>
      have failed : serializeComment data = .error e := bind_of_error dumped
      rw [failed]
      rfl
    | ok text =>
      have serialized : serializeComment data = .ok (escapeBraces text) := bind_of_ok dumped rfl
      have nonempty := escapeBraces_ne_empty (dumps_ne_empty dumped)
      rw [serialized, Except.map, borgComment, if_neg nonempty, if_neg (by decide),
        unescapeBraces_escapeBraces]
      rfl
  refine ⟨survives, fun jsonData => ?_⟩
  obtain ⟨text, dumped, loaded⟩ := jsonData.loads_dumps jsonDefault
  refine ⟨text, by rw [survives, dumped]; rfl, loaded, ?_⟩
  intro items periods now name start isDict isScheduled hasPeriods past
  have found : scheduledPeriods text = .ok (some periods) := by
    rw [scheduledPeriods, loaded, isDict]
    dsimp only
    rw [isScheduled, hasPeriods]
    rfl
  have kept : scheduledArchive now ⟨name, text, start⟩ = .ok (some ⟨name, periods, start⟩) := by
    apply bind_of_ok found
    exact if_neg (Nat.not_lt.mpr past)
  rw [scheduledArchives]
  exact bind_of_ok kept rfl

theorem daily_comment_survives :
    ∃ text, (serializeComment (backupComment [.daily])).map (borgComment false) =
        .ok (some text) ∧ loads text = .ok (backupComment [.daily]) := by
  obtain ⟨text, given, loaded, _⟩ :=
    (comment_survives (backupComment [.daily])).2 (jsonData_backupComment [.daily])
  exact ⟨text, given, loaded⟩

end Schedule

end Plinth.Backups
