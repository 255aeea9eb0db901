import Plinth.Proof.Backups.Schedule.Archives

/-! # Retention -/

namespace Plinth.Backups.Schedule

open Calendar Effect Python Exception Repository

/-! ## What is to be deleted -/

def pastPeriods (now : DateTime) (archive : Archive) : Option (List Value) :=
  match scheduledPeriods archive.comment with
  | .ok (some periods) => if archive.start.instant ≤ now.instant then some periods else none
  | _ => none

def carries (now : DateTime) (period : Period) (archive : Archive) : Bool :=
  (pastPeriods now archive).any fun periods => periods.any (isNamed period)

def mostRecent (self : Schedule) (now : DateTime) (s : Repository) (period : Period) :
    List Archive :=
  (s.sorted.filter (carries now period)).take (self.toKeep period)

def expired (self : Schedule) (now : DateTime) (s : Repository) (archive : Archive) : Bool :=
  (pastPeriods now archive).isSome && Period.all.all fun period =>
    !(carries now period archive && decide (archive ∈ self.mostRecent now s period))

def isHashable : Value → Bool
  | .list _ | .dict _ => false
  | _ => true

/-- The comment is read, if only to find that it is no JSON, and what a past scheduled backup has
in its list of periods goes into a set. -/
structure Readable (now : DateTime) (archive : Archive) : Prop where
  read : ∀ e, loads archive.comment = .error e → e.isinstance .jsonDecodeError = true
  hashable : ∀ items periods, loads archive.comment = .ok (.dict items) →
    lookup "type" items = some (.str "scheduled") → lookup "periods" items = some (.list periods) →
    archive.start.instant ≤ now.instant → ∀ value ∈ periods, isHashable value = true

/-! ## Lists -/

theorem mem_take_filter_iff {α : Type} (p : α → Bool) {before after : List α} {a : α}
    (nodup : (before ++ a :: after).Nodup) (holds : p a = true) (n : Nat) :
    a ∈ ((before ++ a :: after).filter p).take n ↔ before.countP p < n := by
  have absent : a ∉ before := fun member =>
    (List.nodup_append.mp nodup).2.2 a member a List.mem_cons_self rfl
  have notBefore : a ∉ (before.filter p).take n := fun member =>
    absent (List.mem_filter.mp (List.mem_of_mem_take member)).1
  rw [List.filter_append, List.filter_cons_of_pos holds, List.take_append, List.mem_append,
    ← List.countP_eq_length_filter]
  cases room : n - before.countP p with
  | zero =>
    have full : ¬ before.countP p < n := by omega
    simp [notBefore, full]
  | succ m =>
    have free : before.countP p < n := by omega
    simp [free]

/-! ## The loop -/

def carried (periods : List Value) : List Period :=
  Period.all.filter fun period => periods.any (isNamed period)

def cleaned (self : Schedule) : List ScheduledArchive → Counts → List String
  | [], _ => []
  | entry :: rest, counts =>
    let next := count counts (carried entry.periods)
    if (carried entry.periods).any fun period => next period ≤ self.toKeep period then
      self.cleaned rest next
    else entry.name :: self.cleaned rest next

theorem mem_of_mem_cleaned {self : Schedule} {entries : List ScheduledArchive} {counts : Counts}
    {name : String} (member : name ∈ self.cleaned entries counts) :
    name ∈ entries.map (·.name) := by
  induction entries generalizing counts with
  | nil => cases member
  | cons entry rest ih =>
    rw [cleaned] at member
    split at member
    · exact List.mem_cons_of_mem _ (ih member)
    · obtain rfl | member := List.mem_cons.mp member
      · exact List.mem_cons_self
      · exact List.mem_cons_of_mem _ (ih member)

theorem mem_cleaned_iff (self : Schedule) (before after : List ScheduledArchive)
    (entry : ScheduledArchive) (counts : Counts)
    (nodup : ((before ++ entry :: after).map (·.name)).Nodup) :
    entry.name ∈ self.cleaned (before ++ entry :: after) counts ↔
      ∀ period ∈ carried entry.periods, self.toKeep period <
        counts period + (before.countP fun other => period ∈ carried other.periods) + 1 := by
  induction before generalizing counts with
  | nil =>
    have others : entry.name ∉ self.cleaned after (count counts (carried entry.periods)) :=
      fun member => (List.nodup_cons.mp nodup).1 (mem_of_mem_cleaned member)
    rw [List.nil_append, cleaned]
    split
    · rename_i keep
      refine iff_of_false others fun all => ?_
      obtain ⟨period, member, few⟩ := List.any_eq_true.mp keep
      have many := all period member
      simp only [count, if_pos member, decide_eq_true_eq] at few
      simp only [List.countP_nil] at many
      omega
    · rename_i delete
      refine iff_of_true List.mem_cons_self fun period member => ?_
      rw [List.any_eq_true] at delete
      have many : ¬ count counts (carried entry.periods) period ≤ self.toKeep period :=
        fun few => delete ⟨period, member, by simpa using few⟩
      simp only [count, if_pos member] at many
      simp only [List.countP_nil]
      omega
  | cons first before ih =>
    obtain ⟨fresh, nodup'⟩ := List.nodup_cons.mp nodup
    have other : entry.name ≠ first.name := by
      intro same
      apply fresh
      refine List.mem_map.mpr ⟨entry, ?_, same⟩
      exact List.mem_append_right before List.mem_cons_self
    have counted (period : Period) : count counts (carried first.periods) period +
        (before.countP fun other => period ∈ carried other.periods) =
        counts period +
          ((first :: before).countP fun other => period ∈ carried other.periods) := by
      simp only [count, List.countP_cons, decide_eq_true_eq]
      split <;> omega
    have rest := ih (count counts (carried first.periods)) nodup'
    simp only [counted] at rest
    rw [List.cons_append, cleaned]
    split
    · exact rest
    · rw [List.mem_cons, or_iff_right other]
      exact rest

theorem knownPeriods_eq (periods : List Value) :
    knownPeriods periods = (periods.forM hash).map fun _ => carried periods := by
  unfold knownPeriods
  cases periods.forM hash <;> rfl

theorem hash_returns_iff (periods : List Value) :
    periods.forM hash = .ok () ↔ ∀ value ∈ periods, isHashable value = true := by
  induction periods with
  | nil => exact iff_of_true rfl fun value member => absurd member List.not_mem_nil
  | cons value periods ih =>
    rw [List.forall_mem_cons, ← ih]
    show (hash value >>= fun _ => periods.forM hash) = .ok () ↔ _
    cases value <;> simp [hash, isHashable, bind, Except.bind]

theorem archives_remove (name : String) (s : Repository) :
    (remove name s).archives = s.archives.filter (·.name ≠ name) := rfl

theorem exec_deleteArchive (quiet : trigger.fault = fun _ _ => none) (name : String)
    (s : Repository) :
    (deleteArchive trigger name).exec s = (.ok (), remove name (record (.deleteArchive name) s)) := by
  rw [deleteArchive, exec_perform, quiet]

theorem exec_cleanupArchives (self : Schedule) (quiet : trigger.fault = fun _ _ => none)
    (entries : List ScheduledArchive) (counts : Counts) (s : Repository)
    (hashable : ∀ entry ∈ entries, ∀ value ∈ entry.periods, isHashable value = true) :
    ∃ after, (self.cleanupArchives trigger entries counts).exec s = (.ok (), after) ∧
      after.archives = s.archives.filter (·.name ∉ self.cleaned entries counts) := by
  induction entries generalizing counts s with
  | nil => exact ⟨s, rfl, by simp [cleaned]⟩
  | cons entry rest ih =>
    have known : knownPeriods entry.periods = .ok (carried entry.periods) := by
      rw [knownPeriods_eq, (hash_returns_iff _).mpr (hashable entry List.mem_cons_self)]
      rfl
    have hashable' : ∀ other ∈ rest, ∀ value ∈ other.periods, isHashable value = true :=
      fun other member => hashable other (List.mem_cons_of_mem _ member)
    simp only [cleanupArchives, exec_bind, exec_lift, known]
    by_cases keep : ((carried entry.periods).any fun period =>
        count counts (carried entry.periods) period ≤ self.toKeep period) = true
    · have names : self.cleaned (entry :: rest) counts =
          self.cleaned rest (count counts (carried entry.periods)) := by
        rw [cleaned, if_pos keep]
      rw [when_of_not (by simp [keep])]
      simp only [names]
      exact ih _ s hashable'
    · have names : self.cleaned (entry :: rest) counts =
          entry.name :: self.cleaned rest (count counts (carried entry.periods)) := by
        rw [cleaned, if_neg keep]
      rw [when_of (by simpa using keep), exec_deleteArchive quiet]
      obtain ⟨after, ran, left⟩ := ih (count counts (carried entry.periods))
        (remove entry.name (record (.deleteArchive entry.name) s)) hashable'
      refine ⟨after, ran, ?_⟩
      rw [left, archives_remove, List.filter_filter]
      apply List.filter_congr
      intro archive _
      simp [names, Bool.and_comm]

theorem hashable_of_returns (self : Schedule) (entries : List ScheduledArchive) (counts : Counts)
    (s : Repository)
    (returned : ((self.cleanupArchives trigger entries counts).exec s).1 = .ok ()) :
    ∀ entry ∈ entries, ∀ value ∈ entry.periods, isHashable value = true := by
  induction entries generalizing counts s with
  | nil => exact fun entry member => absurd member List.not_mem_nil
  | cons entry rest ih =>
    have ran : (self.cleanupArchives trigger (entry :: rest) counts).exec s = (.ok (),
      ((self.cleanupArchives trigger (entry :: rest) counts).exec s).2) := Prod.ext returned rfl
    obtain ⟨periods, s₁, read, ran⟩ := returns_of_bind ran
    obtain ⟨_, s₂, _, ran⟩ := returns_of_bind ran
    have later := ih _ s₂ (congrArg Prod.fst ran)
    rw [List.forall_mem_cons]
    refine ⟨?_, later⟩
    rw [exec_lift, knownPeriods_eq] at read
    rw [← hash_returns_iff]
    cases hashed : entry.periods.forM hash with
    | ok u => rfl
    | error e =>
      rw [hashed] at read
      cases read

theorem cleanupArchives_keeps (self : Schedule) (trigger : Trigger)
    (entries : List ScheduledArchive) (counts : Counts) (archive : Archive)
    (kept : archive.name ∉ self.cleaned entries counts) :
    Triple (fun s : Repository => archive ∈ s.archives) (self.cleanupArchives trigger entries counts)
      (fun _ s => archive ∈ s.archives) (fun _ s => archive ∈ s.archives) := by
  induction entries generalizing counts with
  | nil => exact Triple.pure fun s h => h
  | cons entry rest ih =>
    unfold cleanupArchives
    have first : Triple (fun s : Repository => archive ∈ s.archives) (lift (knownPeriods entry.periods))
        (fun periods (s : Repository) => periods = carried entry.periods ∧ archive ∈ s.archives)
        (fun _ s => archive ∈ s.archives) := by
      intro s holds
      rw [exec_lift, knownPeriods_eq]
      cases entry.periods.forM hash with
      | ok u => exact ⟨rfl, holds⟩
      | error e => exact holds
    refine first.bind fun periods => ?_
    apply Triple.extract (periods = carried entry.periods) fun _ => And.left
    rintro rfl
    rw [cleaned] at kept
    have deleting : Triple (fun s : Repository => carried entry.periods = carried entry.periods ∧
        archive ∈ s.archives)
        (when (!(carried entry.periods).any fun period =>
          count counts (carried entry.periods) period ≤ self.toKeep period)
          (deleteArchive trigger entry.name))
        (fun _ s => archive ∈ s.archives) (fun _ s => archive ∈ s.archives) := by
      refine Triple.when (fun delete => ?_) fun _ _ => And.right
      rw [Bool.not_eq_true'] at delete
      rw [if_neg (by simp [delete])] at kept
      have other : archive.name ≠ entry.name := fun same =>
        kept (same ▸ List.mem_cons_self)
      have still (s : Repository) (holds : archive ∈ s.archives) :
          archive ∈ (remove entry.name (record (.deleteArchive entry.name) s)).archives :=
        List.mem_filter.mpr ⟨holds, by simpa using other⟩
      exact perform_spec (fun _ s h => h.2) (fun s h => still s h.2) fun _ s h => still s h.2
    refine deleting.bind fun _ => ih _ ?_
    split at kept
    · exact kept
    · exact fun member => kept (List.mem_cons_of_mem _ member)

/-! ## From the archives to the entries -/

theorem scheduledPeriods_returns_iff (comment : String) :
    (∃ found, scheduledPeriods comment = .ok found) ↔
      ∀ e, loads comment = .error e → e.isinstance .jsonDecodeError = true := by
  unfold scheduledPeriods
  cases loads comment with
  | error e =>
    by_cases notJson : e.isinstance .jsonDecodeError = true
    · simp [notJson]
    · simp [notJson]
  | ok value =>
    refine iff_of_true ?_ fun e raised => by cases raised
    cases value with
    | dict items =>
      dsimp only
      split <;> exact ⟨_, rfl⟩
    | _ => exact ⟨none, rfl⟩

theorem scheduledPeriods_eq_some_iff (comment : String) (periods : List Value) :
    scheduledPeriods comment = .ok (some periods) ↔ ∃ items, loads comment = .ok (.dict items) ∧
      lookup "type" items = some (.str "scheduled") ∧
      lookup "periods" items = some (.list periods) := by
  unfold scheduledPeriods
  cases loads comment with
  | error e =>
    dsimp only
    split <;> simp
  | ok value =>
    cases value with
    | dict items =>
      dsimp only
      split
      · rename_i found listed
        simp [found, listed]
      · rename_i other
        constructor
        · intro none
          cases none
        · rintro ⟨_, ⟨⟩, found, listed⟩
          exact absurd listed (other _ found)
    | _ => simp

def pastEntry (now : DateTime) (archive : Archive) : Option ScheduledArchive :=
  (pastPeriods now archive).map fun periods => ⟨archive.name, periods, archive.start⟩

theorem scheduledArchive_eq {now : DateTime} {archive : Archive} {found : Option (List Value)}
    (read : scheduledPeriods archive.comment = .ok found) :
    scheduledArchive now archive = .ok (pastEntry now archive) := by
  unfold scheduledArchive
  apply bind_of_ok read
  unfold pastEntry pastPeriods
  rw [read]
  cases found with
  | none => rfl
  | some periods =>
    dsimp only
    by_cases past : archive.start.instant ≤ now.instant
    · rw [if_neg (Nat.not_lt.mpr past), if_pos past]
      rfl
    · rw [if_pos (Nat.not_le.mp past), if_neg past]
      rfl

theorem scheduledArchives_eq (now : DateTime) {archives : List Archive}
    (read : ∀ archive ∈ archives, ∃ found, scheduledPeriods archive.comment = .ok found) :
    scheduledArchives now archives = .ok (archives.filterMap (pastEntry now)) := by
  induction archives with
  | nil => rfl
  | cons archive archives ih =>
    obtain ⟨found, here⟩ := read archive List.mem_cons_self
    have rest := ih fun other member => read other (List.mem_cons_of_mem _ member)
    apply bind_of_ok (scheduledArchive_eq here)
    apply bind_of_ok rest
    cases entry : pastEntry now archive with
    | none => rw [List.filterMap_cons_none entry]; rfl
    | some entry' => rw [List.filterMap_cons_some entry]; rfl

theorem read_of_scheduledArchives {now : DateTime} {archives : List Archive}
    {entries : List ScheduledArchive} (listed : scheduledArchives now archives = .ok entries) :
    ∀ archive ∈ archives, ∃ found, scheduledPeriods archive.comment = .ok found := by
  induction archives generalizing entries with
  | nil => exact fun archive member => absurd member List.not_mem_nil
  | cons archive archives ih =>
    obtain ⟨entry, here, listed⟩ := ok_of_bind listed
    obtain ⟨others, rest, -⟩ := ok_of_bind listed
    obtain ⟨found, read, -⟩ := ok_of_bind here
    rw [List.forall_mem_cons]
    exact ⟨⟨found, read⟩, ih rest⟩

theorem mem_carried {period : Period} {periods : List Value} :
    period ∈ carried periods ↔ periods.any (isNamed period) = true := by
  have known : period ∈ Period.all := by cases period <;> decide
  rw [carried, List.mem_filter, and_iff_right known]

theorem carries_of_past {now : DateTime} {archive : Archive} {periods : List Value}
    (past : pastPeriods now archive = some periods) (period : Period) :
    carries now period archive = true ↔ period ∈ carried periods := by
  rw [carries, past, Option.any_some, mem_carried]

theorem countP_pastEntry (now : DateTime) (period : Period) (archives : List Archive) :
    (archives.filterMap (pastEntry now)).countP (fun other => period ∈ carried other.periods) =
      archives.countP (carries now period) := by
  rw [List.countP_filterMap]
  apply List.countP_congr
  intro archive _
  cases past : pastPeriods now archive with
  | none => simp [pastEntry, carries, past]
  | some periods => simp [pastEntry, carries_of_past past, past]

theorem names_pastEntry (now : DateTime) (archives : List Archive) :
    ((archives.filterMap (pastEntry now)).map (·.name)).Sublist (archives.map (·.name)) := by
  induction archives with
  | nil => exact List.Sublist.slnil
  | cons archive archives ih =>
    cases past : pastPeriods now archive with
    | none =>
      rw [List.filterMap_cons_none (by simp [pastEntry, past])]
      exact ih.cons _
    | some periods =>
      rw [List.filterMap_cons_some (b := ⟨archive.name, periods, archive.start⟩)
        (by simp [pastEntry, past])]
      exact ih.cons_cons _

theorem mem_cleaned_archives_iff (self : Schedule) (now : DateTime) (s : Repository)
    {archive : Archive} (member : archive ∈ s.archives) :
    archive.name ∈ self.cleaned (s.sorted.filterMap (pastEntry now)) (fun _ => 0) ↔
      self.expired now s archive = true := by
  have perm : s.sorted.Perm s.archives := List.mergeSort_perm _ _
  have names : (s.sorted.map (·.name)).Nodup := (perm.map _).nodup_iff.mpr s.names_nodup
  have listed : archive ∈ s.sorted := perm.mem_iff.mpr member
  cases past : pastPeriods now archive with
  | none =>
    refine iff_of_false (fun deleted => ?_) (by simp [expired, past])
    obtain ⟨entry, member', same⟩ := List.mem_map.mp (mem_of_mem_cleaned deleted)
    obtain ⟨other, listed', read⟩ := List.mem_filterMap.mp member'
    obtain ⟨periods, past', rfl⟩ := Option.map_eq_some_iff.mp read
    obtain rfl := List.inj_on_of_nodup_map names listed' listed same
    rw [past] at past'
    cases past'
  | some periods =>
    obtain ⟨before, after, split⟩ := List.append_of_mem listed
    have entry : pastEntry now archive = some ⟨archive.name, periods, archive.start⟩ := by
      rw [pastEntry, past]
      rfl
    have entries : s.sorted.filterMap (pastEntry now) = before.filterMap (pastEntry now) ++
        ⟨archive.name, periods, archive.start⟩ :: after.filterMap (pastEntry now) := by
      rw [split, List.filterMap_append, List.filterMap_cons_some entry]
    have distinct : ((before.filterMap (pastEntry now) ++
        (⟨archive.name, periods, archive.start⟩ : ScheduledArchive) ::
          after.filterMap (pastEntry now)).map (·.name)).Nodup := by
      rw [← entries]
      exact names.sublist (names_pastEntry now s.sorted)
    have nodup : (before ++ archive :: after).Nodup := by
      rw [← split]
      exact List.Nodup.of_map _ names
    have deleted := mem_cleaned_iff self _ _ ⟨archive.name, periods, archive.start⟩
      (fun _ => 0) distinct
    rw [entries, deleted]
    have kept (period : Period) (present : period ∈ carried periods) :
        archive ∈ self.mostRecent now s period ↔
          before.countP (carries now period) < self.toKeep period := by
      rw [mostRecent, split]
      exact mem_take_filter_iff _ nodup ((carries_of_past past period).mpr present) _
    simp only [countP_pastEntry, expired, past, Option.isSome_some, Bool.true_and,
      List.all_eq_true, Bool.not_eq_true', Bool.and_eq_false_iff, decide_eq_false_iff_not]
    constructor
    · intro many period _
      by_cases present : period ∈ carried periods
      · right
        rw [kept period present]
        have := many period present
        omega
      · left
        rw [← Bool.not_eq_true, carries_of_past past]
        exact present
    · intro all period present
      have known : period ∈ Period.all := by cases period <;> decide
      obtain absent | old := all period known
      · rw [← Bool.not_eq_true, carries_of_past past] at absent
        exact absurd present absent
      · rw [kept period present] at old
        omega

/-! ## The cleanup -/

def quiet (trigger : Trigger) : Trigger :=
  { trigger with fault := fun _ _ => none }

theorem hashable_of_readable {now : DateTime} {archives : List Archive}
    (readable : ∀ archive ∈ archives, Readable now archive) :
    ∀ entry ∈ archives.filterMap (pastEntry now), ∀ value ∈ entry.periods,
      isHashable value = true := by
  intro entry member
  obtain ⟨archive, listed, read⟩ := List.mem_filterMap.mp member
  obtain ⟨periods, past, rfl⟩ := Option.map_eq_some_iff.mp read
  unfold pastPeriods at past
  split at past
  · rename_i found
    split at past
    · rename_i notFuture
      cases past
      obtain ⟨items, loaded, type, list⟩ := (scheduledPeriods_eq_some_iff _ _).mp found
      exact (readable archive listed).hashable items periods loaded type list notFuture
    · cases past
  · cases past

theorem runCleanup_archives (self : Schedule) (trigger : Trigger) (s : Repository)
    (readable : ∀ archive ∈ s.archives, Readable trigger.now archive) :
    ∃ after, (self.runCleanup (quiet trigger)).exec s = (.ok (), after) ∧
      after.archives = s.archives.filter fun archive => !self.expired trigger.now s archive := by
  have perm : s.sorted.Perm s.archives := List.mergeSort_perm _ _
  have readable' : ∀ archive ∈ s.sorted, Readable trigger.now archive :=
    fun archive listed => readable archive (perm.mem_iff.mp listed)
  have listed := scheduledArchives_eq trigger.now fun archive member =>
    (scheduledPeriods_returns_iff archive.comment).mpr (readable' archive member).read
  have noFault : (quiet trigger).fault = fun _ _ => none := rfl
  obtain ⟨after, ran, left⟩ := exec_cleanupArchives self noFault
    (s.sorted.filterMap (pastEntry trigger.now)) (fun _ => 0) (record .listArchives s)
    (hashable_of_readable readable')
  refine ⟨record .cleanup after, ?_, ?_⟩
  · have found : (listScheduledArchives (quiet trigger)).exec s =
        (.ok (s.sorted.filterMap (pastEntry trigger.now)), record .listArchives s) := by
      rw [exec_listScheduledArchives, ← listed]
      rfl
    rw [runCleanup, exec_bind, found]
    dsimp only
    rw [exec_bind, ran]
    dsimp only
    rw [exec_perform_id]
    rfl
  · refine left.trans ?_
    apply List.filter_congr
    intro archive member
    rw [Bool.eq_iff_iff, decide_eq_true_eq, Bool.not_eq_true', ← Bool.not_eq_true]
    exact not_congr (mem_cleaned_archives_iff self trigger.now s member)

theorem readable_of_listed {now : DateTime} {s : Repository} {entries : List ScheduledArchive}
    (listed : scheduledArchives now s.sorted = .ok entries)
    (hashable : ∀ entry ∈ entries, ∀ value ∈ entry.periods, isHashable value = true) :
    ∀ archive ∈ s.archives, Readable now archive := by
  intro archive member
  have member' : archive ∈ s.sorted := (List.mergeSort_perm _ _).mem_iff.mpr member
  refine ⟨(scheduledPeriods_returns_iff _).mp (read_of_scheduledArchives listed archive member'),
    ?_⟩
  intro items periods loaded type list past
  have read : ReadFrom now archive ⟨archive.name, periods, archive.start⟩ :=
    ⟨(scheduledPeriods_eq_some_iff _ _).mpr ⟨items, loaded, type, list⟩, past, rfl, rfl⟩
  exact hashable _ ((mem_scheduledArchives listed _).mpr ⟨archive, member', read⟩)

theorem readable_of_returns (self : Schedule) (trigger : Trigger) (s : Repository)
    (returned : ((self.runCleanup trigger).exec s).1 = .ok ()) :
    ∀ archive ∈ s.archives, Readable trigger.now archive := by
  have ran : (self.runCleanup trigger).exec s =
      (.ok (), ((self.runCleanup trigger).exec s).2) := Prod.ext returned rfl
  obtain ⟨entries, s₁, found, ran⟩ := returns_of_bind ran
  obtain ⟨_, s₂, cleaned, _⟩ := returns_of_bind ran
  rw [exec_listScheduledArchives] at found
  have listed : scheduledArchives trigger.now s.sorted = .ok entries := by
    have first := congrArg Prod.fst found
    dsimp only at first
    split at first
    · exact first
    · cases first
  exact readable_of_listed listed
    (hashable_of_returns self entries (fun _ => 0) s₁ (congrArg Prod.fst cleaned))

theorem runCleanup_keeps (self : Schedule) (trigger : Trigger) (s : Repository)
    {archive : Archive} (member : archive ∈ s.archives)
    (kept : self.expired trigger.now s archive = false) :
    archive ∈ ((self.runCleanup trigger).exec s).2.archives := by
  rw [runCleanup, exec_bind, exec_listScheduledArchives]
  rcases trigger.fault s.calls .listArchives with _ | ⟨_, e⟩
  case some => exact member
  dsimp only
  cases listed : scheduledArchives trigger.now s.sorted with
  | error e => exact member
  | ok entries =>
    have read := scheduledArchives_eq trigger.now (read_of_scheduledArchives listed)
    obtain rfl := Except.ok.inj (listed.symm.trans read)
    have notCleaned : archive.name ∉ self.cleaned
        (s.sorted.filterMap (pastEntry trigger.now)) (fun _ => 0) := by
      rw [mem_cleaned_archives_iff self trigger.now s member, kept]
      exact Bool.false_ne_true
    have loop := cleanupArchives_keeps self trigger _ _ archive notCleaned
    have last : Triple (fun s : Repository => archive ∈ s.archives)
        (perform trigger .cleanup id) (fun _ s => archive ∈ s.archives)
        (fun _ s => archive ∈ s.archives) :=
      perform_spec (fun _ _ h => h) (fun _ h => h) fun _ _ h => h
    have both := loop.bind fun _ => last
    have listing : archive ∈ (record .listArchives s).archives := member
    exact both.final listing

/-- Retention. Without a call that raises, the cleanup returns and deletes exactly the expired
archives when it can read the comment of every archive; and whatever raises, it deletes no
other. -/
theorem retention_is_exact_iff (self : Schedule) (trigger : Trigger) (s : Repository) :
    ((((self.runCleanup (quiet trigger)).exec s).1 = .ok () ∧
      ((self.runCleanup (quiet trigger)).exec s).2.archives =
        s.archives.filter fun archive => !self.expired trigger.now s archive) ↔
      ∀ archive ∈ s.archives, Readable trigger.now archive) ∧
    ∀ archive ∈ s.archives, self.expired trigger.now s archive = false →
      archive ∈ ((self.runCleanup trigger).exec s).2.archives := by
  refine ⟨⟨fun exact => readable_of_returns self (quiet trigger) s exact.1, ?_⟩,
    fun archive member kept => runCleanup_keeps self trigger s member kept⟩
  intro readable
  obtain ⟨after, ran, left⟩ := runCleanup_archives self trigger s readable
  rw [ran]
  exact ⟨rfl, left⟩

def nestedPeriods : Value :=
  .dict [(.str "type", .str "scheduled"), (.str "periods", .list [.list []])]

theorem jsonData_nestedPeriods : JsonData nestedPeriods := by
  have empty : JsonData (.list []) := .list [] fun value member => absurd member List.not_mem_nil
  have list : JsonData (.list [.list []]) := by
    refine .list _ fun value member => ?_
    rw [List.mem_singleton.mp member]
    exact empty
  have keys : (["type", "periods"] : List String).Nodup := by decide
  refine .dict [("type", .str "scheduled"), ("periods", .list [.list []])] keys ?_
  intro member present
  obtain rfl | rfl : member = ("type", .str "scheduled") ∨
      member = ("periods", .list [.list []]) := by simpa using present
  · exact .str "scheduled"
  · exact list

theorem nested_periods_raise : ¬ ∀ (self : Schedule) (trigger : Trigger) (s : Repository),
    ((self.runCleanup (quiet trigger)).exec s).1 = .ok () := by
  intro all
  obtain ⟨text, -, loaded⟩ := jsonData_nestedPeriods.loads_dumps jsonDefault
  let archive : Archive := ⟨"scheduled: daily", text, .min⟩
  let s : Repository := ⟨[archive], by simp, [], [archive]⟩
  let trigger : Trigger :=
    { now := .min, archiveName := "", appIds := [], storedComment := unescapeBraces,
      stored := unescapeBraces_escapeBraces, fault := fun _ _ => none }
  have readable := readable_of_returns ⟨"root", true, 5, 3, 3, 2, []⟩ (quiet trigger) s (all _ _ _)
    archive List.mem_cons_self
  have hashable := readable.hashable _ [.list []] loaded rfl rfl (Nat.le_refl _) (.list [])
    List.mem_cons_self
  cases hashable

end Plinth.Backups.Schedule
