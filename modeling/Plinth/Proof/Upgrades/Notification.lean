import Plinth.Lib.Runs
import Plinth.Model.Upgrades

/-! # The status of an interrupted upgrade -/

namespace Plinth.Upgrades

/-! ## Codenames -/

theorem Release.ofCodename?_codename (release : Release) :
    ofCodename? release.codename = some release := by
  cases release <;> decide

theorem Release.codename_inj {release release' : Release} (same : release.codename = release'.codename) :
    release = release' := by
  have found := release.ofCodename?_codename
  rw [same, ofCodename?_codename] at found
  exact (Option.some.inj found).symm

theorem Release.next_ne {release next : Release} (following : release.next = some next) :
    next.next ≠ some next := by
  intro again
  cases next <;> cases again

theorem Release.not_rolling {release next : Release} (following : release.next = some next) :
    release.codename ≠ "unstable" ∧ release.codename ≠ "sid" ∧ release.codename ≠ "testing" ∧
      release.codename ≠ "stable" := by
  cases release with
  | bullseye | bookworm | trixie | forky => decide
  | duke | testing | unstable => cases following

/-! ## Interrupted upgrades -/

/-- The entries of `sources.list` are all of one distribution. -/
def Names (sourcesList : SourcesList) (name : String) : Prop :=
  distributions sourcesList = [name]

instance (sourcesList : SourcesList) (name : String) : Decidable (Names sourcesList name) :=
  inferInstanceAs (Decidable (_ = _))

theorem getSourcesListCodename_of_names {sourcesList : SourcesList} {name : String}
    (names : Names sourcesList name) (notUnstable : name ≠ "unstable") (notSid : name ≠ "sid")
    (notTesting : name ≠ "testing") : getSourcesListCodename sourcesList = some name := by
  rw [Names] at names
  simp [getSourcesListCodename, names, notUnstable.symm, notSid.symm, notTesting.symm]

/-- The upgrade has moved `base-files` to the next release, and `sources.list` still names the
old one. -/
structure Interrupted (facts : Facts) (release next : Release) : Prop where
  named : Names facts.sourcesList release.codename ∨ Names facts.sourcesList "stable"
  following : release.next = some next
  moved : facts.baseFilesCodename = next.codename

theorem nextAction_continue_iff {facts : Facts} (stopped : facts.running = false) (current : Release) :
    nextAction facts current = some .continue_ ↔
      some facts.baseFilesCodename = current.next.map Release.codename := by
  rw [nextAction, stopped]
  by_cases moved : some facts.baseFilesCodename = current.next.map Release.codename
  · simp [moved]
  · simp only [Bool.false_eq_true, if_false, moved, iff_false]
    cases current.next.bind Release.releaseDate with
    | none => simp
    | some date =>
      dsimp only
      split
      · simp
      · split
        · simp
        · split <;> simp

theorem nextAction_of_codename {facts : Facts} {release next : Release}
    (interrupted : Interrupted facts release next)
    (named : Names facts.sourcesList release.codename) :
    (getStatus facts).nextAction = nextAction facts release := by
  obtain ⟨notUnstable, notSid, notTesting, notStable⟩ := Release.not_rolling interrupted.following
  have codename := getSourcesListCodename_of_names named notUnstable notSid notTesting
  simp [getStatus, codename, notUnstable, notTesting, notStable, Release.ofCodename?_codename]

theorem nextAction_of_stable {facts : Facts} {release next : Release}
    (interrupted : Interrupted facts release next) (named : Names facts.sourcesList "stable") :
    (getStatus facts).nextAction = nextAction facts next := by
  have codename := getSourcesListCodename_of_names named (by decide) (by decide) (by decide)
  simp [getStatus, codename, interrupted.moved, Release.ofCodename?_codename]

theorem interrupted_continue_iff {facts : Facts} {release next : Release}
    (interrupted : Interrupted facts release next) :
    (facts.running = false → (getStatus facts).nextAction = some .continue_) ↔
      (facts.running = false → ¬ Names facts.sourcesList "stable") := by
  apply imp_congr_right
  intro stopped
  rcases interrupted.named with named | named
  · have notStable : ¬ Names facts.sourcesList "stable" := by
      intro stable
      have same : release.codename = "stable" := List.singleton_inj.mp (named.symm.trans stable)
      exact (Release.not_rolling interrupted.following).2.2.2 same
    rw [nextAction_of_codename interrupted named, nextAction_continue_iff stopped]
    simp [interrupted.moved, interrupted.following, notStable]
  · rw [nextAction_of_stable interrupted named, nextAction_continue_iff stopped, interrupted.moved]
    constructor
    · intro again
      obtain ⟨following, isNext, same⟩ := Option.map_eq_some_iff.mp again.symm
      rw [Release.codename_inj same] at isNext
      exact absurd isNext (Release.next_ne interrupted.following)
    · intro notStable
      exact absurd named notStable

def interruptedFacts (name : String) : Facts where
  updatesEnabled := true
  distUpgradeEnabled := true
  hasFreeSpace := true
  running := false
  sourcesList := [some name, none, some (name ++ "-updates"), some (name ++ "-security")]
  baseFilesCodename := "trixie"
  now := 0

theorem interrupted_continue_iff_bookworm :
    Interrupted (interruptedFacts "bookworm") .bookworm .trixie ∧
      (getStatus (interruptedFacts "bookworm")).nextAction = some .continue_ := by
  have interrupted : Interrupted (interruptedFacts "bookworm") .bookworm .trixie :=
    ⟨.inl (by decide), rfl, rfl⟩
  have notStable : ¬ Names (interruptedFacts "bookworm").sourcesList "stable" := by decide
  exact ⟨interrupted, (interrupted_continue_iff interrupted).mpr (fun _ => notStable) rfl⟩

theorem interrupted_stable_not_continued :
    Interrupted (interruptedFacts "stable") .bookworm .trixie ∧
      (interruptedFacts "stable").running = false ∧
      (getStatus (interruptedFacts "stable")).nextAction ≠ some .continue_ := by
  have named : Names (interruptedFacts "stable").sourcesList "stable" := by decide
  have interrupted : Interrupted (interruptedFacts "stable") .bookworm .trixie :=
    ⟨.inr named, rfl, rfl⟩
  refine ⟨interrupted, rfl, ?_⟩
  rw [nextAction_of_stable interrupted named, Ne, nextAction_continue_iff rfl]
  decide

end Plinth.Upgrades

/-! ## The notification of distribution upgrades -/

namespace Plinth.Upgrades.Notification

/-! ## One check -/

structure Key where
  nextCodename : Option String
  forDays : Option Nat
  state : NoteState
  deriving DecidableEq, Repr

def NoteData.key (data : NoteData) : Key :=
  ⟨data.nextCodename, data.forDays, data.state⟩

def Note.key (note : Note) : Key :=
  note.data.key

section Check

variable (status : Status) (starting : Bool) (now : Nat) (note : Option Note)

structure Shown : Prop where
  stopped : status.running = false
  offered : status.nextAction ≠ none ∨ noteState status starting now note = .done
  notDone : forDays status now ≠ none ∨ note.map (·.data.state) ≠ some .done
  near : forDays status now ≠ none ∨ noteState status starting now note ≠ .waiting
  differs : note.map Note.key ≠ some (newData status starting now note).key

theorem show_cases :
    (¬ Shown status starting now note ∧
        distUpgradeShowNotification status starting now note = note) ∨
      (Shown status starting now note ∧ distUpgradeShowNotification status starting now note =
        some ⟨newData status starting now note, now, false⟩) := by
  have same : (forDays status now = note.bind (·.data.forDays) ∧
      some (noteState status starting now note) = note.map (·.data.state) ∧
      status.nextCodename = note.bind (·.data.nextCodename)) ↔
        note.map Note.key = some (newData status starting now note).key := by
    cases note with
    | none => simp
    | some note =>
      simp only [Note.key, NoteData.key, newData, Option.map_some, Option.bind_some,
        Option.some.injEq, Key.mk.injEq]
      constructor
      · rintro ⟨days, state, next⟩
        exact ⟨next.symm, days.symm, state.symm⟩
      · rintro ⟨next, days, state⟩
        exact ⟨days.symm, state.symm, next.symm⟩
  simp only [distUpgradeShowNotification, same]
  by_cases running : status.running = true
  · exact .inl ⟨fun shown => absurd (running.symm.trans shown.stopped) (by decide), if_pos running⟩
  rw [if_neg running]
  by_cases nothing : status.nextAction = none ∧ noteState status starting now note ≠ .done
  · exact .inl ⟨fun shown => shown.offered.elim (· nothing.1) nothing.2, if_pos nothing⟩
  rw [if_neg nothing]
  by_cases completed : forDays status now = none ∧ note.map (·.data.state) = some .done
  · exact .inl ⟨fun shown => shown.notDone.elim (· completed.1) (· completed.2), if_pos completed⟩
  rw [if_neg completed]
  by_cases far : forDays status now = none ∧ noteState status starting now note = .waiting
  · exact .inl ⟨fun shown => shown.near.elim (· far.1) (· far.2), if_pos far⟩
  rw [if_neg far]
  by_cases known : note.map Note.key = some (newData status starting now note).key
  · exact .inl ⟨fun shown => shown.differs known, if_pos known⟩
  refine .inr ⟨⟨Bool.eq_false_iff.mpr running, ?_, ?_, ?_, known⟩, if_neg known⟩
  · by_cases none : status.nextAction = none
    · exact .inr (Decidable.not_not.mp fun notDone => nothing ⟨none, notDone⟩)
    · exact .inl none
  · exact Decidable.not_and_iff_or_not.mp completed
  · exact Decidable.not_and_iff_or_not.mp far

variable {status starting now note}

theorem show_of_shown (shown : Shown status starting now note) :
    distUpgradeShowNotification status starting now note =
      some ⟨newData status starting now note, now, false⟩ := by
  rcases show_cases status starting now note with ⟨hidden, _⟩ | ⟨_, result⟩
  · exact absurd shown hidden
  · exact result

theorem show_of_not_shown (hidden : ¬ Shown status starting now note) :
    distUpgradeShowNotification status starting now note = note := by
  rcases show_cases status starting now note with ⟨_, result⟩ | ⟨shown, _⟩
  · exact result
  · exact absurd shown hidden

theorem show_ne_iff : distUpgradeShowNotification status starting now note ≠ note ↔
    (distUpgradeShowNotification status starting now note).map Note.key ≠ note.map Note.key := by
  rcases show_cases status starting now note with ⟨_, result⟩ | ⟨shown, result⟩
  · rw [result]
    simp
  · rw [result]
    constructor
    · intro _ same
      exact shown.differs same.symm
    · rintro differs same
      exact differs (congrArg (Option.map Note.key) same)

theorem not_shown_again
    (upgrade : status.nextCodename = none ∨ status.nextCodename ≠ status.currentCodename) :
    ¬ Shown status starting now (some ⟨newData status starting now note, now, false⟩) := by
  have incomplete (note : Note) (next : note.data.nextCodename = status.nextCodename) :
      isCompleted status now (some note) = false := by
    rw [isCompleted, Option.bind_some, next, decide_eq_false_iff_not]
    rintro ⟨_, some_, _, same⟩
    rcases upgrade with none | differs
    · exact some_ (same ▸ none)
    · exact differs same
  intro again
  have state : noteState status starting now (some ⟨newData status starting now note, now, false⟩) =
      if starting then .starting else .waiting := by
    rw [noteState, incomplete _ rfl]
    rfl
  by_cases completed : isCompleted status now note = true
  · have days : forDays status now = none := (of_decide_eq_true completed).1
    rcases again.notDone with near | notDone
    · exact near days
    · apply notDone
      show some (noteState status starting now note) = some .done
      rw [noteState, if_pos completed]
  · apply again.differs
    have old : noteState status starting now note = if starting then .starting else .waiting := by
      rw [noteState, if_neg completed]
    show some (Key.mk _ _ (noteState ..)) = some (Key.mk _ _ (noteState ..))
    rw [state, old]
    rfl

end Check

/-! ## Reported statuses -/

theorem getStatus_running (facts : Facts) : (getStatus facts).running = facts.running := by
  unfold getStatus
  dsimp only
  split
  · rfl
  · split <;> rfl

theorem getStatus_cases (facts : Facts) :
    ((getStatus facts).nextCodename = none ∧ (getStatus facts).nextActionDate = none) ∨
    ∃ current : Release, (getStatus facts).currentCodename = some current.codename ∧
      (getStatus facts).nextCodename = current.next.map Release.codename ∧
      (getStatus facts).nextActionDate =
        (current.next.bind Release.releaseDate).map (· + waitPeriodAfterRelease) := by
  unfold getStatus
  dsimp only
  split
  · exact .inl ⟨rfl, rfl⟩
  · split
    · exact .inl ⟨rfl, rfl⟩
    · next current found =>
      refine .inr ⟨current, ?_, rfl, rfl⟩
      obtain ⟨codename, isCodename, named⟩ := Option.bind_eq_some_iff.mp found
      rw [Release.ofCodename?] at named
      have same := List.find?_some named
      rw [isCodename, of_decide_eq_true same]

theorem next_ne_current (facts : Facts) :
    (getStatus facts).nextCodename = none ∨
      (getStatus facts).nextCodename ≠ (getStatus facts).currentCodename := by
  rcases getStatus_cases facts with ⟨none, _⟩ | ⟨current, isCurrent, isNext, _⟩
  · exact .inl none
  · cases following : current.next with
    | none => exact .inl (by rw [isNext, following]; rfl)
    | some next =>
      right
      rw [isNext, isCurrent, following]
      intro same
      have looped := Release.codename_inj (Option.some.inj same)
      exact Release.next_ne following (looped ▸ following)

theorem nextActionDate_eq (facts : Facts) :
    (getStatus facts).nextActionDate =
      (((getStatus facts).nextCodename.bind Release.ofCodename?).bind Release.releaseDate).map
        (· + waitPeriodAfterRelease) := by
  rcases getStatus_cases facts with ⟨next, date⟩ | ⟨current, _, isNext, date⟩
  · rw [next, date]
    rfl
  · rw [isNext, date]
    cases current.next with
    | none => rfl
    | some next =>
      rw [Option.map_some, Option.bind_some, Option.bind_some, Release.ofCodename?_codename]
      rfl

/-! ## Days -/

def bucket (date : Option Nat) (now : Nat) : Option Nat :=
  match date.map fun date : Nat => (date : Int) - now with
  | none => none
  | some inDays =>
    if inDays > Calendar.days 60 then none
    else if inDays > Calendar.days 30 then some 60
    else if inDays > Calendar.days 7 then some 30
    else if inDays > Calendar.days 1 then some 7
    else some 1

theorem forDays_eq_bucket (status : Status) (now : Nat) :
    forDays status now = bucket status.nextActionDate now := rfl

def remaining (bucket : Option Nat) : Nat :=
  bucket.getD 61

theorem bucket_antitone (date : Option Nat) {now later : Nat} (le : now ≤ later) :
    remaining (bucket date later) ≤ remaining (bucket date now) := by
  cases date with
  | none => exact Nat.le_refl _
  | some date =>
    have sooner : (date : Int) - later ≤ (date : Int) - now := by omega
    generalize (date : Int) - later = d at sooner
    simp only [bucket, Option.map_some]
    split_ifs <;> simp only [remaining, Option.getD_some, Option.getD_none] <;> omega

theorem bucket_mem (date : Option Nat) (now : Nat) :
    bucket date now ∈ [none, some 60, some 30, some 7, some 1] := by
  cases date with
  | none => exact .head _
  | some date =>
    simp only [bucket, Option.map_some]
    split_ifs <;> decide

theorem remaining_inj {date date' : Option Nat} {now now' : Nat}
    (same : remaining (bucket date now) = remaining (bucket date' now')) :
    bucket date now = bucket date' now' := by
  have injective : ∀ b ∈ [none, some 60, some 30, some 7, some 1],
      ∀ b' ∈ [none, some 60, some 30, some 7, some 1], remaining b = remaining b' → b = b' := by
    decide
  exact injective _ (bucket_mem date now) _ (bucket_mem date' now') same

/-! ## Runs -/

def shownFor (note : Option Note) : Event → List (Option Nat)
  | .check facts starting now =>
    if step note (.check facts starting now) = note then []
    else [forDays (getStatus facts) now]
  | .dismiss => []

def Event.time : Event → Option Nat
  | .check _ _ now => some now
  | .dismiss => none

theorem shownFor_of_shown {facts : Facts} {starting : Bool} {now : Nat} {note : Option Note}
    (shown : Shown (getStatus facts) starting now note) :
    shownFor note (.check facts starting now) = [forDays (getStatus facts) now] := by
  apply if_neg
  apply show_ne_iff.mpr
  rw [show_of_shown shown]
  exact fun same => shown.differs same.symm

theorem shownFor_of_not_shown {facts : Facts} {starting : Bool} {now : Nat} {note : Option Note}
    (hidden : ¬ Shown (getStatus facts) starting now note) :
    shownFor note (.check facts starting now) = [] :=
  if_pos (show_of_not_shown hidden)

theorem dismissed_until_key_changes {note : Note} (dismissed : note.dismissed = true)
    (events : List Event)
    (same : ∀ before after, events = before ++ after →
      (Runs.run step (some note) before).map Note.key = some note.key) :
    Runs.run step (some note) events = some note := by
  induction events with
  | nil => rfl
  | cons event events ih =>
    have kept : step (some note) event = some note := by
      cases event with
      | check facts starting now =>
        by_contra changes
        exact show_ne_iff.mp changes (same [_] events rfl)
      | dismiss =>
        obtain ⟨data, lastUpdateTime, _⟩ := note
        cases dismissed
        rfl
    rw [Runs.run_cons, kept]
    apply ih
    rintro before after rfl
    have later := same (event :: before) after rfl
    rwa [Runs.run_cons, kept] at later

theorem second_check (note : Option Note) (facts : Facts) (starting : Bool) (now : Nat) :
    step (step note (.check facts starting now)) (.check facts starting now) =
      step note (.check facts starting now) := by
  show distUpgradeShowNotification _ starting now
    (distUpgradeShowNotification (getStatus facts) starting now note) = _
  rcases show_cases (getStatus facts) starting now note with ⟨_, result⟩ | ⟨_, result⟩
  · rw [result]
    exact result.trans result.symm
  · rw [result]
    exact (show_of_not_shown (not_shown_again (next_ne_current facts))).trans result.symm

/-! ## Waiting for an upgrade -/

def Waits (current next : Option String) : Event → Prop
  | .check facts starting _ => (getStatus facts).currentCodename = current ∧
      (getStatus facts).nextCodename = next ∧ starting = false
  | .dismiss => True

structure Announces (next : Option String) (days : Option Nat) (note : Note) : Prop where
  named : note.data.nextCodename = next
  shownFor : note.data.forDays = days
  state : days = none ∨ note.data.state = .waiting

def dateOf (next : Option String) : Option Nat :=
  ((next.bind Release.ofCodename?).bind Release.releaseDate).map (· + waitPeriodAfterRelease)

theorem announces_of_shown {facts : Facts} {now : Nat} (note : Option Note) :
    Announces (getStatus facts).nextCodename (forDays (getStatus facts) now)
      ⟨newData (getStatus facts) false now note, now, false⟩ := by
  refine ⟨rfl, rfl, ?_⟩
  show _ ∨ noteState (getStatus facts) false now note = .waiting
  by_cases completed : isCompleted (getStatus facts) now note = true
  · exact .inl (of_decide_eq_true completed).1
  · exact .inr (by rw [noteState, if_neg completed]; rfl)

theorem Announces.noteState {facts : Facts} {now : Nat} {days : Option Nat} {note : Note}
    (announces : Announces (getStatus facts).nextCodename days note) :
    noteState (getStatus facts) false now (some note) = .waiting := by
  have incomplete : isCompleted (getStatus facts) now (some note) = false := by
    rw [isCompleted, Option.bind_some, announces.named, decide_eq_false_iff_not]
    rintro ⟨_, known, _, same⟩
    rcases next_ne_current facts with none | differs
    · exact known (same ▸ none)
    · exact differs same
  rw [Notification.noteState, incomplete]
  rfl

theorem Announces.later {facts : Facts} {now : Nat} {date : Option Nat} {past : Nat} {note : Note}
    (announces : Announces (getStatus facts).nextCodename (bucket date past) note)
    (shown : Shown (getStatus facts) false now (some note))
    (le : remaining (forDays (getStatus facts) now) ≤ remaining (bucket date past)) :
    remaining (forDays (getStatus facts) now) < remaining (bucket date past) := by
  refine Nat.lt_of_le_of_ne le fun same => ?_
  have days : forDays (getStatus facts) now = bucket date past := remaining_inj same
  have near : forDays (getStatus facts) now ≠ none := by
    rcases shown.near with near | notWaiting
    · exact near
    · exact absurd announces.noteState notWaiting
  have waiting : note.data.state = .waiting := by
    rcases announces.state with none | waiting
    · exact absurd (days.trans none) near
    · exact waiting
  apply shown.differs
  show some (Key.mk note.data.nextCodename note.data.forDays note.data.state) =
    some (Key.mk _ _ (Notification.noteState ..))
  rw [announces.named, announces.shownFor, announces.noteState, waiting, ← days]
  rfl

section Waits

variable {current next : Option String}

theorem forDays_eq (facts : Facts) (now : Nat) :
    forDays (getStatus facts) now = bucket (dateOf (getStatus facts).nextCodename) now := by
  rw [forDays_eq_bucket, nextActionDate_eq]
  rfl

theorem trace_of_announces {events : List Event} (waits : ∀ event ∈ events, Waits current next event)
    (sorted : (events.filterMap Event.time).Pairwise (· ≤ ·)) {past : Nat}
    (late : ∀ time ∈ events.filterMap Event.time, past ≤ time) {note : Note}
    (announces : Announces next (bucket (dateOf next) past) note) :
    (∀ days ∈ Runs.trace step shownFor (some note) events,
        remaining days < remaining (bucket (dateOf next) past)) ∧
      (Runs.trace step shownFor (some note) events).Pairwise
        fun days later => remaining later < remaining days := by
  induction events generalizing past note with
  | nil => exact ⟨nofun, .nil⟩
  | cons event events ih =>
    obtain ⟨here, rest⟩ := List.forall_mem_cons.mp waits
    cases event with
    | dismiss => exact ih rest sorted late ⟨announces.named, announces.shownFor, announces.state⟩
    | check facts starting now =>
      obtain ⟨_, rfl, rfl⟩ := here
      obtain ⟨soonest, sorted⟩ := List.pairwise_cons.mp sorted
      obtain ⟨pastNow, lateRest⟩ := List.forall_mem_cons.mp late
      rw [Runs.trace]
      by_cases shown : Shown (getStatus facts) false now (some note)
      · have before := announces.later shown (forDays_eq facts now ▸ bucket_antitone _ pastNow)
        have announced : Announces _ (forDays (getStatus facts) now) _ :=
          announces_of_shown (some note)
        rw [forDays_eq] at before announced
        obtain ⟨fewer, decreasing⟩ := ih rest sorted soonest announced
        rw [shownFor_of_shown shown, forDays_eq]
        have step_eq : step (some note) (.check facts false now) = _ := show_of_shown shown
        rw [step_eq]
        refine ⟨List.forall_mem_cons.mpr ⟨before, fun days member => ?_⟩,
          List.pairwise_cons.mpr ⟨fewer, decreasing⟩⟩
        exact Nat.lt_trans (fewer days member) before
      · have step_eq : step (some note) (.check facts false now) = some note :=
          show_of_not_shown shown
        rw [shownFor_of_not_shown shown, step_eq]
        exact ih rest sorted lateRest announces

theorem shown_once {events : List Event} (waits : ∀ event ∈ events, Waits current next event)
    (sorted : (events.filterMap Event.time).Pairwise (· ≤ ·)) (note : Option Note) :
    (Runs.trace step shownFor note events).Nodup := by
  induction events generalizing note with
  | nil => exact .nil
  | cons event events ih =>
    obtain ⟨here, rest⟩ := List.forall_mem_cons.mp waits
    cases event with
    | dismiss => exact ih rest sorted _
    | check facts starting now =>
      obtain ⟨_, rfl, rfl⟩ := here
      obtain ⟨soonest, sorted⟩ := List.pairwise_cons.mp sorted
      rw [Runs.trace]
      by_cases shown : Shown (getStatus facts) false now note
      · have announced : Announces _ (forDays (getStatus facts) now) _ :=
          announces_of_shown note
        rw [forDays_eq] at announced
        obtain ⟨fewer, decreasing⟩ := trace_of_announces rest sorted soonest announced
        rw [shownFor_of_shown shown, forDays_eq]
        have step_eq : step note (.check facts false now) = _ := show_of_shown shown
        rw [step_eq]
        refine List.nodup_cons.mpr ⟨fun again => Nat.lt_irrefl _ (fewer _ again), ?_⟩
        refine decreasing.imp fun less same => ?_
        rw [same] at less
        exact Nat.lt_irrefl _ less
      · rw [shownFor_of_not_shown shown]
        exact ih rest sorted _

end Waits

/-! ## After an upgrade -/

def IsIdle : Event → Prop
  | .check facts _ _ => facts.running = true
  | .dismiss => True

def IsFar : Event → Prop
  | .check facts _ now => facts.running = true ∨ forDays (getStatus facts) now = none
  | .dismiss => True

def Event.isDismiss : Event → Bool
  | .dismiss => true
  | .check .. => false

def dismissedBy (events : List Event) (note : Note) : Note :=
  { note with dismissed := note.dismissed || events.any Event.isDismiss }

theorem run_of_not_shown {events : List Event} {data : NoteData}
    (hidden : ∀ facts starting now, Event.check facts starting now ∈ events → ∀ note : Note,
      note.data = data → ¬ Shown (getStatus facts) starting now (some note))
    {note : Note} (same : note.data = data) :
    Runs.run step (some note) events = some (dismissedBy events note) ∧
      Runs.trace step shownFor (some note) events = [] := by
  induction events generalizing note with
  | nil =>
    obtain ⟨_, _, dismissed⟩ := note
    exact ⟨by simp [dismissedBy], rfl⟩
  | cons event events ih =>
    have later := fun facts starting now member =>
      hidden facts starting now (List.mem_cons_of_mem _ member)
    cases event with
    | dismiss =>
      obtain ⟨ran, nothing⟩ := @ih later { note with dismissed := true } same
      refine ⟨ran.trans ?_, nothing⟩
      simp [dismissedBy, Event.isDismiss]
    | check facts starting now =>
      have notShown := hidden facts starting now (.head _) note same
      have step_eq : step (some note) (.check facts starting now) = some note :=
        show_of_not_shown notShown
      obtain ⟨ran, nothing⟩ := ih later same
      rw [Runs.run_cons, Runs.trace, step_eq, shownFor_of_not_shown notShown, ran, nothing]
      exact ⟨by simp [dismissedBy, Event.isDismiss], rfl⟩

theorem not_shown_of_running {facts : Facts} (running : facts.running = true) {starting : Bool}
    {now : Nat} {note : Option Note} : ¬ Shown (getStatus facts) starting now note := by
  intro shown
  have stopped := shown.stopped
  rw [getStatus_running, running] at stopped
  cases stopped

theorem not_shown_of_done {facts : Facts} {starting : Bool} {now : Nat} {note : Note}
    (far : forDays (getStatus facts) now = none) (done : note.data.state = .done) :
    ¬ Shown (getStatus facts) starting now (some note) := by
  intro shown
  rcases shown.notDone with near | notDone
  · exact near far
  · exact notDone (congrArg some done)

section Completion

variable {note : Note} {release : Release} {before after : List Event} {facts : Facts}
  {starting : Bool} {now : Nat}

theorem shown_of_completed (announced : note.data.nextCodename = some release.codename)
    (notDone : note.data.state ≠ .done) (stopped : facts.running = false)
    (completed : (getStatus facts).currentCodename = some release.codename)
    (far : forDays (getStatus facts) now = none) :
    noteState (getStatus facts) starting now (some note) = .done ∧
      Shown (getStatus facts) starting now (some note) := by
  have named : release.codename ≠ "" := by cases release <;> decide
  have isCompleted : isCompleted (getStatus facts) now (some note) = true := by
    rw [Notification.isCompleted, Option.bind_some, announced, completed, far]
    simp [named]
  have done : noteState (getStatus facts) starting now (some note) = .done := by
    rw [noteState, if_pos isCompleted]
  refine ⟨done, (getStatus_running facts).trans stopped, .inr done, .inr ?_, .inr ?_, ?_⟩
  · exact fun same => notDone (Option.some.inj same)
  · rw [done]
    decide
  · intro same
    have state := congrArg Key.state (Option.some.inj same)
    exact notDone (state.trans done)

theorem completion_shown_once (announced : note.data.nextCodename = some release.codename)
    (notDone : note.data.state ≠ .done) (idle : ∀ event ∈ before, IsIdle event)
    (stopped : facts.running = false)
    (completed : (getStatus facts).currentCodename = some release.codename)
    (far : forDays (getStatus facts) now = none) (away : ∀ event ∈ after, IsFar event) :
    Runs.trace step shownFor (some note) (before ++ .check facts starting now :: after) = [none] ∧
    ∃ shown : Note, shown.data.state = .done ∧
      shown.data.currentCodename = some release.codename ∧ shown.dismissed = false ∧
      Runs.run step (some note) (before ++ [.check facts starting now]) = some shown ∧
      ∀ kept rest, after = kept ++ rest →
        Runs.run step (some note) (before ++ .check facts starting now :: kept) =
          some (dismissedBy kept shown) := by
  have quiet : ∀ facts starting now, Event.check facts starting now ∈ before → ∀ note' : Note,
      note'.data = note.data → ¬ Shown (getStatus facts) starting now (some note') :=
    fun facts starting now member note' _ => not_shown_of_running (idle _ member)
  obtain ⟨ran, nothing⟩ := run_of_not_shown quiet rfl
  obtain ⟨done, shown⟩ := @shown_of_completed (dismissedBy before note) release facts starting now
    announced notDone stopped completed far
  have step_eq : step (some (dismissedBy before note)) (.check facts starting now) = _ :=
    show_of_shown shown
  have hidden : ∀ kept rest, after = kept ++ rest → ∀ facts' starting' now',
      Event.check facts' starting' now' ∈ kept → ∀ note' : Note,
        note'.data = newData (getStatus facts) starting now (some (dismissedBy before note)) →
        ¬ Shown (getStatus facts') starting' now' (some note') := by
    rintro kept rest rfl facts' starting' now' member note' same
    rcases away _ (List.mem_append_left rest member) with running | far
    · exact not_shown_of_running running
    · exact not_shown_of_done far (same ▸ done)
  constructor
  · rw [Runs.trace_append, nothing, ran, Runs.trace, shownFor_of_shown shown, far, step_eq,
      (run_of_not_shown (hidden after [] (List.append_nil after).symm) rfl).2]
    rfl
  · refine ⟨⟨newData (getStatus facts) starting now (some (dismissedBy before note)), now, false⟩,
      done, completed, rfl, ?_, fun kept rest split => ?_⟩
    · rw [Runs.run_append, ran]
      exact step_eq
    · rw [Runs.run_append, ran, Runs.run_cons, step_eq]
      exact (run_of_not_shown (hidden kept rest split) rfl).1

end Completion

/-- What is shown changes only together with its key, and so a notification stays dismissed until
then. A check made twice changes nothing. Each number of days is shown once while an upgrade is
waited for, and its completion is shown once and kept. -/
theorem shown_by_key :
    (∀ note facts starting now, step note (.check facts starting now) ≠ note →
      (step note (.check facts starting now)).map Note.key ≠ note.map Note.key) ∧
    (∀ note : Note, note.dismissed = true → ∀ events,
      (∀ before after, events = before ++ after →
        (Runs.run step (some note) before).map Note.key = some note.key) →
      Runs.run step (some note) events = some note) ∧
    (∀ note facts starting now,
      step (step note (.check facts starting now)) (.check facts starting now) =
        step note (.check facts starting now)) ∧
    (∀ current next events, (∀ event ∈ events, Waits current next event) →
      (events.filterMap Event.time).Pairwise (· ≤ ·) → ∀ note,
        (Runs.trace step shownFor note events).Nodup) ∧
    (∀ (note : Note) (release : Release), note.data.nextCodename = some release.codename →
      note.data.state ≠ .done → ∀ before, (∀ event ∈ before, IsIdle event) →
      ∀ facts starting now, facts.running = false →
      (getStatus facts).currentCodename = some release.codename →
      forDays (getStatus facts) now = none → ∀ after, (∀ event ∈ after, IsFar event) →
      Runs.trace step shownFor (some note) (before ++ .check facts starting now :: after) = [none] ∧
      ∃ shown : Note, shown.data.state = .done ∧
        shown.data.currentCodename = some release.codename ∧ shown.dismissed = false ∧
        Runs.run step (some note) (before ++ [.check facts starting now]) = some shown ∧
        ∀ kept rest, after = kept ++ rest →
          Runs.run step (some note) (before ++ .check facts starting now :: kept) =
            some (dismissedBy kept shown)) := by
  refine ⟨fun note facts starting now changes => show_ne_iff.mp changes,
    fun note dismissed events same => dismissed_until_key_changes dismissed events same,
    second_check, fun current next events waits sorted note => shown_once waits sorted note, ?_⟩
  intro note release announced notDone before idle facts starting now stopped completed far after away
  exact completion_shown_once announced notDone idle stopped completed far away

/-! ## From bookworm to trixie -/

def factsOf (release : Release) : Facts where
  updatesEnabled := true
  distUpgradeEnabled := true
  hasFreeSpace := true
  running := false
  sourcesList := [some release.codename]
  baseFilesCodename := release.codename
  now := 0

def startedNote : Note where
  data :=
    { currentCodename := some "bookworm", currentVersion := some 12, nextCodename := some "trixie"
      nextVersion := some 13, state := .starting, forDays := some 1, inDays := none }
  lastUpdateTime := 0
  dismissed := true

theorem shown_by_key_trixie :
    (Runs.trace step shownFor none
      [.check (factsOf .bookworm) false (Release.midnight 2025 8 1), .dismiss,
        .check (factsOf .bookworm) false (Release.midnight 2025 8 2)]).Nodup ∧
    Runs.trace step shownFor (some startedNote)
      [.check { factsOf .trixie with running := true } false 0, .check (factsOf .trixie) false 0,
        .dismiss, .check (factsOf .trixie) false 1] = [none] := by
  obtain ⟨_, _, _, once, completion⟩ := shown_by_key
  constructor
  · have current : (getStatus (factsOf .bookworm)).currentCodename = some "bookworm" := by
      decide +kernel
    have next : (getStatus (factsOf .bookworm)).nextCodename = some "trixie" := by decide +kernel
    refine once (some "bookworm") (some "trixie") _ ?_ (by decide +kernel) none
    refine List.forall_mem_cons.mpr ⟨⟨current, next, rfl⟩, ?_⟩
    refine List.forall_mem_cons.mpr ⟨trivial, ?_⟩
    exact List.forall_mem_cons.mpr ⟨⟨current, next, rfl⟩, nofun⟩
  · have far : forDays (getStatus (factsOf .trixie)) 0 = none := by decide +kernel
    have later : forDays (getStatus (factsOf .trixie)) 1 = none := by decide +kernel
    refine (completion startedNote .trixie (by decide) (by decide)
      [.check { factsOf .trixie with running := true } false 0] ?_ (factsOf .trixie) false 0 rfl
      (by decide +kernel) far [.dismiss, .check (factsOf .trixie) false 1] ?_).1
    · exact List.forall_mem_cons.mpr ⟨rfl, nofun⟩
    · refine List.forall_mem_cons.mpr ⟨trivial, ?_⟩
      exact List.forall_mem_cons.mpr ⟨.inr later, nofun⟩

end Plinth.Upgrades.Notification
