import Plinth.Model.Setup

/-! # Notifications while a handler runs -/

namespace Plinth.Setup

open Python Exception Atomic Package

variable {ι : Type}

/-! ## Attempts -/

def Neutral (action : World ι → World ι) : Prop :=
  ∀ w, (action w).unread = w.unread ∧ (action w).reading = w.reading ∧ (action w).late = w.late ∧
    (action w).completed = w.completed

theorem neutral_id : Neutral (id : World ι → World ι) :=
  fun _ => ⟨rfl, rfl, rfl, rfl⟩

inductive Scans [DecidableEq ι] : List ι → Handler ι Unit → Prop
  | ended : Scans [] (.done (.ok ()))
  | failed {todo e} : Scans todo (.done (.error e))
  | read {item todo next} (rest : ∀ w, Scans todo (next w)) :
      Scans (item :: todo) (.step (World.read item) next)
  | skip {todo action next} (neutral : Neutral action) (rest : ∀ w, Scans todo (next w)) :
      Scans todo (.step action next)

section Scans

variable [DecidableEq ι]

theorem Scans.bind {first later : List ι} {p q : Handler ι Unit} (scans : Scans first p)
    (rest : Scans later q) : Scans (first ++ later) (p >>= fun _ => q) := by
  induction scans with
  | ended => exact rest
  | failed => exact .failed
  | read _ ih => exact .read ih
  | skip neutral _ ih => exact .skip neutral ih

inductive Safe (items : List ι) : Option (List ι) → Handler ι Unit → Prop
  | ended {todo result} : Safe items todo (.done result)
  | leave {todo run} (rest : Safe items none run) : Safe items todo run
  | begin {todo next} (rest : ∀ w, Safe items (some items) (next w)) :
      Safe items todo (.step World.begin next)
  | read {item todo next} (rest : ∀ w, Safe items (some todo) (next w)) :
      Safe items (some (item :: todo)) (.step (World.read item) next)
  | skip {todo action next} (neutral : Neutral action) (rest : ∀ w, Safe items todo (next w)) :
      Safe items todo (.step action next)
  | complete {next} (ends : ∀ w, (next w).IsDone) :
      Safe items (some []) (.step (fun w => { w with completed := true }) next)

variable {items : List ι}

theorem Safe.of_scans {todo : List ι} {attempt : Handler ι Unit} {again : Bool → Handler ι Unit}
    (scans : Scans todo attempt) (stops : (again false).IsDone)
    (retried : Safe items none (again true)) :
    Safe items (some todo)
      ((Program.tryCatch
        (attempt >>= fun _ => act (fun w => { w with completed := true }) >>= fun _ => return false)
        fun failure => return retries failure) >>= again) := by
  induction scans with
  | ended => exact .complete fun _ => stops
  | @failed _ e =>
    apply Safe.leave
    change Safe items none (again (retries e))
    cases retries e with
    | false =>
      obtain ⟨result, stopped⟩ := stops
      rw [stopped]
      exact .ended
    | true => exact retried
  | read _ ih => exact .read ih
  | skip neutral _ ih => exact .skip neutral ih

theorem safe_attempts {attempt : Handler ι Unit} (scans : Scans items attempt)
    (waitEvent : Nat → Bool) (left : Nat) : Safe items none (attempts waitEvent attempt left) := by
  induction left with
  | zero => exact .ended
  | succ left ih =>
    apply Safe.begin
    intro _
    apply Safe.of_scans scans ⟨_, rfl⟩
    apply Safe.skip
    · exact fun _ => ⟨rfl, rfl, rfl, rfl⟩
    · intro w
      change Safe items none (if waitEvent w.attempt then return else attempts waitEvent attempt left)
      split
      · exact .ended
      · exact ih

/-! ## Runs -/

def Tracked (items : List ι) (w : World ι) (run : Handler ι Unit) : Prop :=
  (∃ todo, Safe items todo run ∧ w.completed = false ∧
    ∀ rest, todo = some rest → (w.reading = false → rest = items) ∧
      (w.late = false → ∀ item ∈ w.unread, item ∈ rest)) ∨
  run.IsDone ∧ w.completed = true ∧ (w.reading = false → items = []) ∧
    (w.late = false → w.unread = [])

def Notified.Inv (items : List ι) (n : Notified ι) : Prop :=
  match n.running with
  | none => n.world.unread = []
  | some run => (∀ item ∈ n.world.unread, item ∈ items) ∧ Tracked items n.world run

/-- A run ends when its last attempt has come to its end and no notification has come since that
attempt read something. -/
def EndsServed (n : Notified ι) (event : Notified.Event) : Prop :=
  event = .advance → (∃ run, n.running = some run ∧ run.IsDone) →
    n.world.completed = true ∧ n.world.late = false

theorem tracked_step {w : World ι} {action : World ι → World ι} {next : World ι → Handler ι Unit}
    {todo : Option (List ι)} (safe : Safe items todo (.step action next))
    (unread : ∀ item ∈ w.unread, item ∈ items) (incomplete : w.completed = false)
    (reading : ∀ rest, todo = some rest → (w.reading = false → rest = items) ∧
      (w.late = false → ∀ item ∈ w.unread, item ∈ rest)) :
    (∀ item ∈ (action w).unread, item ∈ items) ∧ Tracked items (action w) (next w) := by
  generalize program : Program.step action next = run at safe
  induction safe with
  | ended => cases program
  | leave _ ih =>
    apply ih _ program
    intro rest h
    cases h
  | begin rest =>
    cases program
    refine ⟨unread, .inl ⟨_, rest w, rfl, ?_⟩⟩
    rintro _ ⟨⟩
    exact ⟨fun _ => rfl, fun _ => unread⟩
  | @read item todo _ rest =>
    cases program
    refine ⟨fun other member => unread other (List.mem_of_mem_filter member),
      .inl ⟨_, rest w, incomplete, ?_⟩⟩
    rintro _ ⟨⟩
    refine ⟨fun h => (by cases h), ?_⟩
    intro onTime other member
    rw [World.read, List.mem_filter, decide_eq_true_eq] at member
    have left := (reading _ rfl).2 onTime other member.1
    exact (List.mem_cons.mp left).resolve_left member.2
  | skip neutral rest =>
    cases program
    obtain ⟨sameUnread, sameReading, sameLate, sameCompleted⟩ := neutral w
    refine ⟨?_, .inl ⟨_, rest w, sameCompleted.trans incomplete, ?_⟩⟩
    · rw [sameUnread]
      exact unread
    · rw [sameUnread, sameReading, sameLate]
      exact reading
  | complete ends =>
    cases program
    have nothing := reading [] rfl
    refine ⟨unread, .inr ⟨ends w, rfl, fun h => (nothing.1 h).symm, fun onTime => ?_⟩⟩
    apply List.eq_nil_iff_forall_not_mem.mpr
    intro item member
    exact absurd (nothing.2 onTime item member) List.not_mem_nil

theorem inv_step {run : Handler ι Unit} (safe : Safe items none run) (n : Notified ι)
    (event : Notified.Event) (inv : n.Inv items) (ends : EndsServed n event) :
    (n.step items run event).Inv items := by
  obtain ⟨w, running⟩ := n
  cases event with
  | notify =>
    cases running with
    | none =>
      refine ⟨fun item member => member, .inl ⟨none, safe, rfl, ?_⟩⟩
      intro rest h
      cases h
    | some running =>
      refine ⟨fun item member => member, ?_⟩
      obtain ⟨unread, ⟨todo, safe, incomplete, reading⟩ | ⟨done, completed, read, served⟩⟩ := inv
      · refine .inl ⟨todo, safe, incomplete, ?_⟩
        intro rest h
        obtain ⟨fresh, _⟩ := reading rest h
        refine ⟨fresh, ?_⟩
        intro onTime item member
        rw [fresh (Bool.or_eq_false_iff.mp onTime).2]
        exact member
      · refine .inr ⟨done, completed, read, ?_⟩
        intro onTime
        exact read (Bool.or_eq_false_iff.mp onTime).2
  | advance =>
    cases running with
    | none => exact inv
    | some running =>
      obtain ⟨unread, tracked⟩ := inv
      cases running with
      | done result =>
        obtain ⟨completed, onTime⟩ := ends rfl ⟨_, rfl, result, rfl⟩
        rcases tracked with ⟨todo, safe, incomplete, reading⟩ | ⟨done, completed, read, served⟩
        · rw [completed] at incomplete
          cases incomplete
        · exact served onTime
      | step action next =>
        rcases tracked with ⟨todo, safe, incomplete, reading⟩ | ⟨⟨result, done⟩, _⟩
        · exact tracked_step safe unread incomplete reading
        · cases done

theorem served_of_run {run : Handler ι Unit} (safe : Safe items none run) (n : Notified ι)
    (events : List Notified.Event) (inv : n.Inv items)
    (ends : Runs.Throughout (Notified.step items run) EndsServed n events) :
    (Runs.run (Notified.step items run) n events).Inv items :=
  Runs.invariant_run_of_throughout _ (inv_step safe) n events inv ends

omit [DecidableEq ι] in
theorem run_ends (run : Handler ι Unit) (n : Notified ι) :
    ∃ steps, (Runs.run (Notified.step items run) n (List.replicate steps .advance)).running = none := by
  obtain ⟨w, running⟩ := n
  cases running with
  | none => exact ⟨0, rfl⟩
  | some running =>
    induction running generalizing w with
    | done result => exact ⟨1, rfl⟩
    | step action next ih =>
      obtain ⟨steps, ends⟩ := ih w (action w)
      exact ⟨steps + 1, ends⟩

end Scans

/-! ## The two handlers -/

theorem DpkgHandler.scans_rerunSetup (handler : DpkgHandler) (app : Package.App) :
    Scans [] (handler.rerunSetup app) := by
  apply Scans.skip neutral_id
  intro w
  dsimp only
  split
  · exact .failed
  · exact .ended
  · split
    · exact .failed
    · apply Scans.skip
      · exact fun _ => ⟨rfl, rfl, rfl, rfl⟩
      · exact fun _ => .ended

theorem DpkgHandler.scans_postInvokeOnApp (handler : DpkgHandler) {app : Package.App}
    (interested : isInterested app = true) : Scans [app.appId] (handler.postInvokeOnApp app) := by
  rw [postInvokeOnApp, if_pos interested]
  apply Scans.read
  intro w
  split
  · exact .failed
  · exact .ended
  · exact handler.scans_rerunSetup app

theorem DpkgHandler.scans_postInvokeOnApps (handler : DpkgHandler) (apps : List Package.App) :
    Scans ((apps.filter isInterested).map Package.App.appId) (handler.postInvokeOnApps apps) := by
  induction apps with
  | nil => exact .ended
  | cons app apps ih =>
    rw [postInvokeOnApps]
    by_cases interested : isInterested app = true
    · rw [List.filter_cons_of_pos interested, List.map_cons]
      exact (handler.scans_postInvokeOnApp interested).bind ih
    · rw [postInvokeOnApp, if_neg interested, List.filter_cons_of_neg interested]
      exact ih

theorem DpkgHandler.safe_onDpkgInvoked (handler : DpkgHandler) :
    Safe handler.interested none handler.onDpkgInvoked := by
  apply safe_attempts
  apply Scans.skip neutral_id
  intro w
  split
  · exact .failed
  · split
    · exact .failed
    · exact handler.scans_postInvokeOnApps handler.apps

theorem ForceUpgrader.scans_forceUpgradeApps (upgrader : ForceUpgrader) (appIds : List String)
    (needRetry : Bool) : Scans [] (upgrader.forceUpgradeApps appIds needRetry) := by
  induction appIds generalizing needRetry with
  | nil =>
    cases needRetry with
    | true => exact .failed
    | false => exact .ended
  | cons appId appIds ih => exact .skip neutral_id fun _ => ih _

theorem ForceUpgrader.safe_runUpgrade (upgrader : ForceUpgrader) :
    Safe [()] none upgrader.runUpgrade := by
  apply safe_attempts
  apply Scans.skip neutral_id
  intro w
  split
  · exact .failed
  · split
    · exact .failed
    · apply Scans.read
      intro w
      split
      · exact .failed
      · exact upgrader.scans_forceUpgradeApps _ false

def Notified.initial : Notified ι :=
  ⟨⟨0, [], false, false, false, []⟩, none⟩

/-- When no run is in progress everything has been read since the last notification, and a run in
progress comes to its end. -/
def Notified.Served (items : List ι) (run : Handler ι Unit) (n : Notified ι) : Prop :=
  (n.running = none → n.world.unread = []) ∧
    ∃ steps, (Runs.run (Notified.step items run) n (List.replicate steps .advance)).running = none

theorem Notified.served_of_ends [DecidableEq ι] {items : List ι} {run : Handler ι Unit}
    (safe : Safe items none run) (events : List Notified.Event)
    (ends : Runs.Throughout (Notified.step items run) EndsServed .initial events) :
    (Runs.run (Notified.step items run) .initial events).Served items run := by
  have inv := served_of_run safe .initial events rfl ends
  refine ⟨?_, run_ends run _⟩
  intro idle
  rw [Notified.Inv, idle] at inv
  exact inv

/-- Notifications are served in every run in which the runs of the handler end served. -/
theorem notifications_served (handler : DpkgHandler) (upgrader : ForceUpgrader)
    (events : List Notified.Event) :
    (Runs.Throughout (Notified.step handler.interested handler.onDpkgInvoked) EndsServed .initial
        events →
      (Runs.run (Notified.step handler.interested handler.onDpkgInvoked) .initial events).Served
        handler.interested handler.onDpkgInvoked) ∧
    (Runs.Throughout (Notified.step [()] upgrader.runUpgrade) EndsServed .initial events →
      (Runs.run (Notified.step [()] upgrader.runUpgrade) .initial events).Served [()]
        upgrader.runUpgrade) := by
  constructor
  · intro ends
    exact Notified.served_of_ends handler.safe_onDpkgInvoked events ends
  · intro ends
    exact Notified.served_of_ends upgrader.safe_runUpgrade events ends

/-! ## A notification in the middle of a scan -/

def idleHandler : DpkgHandler where
  apps := [⟨"nextcloud", false, 1, [.packages ⟨[], [], none, true⟩]⟩]
  nodup := List.nodup_singleton _
  isShuttingDown _ := false
  isPackageManagerBusy _ := false
  waitEvent _ := false
  snapshot _ _ := ⟨0, .empty, .dict []⟩
  outcome _ _ := .completes

def idleUpgrader : ForceUpgrader where
  isShuttingDown _ := false
  isPackageManagerBusy _ := false
  waitEvent _ := false
  appsToForceUpgrade _ := .ok []
  outcome _ _ := .completes

theorem notifications_served_idle :
    (Runs.run (Notified.step idleHandler.interested idleHandler.onDpkgInvoked) .initial
      (.notify :: List.replicate 5 .advance)).Served idleHandler.interested
        idleHandler.onDpkgInvoked := by
  apply (notifications_served idleHandler idleUpgrader (.notify :: List.replicate 5 .advance)).1
  refine ⟨?_, ?_, ?_, ?_, ?_, ?_, trivial⟩
  · intro h
    cases h
  · rintro _ ⟨run, h, result, rfl⟩
    cases h
  · rintro _ ⟨run, h, result, rfl⟩
    cases h
  · rintro _ ⟨run, h, result, rfl⟩
    cases h
  · rintro _ ⟨run, h, result, rfl⟩
    cases h
  · intro _ _
    exact ⟨rfl, rfl⟩

theorem notification_lost :
    ¬ ∀ (handler : DpkgHandler) (events : List Notified.Event),
      (∀ attempt, handler.isShuttingDown attempt = false ∧ handler.waitEvent attempt = false) →
      (Runs.run (Notified.step handler.interested handler.onDpkgInvoked) .initial events).Served
        handler.interested handler.onDpkgInvoked := by
  intro served
  have idle := (served idleHandler
    (.notify :: List.replicate 3 .advance ++ .notify :: List.replicate 2 .advance)
    fun _ => ⟨rfl, rfl⟩).1 rfl
  cases idle

end Plinth.Setup
