import Mathlib.Data.List.Induction
import Plinth.Model.Container

/-!
# The chosen state of a container

Writing the `.container` file turns the container on, and only the end of the setup turns it off
again. When a setup fails in between, the next one takes the container for one that is turned on.
-/

namespace Plinth.Container

open Effect Python

variable {failures : Failures} {oldVersion : Nat} {choice : Bool} {s : System}

/-! ## One setup -/

/-- A failure after which the file says what was chosen: one before the file is written, one that
has left a file that says so, or, for a container that is turned on, any later one. -/
def Harmless (choice : Bool) (failures : Failures) : Prop :=
  (∃ step ∈ [Step.isEnabled, .prepare, .openServiceFile], (failures.raises step).isSome) ∨
  ((failures.raises .writeServiceFile).isSome ∧
    failures.written.any (· = defaultTarget) = choice) ∨
  (failures.raises .writeServiceFile = none ∧ (choice = true ∨
    ∀ step ∈ [Step.fallbackServiceFile, .daemonReload, .start, .saveDisabled],
      failures.raises step = none))

theorem exec_attempt_of_none {step : Step} (works : failures.raises step = none) (s : System) :
    (attempt failures step).exec s = (.ok (), s) := by
  rw [attempt, works]
  rfl

theorem exec_attempt_of_some {step : Step} {e : Exception}
    (raised : failures.raises step = some e) (s : System) :
    (attempt failures step).exec s = (.error e, s) := by
  rw [attempt, raised]
  rfl

inductive Outcome (failures : Failures) (s : System) : Except Exception Unit → System → Prop
  | early {step : Step} {e : Exception} (member : step ∈ [Step.prepare, .openServiceFile])
      (raised : failures.raises step = some e) :
      Outcome failures s (.error e) { s with running := false }
  | writing {e : Exception} (prepared : failures.raises .prepare = none)
      (opened : failures.raises .openServiceFile = none)
      (raised : failures.raises .writeServiceFile = some e) :
      Outcome failures s (.error e) ⟨failures.written, false⟩
  | late {step : Step} {e : Exception} (prepared : failures.raises .prepare = none)
      (opened : failures.raises .openServiceFile = none)
      (written : failures.raises .writeServiceFile = none)
      (member : step ∈ [Step.fallbackServiceFile, .daemonReload, .start])
      (raised : failures.raises step = some e) :
      Outcome failures s (.error e) ⟨[defaultTarget], false⟩
  | returned (works : ∀ step ∈ [Step.prepare, .openServiceFile, .writeServiceFile,
      .fallbackServiceFile, .daemonReload, .start], failures.raises step = none) :
      Outcome failures s (.ok ()) ⟨[defaultTarget], true⟩

theorem outcome_containerSetup (failures : Failures) (s : System) :
    Outcome failures s ((containerSetup failures).exec s).1
      ((containerSetup failures).exec s).2 := by
  rw [containerSetup, podmanCreate, writeServiceFile, setRunning, setWantedBy, setRunning]
  cases prepared : failures.raises .prepare with
  | some e =>
    simp only [exec_bind, exec_modify, exec_attempt_of_some prepared]
    exact .early (by simp) prepared
  | none =>
  cases opened : failures.raises .openServiceFile with
  | some e =>
    simp only [exec_bind, exec_modify, exec_attempt_of_none prepared, exec_attempt_of_some opened]
    exact .early (by simp) opened
  | none =>
  cases written : failures.raises .writeServiceFile with
  | some e =>
    simp only [exec_bind, exec_modify, exec_attempt_of_none prepared,
      exec_attempt_of_none opened, exec_attempt_of_some written]
    exact .writing prepared opened written
  | none =>
  cases fallback : failures.raises .fallbackServiceFile with
  | some e =>
    simp only [exec_bind, exec_modify, exec_attempt_of_none prepared,
      exec_attempt_of_none opened, exec_attempt_of_none written, exec_attempt_of_some fallback]
    exact .late prepared opened written (by simp) fallback
  | none =>
  cases reloaded : failures.raises .daemonReload with
  | some e =>
    simp only [exec_bind, exec_modify, exec_attempt_of_none prepared,
      exec_attempt_of_none opened, exec_attempt_of_none written, exec_attempt_of_none fallback,
      exec_attempt_of_some reloaded]
    exact .late prepared opened written (by simp) reloaded
  | none =>
  cases started : failures.raises .start with
  | some e =>
    simp only [exec_bind, exec_modify, exec_attempt_of_none prepared,
      exec_attempt_of_none opened, exec_attempt_of_none written, exec_attempt_of_none fallback,
      exec_attempt_of_none reloaded, exec_attempt_of_some started]
    exact .late prepared opened written (by simp) started
  | none =>
    simp only [exec_bind, exec_modify, exec_attempt_of_none prepared,
      exec_attempt_of_none opened, exec_attempt_of_none written, exec_attempt_of_none fallback,
      exec_attempt_of_none reloaded, exec_attempt_of_none started]
    exact .returned (by simp [prepared, opened, written, fallback, reloaded, started])

theorem exec_setup_of_error {e : Exception} {s' : System}
    (works : failures.raises .isEnabled = none)
    (raised : (containerSetup failures).exec s = (.error e, s')) (oldVersion : Nat) :
    (setup failures oldVersion).exec s = (.error e, s') := by
  rw [setup, exec_bind_of_ok (exec_attempt_of_none works s), exec_bind_of_ok (exec_get s),
    exec_bind_of_error raised]

theorem exec_setup_of_ok {s' : System} (works : failures.raises .isEnabled = none)
    (returned : (containerSetup failures).exec s = (.ok (), s')) (oldVersion : Nat) :
    (setup failures oldVersion).exec s =
      (when (oldVersion ≠ 0 ∧ podmanIsEnabled s = false) (containerDisable failures)).exec s' := by
  rw [setup, exec_bind_of_ok (exec_attempt_of_none works s), exec_bind_of_ok (exec_get s),
    exec_bind_of_ok returned]

theorem harmless_of_early {step : Step} {e : Exception}
    (member : step ∈ [Step.isEnabled, .prepare, .openServiceFile])
    (raised : failures.raises step = some e) : Harmless choice failures :=
  .inl ⟨step, member, by rw [raised]; rfl⟩

theorem harmless_of_not_early
    (works : ∀ step ∈ [Step.isEnabled, .prepare, .openServiceFile], failures.raises step = none) :
    Harmless choice failures ↔
      ((failures.raises .writeServiceFile).isSome ∧
        failures.written.any (· = defaultTarget) = choice) ∨
      (failures.raises .writeServiceFile = none ∧ (choice = true ∨
        ∀ step ∈ [Step.fallbackServiceFile, .daemonReload, .start, .saveDisabled],
          failures.raises step = none)) := by
  rw [Harmless, or_iff_right]
  rintro ⟨step, member, fails⟩
  rw [works step member] at fails
  cases fails

theorem exec_containerDisable (failures : Failures) (s : System) :
    ((containerDisable failures).exec s).2 = ⟨if (failures.raises .saveDisabled).isSome then
      s.wantedBy else [], false⟩ ∧
    (((containerDisable failures).exec s).1 = .ok () ↔ failures.raises .saveDisabled = none) := by
  rw [containerDisable, setRunning, setWantedBy]
  cases saved : failures.raises .saveDisabled with
  | some e =>
    simp only [exec_bind, exec_modify, exec_attempt_of_some saved]
    exact ⟨rfl, by simp⟩
  | none =>
    simp only [exec_bind, exec_modify, exec_attempt_of_none saved]
    exact ⟨rfl, by simp⟩

theorem setup_keeps_iff (isAgain : 0 < oldVersion) (stored : podmanIsEnabled s = choice) :
    podmanIsEnabled ((setup failures oldVersion).exec s).2 = choice ↔ Harmless choice failures := by
  cases looked : failures.raises .isEnabled with
  | some e =>
    rw [setup, exec_bind_of_error (exec_attempt_of_some looked s)]
    exact iff_of_true stored (harmless_of_early (by simp) looked)
  | none =>
    have outcome := outcome_containerSetup failures s
    rcases ran : (containerSetup failures).exec s with ⟨result, s'⟩
    rw [ran] at outcome
    cases outcome with
    | early member raised =>
      rw [exec_setup_of_error looked ran]
      exact iff_of_true stored (harmless_of_early (List.mem_cons_of_mem _ member) raised)
    | writing prepared opened raised =>
      rw [exec_setup_of_error looked ran,
        harmless_of_not_early (by simp [looked, prepared, opened]), raised]
      simp [podmanIsEnabled]
    | late prepared opened written member raised =>
      have fails : ¬ ∀ step ∈ [Step.fallbackServiceFile, .daemonReload, .start, .saveDisabled],
          failures.raises step = none := by
        intro works
        have none := works _ (List.mem_append_left [Step.saveDisabled] member)
        rw [raised] at none
        cases none
      rw [exec_setup_of_error looked ran,
        harmless_of_not_early (by simp [looked, prepared, opened]), written,
        or_iff_left fails]
      simp [podmanIsEnabled, eq_comm]
    | returned works =>
      rw [exec_setup_of_ok looked ran, harmless_of_not_early (by simp [looked, works]),
        works .writeServiceFile (by simp)]
      cases choice with
      | true =>
        rw [when_of_not (by simp [stored])]
        simp [podmanIsEnabled]
      | false =>
        rw [when_of ⟨Nat.pos_iff_ne_zero.mp isAgain, stored⟩,
          (exec_containerDisable failures _).1]
        cases saved : failures.raises .saveDisabled with
        | some e => simp [podmanIsEnabled, saved]
        | none => simp [podmanIsEnabled, saved, works]

theorem setup_stops (isAgain : 0 < oldVersion) (stored : podmanIsEnabled s = false)
    (returns : ((setup failures oldVersion).exec s).1 = .ok ()) :
    ((setup failures oldVersion).exec s).2.running = false := by
  cases looked : failures.raises .isEnabled with
  | some e =>
    rw [setup, exec_bind_of_error (exec_attempt_of_some looked s)] at returns
    cases returns
  | none =>
    rcases ran : (containerSetup failures).exec s with ⟨result, s'⟩
    cases result with
    | error e =>
      rw [exec_setup_of_error looked ran] at returns
      cases returns
    | ok =>
      rw [exec_setup_of_ok looked ran, when_of ⟨Nat.pos_iff_ne_zero.mp isAgain, stored⟩,
        (exec_containerDisable failures _).1]

/-! ## Runs -/

/-- The stored state is the chosen one after every call, and a setup that returns leaves no
container running that is turned off. -/
def KeepsChoice (s : System) (choice : Bool) (made : List Call) : Prop :=
  ∀ before after, made = before ++ after →
    podmanIsEnabled (calls s before) = chosen choice before ∧
    ∀ again rest, after = .setup again :: rest → chosen choice before = false →
      ((setup again.failures again.oldVersion).exec (calls s before)).1 = .ok () →
      (call (calls s before) (.setup again)).running = false

theorem calls_append_singleton (s : System) (before : List Call) (made : Call) :
    calls s (before ++ [made]) = call (calls s before) made := by
  rw [calls, List.foldl_append]
  rfl

theorem chosen_append_setup (choice : Bool) (before : List Call) (again : Setup) :
    chosen choice (before ++ [.setup again]) = chosen choice before := by
  rw [chosen, List.foldl_append]
  rfl

theorem podmanIsEnabled_enable (s : System) : podmanIsEnabled (call s .enable) = true := by
  show podmanIsEnabled { podmanEnable s with running := true } = true
  rw [podmanIsEnabled, podmanEnable]
  split
  · rename_i on
    exact on
  · simp

theorem podmanIsEnabled_disable (s : System) : podmanIsEnabled (call s .disable) = false := by
  show podmanIsEnabled ((containerDisable noFailures).exec s).2 = false
  rw [(exec_containerDisable noFailures s).1]
  rfl

theorem stored_of_harmless (stored : podmanIsEnabled s = choice) (made : List Call)
    (harmless : ∀ before again after, made = before ++ .setup again :: after →
      Harmless (chosen choice before) again.failures) :
    podmanIsEnabled (calls s made) = chosen choice made := by
  induction made using List.reverseRecOn with
  | nil => exact stored
  | append_singleton before made ih =>
    have earlier := ih fun first again after split =>
      harmless first again (after ++ [made]) (by rw [split]; simp)
    rw [calls_append_singleton]
    cases made with
    | enable =>
      rw [podmanIsEnabled_enable, chosen, List.foldl_append]
      rfl
    | disable =>
      rw [podmanIsEnabled_disable, chosen, List.foldl_append]
      rfl
    | setup again =>
      rw [chosen_append_setup]
      exact (setup_keeps_iff again.isAgain earlier).mpr (harmless before again [] rfl)

theorem container_keeps_choice_iff (s : System) (made : List Call) :
    KeepsChoice s (podmanIsEnabled s) made ↔
      ∀ before again after, made = before ++ .setup again :: after →
        Harmless (chosen (podmanIsEnabled s) before) again.failures := by
  constructor
  · intro keeps before again after split
    have earlier := (keeps before (.setup again :: after) split).1
    have later := (keeps (before ++ [.setup again]) after (by rw [split]; simp)).1
    rw [calls_append_singleton, chosen_append_setup] at later
    exact (setup_keeps_iff again.isAgain earlier).mp later
  · rintro harmless before after rfl
    have earlier := stored_of_harmless rfl before fun first again rest split =>
      harmless first again (rest ++ after) (by rw [split]; simp)
    refine ⟨earlier, ?_⟩
    rintro again rest rfl off returns
    exact setup_stops again.isAgain (earlier.trans off) returns

def startFails : Setup where
  oldVersion := 1
  isAgain := Nat.one_pos
  failures := {
    raises := fun step => if step = .start then some (Exception.ValueError "") else none
    written := [] }

theorem disabled_container_enabled : ¬ KeepsChoice ⟨[], false⟩ false [.disable, .setup startFails] := by
  intro keeps
  have later := (keeps [.disable, .setup startFails] [] rfl).1
  exact absurd later (by decide +kernel)

end Plinth.Container
