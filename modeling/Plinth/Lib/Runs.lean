import Mathlib.Order.Basic

/-!
# Runs of an event-driven system

A system is a total step function on states and events; an event that is not enabled leaves the
state alone, so that every list of events is an interleaving. A property of a run speaks about
every state the run passes through together with the event taken there.
-/

namespace Runs

variable {σ ε : Type*}

def run (step : σ → ε → σ) (s : σ) (events : List ε) : σ :=
  events.foldl step s

@[simp] theorem run_nil (step : σ → ε → σ) (s : σ) : run step s [] = s := rfl

@[simp] theorem run_cons (step : σ → ε → σ) (s : σ) (e : ε) (es : List ε) :
    run step s (e :: es) = run step (step s e) es := rfl

theorem run_append (step : σ → ε → σ) (s : σ) (before after : List ε) :
    run step s (before ++ after) = run step (run step s before) after :=
  List.foldl_append

/-- `P` holds of every state in which the run takes an event, and of that event. -/
def Throughout (step : σ → ε → σ) (P : σ → ε → Prop) : σ → List ε → Prop
  | _, [] => True
  | s, e :: es => P s e ∧ Throughout step P (step s e) es

def tally (step : σ → ε → σ) (f : σ → ε → Nat) : σ → List ε → Nat
  | _, [] => 0
  | s, e :: es => f s e + tally step f (step s e) es

def trace {α : Type*} (step : σ → ε → σ) (f : σ → ε → List α) : σ → List ε → List α
  | _, [] => []
  | s, e :: es => f s e ++ trace step f (step s e) es

theorem trace_append {α : Type*} (step : σ → ε → σ) (f : σ → ε → List α) (s : σ)
    (before after : List ε) :
    trace step f s (before ++ after) =
      trace step f s before ++ trace step f (run step s before) after := by
  induction before generalizing s with
  | nil => rfl
  | cons e es ih =>
    rw [List.cons_append, trace, trace, run_cons, ih, List.append_assoc]

section Rules

variable {step : σ → ε → σ} {P Q : σ → ε → Prop}

@[simp] theorem throughout_nil (s : σ) : Throughout step P s [] := trivial

@[simp] theorem throughout_cons (s : σ) (e : ε) (es : List ε) :
    Throughout step P s (e :: es) ↔ P s e ∧ Throughout step P (step s e) es := Iff.rfl

instance Throughout.decidable [∀ s e, Decidable (P s e)] :
    ∀ (s : σ) (events : List ε), Decidable (Throughout step P s events)
  | _, [] => .isTrue trivial
  | s, e :: es =>
    have := Throughout.decidable (step s e) es
    inferInstanceAs (Decidable (P s e ∧ Throughout step P (step s e) es))

theorem throughout_append (s : σ) (before after : List ε) :
    Throughout step P s (before ++ after) ↔
      Throughout step P s before ∧ Throughout step P (run step s before) after := by
  induction before generalizing s with
  | nil => simp
  | cons e es ih => simp [ih, and_assoc]

theorem throughout_iff (s : σ) (events : List ε) :
    Throughout step P s events ↔
      ∀ before e after, events = before ++ e :: after → P (run step s before) e := by
  constructor
  · rintro all before e after rfl
    exact ((throughout_append s before (e :: after)).mp all).2.1
  · intro all
    induction events generalizing s with
    | nil => trivial
    | cons e es ih =>
      refine ⟨all [] e es rfl, ih (step s e) ?_⟩
      rintro before next after rfl
      exact all (e :: before) next after rfl

theorem invariant_run (Inv : σ → Prop) (preserved : ∀ s e, Inv s → Inv (step s e)) (s : σ)
    (events : List ε) (initial : Inv s) : Inv (run step s events) := by
  induction events generalizing s with
  | nil => exact initial
  | cons e es ih => exact ih (step s e) (preserved s e initial)

theorem invariant_run_of_throughout (Inv : σ → Prop)
    (preserved : ∀ s e, Inv s → P s e → Inv (step s e)) (s : σ) (events : List ε)
    (initial : Inv s) (guarded : Throughout step P s events) : Inv (run step s events) := by
  induction events generalizing s with
  | nil => exact initial
  | cons e es ih => exact ih (step s e) (preserved s e initial guarded.1) guarded.2

theorem throughout_congr (Inv : σ → Prop) (agree : ∀ s e, Inv s → (P s e ↔ Q s e))
    (preserved : ∀ s e, Inv s → P s e → Inv (step s e))
    (s : σ) (events : List ε) (initial : Inv s) :
    Throughout step P s events ↔ Throughout step Q s events := by
  induction events generalizing s with
  | nil => exact Iff.rfl
  | cons e es ih =>
    simp only [throughout_cons]
    constructor
    · rintro ⟨now, later⟩
      exact ⟨(agree s e initial).mp now, (ih (step s e) (preserved s e initial now)).mp later⟩
    · rintro ⟨now, later⟩
      have here := (agree s e initial).mpr now
      exact ⟨here, (ih (step s e) (preserved s e initial here)).mpr later⟩

theorem tally_le_of_potential (Inv Live : σ → Prop) (potential : σ → Nat) (gain cost : σ → ε → Nat)
    (preserved : ∀ s e, Inv s → P s e → Inv (step s e))
    (bound : ∀ s e, Inv s → P s e → Live (step s e) →
      Live s ∧ potential (step s e) + gain s e ≤ potential s + cost s e)
    (s : σ) (events : List ε) (initial : Inv s) (guarded : Throughout step P s events)
    (live : Live (run step s events)) :
    Live s ∧ potential (run step s events) + tally step gain s events ≤
      potential s + tally step cost s events := by
  induction events generalizing s with
  | nil => exact ⟨live, Nat.le_refl _⟩
  | cons e es ih =>
    obtain ⟨now, later⟩ := guarded
    obtain ⟨live', rest⟩ := ih (step s e) (preserved s e initial now) later live
    obtain ⟨live'', here⟩ := bound s e initial now live'
    refine ⟨live'', ?_⟩
    simp only [run_cons, tally]
    omega

theorem trace_eq_range' (Inv : σ → Nat → Prop) (f : σ → ε → List Nat)
    (counts : ∀ s e n, Inv s n → P s e →
      ∃ k, Inv (step s e) (n + k) ∧ f s e = List.range' n k)
    (s : σ) (events : List ε) (n : Nat) (initial : Inv s n) (guarded : Throughout step P s events) :
    ∃ k, Inv (run step s events) (n + k) ∧ trace step f s events = List.range' n k := by
  induction events generalizing s n with
  | nil => exact ⟨0, initial, rfl⟩
  | cons e es ih =>
    obtain ⟨now, later⟩ := guarded
    obtain ⟨k, next, here⟩ := counts s e n initial now
    obtain ⟨k', final, rest⟩ := ih (step s e) (n + k) next later
    refine ⟨k + k', ?_, ?_⟩
    · rw [← Nat.add_assoc]
      exact final
    · rw [trace, here, rest, List.range'_append_1]

theorem perm_trace {α : Type*} (Inv : σ → Prop) (preserved : ∀ s e, Inv s → Inv (step s e))
    (held : σ → List α) (leaves enters : σ → ε → List α)
    (balanced : ∀ s e, Inv s →
      (leaves s e ++ held (step s e)).Perm (held s ++ enters s e))
    (s : σ) (events : List ε) (initial : Inv s) :
    (trace step leaves s events ++ held (run step s events)).Perm
      (held s ++ trace step enters s events) := by
  induction events generalizing s with
  | nil => simp [trace]
  | cons e es ih =>
    have later := (ih (step s e) (preserved s e initial)).append_left (leaves s e)
    have here := (balanced s e initial).append_right (trace step enters (step s e) es)
    simp only [List.append_assoc] at later here
    simp only [trace, run_cons, List.append_assoc]
    exact later.trans here

end Rules

end Runs

/-!
## Programs with state

What a program of the state monad does to the state, as a relation between the state it finds and
the state it leaves.
-/

namespace Stateful

variable {σ α β : Type}

def Moves (R : σ → σ → Prop) (m : StateM σ α) : Prop :=
  ∀ s, R s (m s).2

theorem run_bind (m : StateM σ α) (f : α → StateM σ β) (s : σ) :
    (m >>= f) s = f (m s).1 (m s).2 := rfl

theorem run_get_bind (f : σ → StateM σ β) (s : σ) : (get >>= f) s = f s s := rfl

theorem moves_get_bind {R : σ → σ → Prop} {f : σ → StateM σ β} (later : ∀ s, R s (f s s).2) :
    Moves R (get >>= f) :=
  later

theorem Moves.mono {R R' : σ → σ → Prop} {m : StateM σ α} (moves : Moves R m)
    (weaker : ∀ s s', R s s' → R' s s') : Moves R' m :=
  fun s => weaker s _ (moves s)

@[simp] theorem run_get (s : σ) : (get : StateM σ σ) s = (s, s) := rfl

section Rules

variable {R : σ → σ → Prop} [Std.Refl R] [IsTrans σ R]

omit [IsTrans σ R] in
theorem moves_pure (a : α) : Moves R (pure a : StateM σ α) :=
  fun s => Std.Refl.refl s

omit [IsTrans σ R] in
theorem moves_get : Moves R (get : StateM σ σ) :=
  fun s => Std.Refl.refl s

omit [Std.Refl R] in
theorem Moves.bind {m : StateM σ α} {f : α → StateM σ β} (first : Moves R m)
    (later : ∀ a, Moves R (f a)) : Moves R (m >>= f) :=
  fun s => IsTrans.trans _ _ _ (first s) (later (m s).1 (m s).2)

theorem moves_forM {f : α → StateM σ PUnit} (each : ∀ a, Moves R (f a)) (l : List α) :
    Moves R (l.forM f) := by
  induction l with
  | nil => exact moves_pure _
  | cons a l ih => exact (each a).bind fun _ => ih

end Rules

end Stateful
