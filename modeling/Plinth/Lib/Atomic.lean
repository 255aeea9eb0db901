import Plinth.Lib.Runs
import Mathlib.Logic.Function.Basic

/-!
# Two programs of atomic steps

Programs that share a state take their steps in any order. A program that reads a document, and
later writes it, is run beside another one: whether their effect is that of one after the other is
decided by their order and by what the first to write changes.
-/

namespace Atomic

inductive Program (σ ε α : Type)
  | done (result : Except ε α)
  | step (action : σ → σ) (next : σ → Program σ ε α)

namespace Program

variable {σ ε α β : Type}

def bind (first : Program σ ε α) (rest : α → Program σ ε β) : Program σ ε β :=
  match first with
  | done (.ok a) => rest a
  | done (.error e) => done (.error e)
  | step action next => step action fun s => (next s).bind rest

instance : Monad (Program σ ε) where
  pure a := done (.ok a)
  bind := bind

def lift (result : Except ε α) : Program σ ε α :=
  done result

def run : Program σ ε α → σ → σ
  | done _, s => s
  | step action next, s => (next s).run (action s)

def IsDone (program : Program σ ε α) : Prop :=
  ∃ result, program = done result

def exec : Program σ ε α → σ → Except ε α × σ
  | done result, s => (result, s)
  | step action next, s => (next s).exec (action s)

def tryCatch (body : Program σ ε α) (handle : ε → Program σ ε α) : Program σ ε α :=
  match body with
  | done (.ok a) => done (.ok a)
  | done (.error e) => handle e
  | step action next => step action fun s => (next s).tryCatch handle

theorem exec_bind (first : Program σ ε α) (rest : α → Program σ ε β) (s : σ) :
    (first >>= rest).exec s = match first.exec s with
      | (.ok a, s') => (rest a).exec s'
      | (.error e, s') => (.error e, s') := by
  change (first.bind rest).exec s = _
  induction first generalizing s with
  | done result => cases result <;> rfl
  | step action next ih => exact ih s (action s)

theorem exec_tryCatch (body : Program σ ε α) (handle : ε → Program σ ε α) (s : σ) :
    (body.tryCatch handle).exec s = match body.exec s with
      | (.ok a, s') => (.ok a, s')
      | (.error e, s') => (handle e).exec s' := by
  induction body generalizing s with
  | done result => cases result <;> rfl
  | step action next ih => exact ih s (action s)

end Program

/-! ## Two at a time -/

inductive Side
  | left
  | right
  deriving DecidableEq, Repr

def Side.other : Side → Side
  | left => right
  | right => left

@[simp] theorem Side.other_other (side : Side) : side.other.other = side := by
  cases side <;> rfl

theorem Side.other_ne (side : Side) : side.other ≠ side := by
  cases side <;> exact Side.noConfusion

theorem Side.eq_or_eq (side side' : Side) : side' = side ∨ side' = side.other := by
  cases side <;> cases side' <;> simp [Side.other]

structure Two (σ ε α : Type) where
  programs : Side → Program σ ε α
  state : σ

namespace Two

variable {σ ε α : Type}

def advance (two : Two σ ε α) (side : Side) : Two σ ε α :=
  match two.programs side with
  | .done _ => two
  | .step action next =>
    ⟨Function.update two.programs side (next two.state), action two.state⟩

def Finished (two : Two σ ε α) : Prop :=
  ∀ side, (two.programs side).IsDone

def Interleaves (programs : Side → Program σ ε α) (s : σ) (order : List Side) (final : σ) : Prop :=
  Finished (Runs.run advance ⟨programs, s⟩ order) ∧
    (Runs.run advance ⟨programs, s⟩ order).state = final

def Serial (programs : Side → Program σ ε α) (s final : σ) : Prop :=
  ∃ first : Side, final = (programs first.other).run ((programs first).run s)

theorem advance_done {two : Two σ ε α} {side : Side} {result : Except ε α}
    (done : two.programs side = .done result) : two.advance side = two := by
  rw [advance, done]

theorem advance_step {two : Two σ ε α} {side : Side} {action : σ → σ}
    {next : σ → Program σ ε α} (step : two.programs side = .step action next) :
    two.advance side = ⟨Function.update two.programs side (next two.state), action two.state⟩ := by
  rw [advance, step]

theorem run_beside_done {two : Two σ ε α} {side : Side} {order : List Side}
    (done : (two.programs side.other).IsDone) (finished : Finished (Runs.run advance two order)) :
    (Runs.run advance two order).state = (two.programs side).run two.state := by
  induction order generalizing two with
  | nil =>
    obtain ⟨result, ended⟩ := finished side
    rw [Runs.run_nil] at ended ⊢
    rw [ended]
    rfl
  | cons next order ih =>
    obtain ⟨result, ended⟩ := done
    rw [Runs.run_cons] at finished ⊢
    rcases Side.eq_or_eq side next with rfl | rfl
    · cases program : two.programs next with
      | done result' =>
        rw [advance_done program] at finished ⊢
        rw [ih ⟨result, ended⟩ finished, program]
      | step action rest =>
        rw [advance_step program] at finished ⊢
        have still : (Function.update two.programs next (rest two.state) next.other).IsDone := by
          rw [Function.update_of_ne next.other_ne]
          exact ⟨result, ended⟩
        rw [ih still finished]
        dsimp only
        rw [Function.update_self]
        rfl
    · rw [advance_done ended] at finished ⊢
      exact ih ⟨result, ended⟩ finished

section Interleaves

variable {programs : Side → Program σ ε α} {s final : σ} {order : List Side} {side : Side}

theorem interleaves_cons_iff {action : σ → σ} {next : σ → Program σ ε α}
    (step : programs side = .step action next) :
    Interleaves programs s (side :: order) final ↔
      Interleaves (Function.update programs side (next s)) (action s) order final := by
  rw [Interleaves, Interleaves, Runs.run_cons, advance_step step]

theorem Interleaves.step {action : σ → σ} {next : σ → Program σ ε α}
    (interleaves : Interleaves programs s (side :: order) final)
    (step : programs side = .step action next) :
    Interleaves (Function.update programs side (next s)) (action s) order final :=
  (interleaves_cons_iff step).mp interleaves

theorem Interleaves.beside_done (interleaves : Interleaves programs s order final)
    (done : (programs side.other).IsDone) : final = (programs side).run s :=
  interleaves.2.symm.trans (run_beside_done done interleaves.1)

theorem Interleaves.not_unfinished {action : σ → σ} {next : σ → Program σ ε α}
    (interleaves : Interleaves programs s [] final) : programs side ≠ .step action next := by
  intro step
  obtain ⟨result, ended⟩ := interleaves.1 side
  cases ended.symm.trans step

end Interleaves

end Two

/-! ## Documents -/

structure Document (σ δ : Type) where
  Valid : δ → Prop
  read : σ → Option δ
  write : δ → σ → σ
  valid_read : ∀ {d s}, read s = some d → Valid d
  read_write : ∀ {d}, Valid d → ∀ s, read (write d s) = some d
  write_write : ∀ {d}, Valid d → ∀ d' s, write d (write d' s) = write d s

section Documents

open Two

variable {σ δ ε α κ E : Type} (document : Document σ δ)

inductive Writes : Option δ → Program σ ε α → Prop
  | nothing {result} : Writes none (.done result)
  | write {d next} (ends : ∀ s, (next s).IsDone) :
      Writes (some d) (.step (document.write d) next)

/-- The program reads the document once, and then writes what `update` makes of it, if anything. -/
inductive Updates (update : δ → Option δ) : Program σ ε α → Prop
  | refuses {result} (never : ∀ d, update d = none) : Updates update (.done result)
  | reads {next} (writes : ∀ s, Writes document (document.read s >>= update) (next s)) :
      Updates update (.step id next)

structure Touches (entry : δ → κ → E) (keys : Set κ) (update : δ → Option δ) : Prop where
  valid : ∀ {d new}, document.Valid d → update d = some new → document.Valid new
  frame : ∀ {d new}, update d = some new → ∀ k ∉ keys, entry new k = entry d k
  depends : ∀ {d d' new}, (∀ k ∈ keys, entry d' k = entry d k) → update d = some new →
    ∃ new', update d' = some new' ∧ ∀ k ∈ keys, entry new' k = entry new k
  unchanged : ∀ {d new}, update d = some new → (∀ k ∈ keys, entry new k = entry d k) → new = d

/-- Both programs read the document before either writes it, both go on to write it, and what the
first of them writes is not what was there. -/
def Loses (update : Side → δ → Option δ) (s : σ) (order : List Side) : Prop :=
  ∃ side first rest d new new', order = side :: side.other :: first :: rest ∧
    document.read s = some d ∧ update first d = some new ∧ update first.other d = some new' ∧
    new ≠ d

variable {document} {update : Side → δ → Option δ} {programs : Side → Program σ ε α}
  {s final : σ} {order : List Side}

theorem Writes.of_none {program : Program σ ε α} (writes : Writes document none program) :
    program.IsDone := by
  cases writes
  exact ⟨_, rfl⟩

theorem Writes.of_some {d : δ} {program : Program σ ε α} (writes : Writes document (some d) program) :
    ∃ next, program = .step (document.write d) next ∧ ∀ s, (next s).IsDone := by
  cases writes with
  | write ends => exact ⟨_, rfl, ends⟩

theorem run_of_isDone {program : Program σ ε α} (done : program.IsDone) (s : σ) :
    program.run s = s := by
  obtain ⟨result, rfl⟩ := done
  rfl

theorem run_of_updates {update : δ → Option δ} {program : Program σ ε α}
    (updates : Updates document update program) (s : σ) :
    program.run s = match document.read s >>= update with
      | none => s
      | some new => document.write new s := by
  cases updates with
  | refuses never =>
    have nothing : document.read s >>= update = none := by
      cases document.read s with
      | none => rfl
      | some d => exact never d
    rw [nothing]
    rfl
  | reads writes =>
    have written := writes s
    rw [Program.run]
    cases plan : document.read s >>= update with
    | none =>
      rw [plan] at written
      exact run_of_isDone written.of_none s
    | some new =>
      rw [plan] at written
      obtain ⟨next, step, ends⟩ := written.of_some
      rw [step]
      exact run_of_isDone (ends s) _

theorem overwritten {new : Side → δ} (valid : ∀ side, document.Valid (new side))
    (holds : ∀ side, ∃ next, programs side = .step (document.write (new side)) next ∧
      ∀ s, (next s).IsDone)
    (interleaves : Interleaves programs s order final) :
    ∃ first rest, order = first :: rest ∧ final = document.write (new first.other) s := by
  rcases order with _ | ⟨first, rest⟩
  · obtain ⟨next, step, _⟩ := holds .left
    exact absurd step interleaves.not_unfinished
  refine ⟨first, rest, rfl, ?_⟩
  obtain ⟨next, step, ends⟩ := holds first
  obtain ⟨next', step', ends'⟩ := holds first.other
  have interleaves := interleaves.step step
  have ended : (Function.update programs first (next s) first.other.other).IsDone := by
    rw [Side.other_other, Function.update_self]
    exact ends s
  rw [interleaves.beside_done ended, Function.update_of_ne first.other_ne, step', Program.run,
    run_of_isDone (ends' _), document.write_write (valid first.other)]

theorem serial_or_overlap_of_read {side : Side} {next : σ → Program σ ε α} {d : δ}
    (updates : ∀ side, Updates document (update side) (programs side))
    (reads : programs side = .step id next) (plan : document.read s >>= update side = some d)
    (interleaves : Interleaves (Function.update programs side (next s)) s (side.other :: order)
      final) :
    Serial programs s final ∨
      ∃ first rest, ∃ new : Side → δ, order = first :: rest ∧
        ∀ side, document.read s >>= update side = some (new side) := by
  have theirs := updates side.other
  generalize program : programs side.other = p at theirs
  have before : (programs side.other).run s = s →
      final = (programs side).run s → Serial programs s final := by
    intro same result
    refine ⟨side.other, ?_⟩
    rw [same, Side.other_other, result]
  have unchanged : Function.update programs side (next s) side.other = p := by
    rw [Function.update_of_ne side.other_ne, program]
  have mine : Function.update programs side (next s) side = next s := Function.update_self ..
  have alone : (programs side).run s = (next s).run s := by
    rw [reads]
    rfl
  cases theirs with
  | refuses =>
    refine .inl (before (run_of_isDone ⟨_, program⟩ s) ?_)
    rw [interleaves.beside_done ⟨_, unchanged⟩, mine, alone]
  | reads writes =>
    rename_i later
    have interleaves := interleaves.step unchanged
    have written := writes s
    cases plan' : document.read s >>= update side.other with
    | none =>
      rw [plan'] at written
      refine .inl (before ?_ ?_)
      · rw [program, Program.run]
        exact run_of_isDone written.of_none s
      · have ended : (Function.update (Function.update programs side (next s)) side.other
            (later s) side.other).IsDone := by
          rw [Function.update_self]
          exact written.of_none
        rw [interleaves.beside_done ended, Function.update_of_ne side.other_ne.symm, mine, alone]
        rfl
    | some d' =>
      rw [plan'] at written
      obtain ⟨later', step', _⟩ := written.of_some
      have plans : ∀ turn, document.read s >>= update turn =
          some (if turn = side then d else d') := by
        intro turn
        rcases Side.eq_or_eq side turn with rfl | rfl
        · rw [plan, if_pos rfl]
        · rw [plan', if_neg side.other_ne]
      have held : Function.update (Function.update programs side (next s)) side.other
          (later s) side.other = _ := (Function.update_self ..).trans step'
      rcases order with _ | ⟨first, rest⟩
      · exact absurd held interleaves.not_unfinished
      · exact .inr ⟨first, rest, _, rfl, plans⟩

theorem serial_or_overlap (updates : ∀ side, Updates document (update side) (programs side))
    (interleaves : Interleaves programs s order final) :
    Serial programs s final ∨
      ∃ side first rest, ∃ new : Side → δ, order = side :: side.other :: first :: rest ∧
        ∀ side, document.read s >>= update side = some (new side) := by
  rcases order with _ | ⟨side, order⟩
  · have done : ∀ side, (programs side).IsDone := interleaves.1
    refine .inl ⟨.left, ?_⟩
    rw [run_of_isDone (done _), run_of_isDone (done _)]
    exact interleaves.2.symm
  have mine := updates side
  have after : ∀ s', (programs side).run s = s' → final = (programs side.other).run s' →
      Serial programs s final := by
    rintro s' rfl result
    exact ⟨side, result⟩
  generalize program : programs side = p at mine
  cases mine with
  | refuses =>
    refine .inl (after s (run_of_isDone ⟨_, program⟩ s) ?_)
    exact interleaves.beside_done ⟨_, by rw [Side.other_other, program]⟩
  | reads writes =>
    rename_i next
    have interleaves := interleaves.step program
    have written := writes s
    have alone : (programs side).run s = (next s).run s := by
      rw [program]
      rfl
    cases plan : document.read s >>= update side with
    | none =>
      rw [plan] at written
      have ended : (Function.update programs side (next s) side.other.other).IsDone := by
        rw [Side.other_other, Function.update_self]
        exact written.of_none
      refine .inl (after s (alone.trans (run_of_isDone written.of_none s)) ?_)
      rw [interleaves.beside_done ended, Function.update_of_ne side.other_ne]
      rfl
    | some d =>
      rw [plan] at written
      obtain ⟨next', step, ends⟩ := written.of_some
      rcases order with _ | ⟨turn, order⟩
      · exact absurd (Function.update_self side (next s) programs ▸ step)
          interleaves.not_unfinished
      rcases Side.eq_or_eq side turn with rfl | rfl
      · have held : Function.update programs turn (next s) turn = _ :=
          (Function.update_self ..).trans step
        have interleaves := interleaves.step held
        have ended : (Function.update (Function.update programs turn (next s)) turn (next' s)
            turn.other.other).IsDone := by
          rw [Side.other_other, Function.update_self]
          exact ends s
        refine .inl (after (document.write d s) ?_ ?_)
        · rw [alone, step, Program.run, run_of_isDone (ends s)]
        · rw [interleaves.beside_done ended, Function.update_of_ne turn.other_ne,
            Function.update_of_ne turn.other_ne]
          rfl
      · rcases serial_or_overlap_of_read updates program plan interleaves with
          serial | ⟨first, rest, new, rfl, plans⟩
        · exact .inl serial
        · exact .inr ⟨side, first, rest, new, rfl, plans⟩

theorem mem_bind {update : δ → Option δ} {d new : δ} (found : document.read s = some d)
    (updated : update d = some new) : document.read s >>= update = some new := by
  rw [found]
  exact updated

theorem valid_of_plan {entry : δ → κ → E} {keys : Set κ} {update : δ → Option δ} {new : δ}
    (touches : Touches document entry keys update)
    (plan : document.read s >>= update = some new) : document.Valid new := by
  cases found : document.read s with
  | none =>
    rw [found] at plan
    cases plan
  | some d =>
    rw [found] at plan
    exact touches.valid (document.valid_read found) plan

theorem run_of_found {update : δ → Option δ} {program : Program σ ε α} {d new : δ}
    (updates : Updates document update program) (found : document.read s = some d)
    (updated : update d = some new) : program.run s = document.write new s := by
  rw [run_of_updates updates, mem_bind found updated]

theorem Updates.of_some {update : δ → Option δ} {program : Program σ ε α} {new : δ}
    (updates : Updates document update program) (plan : document.read s >>= update = some new) :
    ∃ next next', program = .step id next ∧ next s = .step (document.write new) next' ∧
      ∀ s, (next' s).IsDone := by
  cases updates with
  | refuses never =>
    cases found : document.read s with
    | none =>
      rw [found] at plan
      cases plan
    | some d =>
      rw [found] at plan
      cases (never d).symm.trans plan
  | reads writes =>
    rename_i next
    have written := writes s
    rw [plan] at written
    obtain ⟨next', step, ends⟩ := written.of_some
    exact ⟨next, next', rfl, step, ends⟩

theorem overwritten_of_overlap {side first : Side} {rest : List Side} {new : Side → δ}
    (updates : ∀ side, Updates document (update side) (programs side))
    (plans : ∀ side, document.read s >>= update side = some (new side))
    (valid : ∀ side, document.Valid (new side))
    (interleaves : Interleaves programs s (side :: side.other :: first :: rest) final) :
    final = document.write (new first.other) s := by
  obtain ⟨next, held, reads, step, ends⟩ := (updates side).of_some (plans side)
  obtain ⟨later, held', reads', step', ends'⟩ := (updates side.other).of_some (plans side.other)
  have interleaves := interleaves.step reads
  have waiting : Function.update programs side (next s) side.other = .step id later := by
    rw [Function.update_of_ne side.other_ne, reads']
  have interleaves := interleaves.step waiting
  have holds : ∀ turn, ∃ next₁,
      Function.update (Function.update programs side (next s)) side.other (later s) turn =
        .step (document.write (new turn)) next₁ ∧ ∀ s, (next₁ s).IsDone := by
    intro turn
    rcases Side.eq_or_eq side turn with rfl | rfl
    · rw [Function.update_of_ne turn.other_ne.symm, Function.update_self]
      exact ⟨held, step, ends⟩
    · rw [Function.update_self]
      exact ⟨held', step', ends'⟩
  obtain ⟨_, _, split, result⟩ := overwritten valid holds interleaves
  cases split
  exact result

theorem interleaves_overlap (side : Side) {new : Side → δ}
    (updates : ∀ side, Updates document (update side) (programs side))
    (plans : ∀ side, document.read s >>= update side = some (new side)) :
    ∃ final, Interleaves programs s [side, side.other, side, side.other] final := by
  obtain ⟨next, held, reads, step, ends⟩ := (updates side).of_some (plans side)
  obtain ⟨later, held', reads', step', ends'⟩ := (updates side.other).of_some (plans side.other)
  have read : Function.update programs side (next s) side.other = .step id later := by
    rw [Function.update_of_ne side.other_ne, reads']
  have write : Function.update (Function.update programs side (next s)) side.other (later s) side =
      .step (document.write (new side)) held := by
    rw [Function.update_of_ne side.other_ne.symm, Function.update_self, step]
  have write' : Function.update (Function.update (Function.update programs side (next s)) side.other
      (later s)) side (held s) side.other = .step (document.write (new side.other)) held' := by
    rw [Function.update_of_ne side.other_ne, Function.update_self, step']
  refine ⟨document.write (new side.other) (document.write (new side) s), ?_⟩
  apply (interleaves_cons_iff reads).mpr
  apply (interleaves_cons_iff read).mpr
  apply (interleaves_cons_iff write).mpr
  apply (interleaves_cons_iff write').mpr
  refine ⟨?_, rfl⟩
  intro turn
  rw [Runs.run_nil]
  dsimp only
  rcases Side.eq_or_eq side turn with rfl | rfl
  · rw [Function.update_of_ne turn.other_ne.symm, Function.update_self]
    exact ends _
  · rw [Function.update_self]
    exact ends' _

theorem apart_of_left {keys : Side → Set κ} (apart : ∀ k ∈ keys .left, k ∉ keys .right) :
    ∀ side, ∀ k ∈ keys side, k ∉ keys side.other := by
  intro side k member
  cases side with
  | left => exact apart k member
  | right => exact fun other => apart k other member

theorem serial_iff {entry : δ → κ → E} {keys : Side → Set κ}
    (updates : ∀ side, Updates document (update side) (programs side))
    (touches : ∀ side, Touches document entry (keys side) (update side))
    (apart : ∀ side, ∀ k ∈ keys side, k ∉ keys side.other)
    (interleaves : Interleaves programs s order final) :
    Serial programs s final ↔ ¬ Loses document update s order := by
  constructor
  · rintro ⟨earlier, result⟩ ⟨side, first, rest, d, new, new', rfl, found, updated, updated', changed⟩
    have plans : ∀ turn, document.read s >>= update turn =
        some (if turn = first then new else new') := by
      intro turn
      rcases Side.eq_or_eq first turn with rfl | rfl
      · rw [mem_bind found updated, if_pos rfl]
      · rw [mem_bind found updated', if_neg first.other_ne]
    have final_eq : final = document.write new' s := by
      rw [overwritten_of_overlap updates plans (fun turn => valid_of_plan (touches turn) (plans turn))
        interleaves, if_neg first.other_ne]
    have valid := document.valid_read found
    have written := (touches first).valid valid updated
    have written' := (touches first.other).valid valid updated'
    have final_read : document.read final = some new' := by
      rw [final_eq, document.read_write written']
    have untouched : ∀ k ∈ keys first, entry new' k = entry d k := by
      intro k member
      exact (touches first.other).frame updated' k (apart first k member)
    rcases Side.eq_or_eq first earlier with rfl | rfl
    · have agree : ∀ k ∈ keys earlier.other, entry new k = entry d k := by
        intro k member
        have other := apart earlier.other k member
        rw [Side.other_other] at other
        exact (touches earlier).frame updated k other
      obtain ⟨last, updated'', _⟩ := (touches earlier.other).depends agree updated'
      rw [run_of_found (updates earlier) found updated,
        run_of_found (updates earlier.other) (document.read_write written s) updated''] at result
      have last_valid := (touches earlier.other).valid written updated''
      rw [result, document.read_write last_valid, Option.some.injEq] at final_read
      subst final_read
      apply changed
      apply (touches earlier).unchanged updated
      intro k member
      rw [← untouched k member]
      exact ((touches earlier.other).frame updated'' k (apart earlier k member)).symm
    · obtain ⟨last, updated'', kept⟩ := (touches first).depends untouched updated
      rw [Side.other_other, run_of_found (updates first.other) found updated',
        run_of_found (updates first) (document.read_write written' s) updated''] at result
      have last_valid := (touches first).valid written' updated''
      rw [result, document.read_write last_valid, Option.some.injEq] at final_read
      subst final_read
      apply changed
      apply (touches first).unchanged updated
      intro k member
      rw [← kept k member, untouched k member]
  · intro kept
    rcases serial_or_overlap updates interleaves with
      serial | ⟨side, first, rest, new, rfl, plans⟩
    · exact serial
    have valid := fun turn => valid_of_plan (touches turn) (plans turn)
    have result := overwritten_of_overlap updates plans valid interleaves
    cases found : document.read s with
    | none =>
      have plan := plans first
      rw [found] at plan
      cases plan
    | some d =>
      simp only [found] at plans
      have same : new first = d := by
        by_contra changed
        exact kept ⟨side, first, rest, d, new first, new first.other, rfl, found, plans first,
          plans first.other, changed⟩
      refine ⟨first, ?_⟩
      rw [run_of_found (updates first) found (plans first), same,
        run_of_found (updates first.other) (document.read_write (document.valid_read found) s) (plans first.other),
        document.write_write (valid first.other)]
      exact result

end Documents

end Atomic
