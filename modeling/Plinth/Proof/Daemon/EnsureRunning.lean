import Plinth.Model.Daemon

/-!
# Temporarily run units

A context that has to start a unit disables it at its end, whether or not it was enabled before. So
after any nesting of contexts a unit can only have been turned off.
-/

namespace Plinth.Daemon

variable {found : String → Bool} {body : Body} {s : System} {unit : String}

/-! ## What is turned off -/

theorem turnedOff_nil (s : System) : turnedOff found [] s = s := by
  simp [turnedOff]

theorem turnedOff_append (units others : List String) (s : System) :
    turnedOff found (units ++ others) s = turnedOff found others (turnedOff found units s) := by
  rw [turnedOff, turnedOff, System.mk.injEq]
  refine ⟨?_, ?_, rfl⟩
  · funext unit
    rw [turnedOff, List.contains_append, Bool.and_or_distrib_left, Bool.not_or, Bool.and_assoc]
  · funext unit
    rw [turnedOff, List.any_append, Bool.and_or_distrib_left, Bool.not_or, Bool.and_assoc]

theorem mem_stopped (name : String) : name ∈ stopped name := by
  rw [stopped]
  split
  · exact List.mem_cons_self
  · exact List.mem_singleton_self name

theorem foldl_stopUnit (names : List String) (s : System) :
    names.foldl (stopUnit found) s = { s with
      running := fun unit => s.running unit && !(found unit && names.contains unit) } := by
  induction names generalizing s with
  | nil => simp
  | cons name names ih =>
    rw [List.foldl_cons, ih, stopUnit]
    split
    · rename_i exists_
      rw [System.mk.injEq]
      refine ⟨rfl, ?_, rfl⟩
      funext unit
      by_cases same : unit = name
      · simp [same, exists_]
      · simp [same]
    · rename_i missing
      rw [System.mk.injEq]
      refine ⟨rfl, ?_, rfl⟩
      funext unit
      by_cases same : unit = name
      · simp [same, missing]
      · simp [same]

theorem disableUnit_eq (name : String) (s : System) :
    disableUnit found name s = turnedOff found [name] s := by
  rw [disableUnit, foldl_stopUnit, turnedOff, System.mk.injEq]
  refine ⟨?_, ?_, ?_⟩
  · funext unit
    split
    · rename_i exists_
      by_cases same : unit = name
      · simp [same, exists_]
      · simp [same]
    · rename_i missing
      by_cases same : unit = name
      · simp [same, missing]
      · simp [same]
  · funext unit
    split <;> simp
  · split <;> rfl

theorem turnedOff_enableUnit (name : String) (units : List String) (s : System) :
    turnedOff found [name] (turnedOff found units (enableUnit found name s)) =
      turnedOff found (name :: units) s := by
  have same : turnedOff found [name] (enableUnit found name s) = turnedOff found [name] s := by
    rw [enableUnit]
    split
    · rename_i exists_
      rw [turnedOff, turnedOff, serviceEnable, System.mk.injEq]
      refine ⟨?_, ?_, rfl⟩
      · funext unit
        by_cases same : unit = name
        · simp [same, exists_]
        · simp [same]
      · funext unit
        by_cases same : unit = name
        · simp [same, exists_, mem_stopped]
        · simp [same]
    · rfl
  have swap (s : System) : turnedOff found [name] (turnedOff found units s) =
      turnedOff found units (turnedOff found [name] s) := by
    rw [← turnedOff_append, ← turnedOff_append, turnedOff, turnedOff, System.mk.injEq]
    refine ⟨?_, ?_, rfl⟩
    · funext unit
      rw [List.contains_append, List.contains_append, Bool.or_comm]
    · funext unit
      rw [List.any_append, List.any_append, Bool.or_comm]
  rw [swap, same, ← turnedOff_append, List.singleton_append]

/-! ## What a body does -/

theorem Body.run_fst (found : String → Bool) (body : Body) (s : System) :
    (body.run found s).1 = body.completes := by
  induction body generalizing s with
  | returns => rfl
  | raises => rfl
  | andThen first second first_ih second_ih =>
    rw [Body.run, Body.completes, ← first_ih s]
    rcases outcome : first.run found s with ⟨returned, s'⟩
    cases returned with
    | false => rfl
    | true => exact second_ih s'
  | orElse first second first_ih second_ih =>
    rw [Body.run, Body.completes, ← first_ih s]
    rcases outcome : first.run found s with ⟨returned, s'⟩
    cases returned with
    | false => exact second_ih s'
    | true => rfl
  | within context body ih =>
    rw [Body.run, Body.completes]
    split
    · exact ih s
    · split
      · exact ih s
      · exact ih _

theorem Body.run_snd (found : String → Bool) (body : Body) (s : System) :
    (body.run found s).2 = turnedOff found (body.started found s) s := by
  induction body generalizing s with
  | returns => exact (turnedOff_nil s).symm
  | raises => exact (turnedOff_nil s).symm
  | andThen first second first_ih second_ih =>
    have completes := first.run_fst found s
    have after := first_ih s
    rw [Body.run, Body.started, turnedOff_append, ← after, ← completes]
    rcases outcome : first.run found s with ⟨returned, s'⟩
    cases returned with
    | false => exact (turnedOff_nil s').symm
    | true => exact second_ih s'
  | orElse first second first_ih second_ih =>
    have completes := first.run_fst found s
    have after := first_ih s
    rw [Body.run, Body.started, turnedOff_append, ← after, ← completes]
    rcases outcome : first.run found s with ⟨returned, s'⟩
    cases returned with
    | false => exact second_ih s'
    | true => exact (turnedOff_nil s').symm
  | within context body ih =>
    rw [Body.run, Body.started]
    split
    · exact ih s
    · split
      · exact ih s
      · dsimp only
        rw [ih, disableUnit_eq, turnedOff_enableUnit]

theorem enabled_turnedOff (units : List String) (s : System) (unit : String) :
    (turnedOff found units s).enabled unit =
      (s.enabled unit && !(found unit && units.contains unit)) :=
  rfl

theorem running_turnedOff (units : List String) (s : System) (unit : String) :
    (turnedOff found units s).running unit =
      (s.running unit && !(found unit && units.any fun name => (stopped name).contains unit)) :=
  rfl

theorem running_enableUnit (name : String) (s : System) (unit : String) :
    (enableUnit found name s).running unit =
      (s.running unit || found name && decide (unit = name)) := by
  rw [enableUnit]
  split
  · rename_i exists_
    rw [serviceEnable, exists_]
    by_cases same : unit = name
    · simp [same]
    · simp [same]
  · rename_i missing
    rw [eq_false_of_ne_true missing, Bool.false_and, Bool.or_false]

theorem running_of_turnedOff {units : List String} (on : (turnedOff found units s).running unit) :
    s.running unit = true := by
  rw [running_turnedOff, Bool.and_eq_true] at on
  exact on.1

theorem Body.started_of_entered (entered : unit ∈ body.entered found) (s : System) :
    unit ∈ body.started found s ∨ s.running unit = true := by
  induction body generalizing s with
  | returns => cases entered
  | raises => cases entered
  | andThen first second first_ih second_ih =>
    rw [Body.entered, List.mem_append] at entered
    rw [Body.started, List.mem_append]
    rcases entered with entered | entered
    · exact (first_ih entered s).imp_left .inl
    · split at entered
      · rename_i completes
        rw [if_pos completes]
        rcases second_ih entered (first.run found s).2 with started | on
        · exact .inl (.inr started)
        · rw [first.run_snd] at on
          exact .inr (running_of_turnedOff on)
      · cases entered
  | orElse first second first_ih second_ih =>
    rw [Body.entered, List.mem_append] at entered
    rw [Body.started, List.mem_append]
    rcases entered with entered | entered
    · exact (first_ih entered s).imp_left .inl
    · split at entered
      · cases entered
      · rename_i fails
        rw [if_neg fails]
        rcases second_ih entered (first.run found s).2 with started | on
        · exact .inl (.inr started)
        · rw [first.run_snd] at on
          exact .inr (running_of_turnedOff on)
  | within context body ih =>
    rw [Body.entered] at entered
    rw [Body.started]
    split
    · rename_i skipped
      rw [if_pos skipped] at entered
      exact ih entered s
    · rename_i skipped
      rw [if_neg skipped, List.mem_cons] at entered
      split
      · rename_i on
        rcases entered with rfl | entered
        · exact .inr on
        · exact ih entered s
      · rcases entered with rfl | entered
        · exact .inl List.mem_cons_self
        · rcases ih entered (enableUnit found context.unit s) with started | on
          · exact .inl (List.mem_cons_of_mem _ started)
          · rw [running_enableUnit, Bool.or_eq_true, Bool.and_eq_true, decide_eq_true_eq] at on
            rcases on with on | ⟨-, rfl⟩
            · exact .inr on
            · exact .inl List.mem_cons_self

def Spares (found kept : String → Bool) (units : List String) : Prop :=
  ∀ unit ∈ units, kept unit = false →
    ∀ other ∈ stopped unit, found other = true → kept other = false

theorem running_turnedOff_of_kept {kept : String → Bool} {units : List String}
    (spares : Spares found kept units) (off : ∀ unit ∈ units, kept unit = false)
    (on : ∀ unit, kept unit = true → s.running unit = true) (isKept : kept unit = true) :
    (turnedOff found units s).running unit = true := by
  rw [running_turnedOff, on unit isKept, Bool.true_and, Bool.not_eq_true', Bool.and_eq_false_iff,
    or_iff_not_imp_left, List.any_eq_false]
  intro exists_ name member stops
  have lost := spares name member (off name member) unit (List.contains_iff_mem.mp stops)
    (eq_true_of_ne_false exists_)
  rw [isKept] at lost
  cases lost

theorem Spares.of_subset {kept : String → Bool} {units others : List String}
    (spares : Spares found kept others) (sub : ∀ unit ∈ units, unit ∈ others) :
    Spares found kept units :=
  fun unit member => spares unit (sub unit member)

theorem Body.started_spares {kept : String → Bool} (spares : Spares found kept (body.entered found))
    (on : ∀ unit, kept unit = true → s.running unit = true) :
    ∀ unit ∈ body.started found s, unit ∈ body.entered found ∧ kept unit = false := by
  induction body generalizing s with
  | returns => exact nofun
  | raises => exact nofun
  | andThen first second first_ih second_ih =>
    have inFirst := first_ih (spares.of_subset fun _ => List.mem_append_left _) on
    intro unit started
    rw [Body.started, List.mem_append] at started
    rw [Body.entered, List.mem_append]
    rcases started with started | started
    · exact (inFirst unit started).imp_left .inl
    · split at started
      · rename_i completes
        rw [Body.entered, if_pos completes] at spares
        rw [if_pos completes]
        have later : ∀ unit, kept unit = true → (first.run found s).2.running unit = true := by
          intro unit isKept
          rw [first.run_snd]
          exact running_turnedOff_of_kept (spares.of_subset fun unit member =>
            List.mem_append_left _ (inFirst unit member).1)
            (fun unit member => (inFirst unit member).2) on isKept
        exact (second_ih (spares.of_subset fun _ => List.mem_append_right _) later unit
          started).imp_left .inr
      · cases started
  | orElse first second first_ih second_ih =>
    have inFirst := first_ih (spares.of_subset fun _ => List.mem_append_left _) on
    intro unit started
    rw [Body.started, List.mem_append] at started
    rw [Body.entered, List.mem_append]
    rcases started with started | started
    · exact (inFirst unit started).imp_left .inl
    · split at started
      · cases started
      · rename_i fails
        rw [Body.entered, if_neg fails] at spares
        rw [if_neg fails]
        have later : ∀ unit, kept unit = true → (first.run found s).2.running unit = true := by
          intro unit isKept
          rw [first.run_snd]
          exact running_turnedOff_of_kept (spares.of_subset fun unit member =>
            List.mem_append_left _ (inFirst unit member).1)
            (fun unit member => (inFirst unit member).2) on isKept
        exact (second_ih (spares.of_subset fun _ => List.mem_append_right _) later unit
          started).imp_left .inr
  | within context body ih =>
    rw [Body.entered] at spares ⊢
    rw [Body.started]
    split
    · rename_i skipped
      rw [if_pos skipped] at spares
      exact ih spares on
    · rename_i skipped
      rw [if_neg skipped] at spares
      have inside := spares.of_subset fun _ => List.mem_cons_of_mem context.unit
      split
      · intro unit started
        exact (ih inside on unit started).imp_left (List.mem_cons_of_mem _)
      · rename_i off
        intro unit started
        rcases List.mem_cons.mp started with rfl | started
        · exact ⟨List.mem_cons_self, eq_false_of_ne_true fun isKept => off (on _ isKept)⟩
        · have later : ∀ unit, kept unit = true →
              (enableUnit found context.unit s).running unit = true := by
            intro unit isKept
            rw [running_enableUnit, on unit isKept, Bool.true_or]
          exact (ih inside later unit started).imp_left (List.mem_cons_of_mem _)

/-! ## When the state is restored -/

def Restores (found : String → Bool) (body : Body) (s : System) : Prop :=
  (body.run found s).2.enabled = s.enabled ∧ (body.run found s).2.running = s.running

end Plinth.Daemon
