import Plinth.Model.Gitweb.Access

/-! # When access follows the repositories -/

namespace Plinth.GitwebAccess

open Runs

/-! ## The condition on steps -/

namespace Process

def mid : Process → Bool
  | .access (.list .update) => false
  | .access _ => true
  | .disableApp => true
  | _ => false

def changes : Process → Bool
  | .fill _ _ | .prepareStatus _ | .clone _ | .access _ => false
  | _ => true

def isAccess : Process → Bool
  | .access _ => true
  | _ => false

def names : Process → List String
  | .create name _ | .fill name _ | .mark name | .prepare name _ | .prepareMark name
  | .prepareStatus name | .clone name | .unlink name _ | .rmdir name _ | .setAccess name _ => [name]
  | .rename name newName _ => [name, newName]
  | .access _ | .enableApp | .disableAuth | .disableApp => []

/-- What a step may not meet: a name that was taken meanwhile, an error that the clean-up does not
know, a removal that stops half-way or takes what was listed as public, and a repository without
its marker. -/
def sound (s : System) (outcome : Outcome) : Process → Bool
  | .create name _ => outcome ≠ .done || !s.has name
  | .fill _ _ => outcome ≠ .error false
  | .unlink _ thenUpdate => outcome = .done || thenUpdate
  | .rmdir name thenUpdate => outcome = .done && (thenUpdate || match s.repos.get? name with
      | none => true
      | some repo => !s.listed name || repo.requestedPrivate)
  | .access (.look (entry :: _) _ _) => match s.repos.get? entry.1 with
      | none => true
      | some repo => !repo.requestedPrivate || repo.isPrivate
  | _ => true

def allowed (s : System) (others : List Process) (outcome : Outcome) (process : Process) : Bool :=
  (!process.changes || others.all fun other => !other.mid) &&
    (others.all fun other => process.names.all fun name => !other.names.contains name) &&
    (!process.isAccess || others.all fun other => other ≠ .disableApp) &&
    process.sound s outcome

end Process

def Allowed (s : System) : Event → Prop
  | .request _ => True
  | .run i outcome => match s.running[i]? with
      | none => True
      | some process => process.allowed s (s.others i) outcome = true

/-! ## The invariant -/

namespace Process

def completes (name : String) : Process → Bool
  | .fill name' isPrivate => name' = name && isPrivate
  | .mark name' | .prepareMark name' | .rmdir name' _ => name' = name
  | .unlink name' thenUpdate => name' = name && !thenUpdate
  | _ => false

def updates (name : String) : Process → Bool
  | .fill name' _ | .mark name' | .prepareMark name' | .prepareStatus name' | .unlink name' _
  | .rmdir name' _ => name' = name
  | .access (.list .update) | .access (.look _ _ .update) | .access (.check _)
  | .access (.disable _) => true
  | _ => false

def mayEnable : Process → Bool
  | .access _ | .disableApp => true
  | _ => false

end Process

def Wanted (s : System) (name : String) : Prop :=
  ∃ repo, s.repos.get? name = some repo ∧ repo.requestedPrivate = false

def AllListed (s : System) : Prop :=
  ∀ name, s.has name = true → s.listed name = true

structure Found (s : System) (remaining : String → Prop) (found : List Repo) : Prop where
  listed : AllListed s
  complete : ∀ name, Wanted s name → found ≠ [] ∨ remaining name
  wanted : found ≠ [] → ∃ name, Wanted s name
  requested : ∀ repo ∈ found, repo.requestedPrivate = false

def Accurate (s : System) : Process → Prop
  | .access (.list .enable) => s.appEnabled = true
  | .access (.look entries found use) =>
    Found s (fun name => ∃ entry ∈ entries, entry.1 = name) found ∧
      (∀ entry ∈ entries, s.has entry.1 = true) ∧ (use = .enable → s.appEnabled = true)
  | .access (.check found) => Found s (fun _ => False) found
  | .access (.disable found) => Found s (fun _ => False) found ∧ found ≠ []
  | .access .enable => s.appEnabled = true ∧ ∀ name, ¬ Wanted s name
  | .disableApp => s.authEnabled = false
  | _ => True

structure Invariant (s : System) (running : List Process) : Prop where
  requested : ∀ name repo, s.repos.get? name = some repo → repo.isPrivate = true →
    repo.requestedPrivate = true
  completed : ∀ name repo, s.repos.get? name = some repo → repo.requestedPrivate = true →
    repo.isPrivate = false → ∃ process ∈ running, process.completes name = true
  enabled : s.authEnabled = true → ∀ name, Wanted s name →
    ∃ process ∈ running, process.updates name = true
  disabled : s.authEnabled = false → s.appEnabled = true →
    (∃ name, Wanted s name ∧ s.listed name = true) ∨
      ∃ process ∈ running, process.mayEnable = true
  off : s.appEnabled = false → s.authEnabled = false
  accurate : ∀ process ∈ running, Accurate s process
  marking : ∀ name, .prepareMark name ∈ running → ∀ repo, s.repos.get? name = some repo →
    repo.requestedPrivate = true
  blamed : ∀ found ∈ s.disabledFor, ∃ repo ∈ found, repo.requestedPrivate = false

theorem Invariant.congr {s : System} {running running' : List Process}
    (inv : Invariant s running) (same : ∀ process, process ∈ running' ↔ process ∈ running) :
    Invariant s running' := by
  obtain ⟨requested, completed, enabled, disabled, off, accurate, marking, blamed⟩ := inv
  refine ⟨requested, ?_, ?_, ?_, off, ?_, ?_, blamed⟩
  · simpa only [same] using completed
  · simpa only [same] using enabled
  · simpa only [same] using disabled
  · simpa only [same] using accurate
  · simpa only [same] using marking

/-! ## Quiet states -/

def Follows (s : System) : Prop :=
  s.authEnabled = true ↔ s.appEnabled = true ∧ s.hasPublic = false

theorem hasPublic_iff {s : System} (requested : ∀ name repo, s.repos.get? name = some repo →
    repo.isPrivate = repo.requestedPrivate) : s.hasPublic = true ↔ ∃ name, Wanted s name := by
  simp only [System.hasPublic, List.any_eq_true, OrderedDict.mem_values_iff, Wanted]
  constructor
  · rintro ⟨repo, ⟨name, there⟩, isPublic⟩
    refine ⟨name, repo, there, ?_⟩
    rw [← requested name repo there]
    simpa using isPublic
  · rintro ⟨name, repo, there, asked⟩
    refine ⟨repo, ⟨name, there⟩, ?_⟩
    rw [requested name repo there, asked]
    rfl

theorem Invariant.requested_of_quiet {s : System} (inv : Invariant s []) (name : String)
    (repo : Repo) (there : s.repos.get? name = some repo) :
    repo.isPrivate = repo.requestedPrivate := by
  cases isPrivate : repo.isPrivate with
  | true => rw [inv.requested name repo there isPrivate]
  | false =>
    cases asked : repo.requestedPrivate with
    | false => rfl
    | true =>
      obtain ⟨process, member, _⟩ := inv.completed name repo there asked isPrivate
      cases member

theorem Invariant.follows {s : System} (inv : Invariant s []) : Follows s := by
  rw [Follows, ← Bool.not_eq_true s.hasPublic, hasPublic_iff inv.requested_of_quiet]
  constructor
  · intro auth
    constructor
    · cases app : s.appEnabled with
      | true => rfl
      | false => exact absurd (inv.off app) (by simp [auth])
    · rintro ⟨name, wanted⟩
      obtain ⟨process, member, _⟩ := inv.enabled auth name wanted
      cases member
  · rintro ⟨app, none⟩
    cases auth : s.authEnabled with
    | true => rfl
    | false =>
      rcases inv.disabled auth app with ⟨name, wanted, _⟩ | ⟨process, member, _⟩
      · exact absurd ⟨name, wanted⟩ none
      · cases member

/-! ## What a step leaves to others -/

section Carried

variable {s s' : System} {process : Process} {next others : List Process}

theorem carried {f : Process → Bool} (there : ∃ other ∈ process :: others, f other = true)
    (own : f process = true → ∃ other ∈ next, f other = true) :
    ∃ other ∈ next ++ others, f other = true := by
  obtain ⟨other, member, holds⟩ := there
  rcases List.mem_cons.mp member with rfl | member
  · obtain ⟨other, member, holds⟩ := own holds
    exact ⟨other, List.mem_append_left _ member, holds⟩
  · exact ⟨other, List.mem_append_right _ member, holds⟩

theorem carried_others {f : Process → Bool}
    (there : ∃ other ∈ process :: others, f other = true) (own : f process = false) :
    ∃ other ∈ others, f other = true := by
  obtain ⟨other, member, holds⟩ := there
  rcases List.mem_cons.mp member with rfl | member
  · rw [own] at holds
    cases holds
  · exact ⟨other, member, holds⟩

theorem exists_next {f : Process → Bool} (there : ∃ other ∈ next, f other = true) :
    ∃ other ∈ next ++ others, f other = true := by
  obtain ⟨other, member, holds⟩ := there
  exact ⟨other, List.mem_append_left _ member, holds⟩

theorem accurate_of_not_mid {other : Process} (notMid : other.mid = false) : Accurate s other := by
  cases other with
  | access phase =>
    cases phase with
    | list use =>
      cases use with
      | update => trivial
      | enable => cases notMid
    | look entries found use => cases notMid
    | check found => cases notMid
    | disable found => cases notMid
    | enable => cases notMid
  | disableApp => cases notMid
  | _ => trivial

theorem Wanted.has {name : String} (wanted : Wanted s name) : s.has name = true := by
  obtain ⟨repo, there, _⟩ := wanted
  rw [System.has, there]
  rfl

theorem Accurate.keeps {other : Process} (accurate : Accurate s other)
    (repos : s'.repos = s.repos) (app : s'.appEnabled = s.appEnabled)
    (listed : ∀ name, s.listed name = true → s'.listed name = true)
    (auth : other = .disableApp → s'.authEnabled = s.authEnabled) : Accurate s' other := by
  have has : ∀ name, s'.has name = s.has name := fun name => by rw [System.has, System.has, repos]
  have wanted : ∀ name, Wanted s' name ↔ Wanted s name := fun name => by
    rw [Wanted, Wanted, repos]
  have found : ∀ {remaining found}, Found s remaining found → Found s' remaining found := by
    rintro remaining found ⟨all, complete, some, requested⟩
    refine ⟨?_, ?_, ?_, requested⟩
    · intro name there
      rw [has] at there
      exact listed name (all name there)
    · simpa only [wanted] using complete
    · simpa only [wanted] using some
  cases other with
  | access phase =>
    cases phase with
    | list use =>
      cases use with
      | update => trivial
      | enable => exact app.trans accurate
    | look entries found' use =>
      obtain ⟨isFound, there, enabled⟩ := accurate
      refine ⟨found isFound, ?_, ?_⟩
      · simpa only [has] using there
      · simpa only [app] using enabled
    | check found' => exact found accurate
    | disable found' => exact ⟨found accurate.1, accurate.2⟩
    | enable =>
      refine ⟨app.trans accurate.1, ?_⟩
      simpa only [wanted] using accurate.2
  | disableApp => exact (auth rfl).trans accurate
  | _ => trivial

end Carried

/-! ## Steps -/

section Steps

variable {s : System} {process : Process} {next others : List Process}

theorem Invariant.idle (inv : Invariant s (process :: others))
    (completes : ∀ name, process.completes name = true →
      ∃ other ∈ next, other.completes name = true)
    (updates : s.authEnabled = true → ∀ name, Wanted s name → process.updates name = true →
      ∃ other ∈ next, other.updates name = true)
    (mayEnable : s.appEnabled = true → process.mayEnable = true →
      (∃ name, Wanted s name ∧ s.listed name = true) ∨ ∃ other ∈ next, other.mayEnable = true)
    (accurate : ∀ other ∈ next, Accurate s other)
    (marking : ∀ name, .prepareMark name ∉ next) : Invariant s (next ++ others) where
  requested := inv.requested
  completed name repo there asked isPublic :=
    carried (inv.completed name repo there asked isPublic) (completes name)
  enabled auth name wanted := carried (inv.enabled auth name wanted) (updates auth name wanted)
  disabled auth app := by
    rcases inv.disabled auth app with found | ⟨other, member, may⟩
    · exact .inl found
    · rcases List.mem_cons.mp member with rfl | member
      · rcases mayEnable app may with found | there
        · exact .inl found
        · exact .inr (exists_next there)
      · exact .inr ⟨other, List.mem_append_right _ member, may⟩
  off := inv.off
  accurate other member := by
    rcases List.mem_append.mp member with member | member
    · exact accurate other member
    · exact inv.accurate other (List.mem_cons_of_mem _ member)
  marking name member := by
    rcases List.mem_append.mp member with member | member
    · exact absurd member (marking name)
    · exact inv.marking name (List.mem_cons_of_mem _ member)
  blamed := inv.blamed

variable {s' : System} {name : String}

theorem accurate_next (undisturbed : ∀ other ∈ others, other.mid = false)
    (own : ∀ other ∈ next, Accurate s' other) : ∀ other ∈ next ++ others, Accurate s' other := by
  intro other member
  rcases List.mem_append.mp member with member | member
  · exact own other member
  · exact accurate_of_not_mid (undisturbed other member)

theorem Invariant.marking_next (inv : Invariant s (process :: others))
    (apart : ∀ other ∈ others, ∀ name ∈ process.names, name ∉ other.names)
    (frame : ∀ name, name ∉ process.names → s'.repos.get? name = s.repos.get? name)
    (own : ∀ name, .prepareMark name ∈ next → ∀ repo, s'.repos.get? name = some repo →
      repo.requestedPrivate = true) :
    ∀ name, .prepareMark name ∈ next ++ others → ∀ repo, s'.repos.get? name = some repo →
      repo.requestedPrivate = true := by
  intro name member repo there
  rcases List.mem_append.mp member with member | member
  · exact own name member repo there
  · have outside : name ∉ process.names :=
      fun inside => apart _ member name inside List.mem_cons_self
    rw [frame name outside] at there
    exact inv.marking name (List.mem_cons_of_mem _ member) repo there

/-! ### Repositories -/

theorem get?_make (name other : String) (isPrivate : Bool) :
    (s.make name isPrivate).repos.get? other =
      if other = name then some ⟨false, isPrivate⟩ else s.repos.get? other :=
  OrderedDict.get?_set ..

theorem get?_setPrivate (name other : String) (isPrivate : Bool) :
    (s.setPrivate name isPrivate).repos.get? other =
      if other = name then some ⟨isPrivate, isPrivate⟩ else s.repos.get? other :=
  OrderedDict.get?_set ..

theorem get?_unmark (name other : String) :
    (s.unmark name).repos.get? other = if other = name then
      (s.repos.get? name).map fun repo => { repo with isPrivate := false }
      else s.repos.get? other := by
  rw [System.unmark]
  cases there : s.repos.get? name with
  | none =>
    by_cases same : other = name
    · rw [if_pos same, same, there]
      rfl
    · rw [if_neg same]
  | some repo => exact OrderedDict.get?_set ..

theorem get?_remove (name other : String) :
    (s.remove name).repos.get? other = if other = name then none else s.repos.get? other :=
  OrderedDict.get?_erase ..

theorem Invariant.make (inv : Invariant s (process :: others)) (absent : s.has name = false)
    (isPrivate : Bool) (names : process.names = [name])
    (undisturbed : ∀ other ∈ others, other.mid = false)
    (apart : ∀ other ∈ others, ∀ name ∈ process.names, name ∉ other.names)
    (completes : ∀ name, process.completes name = false)
    (updates : ∀ name, process.updates name = false) (mayEnable : process.mayEnable = false)
    (nextCompletes : isPrivate = true → ∃ other ∈ next, other.completes name = true)
    (nextUpdates : ∃ other ∈ next, other.updates name = true)
    (nextMid : ∀ other ∈ next, other.mid = false)
    (nextMarking : ∀ other, .prepareMark other ∈ next → other = name ∧ isPrivate = true) :
    Invariant (s.make name isPrivate) (next ++ others) where
  requested other repo there isMarked := by
    rw [get?_make] at there
    split at there
    · cases there
      cases isMarked
    · exact inv.requested other repo there isMarked
  completed other repo there asked isPublic := by
    rw [get?_make] at there
    split at there
    · rename_i same
      cases there
      rw [same]
      exact exists_next (nextCompletes asked)
    · exact carried (inv.completed other repo there asked isPublic) (by simp [completes])
  enabled auth other wanted := by
    by_cases same : other = name
    · rw [same]
      exact exists_next nextUpdates
    · obtain ⟨repo, there, asked⟩ := wanted
      rw [get?_make, if_neg same] at there
      exact carried (inv.enabled auth other ⟨repo, there, asked⟩) (by simp [updates])
  disabled auth app := by
    rcases inv.disabled auth app with ⟨other, wanted, listed⟩ | there
    · have differ : other ≠ name := by
        rintro rfl
        rw [wanted.has] at absent
        cases absent
      obtain ⟨repo, there, asked⟩ := wanted
      refine .inl ⟨other, ⟨repo, ?_, asked⟩, ?_⟩
      · rw [get?_make, if_neg differ, there]
      · exact (Function.update_of_ne differ false s.listed).trans listed
    · exact .inr (carried there (by simp [mayEnable]))
  off := inv.off
  accurate := accurate_next undisturbed fun other member => accurate_of_not_mid (nextMid other member)
  marking := by
    apply inv.marking_next apart
    · intro other outside
      rw [names, List.mem_singleton] at outside
      rw [get?_make, if_neg outside]
    · intro other member repo there
      obtain ⟨rfl, isPrivate⟩ := nextMarking other member
      rw [get?_make, if_pos rfl] at there
      cases there
      exact isPrivate
  blamed := inv.blamed

theorem Invariant.setPrivate (inv : Invariant s (process :: others)) (isPrivate : Bool)
    (names : process.names = [name]) (undisturbed : ∀ other ∈ others, other.mid = false)
    (apart : ∀ other ∈ others, ∀ name ∈ process.names, name ∉ other.names)
    (completes : ∀ other, process.completes other = true → other = name)
    (updates : ∀ other, process.updates other = true → other = name ∧ isPrivate = true)
    (nextUpdates : isPrivate = false → ∃ other ∈ next, other.updates name = true)
    (nextMayEnable : (∃ other ∈ next, other.mayEnable = true) ∨ (process.mayEnable = false ∧
      ∀ repo, s.repos.get? name = some repo → repo.requestedPrivate = isPrivate))
    (nextMid : ∀ other ∈ next, other.mid = false)
    (nextMarking : ∀ other, .prepareMark other ∉ next) :
    Invariant (s.setPrivate name isPrivate) (next ++ others) where
  requested other repo there isMarked := by
    rw [get?_setPrivate] at there
    split at there
    · cases there
      exact isMarked
    · exact inv.requested other repo there isMarked
  completed other repo there asked isPublic := by
    rw [get?_setPrivate] at there
    split at there
    · cases there
      cases asked.symm.trans isPublic
    · rename_i differ
      exact carried (inv.completed other repo there asked isPublic)
        fun own => absurd (completes other own) differ
  enabled auth other wanted := by
    obtain ⟨repo, there, asked⟩ := wanted
    rw [get?_setPrivate] at there
    split at there
    · rename_i same
      cases there
      rw [same]
      exact exists_next (nextUpdates asked)
    · rename_i differ
      exact carried (inv.enabled auth other ⟨repo, there, asked⟩)
        fun own => absurd (updates other own).1 differ
  disabled auth app := by
    rcases nextMayEnable with may | ⟨mayNot, same⟩
    · exact .inr (exists_next may)
    · rcases inv.disabled auth app with ⟨other, ⟨repo, there, asked⟩, listed⟩ | there
      · refine .inl ⟨other, ?_, listed⟩
        by_cases here : other = name
        · rw [here] at there
          refine ⟨⟨isPrivate, isPrivate⟩, ?_, ?_⟩
          · rw [get?_setPrivate, if_pos here]
          · rw [← same repo there]
            exact asked
        · refine ⟨repo, ?_, asked⟩
          rw [get?_setPrivate, if_neg here, there]
      · exact .inr (carried there (by simp [mayNot]))
  off := inv.off
  accurate := accurate_next undisturbed fun other member => accurate_of_not_mid (nextMid other member)
  marking := by
    apply inv.marking_next apart
    · intro other outside
      rw [names, List.mem_singleton] at outside
      rw [get?_setPrivate, if_neg outside]
    · intro other member
      exact absurd member (nextMarking other)
  blamed := inv.blamed

theorem wanted_unmark (name other : String) : Wanted (s.unmark name) other ↔ Wanted s other := by
  rw [Wanted, Wanted, get?_unmark]
  by_cases same : other = name
  · rw [if_pos same, same]
    cases s.repos.get? name with
    | none => rfl
    | some repo => simp
  · rw [if_neg same]

theorem Invariant.unlink {thenUpdate : Bool}
    (inv : Invariant s (.unlink name thenUpdate :: others))
    (undisturbed : ∀ other ∈ others, other.mid = false)
    (apart : ∀ other ∈ others, ∀ name' ∈ [name], name' ∉ other.names) :
    Invariant (s.unmark name) ([.rmdir name thenUpdate] ++ others) := by
  have sameAuth : (s.unmark name).authEnabled = s.authEnabled := by
    rw [System.unmark]
    split <;> rfl
  have sameApp : (s.unmark name).appEnabled = s.appEnabled := by
    rw [System.unmark]
    split <;> rfl
  have sameListed : (s.unmark name).listed = s.listed := by
    rw [System.unmark]
    split <;> rfl
  have sameBlamed : (s.unmark name).disabledFor = s.disabledFor := by
    rw [System.unmark]
    split <;> rfl
  refine ⟨?_, ?_, ?_, ?_, ?_, ?_, ?_, ?_⟩
  · intro other repo there isMarked
    rw [get?_unmark] at there
    split at there
    · rw [Option.map_eq_some_iff] at there
      obtain ⟨repo, _, rfl⟩ := there
      cases isMarked
    · exact inv.requested other repo there isMarked
  · intro other repo there asked isPublic
    by_cases same : other = name
    · exact exists_next ⟨.rmdir name thenUpdate, List.mem_singleton_self _, by simp [Process.completes, same]⟩
    · rw [get?_unmark, if_neg same] at there
      apply carried (inv.completed other repo there asked isPublic)
      intro own
      simp only [Process.completes, Bool.and_eq_true, decide_eq_true_eq] at own
      exact absurd own.1.symm same
  · intro auth other wanted
    rw [sameAuth] at auth
    rw [wanted_unmark] at wanted
    apply carried (inv.enabled auth other wanted)
    intro own
    exact ⟨.rmdir name thenUpdate, List.mem_singleton_self _, own⟩
  · intro auth app
    rw [sameAuth] at auth
    rw [sameApp] at app
    simp only [wanted_unmark, sameListed]
    rcases inv.disabled auth app with found | there
    · exact .inl found
    · exact .inr (carried there (by simp [Process.mayEnable]))
  · rw [sameApp, sameAuth]
    exact inv.off
  · apply accurate_next undisturbed
    intro other member
    rw [List.mem_singleton.mp member]
    trivial
  · apply inv.marking_next apart
    · intro other outside
      have differ : other ≠ name := fun same => outside (by simp [Process.names, same])
      rw [get?_unmark, if_neg differ]
    · intro other member
      cases List.mem_singleton.mp member
  · rw [sameBlamed]
    exact inv.blamed

theorem Invariant.rmdir {thenUpdate : Bool}
    (inv : Invariant s (.rmdir name thenUpdate :: others))
    (undisturbed : ∀ other ∈ others, other.mid = false)
    (apart : ∀ other ∈ others, ∀ name' ∈ [name], name' ∉ other.names)
    (harmless : thenUpdate = false → ∀ repo, s.repos.get? name = some repo →
      s.listed name = true → repo.requestedPrivate = true) :
    Invariant (s.remove name) ((if thenUpdate then [updateServiceAccess] else []) ++ others) := by
  have nextMid : ∀ other ∈ (if thenUpdate then [updateServiceAccess] else []),
      other.mid = false ∧ ∀ name', other ≠ .prepareMark name' := by
    intro other member
    cases thenUpdate with
    | false => cases member
    | true =>
      rw [List.mem_singleton.mp member]
      exact ⟨rfl, fun _ same => by cases same⟩
  have wanted_iff : ∀ other, Wanted (s.remove name) other ↔ other ≠ name ∧ Wanted s other := by
    intro other
    rw [Wanted, Wanted, get?_remove]
    by_cases same : other = name <;> simp [same]
  refine ⟨?_, ?_, ?_, ?_, inv.off, ?_, ?_, inv.blamed⟩
  · intro other repo there isMarked
    rw [get?_remove] at there
    split at there
    · cases there
    · exact inv.requested other repo there isMarked
  · intro other repo there asked isPublic
    rw [get?_remove] at there
    split at there
    · cases there
    · rename_i differ
      apply carried (inv.completed other repo there asked isPublic)
      intro own
      exact absurd (of_decide_eq_true own).symm differ
  · intro auth other wanted
    obtain ⟨differ, wanted⟩ := (wanted_iff other).mp wanted
    apply carried (inv.enabled auth other wanted)
    intro own
    exact absurd (of_decide_eq_true own).symm differ
  · intro auth app
    cases thenUpdate with
    | true => exact .inr (exists_next ⟨updateServiceAccess, List.mem_singleton_self _, rfl⟩)
    | false =>
      rcases inv.disabled auth app with ⟨other, wanted, listed⟩ | there
      · have differ : other ≠ name := by
          rintro rfl
          obtain ⟨repo, there, asked⟩ := wanted
          rw [harmless rfl repo there listed] at asked
          cases asked
        exact .inl ⟨other, (wanted_iff other).mpr ⟨differ, wanted⟩, listed⟩
      · exact .inr (carried there (by simp [Process.mayEnable]))
  · exact accurate_next undisturbed fun other member => accurate_of_not_mid (nextMid other member).1
  · apply inv.marking_next apart
    · intro other outside
      have differ : other ≠ name := fun same => outside (by simp [Process.names, same])
      rw [get?_remove, if_neg differ]
    · intro other member
      exact absurd rfl ((nextMid _ member).2 other)

theorem get?_move {repo : Repo} (newName : String) (there : s.repos.get? name = some repo)
    (other : String) : (s.move name newName).repos.get? other =
      if other = newName then some repo else if other = name then none
        else s.repos.get? other := by
  rw [System.move, there]
  dsimp only
  rw [OrderedDict.get?_set, OrderedDict.get?_erase]

theorem names_of_completes {process : Process} (completes : process.completes name = true) :
    name ∈ process.names := by
  cases process <;> simp_all [Process.completes, Process.names]

theorem names_of_updates {process : Process} (updates : process.updates name = true) :
    name ∈ process.names ∨ ∀ other, process.updates other = true := by
  cases process with
  | access phase =>
    apply Or.inr
    intro other
    cases phase with
    | list use => cases use <;> exact updates
    | look entries found use => cases use <;> exact updates
    | _ => exact updates
  | _ => simp_all [Process.updates, Process.names]

theorem Invariant.rename {newName : String} {isPrivate : Option Bool}
    (inv : Invariant s (.rename name newName isPrivate :: others))
    (there : s.has name = true) (free : s.has newName = false)
    (undisturbed : ∀ other ∈ others, other.mid = false)
    (apart : ∀ other ∈ others, ∀ name' ∈ [name, newName], name' ∉ other.names)
    (nextMid : ∀ other ∈ next, other.mid = false ∧ ∀ name', other ≠ .prepareMark name') :
    Invariant (s.move name newName) (next ++ others) := by
  obtain ⟨moved, there⟩ := Option.isSome_iff_exists.mp there
  have get := get?_move newName there
  have sameAuth : (s.move name newName).authEnabled = s.authEnabled := by
    rw [System.move, there]
  have sameApp : (s.move name newName).appEnabled = s.appEnabled := by
    rw [System.move, there]
  have sameBlamed : (s.move name newName).disabledFor = s.disabledFor := by
    rw [System.move, there]
  have listed : (s.move name newName).listed =
      Function.update s.listed newName (s.listed name) := by
    rw [System.move, there]
  have atOther : ∀ {other repo}, (s.move name newName).repos.get? other = some repo →
      other = newName ∧ repo = moved ∨ s.repos.get? other = some repo := by
    intro other repo found
    rw [get] at found
    split at found
    · rename_i same
      exact .inl ⟨same, (Option.some.inj found).symm⟩
    · split at found
      · cases found
      · exact .inr found
  refine ⟨?_, ?_, ?_, ?_, ?_, ?_, ?_, ?_⟩
  · intro other repo found isMarked
    rcases atOther found with ⟨_, rfl⟩ | found
    · exact inv.requested name repo there isMarked
    · exact inv.requested other repo found isMarked
  · intro other repo found asked isPublic
    rcases atOther found with ⟨_, rfl⟩ | found
    · obtain ⟨owner, member, completes⟩ := inv.completed name repo there asked isPublic
      rcases List.mem_cons.mp member with rfl | member
      · cases completes
      · exact absurd (names_of_completes completes) (apart owner member name List.mem_cons_self)
    · exact carried (inv.completed other repo found asked isPublic) (by simp [Process.completes])
  · intro auth other ⟨repo, found, asked⟩
    rw [sameAuth] at auth
    rcases atOther found with ⟨_, rfl⟩ | found
    · obtain ⟨owner, member, updates⟩ := inv.enabled auth name ⟨repo, there, asked⟩
      rcases List.mem_cons.mp member with rfl | member
      · cases updates
      · rcases names_of_updates updates with named | all
        · exact absurd named (apart owner member name List.mem_cons_self)
        · exact ⟨owner, List.mem_append_right _ member, all other⟩
    · exact carried (inv.enabled auth other ⟨repo, found, asked⟩) (by simp [Process.updates])
  · intro auth app
    rw [sameAuth] at auth
    rw [sameApp] at app
    rcases inv.disabled auth app with ⟨other, ⟨repo, found, asked⟩, isListed⟩ | exists_
    · by_cases same : other = name
      · subst same
        refine .inl ⟨newName, ⟨moved, ?_, ?_⟩, ?_⟩
        · rw [get, if_pos rfl]
        · rw [there] at found
          rw [Option.some.inj found]
          exact asked
        · rw [listed, Function.update_self]
          exact isListed
      · have differ : other ≠ newName := by
          rintro rfl
          rw [System.has, found] at free
          cases free
        refine .inl ⟨other, ⟨repo, ?_, asked⟩, ?_⟩
        · rw [get, if_neg differ, if_neg same, found]
        · rw [listed, Function.update_of_ne differ]
          exact isListed
    · exact .inr (carried exists_ (by simp [Process.mayEnable]))
  · rw [sameApp, sameAuth]
    exact inv.off
  · exact accurate_next undisturbed fun other member => accurate_of_not_mid (nextMid other member).1
  · apply inv.marking_next apart
    · intro other outside
      have differ : other ≠ name ∧ other ≠ newName := by
        simpa [Process.names] using outside
      rw [get, if_neg differ.2, if_neg differ.1]
    · intro other member
      exact absurd rfl ((nextMid _ member).2 other)
  · rw [sameBlamed]
    exact inv.blamed

/-! ### The configuration -/

def System.listAll (s : System) : System :=
  { s with listed := fun _ => true }

theorem Invariant.list {use : Use} (inv : Invariant s (.access (.list use) :: others)) :
    Invariant s.listAll ([.access (.look s.repos.entries [] use)] ++ others) where
  requested := inv.requested
  completed other repo there asked isPublic :=
    carried (inv.completed other repo there asked isPublic) (by simp [Process.completes])
  enabled auth other wanted := by
    apply carried (inv.enabled auth other wanted)
    intro own
    cases use with
    | update => exact ⟨_, List.mem_singleton_self _, rfl⟩
    | enable => cases own
  disabled _ _ := .inr (exists_next ⟨_, List.mem_singleton_self _, rfl⟩)
  off := inv.off
  accurate other member := by
    rcases List.mem_append.mp member with member | member
    · rw [List.mem_singleton.mp member]
      refine ⟨⟨fun _ _ => rfl, ?_, fun none => absurd rfl none, by simp⟩, ?_, ?_⟩
      · intro name ⟨repo, there, _⟩
        exact .inr ⟨(name, repo), (s.repos.get?_eq_some_iff name repo).mp there, rfl⟩
      · intro entry inside
        have there := (s.repos.get?_eq_some_iff entry.1 entry.2).mpr inside
        show (s.repos.get? entry.1).isSome = true
        rw [there]
        rfl
      · rintro rfl
        exact inv.accurate _ List.mem_cons_self
    · exact (inv.accurate other (List.mem_cons_of_mem _ member)).keeps rfl rfl (fun _ _ => rfl)
        fun _ => rfl
  marking name member := by
    rcases List.mem_append.mp member with member | member
    · cases List.mem_singleton.mp member
    · exact inv.marking name (List.mem_cons_of_mem _ member)
  blamed := inv.blamed

theorem Invariant.disable {found : List Repo}
    (inv : Invariant s (.access (.disable found) :: others)) :
    Invariant { s with authEnabled := false, disabledFor := found :: s.disabledFor } others where
  requested := inv.requested
  completed other repo there asked isPublic :=
    carried_others (inv.completed other repo there asked isPublic) rfl
  enabled auth := by cases auth
  disabled _ _ := by
    obtain ⟨isFound, some⟩ := inv.accurate _ List.mem_cons_self
    obtain ⟨name, wanted⟩ := isFound.wanted some
    exact .inl ⟨name, wanted, isFound.listed name wanted.has⟩
  off _ := rfl
  accurate other member := by
    have accurate := inv.accurate other (List.mem_cons_of_mem _ member)
    by_cases isDisable : other = .disableApp
    · rw [isDisable]
      rfl
    · exact accurate.keeps rfl rfl (fun _ => id) fun same => absurd same isDisable
  marking name member := inv.marking name (List.mem_cons_of_mem _ member)
  blamed found' member := by
    rcases List.mem_cons.mp member with rfl | member
    · obtain ⟨isFound, some⟩ := inv.accurate _ List.mem_cons_self
      obtain ⟨repo, inside⟩ := List.exists_mem_of_ne_nil found' some
      exact ⟨repo, inside, isFound.requested repo inside⟩
    · exact inv.blamed found' member

theorem Invariant.enable (inv : Invariant s (.access .enable :: others))
    (notDisabling : .disableApp ∉ others) :
    Invariant { s with authEnabled := true } others where
  requested := inv.requested
  completed other repo there asked isPublic :=
    carried_others (inv.completed other repo there asked isPublic) rfl
  enabled _ name wanted := absurd wanted ((inv.accurate _ List.mem_cons_self).2 name)
  disabled auth := by cases auth
  off app := by
    have on : s.appEnabled = true := (inv.accurate _ List.mem_cons_self).1
    rw [on] at app
    cases app
  accurate other member := by
    have accurate := inv.accurate other (List.mem_cons_of_mem _ member)
    have notThis : other ≠ .disableApp := by
      rintro rfl
      exact notDisabling member
    exact accurate.keeps rfl rfl (fun _ => id) fun same => absurd same notThis
  marking name member := inv.marking name (List.mem_cons_of_mem _ member)
  blamed := inv.blamed

theorem Invariant.enableApp (inv : Invariant s (.enableApp :: others))
    (undisturbed : ∀ other ∈ others, other.mid = false) :
    Invariant { s with appEnabled := true } ([.access (.list .enable)] ++ others) where
  requested := inv.requested
  completed other repo there asked isPublic :=
    carried (inv.completed other repo there asked isPublic) (by simp [Process.completes])
  enabled auth name wanted := carried (inv.enabled auth name wanted) (by simp [Process.updates])
  disabled _ _ := .inr (exists_next ⟨_, List.mem_singleton_self _, rfl⟩)
  off app := by cases app
  accurate := accurate_next undisturbed fun other member => by
    rw [List.mem_singleton.mp member]
    rfl
  marking name member := by
    rcases List.mem_append.mp member with member | member
    · cases List.mem_singleton.mp member
    · exact inv.marking name (List.mem_cons_of_mem _ member)
  blamed := inv.blamed

theorem Invariant.disableAuth (inv : Invariant s (.disableAuth :: others))
    (undisturbed : ∀ other ∈ others, other.mid = false) :
    Invariant { s with authEnabled := false } ([.disableApp] ++ others) where
  requested := inv.requested
  completed other repo there asked isPublic :=
    carried (inv.completed other repo there asked isPublic) (by simp [Process.completes])
  enabled auth := by cases auth
  disabled _ _ := .inr (exists_next ⟨_, List.mem_singleton_self _, rfl⟩)
  off _ := rfl
  accurate := accurate_next undisturbed fun other member => by
    rw [List.mem_singleton.mp member]
    rfl
  marking name member := by
    rcases List.mem_append.mp member with member | member
    · cases List.mem_singleton.mp member
    · exact inv.marking name (List.mem_cons_of_mem _ member)
  blamed := inv.blamed

theorem Invariant.disableApp (inv : Invariant s (.disableApp :: others))
    (undisturbed : ∀ other ∈ others, other.mid = false) :
    Invariant { s with appEnabled := false } others where
  requested := inv.requested
  completed other repo there asked isPublic :=
    carried_others (inv.completed other repo there asked isPublic) rfl
  enabled auth name wanted :=
    carried_others (inv.enabled auth name wanted) rfl
  disabled _ app := by cases app
  off _ := inv.accurate _ List.mem_cons_self
  accurate other member := accurate_of_not_mid (undisturbed other member)
  marking name member := inv.marking name (List.mem_cons_of_mem _ member)
  blamed := inv.blamed

/-! ### All steps -/

theorem found_look {entry : String × Repo} {entries : List (String × Repo)} {found : List Repo}
    (isFound : Found s (fun name => ∃ other ∈ entry :: entries, other.1 = name) found)
    (there : s.has entry.1 = true)
    (requested : ∀ name repo, s.repos.get? name = some repo → repo.isPrivate = true →
      repo.requestedPrivate = true)
    (marked : ∀ repo, s.repos.get? entry.1 = some repo → repo.requestedPrivate = true →
      repo.isPrivate = true) :
    Found s (fun name => ∃ other ∈ entries, other.1 = name) (found ++ s.look entry) := by
  obtain ⟨repo, there⟩ := Option.isSome_iff_exists.mp there
  have look : s.look entry = if repo.isPrivate then [] else [repo] := by rw [System.look, there]
  obtain ⟨listed, complete, wanted, all⟩ := isFound
  cases isPrivate : repo.isPrivate with
  | true =>
    rw [look, isPrivate, if_pos rfl, List.append_nil]
    refine ⟨listed, ?_, wanted, all⟩
    intro name want
    rcases complete name want with some | ⟨other, member, rfl⟩
    · exact .inl some
    · rcases List.mem_cons.mp member with rfl | member
      · obtain ⟨repo', there', asked⟩ := want
        rw [there] at there'
        cases there'
        rw [requested _ repo there isPrivate] at asked
        cases asked
      · exact .inr ⟨other, member, rfl⟩
  | false =>
    have asked : repo.requestedPrivate = false := by
      cases asked : repo.requestedPrivate with
      | false => rfl
      | true =>
        rw [marked repo there asked] at isPrivate
        cases isPrivate
    rw [look, isPrivate, if_neg Bool.false_ne_true]
    refine ⟨listed, fun _ _ => .inl (by simp), fun _ => ⟨entry.1, repo, there, asked⟩, ?_⟩
    intro other member
    rcases List.mem_append.mp member with member | member
    · exact all other member
    · rw [List.mem_singleton.mp member]
      exact asked

theorem Invariant.advanceAccess {phase : Phase} (inv : Invariant s (.access phase :: others))
    (notDisabling : .disableApp ∉ others)
    (sound : ∀ entry entries found use, phase = .look (entry :: entries) found use →
      ∀ repo, s.repos.get? entry.1 = some repo → repo.requestedPrivate = true →
        repo.isPrivate = true) :
    Invariant (s.advanceAccess phase).1 ((s.advanceAccess phase).2 ++ others) := by
  have accurate := inv.accurate _ List.mem_cons_self
  cases phase with
  | list use => exact inv.list
  | look entries found use =>
    obtain ⟨isFound, there, enabled⟩ := accurate
    cases entries with
    | cons entry entries =>
      rw [List.forall_mem_cons] at there
      apply inv.idle
      · simp [Process.completes]
      · intro _ name _ own
        refine ⟨_, List.mem_singleton_self _, ?_⟩
        cases use <;> exact own
      · intro _ _
        exact .inr ⟨_, List.mem_singleton_self _, rfl⟩
      · intro other member
        rw [List.mem_singleton.mp member]
        exact ⟨found_look isFound there.1 inv.requested (sound _ _ _ _ rfl), there.2, enabled⟩
      · intro name member
        cases List.mem_singleton.mp member
    | nil =>
      have all : Found s (fun _ => False) found := by
        refine ⟨isFound.listed, ?_, isFound.wanted, isFound.requested⟩
        intro name wanted
        apply (isFound.complete name wanted).imp_right
        rintro ⟨other, member, _⟩
        cases member
      cases use with
      | update =>
        apply inv.idle
        · simp [Process.completes]
        · intro _ name _ own
          exact ⟨_, List.mem_singleton_self _, rfl⟩
        · intro _ _
          exact .inr ⟨_, List.mem_singleton_self _, rfl⟩
        · intro other member
          rw [List.mem_singleton.mp member]
          exact all
        · intro name member
          cases List.mem_singleton.mp member
      | enable =>
        show Invariant s ((if found = [] then [.access .enable] else []) ++ others)
        by_cases none : found = []
        · rw [if_pos none]
          apply inv.idle
          · simp [Process.completes]
          · simp [Process.updates]
          · intro _ _
            exact .inr ⟨_, List.mem_singleton_self _, rfl⟩
          · intro other member
            rw [List.mem_singleton.mp member]
            refine ⟨enabled rfl, ?_⟩
            intro name wanted
            exact (all.complete name wanted).elim (fun some => some none) id
          · intro name member
            cases List.mem_singleton.mp member
        · rw [if_neg none]
          apply inv.idle
          · simp [Process.completes]
          · simp [Process.updates]
          · intro _ _
            obtain ⟨name, wanted⟩ := all.wanted none
            exact .inl ⟨name, wanted, all.listed name wanted.has⟩
          · exact fun other member => by cases member
          · exact fun name member => by cases member
  | check found =>
    show Invariant s ((if s.appEnabled = false then []
      else if found = [] then [.access (.list .enable)]
      else [.access (.disable found)]) ++ others)
    have all : Found s (fun _ => False) found := accurate
    by_cases app : s.appEnabled = false
    · rw [if_pos app]
      apply inv.idle
      · simp [Process.completes]
      · intro auth
        rw [inv.off app] at auth
        cases auth
      · intro on
        rw [app] at on
        cases on
      · exact fun other member => by cases member
      · exact fun name member => by cases member
    · rw [if_neg app]
      by_cases none : found = []
      · rw [if_pos none]
        apply inv.idle
        · simp [Process.completes]
        · intro _ name wanted
          exact absurd ((all.complete name wanted).elim (fun some => some none) id) not_false
        · intro _ _
          exact .inr ⟨_, List.mem_singleton_self _, rfl⟩
        · intro other member
          rw [List.mem_singleton.mp member]
          show s.appEnabled = true
          simpa using app
        · intro name member
          cases List.mem_singleton.mp member
      · rw [if_neg none]
        apply inv.idle
        · simp [Process.completes]
        · intro _ name _ _
          exact ⟨_, List.mem_singleton_self _, rfl⟩
        · intro _ _
          exact .inr ⟨_, List.mem_singleton_self _, rfl⟩
        · intro other member
          rw [List.mem_singleton.mp member]
          exact ⟨all, none⟩
        · intro name member
          cases List.mem_singleton.mp member
  | disable found => exact inv.disable
  | enable => exact inv.enable notDisabling

theorem notMarking_update : ∀ other, .prepareMark other ∉ [updateServiceAccess] := by
  intro other member
  cases List.mem_singleton.mp member

theorem updateServiceAccess_mid : ∀ other ∈ [updateServiceAccess], other.mid = false := by
  intro other member
  rw [List.mem_singleton.mp member]
  rfl

theorem Invariant.updateNext (inv : Invariant s (process :: others))
    (completes : ∀ name, process.completes name = false) :
    Invariant s ([updateServiceAccess] ++ others) := by
  apply inv.idle
  · simp [completes]
  · intro _ name _ _
    exact ⟨_, List.mem_singleton_self _, rfl⟩
  · intro _ _
    exact .inr ⟨_, List.mem_singleton_self _, rfl⟩
  · intro other member
    rw [List.mem_singleton.mp member]
    trivial
  · exact notMarking_update

theorem Invariant.cleanUp (inv : Invariant s (process :: others))
    (completes : ∀ other, process.completes other = true → other = name)
    (updates : ∀ other, process.updates other = true → other = name)
    (mayEnable : process.mayEnable = false) : Invariant s ([.unlink name false] ++ others) := by
  apply inv.idle
  · intro other own
    exact ⟨_, List.mem_singleton_self _, by simp [Process.completes, completes other own]⟩
  · intro _ other _ own
    exact ⟨_, List.mem_singleton_self _, by simp [Process.updates, updates other own]⟩
  · simp [mayEnable]
  · intro other member
    rw [List.mem_singleton.mp member]
    trivial
  · intro other member
    cases List.mem_singleton.mp member

theorem Invariant.ends (inv : Invariant s (process :: others))
    (completes : ∀ name, process.completes name = false)
    (updates : ∀ name, process.updates name = false) (mayEnable : process.mayEnable = false) :
    Invariant s ([] ++ others) := by
  apply inv.idle
  · simp [completes]
  · simp [updates]
  · simp [mayEnable]
  · exact fun other member => by cases member
  · exact fun name member => by cases member

theorem Invariant.advance {outcome : Outcome} (inv : Invariant s (process :: others))
    (allowed : process.allowed s others outcome = true) :
    Invariant (s.advance outcome process).1 ((s.advance outcome process).2 ++ others) := by
  simp only [Process.allowed, Bool.and_eq_true, Bool.or_eq_true, Bool.not_eq_true',
    List.all_eq_true, List.contains_eq_mem, decide_eq_false_iff_not, decide_eq_true_eq] at allowed
  obtain ⟨⟨⟨undisturbed, apart⟩, notDisabling⟩, sound⟩ := allowed
  have undisturbed : process.changes = true → ∀ other ∈ others, other.mid = false := by
    intro changes
    exact undisturbed.resolve_left (by simp [changes])
  cases process with
  | access phase =>
    have notDisabling : .disableApp ∉ others := by
      intro member
      exact (notDisabling.resolve_left (by simp [Process.isAccess])) _ member rfl
    apply inv.advanceAccess notDisabling
    rintro entry entries found use rfl repo there asked
    simp only [Process.sound, there, asked] at sound
    simpa using sound
  | enableApp => exact inv.enableApp (undisturbed rfl)
  | disableAuth => exact inv.disableAuth (undisturbed rfl)
  | disableApp => exact inv.disableApp (undisturbed rfl)
  | create name isPrivate =>
    cases outcome with
    | done =>
      have absent : s.has name = false := by simpa [Process.sound] using sound
      show Invariant (if s.has name = true then s else s.make name isPrivate) _
      rw [if_neg (by simp [absent])]
      apply inv.make absent isPrivate rfl (undisturbed rfl) apart
      · exact fun _ => rfl
      · exact fun _ => rfl
      · rfl
      · rintro rfl
        exact ⟨_, List.mem_singleton_self _, by simp [Process.completes]⟩
      · exact ⟨_, List.mem_singleton_self _, by simp [Process.updates]⟩
      · intro other member
        rw [List.mem_singleton.mp member]
        rfl
      · intro other member
        cases List.mem_singleton.mp member
    | error caught =>
      cases caught with
      | true => exact inv.cleanUp (by simp [Process.completes]) (by simp [Process.updates]) rfl
      | false => exact inv.ends (fun _ => rfl) (fun _ => rfl) rfl
  | fill name isPrivate =>
    cases outcome with
    | done =>
      cases isPrivate with
      | true =>
        apply inv.idle
        · intro other own
          exact ⟨_, List.mem_singleton_self _, by simpa [Process.completes] using own⟩
        · intro _ other _ own
          exact ⟨_, List.mem_singleton_self _, own⟩
        · simp [Process.mayEnable]
        · intro other member
          rw [List.mem_singleton.mp member]
          trivial
        · intro other member
          cases List.mem_singleton.mp member
      | false => exact inv.updateNext (by simp [Process.completes])
    | error caught =>
      cases caught with
      | true =>
        apply inv.cleanUp
        · intro other own
          simp only [Process.completes, Bool.and_eq_true, decide_eq_true_eq] at own
          exact own.1.symm
        · intro other own
          exact (of_decide_eq_true own).symm
        · rfl
      | false => simp [Process.sound] at sound
  | mark name =>
    have mine : ∀ other, decide (name = other) = true → other = name :=
      fun other own => (of_decide_eq_true own).symm
    rw [System.advance]
    split
    · exact inv.setPrivate true rfl (undisturbed rfl) apart mine
        (fun other own => ⟨mine other own, rfl⟩) (fun no => by cases no)
        (.inl ⟨_, List.mem_singleton_self _, rfl⟩) updateServiceAccess_mid
        notMarking_update
    · exact inv.cleanUp mine mine rfl
  | prepare name isPrivate =>
    rw [System.advance]
    split
    · rename_i works
      apply inv.make works.2 isPrivate rfl (undisturbed rfl) apart
      · exact fun _ => rfl
      · exact fun _ => rfl
      · rfl
      · rintro rfl
        exact ⟨_, List.mem_singleton_self _, by simp [Process.completes]⟩
      · refine ⟨_, List.mem_singleton_self _, ?_⟩
        cases isPrivate <;> simp [Process.updates]
      · intro other member
        rw [List.mem_singleton.mp member]
        cases isPrivate <;> rfl
      · intro other member
        cases isPrivate with
        | true =>
          cases List.mem_singleton.mp member
          exact ⟨rfl, rfl⟩
        | false => cases List.mem_singleton.mp member
    · exact inv.ends (fun _ => rfl) (fun _ => rfl) rfl
  | prepareMark name =>
    have mine : ∀ other, decide (name = other) = true → other = name :=
      fun other own => (of_decide_eq_true own).symm
    rw [System.advance]
    split
    · exact inv.setPrivate true rfl (undisturbed rfl) apart mine
        (fun other own => ⟨mine other own, rfl⟩) (fun no => by cases no)
        (.inr ⟨rfl, inv.marking name List.mem_cons_self⟩) (by simp [Process.mid]) (by simp)
    · exact inv.cleanUp mine mine rfl
  | prepareStatus name =>
    rw [System.advance]
    split
    · apply inv.idle
      · simp [Process.completes]
      · intro _ other _ _
        exact ⟨updateServiceAccess, by simp, rfl⟩
      · simp [Process.mayEnable]
      · intro other member
        simp only [List.mem_cons, List.not_mem_nil, or_false] at member
        rcases member with rfl | rfl <;> trivial
      · simp [updateServiceAccess]
    · apply inv.cleanUp
      · simp [Process.completes]
      · exact fun other own => (of_decide_eq_true own).symm
      · rfl
  | clone name =>
    rw [System.advance]
    split
    · exact inv.cleanUp (by simp [Process.completes]) (by simp [Process.updates]) rfl
    · exact inv.ends (fun _ => rfl) (fun _ => rfl) rfl
  | unlink name thenUpdate =>
    rw [System.advance]
    split
    · exact inv.unlink (undisturbed rfl) apart
    · rename_i fails
      cases thenUpdate with
      | true => exact inv.updateNext (by simp [Process.completes])
      | false => simp [Process.sound, fails] at sound
  | rmdir name thenUpdate =>
    simp only [Process.sound, Bool.and_eq_true, decide_eq_true_eq, Bool.or_eq_true] at sound
    rw [System.advance, if_pos sound.1]
    apply inv.rmdir (undisturbed rfl) apart
    intro noUpdate repo there listed
    have harmless := sound.2.resolve_left (by simp [noUpdate])
    rw [there] at harmless
    simpa [listed] using harmless
  | rename name newName isPrivate =>
    simp only [System.advance]
    split
    · rename_i works
      apply inv.rename works.2.1 works.2.2 (undisturbed rfl) apart
      intro other member
      rw [List.mem_singleton.mp member]
      cases isPrivate with
      | none => exact ⟨rfl, fun _ same => by cases same⟩
      | some isPrivate => exact ⟨rfl, fun _ same => by cases same⟩
    · exact inv.updateNext fun _ => rfl
  | setAccess name isPrivate =>
    show Invariant (s.setAccess name isPrivate outcome) _
    rw [System.setAccess]
    split
    · exact inv.setPrivate isPrivate rfl (undisturbed rfl) apart (by simp [Process.completes])
        (by simp [Process.updates]) (fun _ => ⟨_, List.mem_singleton_self _, rfl⟩)
        (.inl ⟨_, List.mem_singleton_self _, rfl⟩) updateServiceAccess_mid
        notMarking_update
    · exact inv.updateNext fun _ => rfl

end Steps

/-! ## Runs -/

theorem System.running_mem (s : System) {i : Nat} {process : Process}
    (there : s.running[i]? = some process) (other : Process) :
    other ∈ process :: s.others i ↔ other ∈ s.running := by
  obtain ⟨inside, same⟩ := List.getElem?_eq_some_iff.mp there
  have whole : s.running = s.running.take i ++ process :: s.running.drop (i + 1) := by
    rw [← same, List.getElem_cons_drop, List.take_append_drop]
  conv_rhs => rw [whole]
  simp only [System.others, List.mem_cons, List.mem_append]
  exact or_left_comm

structure Settled (s : System) : Prop where
  quiet : s.running = []
  follows : Follows s
  requested : ∀ name repo, s.repos.get? name = some repo → repo.isPrivate = repo.requestedPrivate
  listed : ∀ name, s.has name = true → s.listed name = true
  unblamed : s.disabledFor = []

theorem Settled.invariant {s : System} (settled : Settled s) : Invariant s s.running := by
  obtain ⟨quiet, follows, requested, listed, unblamed⟩ := settled
  have public_iff := hasPublic_iff requested
  rw [quiet]
  refine ⟨?_, ?_, ?_, ?_, ?_, ?_, ?_, ?_⟩
  · intro name repo there isPrivate
    rw [← requested name repo there, isPrivate]
  · intro name repo there asked isPublic
    rw [requested name repo there, asked] at isPublic
    cases isPublic
  · intro auth name wanted
    have none := (follows.mp auth).2
    rw [public_iff.mpr ⟨name, wanted⟩] at none
    cases none
  · intro auth app
    have some : s.hasPublic = true := by
      by_contra none
      rw [follows.mpr ⟨app, by simpa using none⟩] at auth
      cases auth
    obtain ⟨name, wanted⟩ := public_iff.mp some
    exact .inl ⟨name, wanted, listed name wanted.has⟩
  · intro app
    by_contra auth
    rw [(follows.mp (by simpa using auth)).1] at app
    cases app
  · exact fun process member => by cases member
  · exact fun name member => by cases member
  · rw [unblamed]
    exact fun found member => by cases member

theorem Invariant.withRunning {s : System} {running : List Process} (inv : Invariant s running)
    (running' : List Process) : Invariant { s with running := running' } running :=
  ⟨inv.requested, inv.completed, inv.enabled, inv.disabled, inv.off,
    fun process member => (inv.accurate process member).keeps rfl rfl (fun _ => id) fun _ => rfl,
    inv.marking, inv.blamed⟩

theorem Invariant.start {s : System} {running : List Process} (inv : Invariant s running)
    {new : List Process} (notMid : ∀ process ∈ new, process.mid = false)
    (notMarking : ∀ name, .prepareMark name ∉ new) : Invariant s (running ++ new) := by
  have more : ∀ {f : Process → Bool}, (∃ process ∈ running, f process = true) →
      ∃ process ∈ running ++ new, f process = true := by
    rintro f ⟨process, member, holds⟩
    exact ⟨process, List.mem_append_left _ member, holds⟩
  refine ⟨inv.requested, ?_, ?_, ?_, inv.off, ?_, ?_, inv.blamed⟩
  · exact fun name repo there asked isPublic => more (inv.completed name repo there asked isPublic)
  · exact fun auth name wanted => more (inv.enabled auth name wanted)
  · exact fun auth app => (inv.disabled auth app).imp_right more
  · intro process member
    rcases List.mem_append.mp member with member | member
    · exact inv.accurate process member
    · exact accurate_of_not_mid (notMid process member)
  · intro name member
    rcases List.mem_append.mp member with member | member
    · exact inv.marking name member
    · exact absurd member (notMarking name)

theorem Request.process_starts (s : System) (request : Request) :
    ∀ process ∈ request.process s, process.mid = false ∧ ∀ name, process ≠ .prepareMark name := by
  intro process member
  cases request <;> simp only [Request.process] at member
  all_goals repeat' split at member
  all_goals first
    | cases member; done
    | rw [List.mem_singleton.mp member]
      exact ⟨rfl, fun _ same => by cases same⟩

theorem Invariant.step {s : System} {event : Event} (inv : Invariant s s.running)
    (allowed : Allowed s event) : Invariant (step s event) (step s event).running := by
  cases event with
  | request request =>
    have starts := request.process_starts s
    have started := inv.start (fun process member => (starts process member).1)
      fun name member => (starts _ member).2 name rfl
    exact started.withRunning _
  | run i outcome =>
    rw [GitwebAccess.step, System.runProcess]
    cases there : s.running[i]? with
    | none => exact inv
    | some process =>
      rw [Allowed, there] at allowed
      have before := inv.congr (s.running_mem there)
      have after := before.advance allowed
      apply Invariant.withRunning
      apply after.congr
      intro other
      simp only [System.others, List.mem_append]
      rw [or_assoc]
      exact or_left_comm

def fresh : System where
  repos := OrderedDict.empty
  appEnabled := true
  authEnabled := true
  running := []
  listed _ := true
  disabledFor := []

theorem settled_fresh : Settled fresh :=
  ⟨rfl, ⟨fun _ => ⟨rfl, rfl⟩, fun _ => rfl⟩, (fun _ _ there => by cases there), fun _ _ => rfl, rfl⟩

def creation : List Event :=
  .request (.create "secret" true) :: List.replicate 11 (.run 0 .done)

def failingClone : List Event :=
  [.request (.clone "project" false), .run 0 .done, .run 0 .done, .run 1 .done, .run 1 .done,
    .run 1 .done, .run 1 .done, .run 1 .done, .run 0 (.error true), .run 0 .done, .run 0 .done]

end Plinth.GitwebAccess
