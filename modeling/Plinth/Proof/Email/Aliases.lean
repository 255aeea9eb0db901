import Mathlib.Data.List.Induction
import Plinth.Model.Email.Aliases

/-! # Aliases and the names of users -/

namespace Plinth.Email.Aliases

variable {env : Environment} {s : System} {name username owner : Name} {aliases : List Name}

/-! ## What each submission stores -/

theorem get?_put (username name other : Name) (s : System) :
    (put username name s).table.get? other =
      if other = name ∧ s.table.get? name = none then some username else s.table.get? other := by
  rw [put]
  split
  · rename_i taken
    rw [if_neg]
    rintro ⟨-, free⟩
    rw [free] at taken
    cases taken
  · rename_i free
    rw [Option.not_isSome_iff_eq_none] at free
    rw [OrderedDict.get?_set]
    by_cases same : other = name
    · rw [if_pos same, if_pos ⟨same, free⟩]
    · rw [if_neg same, if_neg fun both => same both.1]

theorem accounts_put (username name : Name) (s : System) :
    (put username name s).accounts = s.accounts := by
  rw [put]
  split <;> rfl

theorem get?_delete (username : Name) (aliases : List Name) (s : System) (name owner : Name) :
    (delete username aliases s).table.get? name = some owner ↔
      s.table.get? name = some owner ∧ ¬ (owner = username ∧ name ∈ aliases) := by
  rw [delete]
  dsimp only
  rw [OrderedDict.get?_filter, Bool.not_eq_true', Bool.and_eq_false_iff, decide_eq_false_iff_not,
    decide_eq_false_iff_not, not_and_or]

theorem mem_accounts_addUser (username other : Name) (s : System) :
    other ∈ (addUser username s).accounts ↔ other ∈ s.accounts ∨ other = username := by
  rw [addUser]
  split
  · rename_i known
    constructor
    · exact .inl
    · rintro (member | rfl)
      · exact member
      · exact known
  · rw [List.mem_append, List.mem_singleton]

theorem table_addUser (username : Name) (s : System) :
    (addUser username s).table = s.table := by
  rw [addUser]
  split <;> rfl

/-! ## One step -/

theorem put_safe_iff (safe : NoTakeover s) :
    NoTakeover (put username name s) ∧ (put username name s).table.get? name = some username ↔
      IsFree s (.put username name) := by
  cases taken : s.table.get? name with
  | some owner =>
    have same : put username name s = s := by
      rw [put, taken]
      rfl
    rw [same, taken, IsFree, taken, Option.some.injEq]
    exact and_iff_right safe
  | none =>
    have stored : (put username name s).table.get? name = some username := by
      rw [get?_put, if_pos ⟨rfl, taken⟩]
    rw [IsFree, taken, and_iff_left stored]
    constructor
    · intro safe' member
      exact safe' name username stored (by rwa [accounts_put])
    · intro free other owner found member
      rw [accounts_put] at member
      rw [get?_put] at found
      split at found
      · rename_i new
        obtain rfl := Option.some.inj found
        obtain ⟨rfl, -⟩ := new
        exact free member
      · exact safe other owner found member

theorem delete_safe (safe : NoTakeover s) (username : Name) (aliases : List Name) :
    NoTakeover (delete username aliases s) ∧
      IsServed s (delete username aliases s) (.delete username aliases) := by
  constructor
  · intro name owner found member
    exact safe name owner ((get?_delete ..).mp found).1 member
  · intro name owner found
    by_cases own : owner = username
    · exact .inr own
    · exact .inl ((get?_delete ..).mpr ⟨found, fun both => own both.1⟩)

theorem addUser_safe_iff (safe : NoTakeover s) :
    NoTakeover (addUser username s) ↔ IsFree s (.addUser username) := by
  constructor
  · intro safe' owner found
    apply safe' username owner (by rwa [table_addUser])
    rw [mem_accounts_addUser]
    exact .inr rfl
  · intro free name owner found member
    rw [table_addUser] at found
    rw [mem_accounts_addUser] at member
    rcases member with member | rfl
    · exact safe name owner found member
    · exact free owner found

theorem store_safe_iff (safe : NoTakeover s) (submission : Submission) :
    NoTakeover (store s submission) ∧ IsServed s (store s submission) submission ↔
      IsFree s submission := by
  cases submission with
  | put username name => exact put_safe_iff safe
  | delete username aliases => exact iff_of_true (delete_safe safe username aliases) trivial
  | addUser username => exact (and_iff_left trivial).trans (addUser_safe_iff safe)

theorem step_store {index : Nat} {submission : Submission}
    (pending : s.valid[index]? = some submission) : step env s (.store index) =
      store { s with valid := s.valid.eraseIdx index } submission := by
  rw [step, pending]

theorem step_safe_iff (safe : NoTakeover s) (made : Step) :
    IsSafeStep env s made ↔ ∀ index submission, made = .store index →
      s.valid[index]? = some submission → IsFree s submission := by
  cases made with
  | validate request => exact iff_of_true ⟨safe, nofun⟩ nofun
  | store index =>
    cases pending : s.valid[index]? with
    | none =>
      have same : step env s (.store index) = s := by
        rw [step, pending]
      refine iff_of_true ⟨by rwa [same], ?_⟩ ?_
      · rintro _ submission ⟨⟩ found
        rw [pending] at found
        cases found
      · rintro _ submission ⟨⟩ found
        rw [pending] at found
        cases found
    | some submission =>
      have stored := store_safe_iff (s := { s with valid := s.valid.eraseIdx index }) safe
        submission
      rw [← (step_store pending : step env s (.store index) = _)] at stored
      constructor
      · rintro ⟨safe', served⟩ _ other ⟨⟩ found
        obtain rfl := Option.some.inj (pending.symm.trans found)
        exact stored.mp ⟨safe', served index submission rfl pending⟩
      · intro free
        obtain ⟨safe', served⟩ := stored.mpr (free index submission rfl pending)
        refine ⟨safe', ?_⟩
        rintro _ other ⟨⟩ found
        obtain rfl := Option.some.inj (pending.symm.trans found)
        exact served

/-! ## Runs -/

theorem run_append_singleton (env : Environment) (s : System) (before : List Step) (made : Step) :
    run env s (before ++ [made]) = step env (run env s before) made := by
  rw [run, List.foldl_append]
  rfl

def AllFree (env : Environment) (s : System) (steps : List Step) : Prop :=
  ∀ before index after submission, steps = before ++ .store index :: after →
    (run env s before).valid[index]? = some submission → IsFree (run env s before) submission

theorem noTakeover_run (safe : NoTakeover s) {steps : List Step} (free : AllFree env s steps) :
    NoTakeover (run env s steps) := by
  induction steps using List.reverseRecOn with
  | nil => exact safe
  | append_singleton before made ih =>
    have earlier := ih fun first index after submission split =>
      free first index (after ++ [made]) submission (by rw [split]; simp)
    have safeStep : IsSafeStep env (run env s before) made :=
      (step_safe_iff earlier made).mpr fun index submission same =>
        free before index [] submission (by rw [same])
    rw [run_append_singleton]
    exact safeStep.1

/-- In a run, every step is safe, if and only if every submission is still free when it is stored;
and the names in the table are distinct. -/
theorem aliases_safe_iff (env : Environment) (s : System) (steps : List Step)
    (safe : NoTakeover s) :
    ((∀ before made after, steps = before ++ made :: after →
      IsSafeStep env (run env s before) made) ↔ AllFree env s steps) ∧
    (run env s steps).table.keys.Nodup := by
  refine ⟨⟨?_, ?_⟩, (run env s steps).table.nodup⟩
  · intro safeSteps before index after submission split pending
    have earlier : NoTakeover (run env s before) := by
      rcases List.eq_nil_or_concat before with rfl | ⟨first, last, rfl⟩
      · exact safe
      · rw [List.concat_eq_append] at split ⊢
        rw [run_append_singleton]
        exact (safeSteps first last (.store index :: after) (by rw [split]; simp)).1
    have safeStep := safeSteps before (.store index) after split
    exact (step_safe_iff earlier _).mp safeStep index submission rfl pending
  · intro free before made after split
    have earlier : NoTakeover (run env s before) :=
      noTakeover_run safe fun first index rest submission split' =>
        free first index (rest ++ made :: after) submission (by rw [split, split']; simp)
    exact (step_safe_iff earlier made).mpr fun index submission same pending =>
      free before index after submission (by rw [split, same]) pending

/-! ## Two users -/

def asciiEnvironment : Environment where
  lower := List.map Char.toLower
  isUsernameReserved _ := false

def twoUsers : System where
  accounts := ["root".toList, "alice".toList]
  table := OrderedDict.empty
  valid := []

theorem noTakeover_twoUsers : NoTakeover twoUsers :=
  nofun

theorem info_alias_safe : NoTakeover twoUsers ∧
    ∀ before made after, [Step.validate (.createAlias "alice".toList "info".toList), .store 0] =
        before ++ made :: after →
      IsSafeStep asciiEnvironment (run asciiEnvironment twoUsers before) made := by
  refine ⟨noTakeover_twoUsers, ?_⟩
  apply (aliases_safe_iff asciiEnvironment twoUsers _ noTakeover_twoUsers).1.mpr
  intro before index after submission split pending
  rcases before with _ | ⟨made, _ | ⟨made', before⟩⟩
  · cases split
  · cases split
    have valid : (run asciiEnvironment twoUsers
        [.validate (.createAlias "alice".toList "info".toList)]).valid[0]? =
        some (.put "alice".toList "info".toList) := by decide +kernel
    obtain rfl := Option.some.inj (valid.symm.trans pending)
    intro member
    exact absurd member (by decide +kernel)
  · simp at split

theorem new_user_taken_over :
    ¬ ∀ before made after, [Step.validate (.createAlias "alice".toList "bob".toList), .store 0,
          .validate (.createUser "bob".toList), .store 0] = before ++ made :: after →
        IsSafeStep asciiEnvironment (run asciiEnvironment twoUsers before) made := by
  intro safe
  have last := (safe [.validate (.createAlias "alice".toList "bob".toList), .store 0,
    .validate (.createUser "bob".toList)] (.store 0) [] rfl).1
  have same := last "bob".toList "alice".toList (by decide +kernel) (by decide +kernel)
  exact absurd same (by decide +kernel)

end Plinth.Email.Aliases
