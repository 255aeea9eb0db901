import Plinth.Lib.Worklist
import Plinth.Model.Package

/-! # Expressions for packages -/

namespace Plinth.Package

open Python Exception Effect

namespace PackageExpression

def isAvailable (cache : Cache) (name : String) : Bool :=
  (cache.get? name).any CachePackage.candidate

def last : PackageExpression → String
  | .package name => name
  | .or _ package2 => package2.last

theorem actual_eq (cache : Cache) (expression : PackageExpression) :
    expression.actual cache = match expression.possible.find? (isAvailable cache) with
      | some name => .ok name
      | none => .error (MissingPackageError expression.last) := by
  induction expression with
  | package name =>
    rw [actual, possible, last]
    by_cases available : isAvailable cache name = true
    · rw [List.find?_cons_of_pos available]
      exact if_pos available
    · rw [List.find?_cons_of_neg available]
      exact if_neg available
  | or package1 package2 first second =>
    rw [actual, possible, last, first, second, List.find?_append]
    cases package1.possible.find? (isAvailable cache) <;> rfl

theorem actual_eq_ok_iff (cache : Cache) (expression : PackageExpression) (name : String) :
    expression.actual cache = .ok name ↔
      expression.possible.find? (isAvailable cache) = some name := by
  rw [actual_eq]
  split
  · rename_i found
    rw [found, Except.ok.injEq, Option.some.injEq]
  · rename_i missing
    simp [missing]

theorem actual_raises_iff (cache : Cache) (expression : PackageExpression) :
    (∃ name, expression.actual cache = .error (MissingPackageError name)) ↔
      ∀ name ∈ expression.possible, isAvailable cache name = false := by
  have none_iff := List.find?_eq_none (p := isAvailable cache) (l := expression.possible)
  simp only [Bool.not_eq_true] at none_iff
  rw [← none_iff, actual_eq]
  cases expression.possible.find? (isAvailable cache) with
  | some name => simp
  | none => exact iff_of_true ⟨_, rfl⟩ rfl

def isFlat : PackageExpression → Bool
  | .package _ => true
  | .or (.package _) (.package _) => true
  | .or _ _ => false

theorem repr_returns_iff (expression : PackageExpression) :
    (∃ text, expression.repr = .ok text) ↔ expression.isFlat = true := by
  cases expression with
  | package name => exact iff_of_true ⟨name, rfl⟩ rfl
  | or package1 package2 =>
    cases package1 with
    | or => exact iff_of_false (fun returns => by cases returns.choose_spec) Bool.false_ne_true
    | package name1 =>
      cases package2 with
      | package name2 => exact iff_of_true ⟨name1 ++ " | " ++ name2, rfl⟩ rfl
      | or => exact iff_of_false (fun returns => by cases returns.choose_spec) Bool.false_ne_true

def Term.operators : Term → Nat
  | .package _ => 0
  | .packageOr package1 package2 => package1.operators + package2.operators + 1
  | .bar left right => left.operators + right.operators + 1

theorem eval_of_operators_eq_zero {term : Term} (none : term.operators = 0) :
    ∃ name, term.eval = .ok (.package name) := by
  cases term with
  | package name => exact ⟨name, rfl⟩
  | packageOr package1 package2 => cases none
  | bar left right => cases none

theorem operators_eq_zero_of_eval {term : Term} {name : String}
    (evaluated : term.eval = .ok (.package name)) : term.operators = 0 := by
  cases term with
  | package other => rfl
  | packageOr package1 package2 =>
    obtain ⟨expression1, _, evaluated⟩ := ok_of_bind evaluated
    obtain ⟨expression2, _, evaluated⟩ := ok_of_bind evaluated
    cases evaluated
  | bar left right =>
    obtain ⟨expression1, _, evaluated⟩ := ok_of_bind evaluated
    obtain ⟨expression2, _, evaluated⟩ := ok_of_bind evaluated
    cases expression1 with
    | package other => cases evaluated
    | or => cases evaluated

theorem isFlat_or_iff (expression1 expression2 : PackageExpression) :
    (expression1.or expression2).isFlat = true ↔
      (∃ name, expression1 = .package name) ∧ ∃ name, expression2 = .package name := by
  cases expression1 <;> cases expression2 <;> simp [isFlat]

theorem flat_iff (term : Term) :
    (∃ expression, term.eval = .ok expression ∧ expression.isFlat = true) ↔
      term.operators ≤ 1 := by
  have combined {term1 term2 : Term} {expression1 expression2 : PackageExpression}
      (evaluated1 : term1.eval = .ok expression1) (evaluated2 : term2.eval = .ok expression2)
      (flat : (expression1.or expression2).isFlat = true) :
      term1.operators + term2.operators + 1 ≤ 1 := by
    obtain ⟨⟨name1, rfl⟩, name2, rfl⟩ := (isFlat_or_iff _ _).mp flat
    rw [operators_eq_zero_of_eval evaluated1, operators_eq_zero_of_eval evaluated2]
  cases term with
  | package name => exact iff_of_true ⟨_, rfl, rfl⟩ (Nat.zero_le 1)
  | packageOr package1 package2 =>
    rw [Term.operators]
    constructor
    · rintro ⟨expression, evaluated, flat⟩
      obtain ⟨expression1, evaluated1, evaluated⟩ := ok_of_bind evaluated
      obtain ⟨expression2, evaluated2, evaluated⟩ := ok_of_bind evaluated
      cases evaluated
      exact combined evaluated1 evaluated2 flat
    · intro once
      have none1 : package1.operators = 0 := by omega
      have none2 : package2.operators = 0 := by omega
      obtain ⟨name1, evaluated1⟩ := eval_of_operators_eq_zero none1
      obtain ⟨name2, evaluated2⟩ := eval_of_operators_eq_zero none2
      exact ⟨_, bind_of_ok evaluated1 (bind_of_ok evaluated2 rfl), rfl⟩
  | bar left right =>
    rw [Term.operators]
    constructor
    · rintro ⟨expression, evaluated, flat⟩
      obtain ⟨expression1, evaluated1, evaluated⟩ := ok_of_bind evaluated
      obtain ⟨expression2, evaluated2, evaluated⟩ := ok_of_bind evaluated
      cases expression1 with
      | or => cases evaluated
      | package name =>
        cases evaluated
        exact combined evaluated1 evaluated2 flat
    · intro once
      have none1 : left.operators = 0 := by omega
      have none2 : right.operators = 0 := by omega
      obtain ⟨name1, evaluated1⟩ := eval_of_operators_eq_zero none1
      obtain ⟨name2, evaluated2⟩ := eval_of_operators_eq_zero none2
      exact ⟨_, bind_of_ok evaluated1 (bind_of_ok evaluated2 rfl), rfl⟩

end PackageExpression

open PackageExpression

namespace Packages

theorem diagnoseExpression_returns_iff (cache : Cache) (candidates : Candidates)
    (componentId : String) (expression : PackageExpression) :
    (∃ check, diagnoseExpression cache candidates componentId expression = .ok check) ↔
      expression.isFlat = true ∨ ∃ name ∈ expression.possible, isAvailable cache name = true := by
  rw [diagnoseExpression, actual_eq, ← repr_returns_iff]
  cases found : expression.possible.find? (isAvailable cache) with
  | some name =>
    have available : isAvailable cache name = true := List.find?_some found
    exact iff_of_true ⟨_, rfl⟩ (.inr ⟨name, List.mem_of_find?_eq_some found, available⟩)
  | none =>
    have missing : ¬ ∃ name ∈ expression.possible, isAvailable cache name = true := by
      rintro ⟨name, member, available⟩
      exact List.find?_eq_none.mp found name member available
    rw [or_iff_left missing]
    exact returns_map_iff

theorem diagnose_returns_iff (cache : Cache) (candidates : Candidates) (componentId : String)
    (component : Packages) :
    (∃ checks, component.diagnose cache candidates componentId = .ok checks) ↔
      ∀ expression ∈ component.packages,
        expression.isFlat = true ∨ ∃ name ∈ expression.possible, isAvailable cache name = true := by
  rw [diagnose, mapM_returns_iff]
  simp only [diagnoseExpression_returns_iff]

end Packages

/-- The expression of a program resolves to the first available package and is printed, and its
component is diagnosed, whatever is available. -/
structure Usable (term : Term) (expression : PackageExpression) : Prop where
  built : term.eval = .ok expression
  resolves : ∀ cache name, expression.actual cache = .ok name ↔
    expression.possible.find? (isAvailable cache) = some name
  missing : ∀ cache, (∃ name, expression.actual cache = .error (MissingPackageError name)) ↔
    ∀ name ∈ expression.possible, isAvailable cache name = false
  printed : ∃ text, expression.repr = .ok text
  diagnosed : ∀ cache candidates componentId (component : Packages),
    component.packages = [expression] →
      ∃ checks, component.diagnose cache candidates componentId = .ok checks

/-- Expressions. A program has a usable expression exactly when it combines packages once at
most; every expression resolves, and a diagnosis raises for a nested one that is missing. -/
theorem expressions_are_usable_iff (term : Term) (cache : Cache) (expression : PackageExpression)
    (candidates : Candidates) (componentId : String) (component : Packages) :
    ((∃ expression, Usable term expression) ↔ term.operators ≤ 1) ∧
    ((∀ name, expression.actual cache = .ok name ↔
        expression.possible.find? (isAvailable cache) = some name) ∧
      ((∃ name, expression.actual cache = .error (MissingPackageError name)) ↔
        ∀ name ∈ expression.possible, isAvailable cache name = false)) ∧
    ((∃ checks, component.diagnose cache candidates componentId = .ok checks) ↔
      ∀ expression ∈ component.packages,
        expression.isFlat = true ∨
          ∃ name ∈ expression.possible, isAvailable cache name = true) := by
  refine ⟨?_, ⟨actual_eq_ok_iff cache expression, actual_raises_iff cache expression⟩,
    Packages.diagnose_returns_iff cache candidates componentId component⟩
  rw [← flat_iff]
  constructor
  · rintro ⟨expression, usable⟩
    exact ⟨expression, usable.built, (repr_returns_iff expression).mp usable.printed⟩
  · rintro ⟨expression, built, flat⟩
    refine ⟨expression, built, fun cache => actual_eq_ok_iff cache expression,
      fun cache => actual_raises_iff cache expression, (repr_returns_iff expression).mpr flat, ?_⟩
    intro cache candidates componentId component only
    rw [Packages.diagnose_returns_iff, only]
    intro other member
    rw [List.mem_singleton.mp member]
    exact .inl flat

theorem nested_expression_raises :
    ¬ ∀ (cache : Cache) candidates componentId (component : Packages),
      ∃ checks, component.diagnose cache candidates componentId = .ok checks := by
  intro all
  let nested : PackageExpression := .or (.package "a") (.or (.package "b") (.package "c"))
  have returns := (Packages.diagnose_returns_iff _ _ _ _).mp
    (all .empty (fun _ => none) "packages" ⟨[nested], [], none, false⟩) nested List.mem_cons_self
  obtain flat | ⟨name, _, available⟩ := returns
  · cases flat
  · cases available

end Plinth.Package

/-! ## Packages to keep -/

namespace Plinth.Package

open Python Exception Atomic Effect Relation Worklist

def dependenciesOf (cache : Cache) (package : String) : List String :=
  (cache.get? package).elim [] CachePackage.dependencyNames

def keptPackages (installedApps : List App) : List String :=
  "freedombox" :: installedApps.flatMap fun app => app.packages.flatMap Packages.possiblePackages

def Needed (cache : Cache) (installedApps : List App) (package : String) : Prop :=
  Reachable (dependenciesOf cache) (· ∈ keptPackages installedApps) package

/-- A run of the loop to its end, whatever `pop` takes, and the list that is returned. -/
def FiltersTo (cache : Cache) (installedApps : List App) (packages result : List String) : Prop :=
  ∃ kept, ReflTransGen (Step (dependenciesOf cache))
      (start (keptPackages installedApps).toFinset) ⟨kept, ∅⟩ ∧
    result = packages.filter (· ∉ kept)

theorem mem_bound (cache : Cache) (a b : String) (edge : b ∈ dependenciesOf cache a) :
    b ∈ (cache.entries.flatMap fun entry => entry.2.dependencyNames).toFinset := by
  cases found : cache.get? a with
  | none => simp [dependenciesOf, found] at edge
  | some package =>
    have member := (cache.get?_eq_some_iff a package).mp found
    rw [dependenciesOf, found, Option.elim_some] at edge
    exact List.mem_toFinset.mpr (List.mem_flatMap.mpr ⟨(a, package), member, edge⟩)

theorem loop_terminates (cache : Cache) (roots : Finset String) :
    Acc (fun s' s => Step (dependenciesOf cache) s s') (start roots) :=
  terminates (roots ∪ (cache.entries.flatMap fun entry => entry.2.dependencyNames).toFinset)
    (fun a b edge => Finset.mem_union_right _ (mem_bound cache a b edge)) (start roots)
    Finset.subset_union_left

theorem mem_keepWithDependencies_iff {cache : Cache} {roots : String → Prop}
    {processed pending : List String}
    (invariant : Invariant (dependenciesOf cache) roots (· ∈ processed) (· ∈ pending))
    (package : String) :
    package ∈ keepWithDependencies cache processed pending ↔
      Reachable (dependenciesOf cache) roots package := by
  induction processed, pending using keepWithDependencies.induct cache with
  | case1 processed =>
    rw [keepWithDependencies]
    exact invariant.processed_iff (fun a => List.not_mem_nil) package
  | case2 processed name rest old ih =>
    rw [keepWithDependencies, dif_pos old]
    apply ih
    apply invariant.advance
    · rintro b (member | member)
      · exact .inl member
      · obtain rfl | member := List.mem_cons.mp member
        · exact .inl old
        · exact .inr member
    · exact fun b member => .inl (member.imp_right (List.mem_cons_of_mem name))
    · exact fun b member => .inl member
  | case3 processed name rest fresh ih =>
    rw [keepWithDependencies, dif_neg fresh]
    apply ih
    apply invariant.advance
    · rintro b (member | member)
      · exact .inl (List.mem_cons_of_mem name member)
      · obtain rfl | member := List.mem_cons.mp member
        · exact .inl List.mem_cons_self
        · exact .inr (List.mem_append_right _ member)
    · rintro b (member | member)
      · obtain rfl | member := List.mem_cons.mp member
        · exact .inl (.inr List.mem_cons_self)
        · exact .inl (.inl member)
      · obtain edge | member := List.mem_append.mp member
        · exact .inr ⟨name, .inr List.mem_cons_self, edge⟩
        · exact .inl (.inr (List.mem_cons_of_mem name member))
    · rintro b member
      obtain rfl | member := List.mem_cons.mp member
      · exact .inr fun c edge => .inr (List.mem_append_left _ edge)
      · exact .inl member

theorem mem_keep_iff (cache : Cache) (installedApps : List App) (package : String) :
    package ∈ keepWithDependencies cache [] (keptPackages installedApps) ↔
      Needed cache installedApps package := by
  apply mem_keepWithDependencies_iff
  simpa using invariant_start (dependenciesOf cache) (· ∈ keptPackages installedApps)

theorem mem_filterPackagesToKeep_iff (cache : Cache) (installedApps : List App)
    (packages : List String) (package : String) :
    package ∈ filterPackagesToKeep cache installedApps packages ↔
      package ∈ packages ∧ ¬ Needed cache installedApps package := by
  rw [filterPackagesToKeep, List.mem_filter, decide_eq_true_eq]
  exact and_congr_right fun _ => not_congr (mem_keep_iff cache installedApps package)

theorem filtersTo_iff (cache : Cache) (installedApps : List App) (packages result : List String) :
    FiltersTo cache installedApps packages result ↔
      result = filterPackagesToKeep cache installedApps packages := by
  have same {kept : Finset String} (ran : ReflTransGen (Step (dependenciesOf cache))
      (start (keptPackages installedApps).toFinset) ⟨kept, ∅⟩) :
      packages.filter (· ∉ kept) = filterPackagesToKeep cache installedApps packages := by
    apply List.filter_congr
    intro package _
    rw [decide_eq_decide, processed_of_ended ran]
    simp only [List.mem_toFinset]
    exact not_congr (mem_keep_iff cache installedApps package).symm
  constructor
  · rintro ⟨kept, ran, rfl⟩
    exact same ran
  · rintro rfl
    obtain ⟨kept, ran⟩ := exists_ended (loop_terminates cache (keptPackages installedApps).toFinset)
    exact ⟨kept, ran, (same ran).symm⟩

def otherApps (env : Environment) (app : App) (s : State) : List App :=
  env.apps.filter fun other => other.appId ≠ app.appId ∧ s.setupVersion other.appId ≠ 0

theorem exec_uninstall (env : Environment) (app : App) (component : Packages) {s s' : State}
    (refreshed : (transaction env.refreshPackageLists).exec s = (.ok (), s')) :
    (component.uninstall env app).exec s =
      (uninstall env (filterPackagesToKeep (env.cache s'.now) (otherApps env app s')
        component.possiblePackages)).exec { s' with now := s'.now + 1 } := by
  unfold Packages.uninstall
  rw [exec_bind, refreshed]
  rfl

/-- Packages to keep. Whatever packages it takes first, the loop ends, and the list that is left
is that of the packages that are not needed, in their order; so that an uninstallation never
purges a package that FreedomBox or another app that is set up needs. -/
theorem filter_packages_to_keep_is_exact (cache : Cache) (installedApps : List App)
    (packages : List String) :
    Acc (fun s' s => Step (dependenciesOf cache) s s')
      (start (keptPackages installedApps).toFinset) ∧
    (∃ result, FiltersTo cache installedApps packages result) ∧
    (∀ result, FiltersTo cache installedApps packages result → ∃ purged : String → Bool,
      (∀ package, purged package = true ↔ ¬ Needed cache installedApps package) ∧
        result = packages.filter purged) ∧
    ∀ (env : Environment) (app : App) (component : Packages) (s s' : State),
      (transaction env.refreshPackageLists).exec s = (.ok (), s') →
        ∃ purged, (component.uninstall env app).exec s =
            (uninstall env purged).exec { s' with now := s'.now + 1 } ∧
          FiltersTo (env.cache s'.now) (otherApps env app s') component.possiblePackages purged ∧
          ∀ package ∈ purged, ¬ Needed (env.cache s'.now) (otherApps env app s') package := by
  refine ⟨loop_terminates cache _, ⟨_, (filtersTo_iff ..).mpr rfl⟩, ?_, ?_⟩
  · rintro result ⟨kept, ran, rfl⟩
    refine ⟨fun package => package ∉ kept, fun package => ?_, rfl⟩
    rw [decide_eq_true_eq, processed_of_ended ran]
    simp only [List.mem_toFinset]
    exact Iff.rfl
  · intro env app component s s' refreshed
    refine ⟨_, exec_uninstall env app component refreshed, (filtersTo_iff ..).mpr rfl, ?_⟩
    intro package member
    exact ((mem_filterPackagesToKeep_iff _ _ _ _).mp member).2

end Plinth.Package
