import Mathlib.Data.List.Basic
import Plinth.Lib.Runs
import Plinth.Model.Names

/-! # The registry of domain names -/

namespace Plinth.DomainNames

open Effect Python Exception

/-! ## Names in order -/

def firsts : List String → List String
  | [] => []
  | name :: names => name :: (firsts names).filter (· ≠ name)

theorem keys_foldl_set (names : List String) (d : OrderedDict String Bool) :
    (names.foldl (fun d name => d.set name true) d).keys =
      d.keys ++ (firsts names).filter (· ∉ d.keys) := by
  induction names generalizing d with
  | nil => simp [firsts]
  | cons name names ih =>
    have keys : (d.set name true).keys =
        if name ∈ d.keys then d.keys else d.keys ++ [name] :=
      OrderedDict.keys_setEntry name true d.entries
    rw [List.foldl_cons, ih, keys]
    by_cases old : name ∈ d.keys
    · rw [if_pos old, firsts, List.filter_cons_of_neg (by simpa using old), List.filter_filter]
      congr 1
      apply List.filter_congr
      intro other _
      by_cases same : other = name <;> simp [same, old]
    · rw [if_neg old, firsts, List.filter_cons_of_pos (by simpa using old), List.filter_filter,
        List.append_assoc, List.singleton_append]
      congr 2
      apply List.filter_congr
      intro other _
      simp [Bool.and_comm]

theorem uniqueNames_eq (names : List String) : uniqueNames names = firsts names := by
  unfold uniqueNames
  rw [keys_foldl_set]
  show [] ++ (firsts names).filter (fun name => decide (name ∉ ([] : List String))) = firsts names
  simp

theorem mem_firsts_iff (names : List String) (name : String) :
    name ∈ firsts names ↔ name ∈ names := by
  induction names with
  | nil => simp [firsts]
  | cons first names ih =>
    by_cases same : name = first
    · simp [firsts, same]
    · simp [firsts, same, ih]

theorem firsts_nodup (names : List String) : (firsts names).Nodup := by
  induction names with
  | nil => exact List.nodup_nil
  | cons first names ih =>
    rw [firsts, List.nodup_cons]
    exact ⟨by simp, ih.filter _⟩

section

variable (env : Registered)

def IsHighest (domains : List DomainName) (name : String) (priority : Int) : Prop :=
  (∃ domain ∈ domains, domain.name = name ∧ domain.priority env = priority) ∧
    ∀ domain ∈ domains, domain.name = name → domain.priority env ≤ priority

def Precedes (domains : List DomainName) (name other : String) : Prop :=
  ∀ priority otherPriority, IsHighest env domains name priority →
    IsHighest env domains other otherPriority →
      otherPriority < priority ∨ (priority = otherPriority ∧ name < other)

theorem isHighest_cons_iff {domain : DomainName} {domains : List DomainName} {name : String}
    {priority : Int} (different : name ≠ domain.name) :
    IsHighest env (domain :: domains) name priority ↔ IsHighest env domains name priority := by
  unfold IsHighest
  simp only [List.mem_cons, exists_eq_or_imp, forall_eq_or_imp, different.symm, false_and,
    false_or, false_implies, true_and]

theorem le_iff (domain other : DomainName) : DomainName.le env domain other = true ↔
    other.priority env < domain.priority env ∨
      (domain.priority env = other.priority env ∧ domain.name ≤ other.name) :=
  decide_eq_true_iff

theorem firsts_precede (domains : List DomainName)
    (sorted : domains.Pairwise fun domain other => DomainName.le env domain other = true) :
    (firsts (domains.map DomainName.name)).Pairwise (Precedes env domains) := by
  induction domains with
  | nil => exact List.Pairwise.nil
  | cons domain domains ih =>
    obtain ⟨first, rest⟩ := List.pairwise_cons.mp sorted
    rw [List.map_cons, firsts, List.pairwise_cons]
    constructor
    · intro other member priority otherPriority highest otherHighest
      have different : other ≠ domain.name := by simpa using (List.mem_filter.mp member).2
      rw [isHighest_cons_iff env different] at otherHighest
      obtain ⟨⟨found, inRest, rfl, rfl⟩, _⟩ := otherHighest
      have atLeast := highest.2 domain List.mem_cons_self rfl
      have atMost : priority ≤ domain.priority env := by
        obtain ⟨⟨same, member, named, rfl⟩, _⟩ := highest
        rcases List.mem_cons.mp member with rfl | later
        · exact le_rfl
        · rcases (le_iff env domain same).mp (first same later) with lt | ⟨eq, _⟩
          · exact le_of_lt lt
          · exact le_of_eq eq.symm
      rcases (le_iff env domain found).mp (first found inRest) with lt | ⟨eq, le⟩
      · exact .inl (lt_of_lt_of_le lt atLeast)
      · exact .inr ⟨le_antisymm (eq ▸ atMost) (eq ▸ atLeast), lt_of_le_of_ne le different.symm⟩
    · have tail := (ih rest).filter (· ≠ domain.name)
      apply tail.imp_of_mem
      intro name other member otherMember precedes priority otherPriority highest otherHighest
      have different : name ≠ domain.name := by simpa using (List.mem_filter.mp member).2
      have otherDifferent : other ≠ domain.name := by
        simpa using (List.mem_filter.mp otherMember).2
      rw [isHighest_cons_iff env different] at highest
      rw [isHighest_cons_iff env otherDifferent] at otherHighest
      exact precedes priority otherPriority highest otherHighest

theorem listDomains_sorted (s : System) :
    (listDomains env s).Pairwise fun domain other => DomainName.le env domain other = true := by
  apply List.pairwise_mergeSort
  · intro a b c first second
    rw [le_iff] at first second ⊢
    rcases first with lt | ⟨eq, le⟩
    · rcases second with lt' | ⟨eq', _⟩
      · exact .inl (lt'.trans lt)
      · exact .inl (eq' ▸ lt)
    · rcases second with lt' | ⟨eq', le'⟩
      · exact .inl (eq ▸ lt')
      · exact .inr ⟨eq.trans eq', le.trans le'⟩
  · intro a b
    rw [Bool.or_eq_true, le_iff, le_iff]
    rcases lt_trichotomy (a.priority env) (b.priority env) with lt | eq | gt
    · exact .inr (.inl lt)
    · rcases le_total a.name b.name with le | le
      · exact .inl (.inr ⟨eq, le⟩)
      · exact .inr (.inr ⟨eq.symm, le⟩)
    · exact .inl (.inl gt)

theorem mem_listDomains_iff (s : System) (domain : DomainName) :
    domain ∈ listDomains env s ↔ ∃ key, s.domainNames.get? key = some domain := by
  unfold listDomains
  rw [List.mem_mergeSort, OrderedDict.mem_values_iff]

/-! ## Clients -/

structure Registered.Expandable : Prop where
  distinct : (env.clients.map OpenIDConnect.clientId).Nodup
  expands : ∀ client ∈ env.clients, ∀ names, ∃ application,
    client.application env names = .ok application

def Current (s : System) (names : List String) (client : OpenIDConnect) : Prop :=
  ∃ application, client.application env names = .ok application ∧
    s.applications client.clientId = some application

theorem exec_createOrUpdateApplication {client : OpenIDConnect} {application : Application}
    {s : System} (expanded : client.application env (listNames env s) = .ok application) :
    (createOrUpdateApplication env client).exec s = (.ok (), { s with
      applications := Function.update s.applications client.clientId (some application) }) := by
  unfold createOrUpdateApplication
  rw [exec_bind, exec_get]
  dsimp only
  rw [exec_bind, exec_lift, expanded]
  rfl

theorem exec_forEach_update (clients : List OpenIDConnect)
    (distinct : (clients.map OpenIDConnect.clientId).Nodup) (s : System)
    (expands : ∀ client ∈ clients, ∃ application,
      client.application env (listNames env s) = .ok application) :
    ∃ t, (forEach clients (createOrUpdateApplication env)).exec s = (.ok (), t) ∧
      t.domainNames = s.domainNames ∧
      (∀ client ∈ clients, Current env t (listNames env s) client) ∧
      ∀ id ∉ clients.map OpenIDConnect.clientId, t.applications id = s.applications id := by
  induction clients generalizing s with
  | nil =>
    refine ⟨s, rfl, rfl, ?_, fun _ _ => rfl⟩
    intro client member
    cases member
  | cons client clients ih =>
    obtain ⟨first, rest⟩ := List.nodup_cons.mp distinct
    obtain ⟨application, expanded⟩ := expands client List.mem_cons_self
    obtain ⟨t, ran, same, current, others⟩ := ih rest
      { s with
        applications := Function.update s.applications client.clientId (some application) }
      (fun other later => expands other (List.mem_cons_of_mem _ later))
    refine ⟨t, ?_, same, ?_, ?_⟩
    · show ((createOrUpdateApplication env client) >>= fun _ => _).exec s = _
      rw [exec_bind, exec_createOrUpdateApplication env expanded]
      exact ran
    · intro other member
      rcases List.mem_cons.mp member with rfl | later
      · refine ⟨application, expanded, ?_⟩
        rw [others other.clientId first]
        exact Function.update_self ..
      · exact current other later
    · intro id absent
      rw [List.map_cons, List.mem_cons, not_or] at absent
      rw [others id absent.2]
      exact Function.update_of_ne absent.1 ..

theorem exec_updateDomainsForAll (expandable : env.Expandable) (s : System) :
    ∃ t, (updateDomainsForAll env).exec s = (.ok (), t) ∧ t.domainNames = s.domainNames ∧
      ∀ client ∈ env.clients, Current env t (listNames env t) client := by
  obtain ⟨t, ran, same, current, _⟩ := exec_forEach_update env env.clients expandable.distinct s
    (fun client member => expandable.expands client member _)
  have names : listNames env t = listNames env s := by
    unfold listNames listDomains
    rw [same]
  exact ⟨t, ran, same, fun client member => names ▸ current client member⟩

/-! ## Outstanding names -/

abbrev Outstanding := String → String → Option String

def Outstanding.after (out : Outstanding) : Signal → Outstanding
  | .added sender domainType name _ =>
    if domainType ≠ "" ∧ name ≠ "" ∧ (env.priority domainType).isSome = true then
      fun sender' name' =>
        if sender' = sender ∧ name' = name then some domainType else out sender' name'
    else out
  | .removed sender domainType name =>
    if name ≠ "" then
      fun sender' name' => if sender' = sender ∧ name' = name then none else out sender' name'
    else
      fun sender' name' => if out sender' name' = some domainType then none else out sender' name'

structure Tracks (s : System) (out : Outstanding) : Prop where
  stored : ∀ sender name domainType, out sender name = some domainType →
    ∃ services, s.domainNames.get? (componentId sender name) =
      some ⟨componentId sender name, name, domainType, services⟩
  listed : ∀ key domain, s.domainNames.get? key = some domain →
    ∃ sender, key = componentId sender domain.name ∧
      out sender domain.name = some domain.domainType

def Apart (out : Outstanding) : Signal → Prop
  | .added sender _ name _ => ∀ sender' name', (out sender' name').isSome = true →
      componentId sender' name' = componentId sender name → sender' = sender ∧ name' = name
  | .removed sender _ name => name ≠ "" → ∀ sender' name', (out sender' name').isSome = true →
      componentId sender' name' = componentId sender name → sender' = sender ∧ name' = name

def Announced (out : Outstanding) : Signal → Prop
  | .added _ _ _ _ => True
  | .removed sender domainType name =>
    if name ≠ "" then domainType ≠ "" ∨ out sender name = none
    else ∀ sender' name', out sender' name' ≠ some domainType

def AllCurrent (s : System) : Prop :=
  ∀ client ∈ env.clients, Current env s (listNames env s) client

variable {env} {s : System} {out : Outstanding}

theorem Tracks.of_set (tracks : Tracks s out) {sender domainType name : String}
    (services : Option (List String)) {t : System}
    (apart : ∀ sender' name', (out sender' name').isSome = true →
      componentId sender' name' = componentId sender name → sender' = sender ∧ name' = name)
    (after : t.domainNames = s.domainNames.set (componentId sender name)
      ⟨componentId sender name, name, domainType, services⟩) :
    Tracks t fun sender' name' =>
      if sender' = sender ∧ name' = name then some domainType else out sender' name' := by
  constructor
  · intro sender' name' type outstanding
    rw [after, OrderedDict.get?_set]
    by_cases here : sender' = sender ∧ name' = name
    · rw [if_pos here] at outstanding
      cases outstanding
      rw [here.1, here.2, if_pos rfl]
      exact ⟨services, rfl⟩
    · rw [if_neg here] at outstanding
      have other : componentId sender' name' ≠ componentId sender name := fun same =>
        here (apart sender' name' (by rw [outstanding]; rfl) same)
      rw [if_neg other]
      exact tracks.stored sender' name' type outstanding
  · intro key domain found
    rw [after, OrderedDict.get?_set] at found
    by_cases here : key = componentId sender name
    · rw [if_pos here] at found
      cases found
      exact ⟨sender, here, if_pos ⟨rfl, rfl⟩⟩
    · rw [if_neg here] at found
      obtain ⟨sender', rfl, outstanding⟩ := tracks.listed key domain found
      refine ⟨sender', rfl, ?_⟩
      rw [if_neg, outstanding]
      rintro ⟨rfl, same⟩
      exact here (by rw [same])

theorem Tracks.of_erase (tracks : Tracks s out) {sender name : String} {t : System}
    (apart : ∀ sender' name', (out sender' name').isSome = true →
      componentId sender' name' = componentId sender name → sender' = sender ∧ name' = name)
    (after : t.domainNames = s.domainNames.erase (componentId sender name)) :
    Tracks t fun sender' name' =>
      if sender' = sender ∧ name' = name then none else out sender' name' := by
  constructor
  · intro sender' name' type outstanding
    by_cases here : sender' = sender ∧ name' = name
    · rw [if_pos here] at outstanding
      cases outstanding
    · rw [if_neg here] at outstanding
      have other : componentId sender' name' ≠ componentId sender name := fun same =>
        here (apart sender' name' (by rw [outstanding]; rfl) same)
      rw [after, OrderedDict.get?_erase, if_neg other]
      exact tracks.stored sender' name' type outstanding
  · intro key domain found
    rw [after, OrderedDict.get?_erase] at found
    by_cases here : key = componentId sender name
    · rw [if_pos here] at found
      cases found
    · rw [if_neg here] at found
      obtain ⟨sender', rfl, outstanding⟩ := tracks.listed key domain found
      refine ⟨sender', rfl, ?_⟩
      rw [if_neg, outstanding]
      rintro ⟨rfl, same⟩
      exact here (by rw [same])

structure Invariant (env : Registered) (s : System) (out : Outstanding) : Prop where
  tracks : Tracks s out
  current : AllCurrent env s

theorem Tracks.get?_iff (tracks : Tracks s out) {sender name : String}
    (apart : ∀ sender' name', (out sender' name').isSome = true →
      componentId sender' name' = componentId sender name → sender' = sender ∧ name' = name) :
    (s.domainNames.get? (componentId sender name)).isSome = (out sender name).isSome := by
  rw [Bool.eq_iff_iff]
  constructor
  · intro found
    obtain ⟨domain, found⟩ := Option.isSome_iff_exists.mp found
    obtain ⟨sender', same, outstanding⟩ := tracks.listed _ domain found
    obtain ⟨rfl, rfl⟩ := apart sender' domain.name (by rw [outstanding]; rfl) same.symm
    rw [outstanding]
    rfl
  · intro outstanding
    obtain ⟨domainType, outstanding⟩ := Option.isSome_iff_exists.mp outstanding
    obtain ⟨services, found⟩ := tracks.stored sender name domainType outstanding
    rw [found]
    rfl

theorem Invariant.added (inv : Invariant env s out) (expandable : env.Expandable)
    (sender domainType name : String) (services : Services)
    (apart : Apart out (.added sender domainType name services)) :
    Invariant env (send env s (.added sender domainType name services))
      (out.after env (.added sender domainType name services)) := by
  unfold send handler onDomainAdded Outstanding.after
  dsimp only
  by_cases valid : domainType ≠ "" ∧ name ≠ ""
  · rw [when_of valid]
    cases known : env.priority domainType with
    | none =>
      have refused : register env sender domainType name services =
          throw (KeyError (.str domainType)) := by
        unfold register
        rw [known]
      rw [refused, exec_bind, exec_throw]
      simpa [valid] using inv
    | some priority =>
      have registers : register env sender domainType name services = modify fun s =>
          { s with
            domainNames := s.domainNames.set (componentId sender name)
              ⟨componentId sender name, name, domainType, normalizeServices services⟩ } := by
        unfold register
        rw [known]
      rw [registers, exec_bind, exec_modify]
      dsimp only
      obtain ⟨t, ran, same, current⟩ := exec_updateDomainsForAll env expandable
        { s with
          domainNames := s.domainNames.set (componentId sender name)
            ⟨componentId sender name, name, domainType, normalizeServices services⟩ }
      rw [ran, if_pos ⟨valid.1, valid.2, rfl⟩]
      exact ⟨inv.tracks.of_set (normalizeServices services) apart same, current⟩
  · rw [when_of_not valid, if_neg fun all => valid ⟨all.1, all.2.1⟩]
    exact inv

theorem Invariant.removed (inv : Invariant env s out) (expandable : env.Expandable)
    (sender domainType name : String) (apart : Apart out (.removed sender domainType name))
    (announced : Announced out (.removed sender domainType name)) :
    Invariant env (send env s (.removed sender domainType name))
      (out.after env (.removed sender domainType name)) := by
  unfold send handler onDomainRemoved Outstanding.after
  dsimp only
  by_cases named : name ≠ ""
  · have apart := apart named
    have same := inv.tracks.get?_iff apart
    simp only [if_pos named, Announced] at announced ⊢
    rw [exec_bind, exec_get]
    dsimp only
    cases found : s.domainNames.get? (componentId sender name) with
    | none =>
      rw [found] at same
      have none : out sender name = none := Option.isSome_eq_false_iff.mp same.symm |>
        Option.isNone_iff_eq_none.mp
      have unchanged : (fun sender' name' =>
          if sender' = sender ∧ name' = name then Option.none else out sender' name') = out := by
        funext sender' name'
        split
        · rename_i here
          rw [here.1, here.2, none]
        · rfl
      rw [unchanged]
      exact inv
    | some domain =>
      rw [found] at same
      have typed : domainType ≠ "" := by
        rcases announced with typed | none
        · exact typed
        · rw [none] at same
          cases same
      dsimp only
      rw [exec_bind]
      show Invariant env (((when (domainType ≠ "") (updateDomainsForAll env)).exec
        { s with domainNames := s.domainNames.erase (componentId sender name) }).2) _
      rw [when_of typed]
      obtain ⟨t, ran, same, current⟩ := exec_updateDomainsForAll env expandable
        { s with domainNames := s.domainNames.erase (componentId sender name) }
      rw [ran]
      exact ⟨inv.tracks.of_erase apart same, current⟩
  · simp only [if_neg named, Announced] at announced ⊢
    have all : s.domainNames.filter (fun entry => entry.2.domainType ≠ domainType) =
        s.domainNames := by
      apply OrderedDict.ext
      apply List.filter_eq_self.mpr
      intro entry member
      apply decide_eq_true
      intro same
      have found : s.domainNames.get? entry.1 = some entry.2 :=
        (OrderedDict.get?_eq_some_iff ..).mpr member
      obtain ⟨sender', _, outstanding⟩ := inv.tracks.listed _ _ found
      rw [same] at outstanding
      exact announced sender' entry.2.name outstanding
    have unchanged : (fun sender' name' =>
        if out sender' name' = some domainType then none else out sender' name') = out := by
      funext sender' name'
      rw [if_neg (announced sender' name')]
    rw [unchanged, exec_modify, all]
    exact inv

/-! ## Runs -/

def step (env : Registered) (state : System × Outstanding) (signal : Signal) :
    System × Outstanding :=
  (send env state.1 signal, state.2.after env signal)

def HighestOutstanding (env : Registered) (out : Outstanding) (name : String) (priority : Int) :
    Prop :=
  (∃ sender domainType, out sender name = some domainType ∧
      (env.priority domainType).getD 0 = priority) ∧
    ∀ sender domainType, out sender name = some domainType →
      (env.priority domainType).getD 0 ≤ priority

structure Correct (env : Registered) (s : System) (out : Outstanding) : Prop where
  listed : ∀ name, name ∈ listNames env s ↔ ∃ sender domainType, out sender name = some domainType
  once : (listNames env s).Nodup
  ordered : (listNames env s).Pairwise fun name other => ∀ priority otherPriority,
    HighestOutstanding env out name priority →
      HighestOutstanding env out other otherPriority →
        otherPriority < priority ∨ (priority = otherPriority ∧ name < other)
  stored : ∀ sender name domainType, out sender name = some domainType →
    ∃ services, s.domainNames.get? (componentId sender name) =
      some ⟨componentId sender name, name, domainType, services⟩
  current : AllCurrent env s

theorem Tracks.isHighest_iff (tracks : Tracks s out) (name : String) (priority : Int) :
    IsHighest env (listDomains env s) name priority ↔
      HighestOutstanding env out name priority := by
  have found_iff (domain : DomainName) : domain ∈ listDomains env s →
      ∃ sender, out sender domain.name = some domain.domainType := by
    intro member
    obtain ⟨key, found⟩ := (mem_listDomains_iff env s domain).mp member
    obtain ⟨sender, _, outstanding⟩ := tracks.listed key domain found
    exact ⟨sender, outstanding⟩
  have listed {sender name domainType : String} (outstanding : out sender name = some domainType) :
      ∃ domain ∈ listDomains env s, domain.name = name ∧
        domain.priority env = (env.priority domainType).getD 0 := by
    obtain ⟨services, found⟩ := tracks.stored sender name domainType outstanding
    exact ⟨_, (mem_listDomains_iff env s _).mpr ⟨_, found⟩, rfl, rfl⟩
  constructor
  · rintro ⟨⟨domain, member, rfl, rfl⟩, highest⟩
    obtain ⟨sender, outstanding⟩ := found_iff domain member
    refine ⟨⟨sender, domain.domainType, outstanding, rfl⟩, ?_⟩
    intro sender' domainType outstanding'
    obtain ⟨other, member', named, same⟩ := listed outstanding'
    rw [← same]
    exact highest other member' named
  · rintro ⟨⟨sender, domainType, outstanding, rfl⟩, highest⟩
    constructor
    · obtain ⟨domain, member, named, same⟩ := listed outstanding
      exact ⟨domain, member, named, same⟩
    · rintro domain member rfl
      obtain ⟨sender', outstanding'⟩ := found_iff domain member
      exact highest sender' domain.domainType outstanding'

theorem Invariant.correct (inv : Invariant env s out) : Correct env s out := by
  constructor
  · intro name
    unfold listNames
    rw [uniqueNames_eq, mem_firsts_iff, List.mem_map]
    constructor
    · rintro ⟨domain, member, rfl⟩
      obtain ⟨key, found⟩ := (mem_listDomains_iff env s domain).mp member
      obtain ⟨sender, _, outstanding⟩ := inv.tracks.listed key domain found
      exact ⟨sender, domain.domainType, outstanding⟩
    · rintro ⟨sender, domainType, outstanding⟩
      obtain ⟨services, found⟩ := inv.tracks.stored sender name domainType outstanding
      exact ⟨_, (mem_listDomains_iff env s _).mpr ⟨_, found⟩, rfl⟩
  · unfold listNames
    rw [uniqueNames_eq]
    exact firsts_nodup _
  · unfold listNames
    rw [uniqueNames_eq]
    apply (firsts_precede env (listDomains env s) (listDomains_sorted env s)).imp
    intro name other precedes priority otherPriority highest otherHighest
    exact precedes priority otherPriority ((inv.tracks.isHighest_iff name priority).mpr highest)
      ((inv.tracks.isHighest_iff other otherPriority).mpr otherHighest)
  · exact inv.tracks.stored
  · exact inv.current

/-- The registry follows the signals, and so do the clients, in every run of signals whose keys
do not coincide and whose removals the clients are told of. -/
theorem registry_follows_signals (env : Registered) (expandable : env.Expandable) (s : System)
    (empty : s.domainNames = .empty) (current : AllCurrent env s) (signals : List Signal)
    (apart : Runs.Throughout (step env) (fun state signal => Apart state.2 signal)
      (s, fun _ _ => none) signals)
    (announced : Runs.Throughout (step env) (fun state signal => Announced state.2 signal)
      (s, fun _ _ => none) signals) :
    let after := Runs.run (step env) (s, fun _ _ => none) signals
    Correct env after.1 after.2 := by
  have initial : Invariant env s fun _ _ => none := by
    refine ⟨⟨fun _ _ _ => nofun, ?_⟩, current⟩
    intro key domain found
    rw [empty] at found
    cases found
  have both : Runs.Throughout (step env)
      (fun state signal => Apart state.2 signal ∧ Announced state.2 signal)
      (s, fun _ _ => none) signals := by
    rw [Runs.throughout_iff] at apart announced ⊢
    intro before signal after split
    exact ⟨apart before signal after split, announced before signal after split⟩
  apply Invariant.correct
  apply Runs.invariant_run_of_throughout (fun state => Invariant env state.1 state.2) _
    (s, fun _ _ => none) signals initial both
  intro state signal inv guarded
  cases signal with
  | added sender domainType name services =>
    exact inv.added expandable sender domainType name services guarded.1
  | removed sender domainType name =>
    exact inv.removed expandable sender domainType name guarded.1 guarded.2

/-! ## Two senders -/

def noObjects : Format.Objects String where
  ofStr := id
  getattr := fun _ name => .error (AttributeError name)
  getitem := fun _ _ => .error (TypeError "string indices must be integers")
  str := .ok
  repr := .ok
  ascii := .ok
  format := fun text _ => .ok text

def torAndStatic : Registered where
  priority := fun domainType =>
    if domainType = "domain-type-static" then some 100
    else if domainType = "domain-type-tor" then some 50
    else none
  clients := [⟨"apache", ["https://localhost/apache/oidc/callback"]⟩]
  digits := ⟨fun _ => none, fun _ => false⟩
  objects := noObjects
  iterate := id

theorem torAndStatic_expandable : torAndStatic.Expandable where
  distinct := List.nodup_singleton _
  expands := by
    intro client member names
    rw [List.mem_singleton.mp member]
    exact ⟨⟨"https://localhost/apache/oidc/callback", getAllowedOrigins torAndStatic names⟩, rfl⟩

def noDomains : System where
  domainNames := .empty
  applications := fun _ =>
    some ⟨"https://localhost/apache/oidc/callback", getAllowedOrigins torAndStatic []⟩

theorem listNames_noDomains : listNames torAndStatic noDomains = [] := by
  unfold listNames listDomains
  show uniqueNames ((List.mergeSort [] _).map DomainName.name) = []
  rw [List.mergeSort_nil]
  rfl

theorem noDomains_current : AllCurrent torAndStatic noDomains := by
  intro client member
  rw [List.mem_singleton.mp member, listNames_noDomains]
  exact ⟨_, rfl, rfl⟩

theorem registry_follows_one_signal :
    "freedombox.example" ∈ listNames torAndStatic
      (send torAndStatic noDomains
        (.added "names" "domain-type-static" "freedombox.example" .all)) := by
  have correct := registry_follows_signals torAndStatic torAndStatic_expandable noDomains rfl
    noDomains_current [.added "names" "domain-type-static" "freedombox.example" .all]
    ⟨fun _ _ => nofun, trivial⟩ ⟨trivial, trivial⟩
  exact (correct.listed _).mpr ⟨"names", "domain-type-static", by decide⟩

def afterSignals (signals : List Signal) : System × Outstanding :=
  Runs.run (step torAndStatic) (noDomains, fun _ _ => none) signals

def collidingSignals : List Signal :=
  [.added "a" "domain-type-static" "b-c" .all, .added "a-b" "domain-type-static" "c" .all,
    .removed "a" "domain-type-static" "b-c"]

def torSignals : List Signal :=
  [.added "tor" "domain-type-tor" "x.onion" .all, .removed "tor" "domain-type-tor" ""]

theorem listNames_of_singleton {s : System} {domain : DomainName}
    (one : s.domainNames.values = [domain]) : listNames env s = [domain.name] := by
  unfold listNames listDomains
  rw [one, List.mergeSort_singleton]
  rfl

theorem applications_after_tor :
    ((afterSignals torSignals).1.applications "apache").map Application.allowedOrigins =
      some "https://x.onion https://localhost" := by
  have tracked : Tracks noDomains fun _ _ => none :=
    ⟨fun _ _ _ => nofun, fun _ _ => nofun⟩
  have added : Invariant torAndStatic (send torAndStatic noDomains
      (.added "tor" "domain-type-tor" "x.onion" .all)) _ :=
    Invariant.added ⟨tracked, noDomains_current⟩ torAndStatic_expandable "tor" "domain-type-tor"
      "x.onion" .all (fun _ _ => nofun)
  obtain ⟨application, expanded, stored⟩ := added.current _ List.mem_cons_self
  rw [listNames_of_singleton (by rfl)] at expanded
  cases expanded
  have same : (afterSignals torSignals).1.applications "apache" = _ := stored
  rw [same]
  decide

theorem listNames_of_empty {s : System} (empty : s.domainNames.entries = []) :
    listNames env s = [] := by
  unfold listNames listDomains OrderedDict.values
  rw [empty, List.map_nil, List.mergeSort_nil]
  rfl

theorem registry_out_of_step :
    ((afterSignals collidingSignals).2 "a-b" "c" = some "domain-type-static" ∧
        "c" ∉ listNames torAndStatic (afterSignals collidingSignals).1) ∧
      ((afterSignals torSignals).1.applications "apache").map Application.allowedOrigins =
          some "https://x.onion https://localhost" ∧
        getAllowedOrigins torAndStatic (listNames torAndStatic (afterSignals torSignals).1) =
          "https://localhost" := by
  refine ⟨⟨by decide, ?_⟩, applications_after_tor, ?_⟩
  · rw [listNames_of_empty (by rfl)]
    exact List.not_mem_nil
  · rw [listNames_of_empty (by rfl)]
    rfl

end

end Plinth.DomainNames
