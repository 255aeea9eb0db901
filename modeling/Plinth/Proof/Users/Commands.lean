import Plinth.Proof.Users.Directory

/-!
# Commands that have to succeed

How many commands an action takes, and what it returns with when none of them fails.
-/

namespace Plinth.Users.Ldap

open Python Exception Effect

variable {fold : String → String} {oldUsername newUsername : String} {m m' : Machine}

/-! ## Commands that fail -/

namespace Machine

def Fails (m : Machine) (place : Nat) : Prop :=
  m.faults[place]? = some true

def Steady (m : Machine) (count : Nat) : Prop :=
  ∀ place < count, ¬ m.Fails place

theorem steady_zero (m : Machine) : m.Steady 0 :=
  fun _ impossible => absurd impossible (Nat.not_lt_zero _)

theorem steady_add {first later : Nat} (faults : m'.faults = m.faults.drop first) :
    m.Steady (first + later) ↔ m.Steady first ∧ m'.Steady later := by
  have shifted : ∀ place, m'.Fails place ↔ m.Fails (first + place) := by
    intro place
    rw [Fails, faults, List.getElem?_drop, Fails]
  constructor
  · intro steady
    refine ⟨fun place before => steady place (Nat.lt_add_right _ before), ?_⟩
    intro place before
    rw [shifted]
    exact steady _ (Nat.add_lt_add_left before first)
  · rintro ⟨steady, steady'⟩ place before
    by_cases early : place < first
    · exact steady place early
    · have split : place = first + (place - first) := by omega
      rw [split, ← shifted]
      exact steady' _ (by omega)

theorem Steady.mono {count count' : Nat} (steady : m.Steady count') (fewer : count ≤ count') :
    m.Steady count :=
  fun place before => steady place (Nat.lt_of_lt_of_le before fewer)

end Machine

structure Follows (count : Nat) (m m' : Machine) : Prop where
  accounts : m'.accounts = m.accounts
  groups : m'.groups = m.groups
  homes : m'.homes = m.homes
  faults : m'.faults = m.faults.drop count

theorem Follows.trans {count count' : Nat} {m'' : Machine} (first : Follows count m m')
    (second : Follows count' m' m'') : Follows (count + count') m m'' where
  accounts := second.accounts.trans first.accounts
  groups := second.groups.trans first.groups
  homes := second.homes.trans first.homes
  faults := by rw [second.faults, first.faults, List.drop_drop]

def Machine.next (m : Machine) : Machine :=
  { m with faults := m.faults.tail }

theorem follows_next (m : Machine) : Follows 1 m m.next :=
  ⟨rfl, rfl, rfl, List.drop_one.symm⟩

theorem steady_one : m.Steady 1 ↔ m.faults.head? ≠ some true := by
  have first : m.Fails 0 ↔ m.faults.head? = some true := by
    rw [Machine.Fails, ← List.head?_eq_getElem?]
  constructor
  · intro steady fails
    exact steady 0 Nat.zero_lt_one (first.mpr fails)
  · intro steady place before
    rw [Nat.lt_one_iff] at before
    rw [before, first]
    exact steady

theorem exec_fails : fails.exec m = (.ok (decide (m.faults.head? = some true)), m.next) :=
  rfl

theorem exec_command {failure : Exception} {change : Machine → Option Machine} :
    (command failure change).exec m =
      if m.faults.head? = some true then (.error failure, m.next)
      else match change m.next with
        | none => (.error failure, m.next)
        | some m' => (.ok (), m') := by
  rw [command, exec_bind_of_ok exec_fails]
  by_cases failing : m.faults.head? = some true
  · rw [if_pos failing, if_pos (decide_eq_true failing)]
    rfl
  · rw [if_neg failing, if_neg (by simpa using failing), exec_bind, exec_get]
    dsimp only
    cases change m.next <;> rfl

theorem command_returns_iff {failure : Exception} {change : Machine → Option Machine} :
    (command failure change).exec m = (.ok (), m') ↔ m.Steady 1 ∧ change m.next = some m' := by
  rw [exec_command, steady_one]
  by_cases failing : m.faults.head? = some true
  · simp [failing]
  · rw [if_neg failing]
    cases change m.next <;> simp [failing]

/-! ## Programs that take a number of commands -/

structure Takes {α : Type} (program : Action α) (m : Machine) (count : Nat) (condition : Prop)
    (result : α → Machine → Prop) : Prop where
  returns : m.Steady count → condition → ∃ a m', program.exec m = (.ok a, m')
  spec : ∀ a m', program.exec m = (.ok a, m') → m.Steady count ∧ condition ∧ result a m'

section Takes

variable {α β : Type} {condition condition' : Prop} {count count' : Nat}

theorem takes_pure (a : α) (m : Machine) :
    Takes (pure a) m 0 True fun b m' => b = a ∧ m' = m where
  returns _ _ := ⟨a, m, rfl⟩
  spec b m' returned := by
    cases returned
    exact ⟨m.steady_zero, trivial, rfl, rfl⟩

theorem takes_throw (e : Exception) (m : Machine) (result : α → Machine → Prop) :
    Takes (throw e : Action α) m count False result where
  returns _ impossible := impossible.elim
  spec a m' returned := by cases returned

theorem takes_command (failure : Exception) (change : Machine → Option Machine) (m : Machine) :
    Takes (command failure change) m 1 (change m.next ≠ none) fun _ m' =>
      change m.next = some m' where
  returns steady changes := by
    obtain ⟨m', changed⟩ := Option.ne_none_iff_exists'.mp changes
    exact ⟨(), m', command_returns_iff.mpr ⟨steady, changed⟩⟩
  spec a m' returned := by
    obtain ⟨steady, changed⟩ := command_returns_iff.mp returned
    exact ⟨steady, by simp [changed], changed⟩

theorem takes_lookUp (m : Machine) : Takes lookUp m 1 True fun _ m' => m' = m.next where
  returns steady _ := ⟨(), m.next, command_returns_iff.mpr ⟨steady, rfl⟩⟩
  spec a m' returned := by
    obtain ⟨steady, changed⟩ := command_returns_iff.mp returned
    exact ⟨steady, trivial, (Option.some.inj changed).symm⟩

theorem Takes.bind {program : Action α} {rest : α → Action β} {result : α → Machine → Prop}
    {result' : β → Machine → Prop} (first : Takes program m count condition result)
    (faults : ∀ a m', result a m' → m'.faults = m.faults.drop count)
    (later : ∀ a m', result a m' → Takes (rest a) m' count' condition' result') :
    Takes (program >>= rest) m (count + count') (condition ∧ condition') result' where
  returns steady holds := by
    have early := steady.mono (Nat.le_add_right count count')
    obtain ⟨a, m', ran⟩ := first.returns early holds.1
    have here := (first.spec a m' ran).2.2
    obtain ⟨b, m'', ran'⟩ := (later a m' here).returns
      ((Machine.steady_add (faults a m' here)).mp steady).2 holds.2
    exact ⟨b, m'', exec_bind_eq_ok_iff.mpr ⟨a, m', ran, ran'⟩⟩
  spec b m'' returned := by
    obtain ⟨a, m', ran, ran'⟩ := exec_bind_eq_ok_iff.mp returned
    obtain ⟨early, holds, here⟩ := first.spec a m' ran
    obtain ⟨late, holds', result⟩ := (later a m' here).spec b m'' ran'
    exact ⟨(Machine.steady_add (faults a m' here)).mpr ⟨early, late⟩, ⟨holds, holds'⟩, result⟩

theorem Takes.conseq {program : Action α} {result result' : α → Machine → Prop}
    (takes : Takes program m count condition result) (same : condition ↔ condition')
    (weaker : ∀ a m', result a m' → condition' → result' a m') :
    Takes program m count condition' result' where
  returns steady holds := takes.returns steady (same.mpr holds)
  spec a m' returned := by
    obtain ⟨steady, holds, here⟩ := takes.spec a m' returned
    exact ⟨steady, same.mp holds, weaker a m' here (same.mp holds)⟩

theorem Takes.get {rest : Machine → Action β} {result : β → Machine → Prop}
    (later : Takes (rest m) m count condition result) :
    Takes (MonadState.get >>= rest) m count condition result := by
  have same : (MonadState.get >>= rest).exec m = (rest m).exec m := by
    rw [exec_bind]
    rfl
  constructor
  · intro steady holds
    rw [same]
    exact later.returns steady holds
  · intro a m' returned
    rw [same] at returned
    exact later.spec a m' returned

theorem Takes.lookUp {rest : Machine → Action β} {result : β → Machine → Prop}
    (later : Takes (rest m.next) m.next count condition result) :
    Takes (do Ldap.lookUp; let m ← MonadState.get; rest m) m (1 + count) condition result := by
  have looked : Takes (do Ldap.lookUp; let m ← MonadState.get; rest m) m (1 + count)
      (True ∧ condition) result := by
    refine (takes_lookUp m).bind (fun _ _ same => same ▸ (follows_next m).faults) ?_
    rintro - m' rfl
    exact later.get
  exact looked.conseq (by simp) fun _ _ here _ => here

theorem Takes.bind_always {program : Action α} {rest : α → Action β}
    {result : α → Machine → Prop} {result' : β → Machine → Prop}
    (first : Takes program m count True result) (count' : Nat)
    (faults : ∀ a m', result a m' → m'.faults = m.faults.drop count)
    (later : ∀ a m', result a m' → Takes (rest a) m' count' condition' result') :
    Takes (program >>= rest) m (count + count') condition' result' :=
  (first.bind faults later).conseq (by simp) fun _ _ here _ => here

end Takes

/-! ## Before the directory changes -/

def ValidName (username : String) : Prop :=
  (pathParts username.toList).getLast? = some username.toList

theorem takes_validateUsername (username : String) (m : Machine) :
    Takes (validateUsername username) m 0 (ValidName username) fun _ m' => m' = m := by
  unfold validateUsername ValidName
  cases (pathParts username.toList).getLast? with
  | none => exact (takes_throw _ m _).conseq (by simp) fun _ _ impossible => impossible
  | some part =>
    dsimp only
    by_cases same : part = username.toList
    · rw [if_neg (not_not.mpr same)]
      exact (takes_pure () m).conseq (by simp [same]) fun _ _ found _ => found.2
    · rw [if_pos same]
      exact (takes_throw _ m _).conseq (by simp [same]) fun _ _ impossible => impossible

def knownGroups (fold : String → String) (m : Machine) (username : String) : List String :=
  match m.account? fold username with
  | none => []
  | some _ => m.groupsOf fold username

theorem takes_getUserGroups (username : String) (m : Machine) :
    Takes (getUserGroups fold username) m 1 True fun groups m' =>
      groups = knownGroups fold m username ∧ m' = m.next := by
  have found : Takes (getUserGroups fold username) m (1 + 0) True fun groups m' =>
      groups = knownGroups fold m username ∧ m' = m.next := by
    have same : m.next.account? fold username = m.account? fold username := rfl
    unfold getUserGroups
    apply Takes.lookUp
    rw [knownGroups, same]
    cases m.account? fold username <;> exact takes_pure _ _
  exact found

def sambaCommands (m : Machine) (username : String) : Nat :=
  if username ∈ m.samba then 3 else 1

theorem takes_deleteSambaUser (username : String) (m : Machine) :
    Takes (deleteSambaUser username) m (sambaCommands m username) True fun _ m' =>
      Follows (sambaCommands m username) m m' := by
  have users : Takes getSambaUsers m (1 + 0) True fun users m' =>
      users = m.samba ∧ m' = m.next :=
    (takes_pure m.samba m.next).lookUp
  unfold deleteSambaUser sambaCommands
  by_cases member : username ∈ m.samba
  · rw [if_pos member]
    refine users.bind_always 2 ?_ ?_
    · rintro - - ⟨-, rfl⟩
      exact (follows_next m).faults
    rintro - - ⟨rfl, rfl⟩
    rw [if_pos member]
    have removed : Takes
        (run fun m => some { m with samba := m.samba.filter (· ≠ username) }) m.next 1 True fun _ m' => Follows 2 m m' := by
      refine (takes_command CalledProcessError _ m.next).conseq (by simp) ?_
      rintro - m' changed -
      cases changed
      have second : Follows 1 m.next
          { m.next.next with samba := m.next.next.samba.filter (· ≠ username) } :=
        ⟨rfl, rfl, rfl, (follows_next m.next).faults⟩
      exact (follows_next m).trans second
    refine removed.bind_always 1 ?_ ?_
    · intro _ m' follows
      rw [follows.faults, (follows_next m).faults, List.drop_drop]
    intro _ m' follows
    refine (takes_lookUp m').conseq Iff.rfl ?_
    rintro - - rfl -
    exact follows.trans (follows_next m')
  · rw [if_neg member]
    refine users.bind_always 0 ?_ ?_
    · rintro - - ⟨-, rfl⟩
      exact (follows_next m).faults
    rintro - - ⟨rfl, rfl⟩
    rw [if_neg member]
    refine (takes_pure () m.next).conseq Iff.rfl ?_
    rintro - - ⟨-, rfl⟩ -
    exact follows_next m

/-! ## Memberships -/

def DistinctGroups (fold : String → String) (m : Machine) : Prop :=
  (m.groups.map fun group => fold group.name).Nodup

def removed (fold : String → String) (username : String) (group : Group) : Group :=
  { group with members := group.members.filter fun member => fold member ≠ fold username }

def added (username : String) (group : Group) : Group :=
  { group with members := group.members ++ [username] }

theorem name_removed (fold : String → String) (username : String) (group : Group) :
    (removed fold username group).name = group.name := rfl

theorem name_added (username : String) (group : Group) :
    (added username group).name = group.name := rfl

def among (fold : String → String) (names : List String) (change : Group → Group)
    (group : Group) : Group :=
  if fold group.name ∈ names.map fold then change group else group

theorem mapGroup_eq_among (name : String) (change : Group → Group) :
    (m.mapGroup fold name change).groups = m.groups.map (among fold [name] change) := by
  unfold Machine.mapGroup among
  simp

theorem name_among {names : List String} {change : Group → Group}
    (keeps : ∀ group, (change group).name = group.name) (group : Group) :
    (among fold names change group).name = group.name := by
  unfold among
  split
  · exact keeps group
  · rfl

theorem among_cons {name : String} {names : List String} {change : Group → Group}
    (keeps : ∀ group, (change group).name = group.name)
    (apart : fold name ∉ names.map fold) (group : Group) :
    among fold names change (among fold [name] change group) =
      among fold (name :: names) change group := by
  by_cases here : fold group.name = fold name
  · have once : among fold [name] change group = change group := by simp [among, here]
    have all : among fold (name :: names) change group = change group := by simp [among, here]
    rw [once, all, among, keeps, here, if_neg apart]
  · have kept : among fold [name] change group = group := by simp [among, here]
    rw [kept, among, among, List.map_cons]
    simp [here]

theorem group?_of_mem (distinct : DistinctGroups fold m) {group : Group}
    (member : group ∈ m.groups) : m.group? fold group.name = some group := by
  unfold Machine.group?
  unfold DistinctGroups at distinct
  generalize m.groups = groups at distinct member
  induction groups with
  | nil => cases member
  | cons first rest ih =>
    rw [List.map_cons, List.nodup_cons] at distinct
    rw [List.find?_cons]
    rcases List.mem_cons.mp member with rfl | later
    · simp
    · have other : fold first.name ≠ fold group.name := by
        intro same
        exact distinct.1 (same ▸ List.mem_map_of_mem later)
      simp only [other, decide_false]
      exact ih distinct.2 later

theorem distinctGroups_map {change : Group → Group}
    (keeps : ∀ group, (change group).name = group.name) (distinct : DistinctGroups fold m)
    (groups : m'.groups = m.groups.map change) : DistinctGroups fold m' := by
  have same : m'.groups.map (fun group => fold group.name) =
      m.groups.map fun group => fold group.name := by
    rw [groups, List.map_map]
    apply List.map_congr_left
    intro group _
    exact congrArg fold (keeps group)
  unfold DistinctGroups
  rw [same]
  exact distinct

theorem distinctGroups_of_groups (distinct : DistinctGroups fold m)
    (groups : m'.groups = m.groups) : DistinctGroups fold m' := by
  rw [DistinctGroups, groups]
  exact distinct

structure Regroups (count : Nat) (change : Group → Group) (m m' : Machine) : Prop where
  accounts : m'.accounts = m.accounts
  groups : m'.groups = m.groups.map change
  homes : m'.homes = m.homes
  faults : m'.faults = m.faults.drop count

theorem Regroups.trans {count count' : Nat} {change change' : Group → Group} {m'' : Machine}
    (first : Regroups count change m m') (second : Regroups count' change' m' m'') :
    Regroups (count + count') (change' ∘ change) m m'' where
  accounts := second.accounts.trans first.accounts
  groups := by rw [second.groups, first.groups, List.map_map]
  homes := second.homes.trans first.homes
  faults := by rw [second.faults, first.faults, List.drop_drop]

theorem regroups_zero {change : Group → Group} (m : Machine) :
    Regroups 0 (among fold [] change) m m where
  accounts := rfl
  groups := by
    have same : ∀ group ∈ m.groups, among fold [] change group = group := by
      intro group _
      simp [among]
    rw [List.map_congr_left same, List.map_id']
  homes := rfl
  faults := rfl

theorem Regroups.cons {count count' : Nat} {name : String} {names : List String}
    {change : Group → Group} {m'' : Machine} (keeps : ∀ group, (change group).name = group.name)
    (apart : fold name ∉ names.map fold) (first : Regroups count (among fold [name] change) m m')
    (second : Regroups count' (among fold names change) m' m'') :
    Regroups (count + count') (among fold (name :: names) change) m m'' := by
  have both := first.trans second
  have same : among fold names change ∘ among fold [name] change =
      among fold (name :: names) change := funext (among_cons keeps apart)
  rwa [same] at both

theorem group?_of_fold (distinct : DistinctGroups fold m) {group : Group} {name : String}
    (member : group ∈ m.groups) (same : fold group.name = fold name) :
    m.group? fold name = some group := by
  have found := group?_of_mem distinct member
  unfold Machine.group? at found ⊢
  rwa [← same]

theorem mem_groups_among {name other : String} {change : Group → Group}
    (regroups : m'.groups = m.groups.map (among fold [name] change))
    (apart : fold other ≠ fold name) {group : Group} (same : fold group.name = fold other)
    (member : group ∈ m.groups) : group ∈ m'.groups := by
  rw [regroups]
  refine List.mem_map.mpr ⟨group, member, ?_⟩
  simp [among, same, apart]

theorem takes_removeMember (distinct : DistinctGroups fold m) {group : Group} {name : String}
    (member : group ∈ m.groups) (same : fold group.name = fold name)
    (has : group.has fold oldUsername = true) :
    Takes (removeMember fold oldUsername name) m 1 True fun _ m' =>
      Regroups 1 (among fold [name] (removed fold oldUsername)) m m' := by
  have changed : ldapdeleteuserfromgroup fold oldUsername name m.next =
      some (m.next.mapGroup fold name (removed fold oldUsername)) := by
    have found : m.next.group? fold name = some group := group?_of_fold distinct member same
    rw [ldapdeleteuserfromgroup, found]
    dsimp only
    rw [if_pos has]
    rfl
  refine (takes_command CalledProcessError _ m).conseq (by simp [changed]) ?_
  intro _ m' here _
  rw [changed] at here
  cases here
  exact ⟨rfl, mapGroup_eq_among name _, rfl, List.drop_one.symm⟩

theorem takes_removals {names : List String} (distinct : DistinctGroups fold m)
    (nodup : (names.map fold).Nodup) (members : ∀ name ∈ names, ∃ group ∈ m.groups,
      fold group.name = fold name ∧ group.has fold oldUsername = true) :
    Takes (forEach names fun name => removeMember fold oldUsername name) m names.length True
      fun _ m' => Regroups names.length (among fold names (removed fold oldUsername)) m m' := by
  induction names generalizing m with
  | nil =>
    refine (takes_pure () m).conseq Iff.rfl ?_
    rintro - - ⟨-, rfl⟩ -
    exact regroups_zero _
  | cons name rest ih =>
    rw [List.map_cons, List.nodup_cons] at nodup
    obtain ⟨group, member, same, has⟩ := members name List.mem_cons_self
    rw [List.length_cons, Nat.add_comm]
    refine (takes_removeMember distinct member same has).bind_always rest.length
      (fun _ _ regroups => regroups.faults) fun _ m' regroups => ?_
    have keeps : ∀ group, (removed fold oldUsername group).name = group.name := fun _ => rfl
    have distinct' := distinctGroups_map (name_among keeps) distinct regroups.groups
    refine (ih distinct' nodup.2 ?_).conseq Iff.rfl fun _ m'' later _ =>
      regroups.cons keeps nodup.1 later
    intro other listed
    obtain ⟨group', member', same', has'⟩ := members other (List.mem_cons_of_mem _ listed)
    have apart : fold other ≠ fold name :=
      fun same => nodup.1 (same ▸ List.mem_map_of_mem listed)
    exact ⟨group', mem_groups_among regroups.groups apart same' member', same', has'⟩

/-! ## The new name -/

theorem takes_ensureGroup (distinct : DistinctGroups fold m) {group : Group} {name : String}
    (member : group ∈ m.groups) (same : fold group.name = fold name) :
    Takes (ensureGroup fold name) m 1 True fun _ m' => m' = m.next := by
  have found : m.next.group? fold name = some group := group?_of_fold distinct member same
  have taken : ∀ m', ldapaddgroup fold name m' = none ∨ m'.groups ≠ m.groups := by
    intro m'
    by_cases groups : m'.groups = m.groups
    · left
      have found' : m'.group? fold name = some group := by
        rw [Machine.group?, groups]
        exact found
      rw [ldapaddgroup, found']
      rfl
    · exact .inr groups
  have ran : (ensureGroup fold name).exec m =
      if m.faults.head? = some true then (run (ldapaddgroup fold name)).exec m.next
      else (.ok (), m.next) := by
    rw [ensureGroup, exec_bind, groupExists, exec_bind_of_ok exec_fails]
    by_cases failing : m.faults.head? = some true
    · rw [if_pos failing, if_pos (decide_eq_true failing)]
      rfl
    · rw [if_neg failing, if_neg (by simpa using failing), exec_bind, exec_get]
      dsimp only
      rw [found]
      rfl
  constructor
  · intro steady _
    rw [steady_one] at steady
    rw [ran, if_neg steady]
    exact ⟨(), m.next, rfl⟩
  · intro _ m' returned
    rw [ran] at returned
    by_cases failing : m.faults.head? = some true
    · rw [if_pos failing, run, command_returns_iff] at returned
      rcases taken m.next.next with none | other
      · rw [none] at returned
        cases returned.2
      · exact absurd rfl other
    · rw [if_neg failing] at returned
      cases returned
      exact ⟨steady_one.mpr failing, trivial, rfl⟩

theorem takes_addMember (distinct : DistinctGroups fold m) {group : Group} {name : String}
    (member : group ∈ m.groups) (same : fold group.name = fold name) :
    Takes (addMember fold newUsername name) m 2 (group.has fold newUsername = false) fun _ m' =>
      Regroups 2 (among fold [name] (added newUsername)) m m' := by
  refine (takes_ensureGroup distinct member same).bind_always 1 ?_ ?_
  · rintro - - rfl
    exact (follows_next m).faults
  rintro - - rfl
  have found : m.next.next.group? fold name = some group := group?_of_fold distinct member same
  refine (takes_command CalledProcessError _ m.next).conseq ?_ ?_
  · rw [ldapaddusertogroup, found]
    cases has : group.has fold newUsername <;> simp [has]
  · intro _ m' changed _
    rw [ldapaddusertogroup, found] at changed
    dsimp only at changed
    split at changed
    · cases changed
    · cases changed
      refine ⟨rfl, mapGroup_eq_among name _, rfl, ?_⟩
      change m.faults.tail.tail = m.faults.drop 2
      rw [← List.drop_one, ← List.drop_one, List.drop_drop]

theorem has_added_iff (username other : String) (group : Group) :
    (added username group).has fold other = true ↔
      group.has fold other = true ∨ fold username = fold other := by
  simp [Group.has, added]

theorem forall_among_iff {name : String} {names : List String} {change : Group → Group}
    (keeps : ∀ group, (change group).name = group.name) (apart : fold name ∉ names.map fold)
    (regroups : m'.groups = m.groups.map (among fold [name] change)) (P : Group → Prop) :
    (∀ group ∈ m'.groups, fold group.name ∈ names.map fold → P group) ↔
      ∀ group ∈ m.groups, fold group.name ∈ names.map fold → P group := by
  have unchanged : ∀ group : Group, fold group.name ∈ names.map fold →
      among fold [name] change group = group := by
    intro group listed
    have other : fold group.name ≠ fold name := fun same => apart (same ▸ listed)
    simp [among, other]
  rw [regroups, List.forall_mem_map]
  constructor
  · intro holds group member listed
    have here := holds group member
    rw [name_among keeps, unchanged group listed] at here
    exact here listed
  · intro holds group member listed
    rw [name_among keeps] at listed
    rw [unchanged group listed]
    exact holds group member listed

theorem takes_additions {names : List String} (distinct : DistinctGroups fold m)
    (nodup : (names.map fold).Nodup)
    (members : ∀ name ∈ names, ∃ group ∈ m.groups, fold group.name = fold name) :
    Takes (forEach names fun name => addMember fold newUsername name) m (2 * names.length)
      (∀ group ∈ m.groups, fold group.name ∈ names.map fold → group.has fold newUsername = false)
      fun _ m' => Regroups (2 * names.length) (among fold names (added newUsername)) m m' := by
  induction names generalizing m with
  | nil =>
    refine (takes_pure () m).conseq (by simp) ?_
    rintro - - ⟨-, rfl⟩ -
    exact regroups_zero _
  | cons name rest ih =>
    rw [List.map_cons, List.nodup_cons] at nodup
    obtain ⟨group, member, same⟩ := members name List.mem_cons_self
    have count : 2 * (name :: rest).length = 2 + 2 * rest.length := by
      rw [List.length_cons]
      omega
    have keeps : ∀ group, (added newUsername group).name = group.name := fun _ => rfl
    have both : Takes (forEach (name :: rest) fun name => addMember fold newUsername name) m
        (2 + 2 * rest.length) (group.has fold newUsername = false ∧
          ∀ group ∈ m.groups, fold group.name ∈ rest.map fold →
            group.has fold newUsername = false)
        fun _ m' => Regroups (2 + 2 * rest.length)
          (among fold (name :: rest) (added newUsername)) m m' := by
      refine (takes_addMember distinct member same).bind
        (fun _ _ regroups => regroups.faults) fun _ m' regroups => ?_
      have distinct' := distinctGroups_map (name_among keeps) distinct regroups.groups
      have members' : ∀ other ∈ rest, ∃ group ∈ m'.groups, fold group.name = fold other := by
        intro other listed
        obtain ⟨group', member', same'⟩ := members other (List.mem_cons_of_mem _ listed)
        have apart : fold other ≠ fold name :=
          fun same => nodup.1 (same ▸ List.mem_map_of_mem listed)
        exact ⟨group', mem_groups_among regroups.groups apart same' member', same'⟩
      exact (ih distinct' nodup.2 members').conseq
        (forall_among_iff keeps nodup.1 regroups.groups _) fun _ m'' later _ =>
          regroups.cons keeps nodup.1 later
    rw [count]
    refine both.conseq ?_ fun _ _ result _ => result
    constructor
    · rintro ⟨first, others⟩ group' member' listed
      rcases List.mem_cons.mp listed with same' | later
      · have found := group?_of_fold distinct member' same'
        rw [group?_of_fold distinct member same] at found
        cases found
        exact first
      · exact others group' member' later
    · intro all
      refine ⟨all group member ?_, fun group' member' listed => all group' member' ?_⟩
      · rw [List.map_cons, same]
        exact List.mem_cons_self
      · exact List.mem_cons_of_mem _ listed

theorem takes_getUserHome (username : String) (m : Machine) :
    Takes (getUserHome fold username) m 1 (m.account? fold username ≠ none) fun home m' =>
      (∃ account, m.account? fold username = some account ∧ home = account.home) ∧
        Follows 1 m m' := by
  have found : Takes (getUserHome fold username) m (1 + 0) (m.account? fold username ≠ none)
      fun home m' => (∃ account, m.account? fold username = some account ∧
        home = account.home) ∧ Follows 1 m m' := by
    have same : m.next.account? fold username = m.account? fold username := rfl
    unfold getUserHome
    apply Takes.lookUp
    rw [same]
    cases found : m.account? fold username with
    | none => exact (takes_throw _ _ _).conseq (by simp) fun _ _ impossible => impossible
    | some account =>
      refine (takes_pure account.home m.next).conseq (by simp) ?_
      rintro - - ⟨rfl, rfl⟩ -
      exact ⟨⟨account, rfl, rfl⟩, follows_next m⟩
  exact found

def homeCommands (m : Machine) (oldHome newUsername : String) : Nat :=
  if (m.homes.get? newUsername).isSome ∨ m.homes.get? oldHome = none then 0 else 1

structure Settled (count : Nat) (m m' : Machine) : Prop where
  accounts : m'.accounts = m.accounts
  groups : m'.groups = m.groups
  faults : m'.faults = m.faults.drop count

theorem takes_moveHome (oldHome : String) (plain : '/' ∉ newUsername.toList) (m : Machine) :
    Takes (moveHome oldHome newUsername) m (homeCommands m oldHome newUsername) True
      fun _ m' => Settled (homeCommands m oldHome newUsername) m m' := by
  unfold moveHome homeCommands
  rw [if_neg plain]
  apply Takes.get
  by_cases inTheWay : (m.homes.get? newUsername).isSome
  · rw [if_pos inTheWay, if_pos (.inl inTheWay)]
    refine (takes_pure _ m).conseq Iff.rfl ?_
    rintro - - ⟨-, rfl⟩ -
    exact ⟨rfl, rfl, rfl⟩
  · rw [if_neg inTheWay]
    cases there : m.homes.get? oldHome with
    | none =>
      rw [if_pos (.inr rfl)]
      refine (takes_pure _ m).conseq Iff.rfl ?_
      rintro - - ⟨-, rfl⟩ -
      exact ⟨rfl, rfl, rfl⟩
    | some keys =>
      rw [if_neg (by simp [inTheWay])]
      have moved : Takes (command OSError fun m =>
          some { m with homes := (m.homes.erase oldHome).set newUsername keys }) m 1 True
            fun _ m' => Settled 1 m m' := by
        refine (takes_command OSError _ m).conseq (by simp) ?_
        rintro - m' changed -
        cases changed
        exact ⟨rfl, rfl, List.drop_one.symm⟩
      refine moved.bind_always 0 (fun _ _ settled => settled.faults) fun _ m' settled => ?_
      refine (takes_pure _ m').conseq Iff.rfl ?_
      rintro - m'' ⟨-, same⟩ -
      rwa [same]

structure Gone (fold : String → String) (oldUsername newUsername : String) (count : Nat)
    (m m' : Machine) : Prop where
  old : m'.account? fold oldUsername = none
  new : m'.account? fold newUsername ≠ none
  groups : m'.groups = m.groups
  faults : m'.faults = m.faults.drop count

theorem takes_ldaprenameuser (fold : String → String) (oldUsername newUsername : String)
    (m : Machine) :
    Takes (run (ldaprenameuser fold oldUsername newUsername)) m 1
      (m.account? fold oldUsername ≠ none ∧ m.account? fold newUsername = none) fun _ m' =>
        Gone fold oldUsername newUsername 1 m m' := by
  have old : m.next.account? fold oldUsername = m.account? fold oldUsername := rfl
  have new : m.next.account? fold newUsername = m.account? fold newUsername := rfl
  refine (takes_command CalledProcessError _ m).conseq ?_ ?_
  · rw [ldaprenameuser, Machine.mapAccount, old, new]
    cases m.account? fold oldUsername <;> cases m.account? fold newUsername <;> simp
  · intro _ m' changed
    rw [ldaprenameuser, Machine.mapAccount, old, new] at changed
    rintro ⟨present, free⟩
    rw [free] at changed
    obtain ⟨account, found⟩ := Option.ne_none_iff_exists'.mp present
    rw [found] at changed
    cases changed
    have member := List.mem_of_find?_eq_some found
    have named : fold account.name = fold oldUsername := by simpa using List.find?_some found
    have apart : fold newUsername ≠ fold oldUsername := by
      intro same
      rw [Machine.account?, List.find?_eq_none] at free
      exact free account member (by simp [named, same])
    refine ⟨?_, ?_, rfl, List.drop_one.symm⟩
    · rw [Machine.account?, List.find?_eq_none, List.forall_mem_map]
      intro account' _
      by_cases renamed : fold account'.name = fold oldUsername
      · simp [renamed, apart]
      · simp [renamed]
    · intro missing
      rw [Machine.account?, List.find?_eq_none, List.forall_mem_map] at missing
      exact missing account member (by simp [named])

theorem takes_modify (fold : String → String) (newUsername : String) (newHome : Option String)
    (m : Machine) :
    Takes (run fun m => match newHome with
      | none => Machine.mapAccount fold newUsername id m
      | some home => setHome fold newUsername home m) m 1 (m.account? fold newUsername ≠ none)
      fun _ m' => m'.groups = m.groups ∧ m'.faults = m.faults.drop 1 := by
  have same : m.next.account? fold newUsername = m.account? fold newUsername := rfl
  have kept : ∀ change : Account → Account, ∀ m',
      m.next.mapAccount fold newUsername change = some m' →
        m'.groups = m.groups ∧ m'.faults = m.faults.drop 1 := by
    intro change m' changed
    unfold Machine.mapAccount at changed
    split at changed
    · cases changed
      exact ⟨rfl, List.drop_one.symm⟩
    · cases changed
  have succeeds : ∀ change : Account → Account,
      m.next.mapAccount fold newUsername change ≠ none ↔ m.account? fold newUsername ≠ none := by
    intro change
    unfold Machine.mapAccount
    rw [same]
    cases m.account? fold newUsername <;> simp
  cases newHome with
  | none =>
    exact (takes_command CalledProcessError _ m).conseq (succeeds id) fun _ m' changed _ =>
      kept id m' changed
  | some home =>
    exact (takes_command CalledProcessError _ m).conseq (succeeds _) fun _ m' changed _ =>
      kept _ m' changed

end Plinth.Users.Ldap
