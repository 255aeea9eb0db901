import Plinth.Proof.Users.Commands

/-!
# Renaming a user

The first command that changes the directory decides. Up to it, a failure leaves the user as it
was; after it, every command has to succeed, since nothing is undone.
-/

namespace Plinth.Users.Ldap

open Python Exception Effect

variable {fold : String → String} {oldUsername newUsername : String} {m m' : Machine}

/-! ## The parts of the renaming -/

def prepare (fold : String → String) (oldUsername newUsername : String) : Action (List String) := do
  validateUsername oldUsername
  validateUsername newUsername
  let groups ← getUserGroups fold oldUsername
  deleteSambaUser oldUsername
  return groups

def opening (fold : String → String) (oldUsername newUsername : String) :
    Action (Option String) := do
  let oldHome ← getUserHome fold oldUsername
  moveHome oldHome newUsername

def closing (fold : String → String) (newUsername : String) (groups : List String)
    (newHome : Option String) : Action Unit := do
  run fun m => match newHome with
    | none => Machine.mapAccount fold newUsername id m
    | some home => setHome fold newUsername home m
  forEach groups fun group => addMember fold newUsername group

def finishing (fold : String → String) (oldUsername newUsername : String) (groups : List String) :
    Action Unit := do
  let newHome ← opening fold oldUsername newUsername
  run (ldaprenameuser fold oldUsername newUsername)
  closing fold newUsername groups newHome

theorem renameUser_eq : renameUser fold oldUsername newUsername = (do
    let groups ← prepare fold oldUsername newUsername
    forEach groups fun group => removeMember fold oldUsername group
    finishing fold oldUsername newUsername groups) := by
  simp only [renameUser, prepare, finishing, opening, closing, renameLdapUser, bind_assoc,
    pure_bind] <;> rfl

def preparing (m : Machine) (oldUsername : String) : Nat :=
  1 + sambaCommands m oldUsername

theorem takes_prepare (fold : String → String) (oldUsername newUsername : String) (m : Machine) :
    Takes (prepare fold oldUsername newUsername) m (preparing m oldUsername)
      (ValidName oldUsername ∧ ValidName newUsername) fun groups m' =>
        groups = knownGroups fold m oldUsername ∧ Follows (preparing m oldUsername) m m' := by
  have samba : Takes (do
      let groups ← getUserGroups fold oldUsername
      deleteSambaUser oldUsername
      return groups) m (preparing m oldUsername) True fun groups m' =>
        groups = knownGroups fold m oldUsername ∧ Follows (preparing m oldUsername) m m' := by
    refine (takes_getUserGroups oldUsername m).bind_always _ ?_ ?_
    · rintro - - ⟨-, rfl⟩
      exact (follows_next m).faults
    rintro - - ⟨rfl, rfl⟩
    refine (takes_deleteSambaUser oldUsername m.next).bind_always 0
      (fun _ _ follows => follows.faults) fun _ m' follows => ?_
    refine (takes_pure (knownGroups fold m oldUsername) m').conseq Iff.rfl ?_
    rintro - m'' ⟨rfl, same⟩ -
    rw [same]
    exact ⟨rfl, (follows_next m).trans follows⟩
  have names : Takes (prepare fold oldUsername newUsername) m (0 + (0 + preparing m oldUsername))
      (ValidName oldUsername ∧ (ValidName newUsername ∧ True)) fun groups m' =>
        groups = knownGroups fold m oldUsername ∧ Follows (preparing m oldUsername) m m' := by
    refine (takes_validateUsername oldUsername m).bind (fun _ _ same => same ▸ rfl) ?_
    rintro - m' rfl
    refine (takes_validateUsername newUsername m').bind (fun _ _ same => same ▸ rfl) ?_
    rintro - m' rfl
    exact samba
  rw [Nat.zero_add, Nat.zero_add] at names
  exact names.conseq (by simp) fun _ _ result _ => result

def moving (fold : String → String) (m : Machine) (oldUsername newUsername : String) : Nat :=
  match m.account? fold oldUsername with
  | none => 1
  | some account => 1 + homeCommands m account.home newUsername

theorem takes_opening (m : Machine) :
    Takes (opening fold oldUsername newUsername) m (moving fold m oldUsername newUsername)
      (m.account? fold oldUsername ≠ none ∧ '/' ∉ newUsername.toList)
      fun _ m' => Settled (moving fold m oldUsername newUsername) m m' := by
  unfold moving
  cases found : m.account? fold oldUsername with
  | none =>
    constructor
    · rintro - ⟨impossible, -⟩
      exact absurd rfl impossible
    · intro home m' returned
      obtain ⟨oldHome, between, ran, -⟩ := exec_bind_eq_ok_iff.mp returned
      exact absurd found ((takes_getUserHome oldUsername m).spec oldHome between ran).2.1
  | some account =>
    have moves : ∀ oldHome between, ((∃ account, m.account? fold oldUsername = some account ∧
        oldHome = account.home) ∧ Follows 1 m between) →
          Takes (moveHome oldHome newUsername) between (homeCommands m account.home newUsername)
            ('/' ∉ newUsername.toList) fun _ m' =>
              Settled (1 + homeCommands m account.home newUsername) m m' := by
      rintro - between ⟨⟨account', found', rfl⟩, follows⟩
      rw [found] at found'
      cases found'
      by_cases plain : '/' ∈ newUsername.toList
      · rw [moveHome, if_pos plain]
        exact (takes_throw _ _ _).conseq (by simp [plain]) fun _ _ impossible => impossible
      · have same : homeCommands between account.home newUsername =
            homeCommands m account.home newUsername := by
          rw [homeCommands, follows.homes, homeCommands]
        have moved := takes_moveHome account.home plain between
        rw [same] at moved
        refine moved.conseq (by simp [plain]) fun _ m' settled _ => ?_
        exact ⟨settled.accounts.trans follows.accounts, settled.groups.trans follows.groups,
          by rw [settled.faults, follows.faults, List.drop_drop]⟩
    have both := (takes_getUserHome oldUsername m).bind (fun _ _ here => here.2.faults) moves
    exact both.conseq (by rw [found]) fun _ _ settled _ => settled

def replacing (fold : String → String) (oldUsername newUsername : String) :
    Action (Option String) := do
  let newHome ← opening fold oldUsername newUsername
  run (ldaprenameuser fold oldUsername newUsername)
  return newHome

theorem takes_replacing (fold : String → String) (oldUsername newUsername : String)
    (m : Machine) :
    Takes (replacing fold oldUsername newUsername) m (moving fold m oldUsername newUsername + 1)
      (m.account? fold oldUsername ≠ none ∧ '/' ∉ newUsername.toList ∧
        m.account? fold newUsername = none)
      fun _ m' => Gone fold oldUsername newUsername (moving fold m oldUsername newUsername + 1)
        m m' := by
  have renamed : ∀ (newHome : Option String) between,
      Settled (moving fold m oldUsername newUsername) m between →
        Takes (do
          run (ldaprenameuser fold oldUsername newUsername)
          return newHome) between 1
          (m.account? fold oldUsername ≠ none ∧ m.account? fold newUsername = none) fun _ m' =>
          Gone fold oldUsername newUsername (moving fold m oldUsername newUsername + 1) m m' := by
    intro newHome between settled
    have same : ∀ username, between.account? fold username = m.account? fold username := by
      intro username
      rw [Machine.account?, settled.accounts, Machine.account?]
    rw [← same oldUsername, ← same newUsername]
    have renames := takes_ldaprenameuser fold oldUsername newUsername between
    have returns : Takes (do
        run (ldaprenameuser fold oldUsername newUsername)
        return newHome) between (1 + 0)
        ((between.account? fold oldUsername ≠ none ∧ between.account? fold newUsername = none) ∧
          True)
        fun _ m' => Gone fold oldUsername newUsername 1 between m' := by
      refine renames.bind (fun _ _ gone => gone.faults) fun _ m' gone => ?_
      refine (takes_pure newHome m').conseq Iff.rfl ?_
      rintro - m'' ⟨-, same'⟩ -
      rwa [same']
    refine returns.conseq (by simp) fun _ m' gone _ => ?_
    exact ⟨gone.old, gone.new, gone.groups.trans settled.groups,
      by rw [gone.faults, settled.faults, List.drop_drop]⟩
  refine ((takes_opening m).bind (fun _ _ settled => settled.faults) renamed).conseq ?_
    fun _ _ result _ => result
  constructor
  · rintro ⟨⟨present, plain⟩, -, free⟩
    exact ⟨present, plain, free⟩
  · rintro ⟨present, plain, free⟩
    exact ⟨⟨present, plain⟩, present, free⟩

theorem takes_closing {names : List String} (newHome : Option String)
    (distinct : DistinctGroups fold m) (nodup : (names.map fold).Nodup)
    (members : ∀ name ∈ names, ∃ group ∈ m.groups, fold group.name = fold name)
    (new : m.account? fold newUsername ≠ none) :
    Takes (closing fold newUsername names newHome) m (1 + 2 * names.length)
      (∀ group ∈ m.groups, fold group.name ∈ names.map fold → group.has fold newUsername = false)
      fun _ m' => m'.groups = m.groups.map (among fold names (added newUsername)) := by
  have later : ∀ m', m'.groups = m.groups ∧ m'.faults = m.faults.drop 1 →
      Takes (forEach names fun group => addMember fold newUsername group) m' (2 * names.length)
        (∀ group ∈ m.groups, fold group.name ∈ names.map fold →
          group.has fold newUsername = false)
        fun _ m' => m'.groups = m.groups.map (among fold names (added newUsername)) := by
    rintro m' ⟨same, -⟩
    rw [← same] at members ⊢
    exact (takes_additions (distinctGroups_of_groups distinct same) nodup members).conseq Iff.rfl
      fun _ _ regroups _ => regroups.groups
  refine ((takes_modify fold newUsername newHome m).bind (fun _ _ here => here.2)
    fun _ m' here => later m' here).conseq ?_ fun _ _ here _ => here
  exact and_iff_right new

/-! ## What a failure leaves -/

theorem Takes.raises {α : Type} {program : Action α} {count : Nat} {condition : Prop}
    {result : α → Machine → Prop} (takes : Takes program m count condition result)
    (fails : ¬ (m.Steady count ∧ condition)) : ∃ e m', program.exec m = (.error e, m') := by
  cases ran : program.exec m with
  | mk outcome m' =>
    cases outcome with
    | error e => exact ⟨e, m', rfl⟩
    | ok a =>
      obtain ⟨steady, holds, -⟩ := takes.spec a m' ran
      exact absurd ⟨steady, holds⟩ fails

theorem raises_quietly {m₀ : Machine} (failure : Exception) (change : Machine → Option Machine) :
    Triple (Quiet m₀) (command failure change) (fun _ _ => True) fun _ => Quiet m₀ := by
  intro m quiet
  rw [exec_command]
  by_cases failing : m.faults.head? = some true
  · rw [if_pos failing]
    exact quiet
  · rw [if_neg failing]
    cases change m.next with
    | none => exact quiet
    | some m' => trivial

theorem quiet_prepare {m₀ : Machine} :
    Safe (Quiet m₀) (prepare fold oldUsername newUsername) := by
  apply (safe_validateUsername oldUsername).bind
  intro _
  apply (safe_validateUsername newUsername).bind
  intro _
  apply (safe_getUserGroups oldUsername).bind
  intro groups
  apply (safe_deleteSambaUser oldUsername).bind
  intro _
  exact safe_pure groups

theorem safe_opening {P : Machine → Prop} [OfDirectory P] :
    Safe P (opening fold oldUsername newUsername) := by
  apply (safe_getUserHome oldUsername).bind
  intro oldHome
  exact safe_moveHome oldHome newUsername

theorem replacing_raises_quietly {m₀ : Machine} :
    Triple (Quiet m₀) (replacing fold oldUsername newUsername) (fun _ _ => True)
      fun _ => Quiet m₀ := by
  apply Triple.bind safe_opening
  intro newHome
  apply (raises_quietly CalledProcessError _).bind
  intro _
  exact Triple.pure fun _ _ => trivial

def Lost (fold : String → String) (username groupname : String) (m : Machine) : Prop :=
  ∀ group ∈ m.groups, fold group.name = fold groupname → group.has fold username = false

instance ofDirectory_lost (username groupname : String) :
    OfDirectory (Lost fold username groupname) where
  same _ _ quiet lost := by
    rw [Lost, quiet.2]
    exact lost

theorem has_removed_iff (username other : String) (group : Group) :
    (removed fold username group).has fold other = true ↔
      group.has fold other = true ∧ fold other ≠ fold username := by
  simp only [Group.has, removed, List.any_filter, List.any_eq_true, decide_eq_true_eq,
    Bool.and_eq_true]
  constructor
  · rintro ⟨member, listed, stays, same⟩
    exact ⟨⟨member, listed, same⟩, same ▸ stays⟩
  · rintro ⟨⟨member, listed, same⟩, apart⟩
    exact ⟨member, listed, same ▸ apart, same⟩

theorem lost_mapGroup {username groupname name : String} {change : Group → Group}
    (keeps : ∀ group, (change group).name = group.name)
    (lost : Lost fold username groupname m)
    (fewer : ∀ group, (change group).has fold username = true → group.has fold username = true) :
    Lost fold username groupname (m.mapGroup fold name change) := by
  unfold Lost Machine.mapGroup
  rw [List.forall_mem_map]
  intro group member
  split
  · rw [keeps, Bool.eq_false_iff]
    intro same has
    have before := fewer group has
    rw [lost group member same] at before
    cases before
  · exact lost group member

theorem lost_removeMember (username groupname name : String) :
    Safe (Lost fold username groupname) (removeMember fold username name) := by
  apply safe_command
  intro m m' lost changed
  unfold ldapdeleteuserfromgroup at changed
  split at changed
  · cases changed
  · split at changed <;> cases changed
    refine lost_mapGroup (fun _ => rfl) lost fun group has => ?_
    exact ((has_removed_iff username username group).mp has).1

theorem lost_addMember {username groupname : String} (name : String)
    (apart : fold newUsername ≠ fold username) :
    Safe (Lost fold username groupname) (addMember fold newUsername name) := by
  have ensured : Safe (Lost fold username groupname) (ensureGroup fold name) := by
    apply (safe_groupExists name).bind
    intro found
    split
    · exact safe_pure _
    · apply safe_command
      intro m m' lost changed
      unfold ldapaddgroup at changed
      split at changed <;> cases changed
      intro group member same
      rcases List.mem_append.mp member with earlier | new
      · exact lost group earlier same
      · rw [List.mem_singleton.mp new]
        rfl
  apply ensured.bind
  intro _
  apply safe_command
  intro m m' lost changed
  unfold ldapaddusertogroup at changed
  split at changed
  · cases changed
  · split at changed <;> cases changed
    refine lost_mapGroup (fun _ => rfl) lost fun group has => ?_
    rcases (has_added_iff newUsername username group).mp has with before | same
    · exact before
    · exact absurd same apart

theorem ldaprenameuser_same (same : fold newUsername = fold oldUsername) :
    ldaprenameuser fold oldUsername newUsername m = none := by
  unfold ldaprenameuser Machine.mapAccount Machine.account?
  rw [same]
  split <;> simp_all

theorem groups_of_mapAccount {username : String} {change : Account → Account}
    (changed : m.mapAccount fold username change = some m') : m'.groups = m.groups := by
  unfold Machine.mapAccount at changed
  split at changed <;> cases changed
  rfl

theorem lost_closing {username groupname : String} (names : List String)
    (newHome : Option String) (apart : fold newUsername ≠ fold username) :
    Safe (Lost fold username groupname) (closing fold newUsername names newHome) := by
  apply Safe.bind
  · apply safe_command
    intro m m' lost changed
    have groups : m'.groups = m.groups := by
      split at changed <;> exact groups_of_mapAccount changed
    rw [Lost, groups]
    exact lost
  · intro _
    exact safe_forEach fun name _ => lost_addMember name apart

theorem lost_finishing (groupname : String) (names : List String) :
    Safe (Lost fold oldUsername groupname) (finishing fold oldUsername newUsername names) := by
  apply safe_opening.bind
  intro newHome
  have renamed : Triple (Lost fold oldUsername groupname)
      (run (ldaprenameuser fold oldUsername newUsername))
      (fun _ m => Lost fold oldUsername groupname m ∧ fold newUsername ≠ fold oldUsername)
      fun _ => Lost fold oldUsername groupname := by
    intro m lost
    rw [run, exec_command]
    by_cases failing : m.faults.head? = some true
    · rw [if_pos failing]
      exact lost
    · rw [if_neg failing]
      cases changed : ldaprenameuser fold oldUsername newUsername m.next with
      | none => exact lost
      | some m' =>
        have groups : m'.groups = m.groups := by
          unfold ldaprenameuser at changed
          split at changed
          · cases changed
          · have same := groups_of_mapAccount changed
            exact same
        refine ⟨?_, fun same => ?_⟩
        · rw [Lost, groups]
          exact lost
        · rw [ldaprenameuser_same same] at changed
          cases changed
  apply renamed.bind
  intro _
  apply Triple.extract (fold newUsername ≠ fold oldUsername) fun _ h => h.2
  intro apart
  exact (lost_closing names newHome apart).strengthen fun _ h => h.1

theorem finishing_eq (names : List String) :
    finishing fold oldUsername newUsername names = (do
      let newHome ← replacing fold oldUsername newUsername
      closing fold newUsername names newHome) := by
  simp only [finishing, replacing, bind_assoc, pure_bind]

def Absent (fold : String → String) (username : String) (m : Machine) : Prop :=
  m.account? fold username = none

instance ofDirectory_absent (username : String) : OfDirectory (Absent fold username) where
  same _ _ quiet absent := by
    rw [Absent, quiet.account?]
    exact absent

theorem absent_closing (username : String) (newHome : Option String) :
    Safe (Absent fold username) (closing fold newUsername [] newHome) := by
  apply Safe.bind
  · apply safe_command
    intro m m' absent changed
    have kept : ∀ {change : Account → Account}, (∀ account, (change account).name = account.name) →
        m.mapAccount fold newUsername change = some m' → Absent fold username m' := by
      intro change keeps changed
      unfold Machine.mapAccount at changed
      split at changed <;> cases changed
      rw [Absent, Machine.account?, List.find?_eq_none, List.forall_mem_map]
      rw [Absent, Machine.account?, List.find?_eq_none] at absent
      intro account member
      have before := absent account member
      split
      · rwa [keeps]
      · exact before
    split at changed
    · refine kept ?_ changed
      exact fun _ => rfl
    · refine kept ?_ changed
      exact fun _ => rfl
  · intro _
    exact safe_pure ()

/-! ## All or nothing -/

/-- When the renaming raises, the user is there with all groups; when it returns, the new name has
exactly these. -/
def AllOrNothing (fold : String → String) (oldUsername newUsername : String) (m : Machine) : Prop :=
  match (renameUser fold oldUsername newUsername).exec m with
  | (.error _, m') => m.account? fold oldUsername ≠ none →
      m'.account? fold oldUsername ≠ none ∧
        ∀ name ∈ m.groupsOf fold oldUsername, name ∈ m'.groupsOf fold oldUsername
  | (.ok _, m') => m'.groupsOf fold newUsername = m.groupsOf fold oldUsername

def firstChange (fold : String → String) (oldUsername newUsername : String) (m : Machine) : Nat :=
  preparing m oldUsername +
    if knownGroups fold m oldUsername = [] then moving fold m oldUsername newUsername + 1 else 1

def Renameable (fold : String → String) (oldUsername newUsername : String) (m : Machine) : Prop :=
  m.account? fold oldUsername ≠ none ∧ '/' ∉ newUsername.toList ∧
    m.account? fold newUsername = none

def Untouched (fold : String → String) (oldUsername newUsername : String) (m : Machine) : Prop :=
  ¬ (ValidName oldUsername ∧ ValidName newUsername) ∨
    ¬ m.Steady (firstChange fold oldUsername newUsername m) ∨
    (knownGroups fold m oldUsername = [] ∧ ¬ Renameable fold oldUsername newUsername m)

def allCommands (fold : String → String) (oldUsername newUsername : String) (m : Machine) : Nat :=
  preparing m oldUsername + ((knownGroups fold m oldUsername).length +
    ((moving fold m oldUsername newUsername + 1) +
      (1 + 2 * (knownGroups fold m oldUsername).length)))

structure Completes (fold : String → String) (oldUsername newUsername : String) (m : Machine) :
    Prop where
  steady : m.Steady (allCommands fold oldUsername newUsername m)
  renameable : Renameable fold oldUsername newUsername m
  apart : ∀ group ∈ m.groups, group.has fold newUsername = false

theorem account?_congr (accounts : m'.accounts = m.accounts) (username : String) :
    m'.account? fold username = m.account? fold username := by
  rw [Machine.account?, accounts, Machine.account?]

theorem moving_congr (accounts : m'.accounts = m.accounts) (homes : m'.homes = m.homes) :
    moving fold m' oldUsername newUsername = moving fold m oldUsername newUsername := by
  unfold moving homeCommands
  rw [account?_congr accounts, homes]

theorem renameable_congr (accounts : m'.accounts = m.accounts) :
    Renameable fold oldUsername newUsername m' ↔ Renameable fold oldUsername newUsername m := by
  rw [Renameable, account?_congr accounts, account?_congr accounts, Renameable]

theorem steady_firstChange (follows : Follows (preparing m oldUsername) m m') :
    m.Steady (firstChange fold oldUsername newUsername m) ↔
      m.Steady (preparing m oldUsername) ∧
        m'.Steady (if knownGroups fold m oldUsername = [] then
          moving fold m oldUsername newUsername + 1 else 1) :=
  Machine.steady_add follows.faults

theorem groupsOf_of_known {m : Machine} {name : String} {rest : List String}
    (known : knownGroups fold m oldUsername = name :: rest) :
    m.account? fold oldUsername ≠ none ∧ m.groupsOf fold oldUsername = name :: rest := by
  unfold knownGroups at known
  split at known
  · cases known
  · rename_i account found
    exact ⟨by simp [found], known⟩

theorem group_of_known {m : Machine} {name : String}
    (member : name ∈ knownGroups fold m oldUsername) :
    ∃ group ∈ m.groups, group.name = name ∧ group.has fold oldUsername = true := by
  unfold knownGroups at member
  split at member
  · cases member
  · obtain ⟨group, found, named⟩ := List.mem_map.mp member
    obtain ⟨there, has⟩ := List.mem_filter.mp found
    exact ⟨group, there, named, has⟩

theorem quiet_of_untouched (untouched : Untouched fold oldUsername newUsername m) :
    Quiet m ((renameUser fold oldUsername newUsername).exec m).2 := by
  have start : Quiet m m := ⟨rfl, rfl⟩
  rw [renameUser_eq]
  by_cases prepared : m.Steady (preparing m oldUsername) ∧ ValidName oldUsername ∧
      ValidName newUsername
  · obtain ⟨groups, m', ran⟩ := (takes_prepare fold oldUsername newUsername m).returns
      prepared.1 prepared.2
    obtain ⟨-, -, rfl, follows⟩ :=
      (takes_prepare fold oldUsername newUsername m).spec _ m' ran
    rw [exec_bind_of_ok ran]
    have quiet : Quiet m m' := ⟨follows.accounts, follows.groups⟩
    rw [Untouched, steady_firstChange follows] at untouched
    cases known : knownGroups fold m oldUsername with
    | nil =>
      rw [if_pos known, ← moving_congr follows.accounts follows.homes, ← renameable_congr follows.accounts] at untouched
      have stuck : ¬ (m'.Steady (moving fold m' oldUsername newUsername + 1) ∧
          Renameable fold oldUsername newUsername m') := by
        tauto
      obtain ⟨e, m'', raised⟩ := (takes_replacing fold oldUsername newUsername m').raises stuck
      rw [forEach, pure_bind, finishing_eq, exec_bind_of_error raised]
      exact replacing_raises_quietly.raised quiet raised
    | cons name rest =>
      have raises : ¬ (m'.Steady 1 ∧
          ldapdeleteuserfromgroup fold oldUsername name m'.next ≠ none) := by
        rw [if_neg (by simp [known])] at untouched
        rw [known] at untouched
        rintro ⟨steady, -⟩
        rcases untouched with names | early | ⟨none, -⟩
        · exact names prepared.2
        · exact early ⟨prepared.1, steady⟩
        · cases none
      obtain ⟨e, m'', raised⟩ : ∃ e m'', (removeMember fold oldUsername name).exec m' =
          (.error e, m'') := (takes_command CalledProcessError _ m').raises raises
      rw [forEach, bind_assoc, exec_bind_of_error raised]
      exact (raises_quietly CalledProcessError _).raised quiet raised
  · obtain ⟨e, m', raised⟩ := (takes_prepare fold oldUsername newUsername m).raises prepared
    rw [exec_bind_of_error raised]
    exact Triple.raised quiet_prepare start raised

def Harmed (fold : String → String) (username : String) (m m' : Machine) : Prop :=
  m.account? fold username ≠ none ∧ (m'.account? fold username = none ∨
    ∃ name ∈ m.groupsOf fold username, name ∉ m'.groupsOf fold username)

theorem harmed_of_lost {name : String} (present : m.account? fold oldUsername ≠ none)
    (member : name ∈ m.groupsOf fold oldUsername) (lost : Lost fold oldUsername name m') :
    Harmed fold oldUsername m m' := by
  refine ⟨present, .inr ⟨name, member, fun stays => ?_⟩⟩
  obtain ⟨group, found, rfl⟩ := List.mem_map.mp stays
  obtain ⟨there, has⟩ := List.mem_filter.mp found
  rw [lost group there rfl] at has
  cases has

theorem lost_of_regroups {name : String}
    (groups : m'.groups = m.groups.map (among fold [name] (removed fold oldUsername))) :
    Lost fold oldUsername name m' := by
  rw [Lost, groups, List.forall_mem_map]
  intro group _ same
  have keeps : ∀ group, (removed fold oldUsername group).name = group.name := fun _ => rfl
  rw [name_among keeps] at same
  rw [among, if_pos (by simp [same]), Bool.eq_false_iff]
  intro has
  exact ((has_removed_iff oldUsername oldUsername group).mp has).2 rfl

theorem harmed_of_touched (distinct : DistinctGroups fold m)
    (touched : ¬ Untouched fold oldUsername newUsername m) :
    Harmed fold oldUsername m ((renameUser fold oldUsername newUsername).exec m).2 := by
  rw [Untouched, not_or, not_or, not_not, not_not, not_and, not_not] at touched
  obtain ⟨names, steady, renameable⟩ := touched
  have prepared := steady.mono (Nat.le_add_right _ _)
  obtain ⟨groups, m', ran⟩ := (takes_prepare fold oldUsername newUsername m).returns prepared names
  obtain ⟨-, -, rfl, follows⟩ := (takes_prepare fold oldUsername newUsername m).spec _ m' ran
  rw [renameUser_eq, exec_bind_of_ok ran]
  have later := ((steady_firstChange follows).mp steady).2
  cases known : knownGroups fold m oldUsername with
  | nil =>
    have renameable := renameable known
    rw [if_pos known, ← moving_congr follows.accounts follows.homes] at later
    obtain ⟨newHome, m'', replaced⟩ := (takes_replacing fold oldUsername newUsername m').returns
      later ((renameable_congr follows.accounts).mpr renameable)
    have gone := ((takes_replacing fold oldUsername newUsername m').spec _ m'' replaced).2.2
    rw [forEach, pure_bind, finishing_eq, exec_bind_of_ok replaced]
    exact ⟨renameable.1, .inl ((absent_closing oldUsername newHome).final gone.old)⟩
  | cons name rest =>
    rw [if_neg (by simp [known])] at later
    obtain ⟨present, groups⟩ := groupsOf_of_known known
    have member : name ∈ m.groupsOf fold oldUsername := groups ▸ List.mem_cons_self
    obtain ⟨group, there, rfl, has⟩ := group_of_known (known ▸ List.mem_cons_self)
    have takes := takes_removeMember (distinctGroups_of_groups distinct follows.groups)
      (follows.groups ▸ there) rfl has
    obtain ⟨⟨⟩, m'', ran'⟩ := takes.returns later trivial
    have lost := lost_of_regroups (takes.spec _ m'' ran').2.2.groups
    rw [forEach, bind_assoc, exec_bind_of_ok ran']
    apply harmed_of_lost present member
    have kept : Safe (Lost fold oldUsername group.name) (do
        forEach rest fun group => removeMember fold oldUsername group
        finishing fold oldUsername newUsername (group.name :: rest)) := by
      apply (safe_forEach fun name _ => lost_removeMember oldUsername group.name name).bind
      intro _
      exact lost_finishing group.name _
    exact kept.final lost

/-! ## A renaming that returns -/

theorem Renameable.apart (renameable : Renameable fold oldUsername newUsername m) :
    fold newUsername ≠ fold oldUsername := by
  intro same
  obtain ⟨present, -, free⟩ := renameable
  rw [Machine.account?, same] at free
  exact present free

theorem nodup_knownGroups (distinct : DistinctGroups fold m) (username : String) :
    ((knownGroups fold m username).map fold).Nodup := by
  unfold knownGroups
  split
  · exact List.nodup_nil
  · rw [Machine.groupsOf, List.map_map]
    exact distinct.sublist (List.filter_sublist.map _)

theorem eq_of_fold (distinct : DistinctGroups fold m) {group group' : Group}
    (member : group ∈ m.groups) (member' : group' ∈ m.groups)
    (same : fold group.name = fold group'.name) : group = group' := by
  have found := group?_of_fold distinct member same
  rw [group?_of_mem distinct member'] at found
  exact (Option.some.inj found).symm

theorem listed_iff (distinct : DistinctGroups fold m) {group : Group} (member : group ∈ m.groups)
    (username : String) : fold group.name ∈ (m.groupsOf fold username).map fold ↔
      group.has fold username = true := by
  constructor
  · intro listed
    obtain ⟨name, found, same⟩ := List.mem_map.mp listed
    obtain ⟨group', found', rfl⟩ := List.mem_map.mp found
    obtain ⟨member', has⟩ := List.mem_filter.mp found'
    rwa [← eq_of_fold distinct member' member same]
  · intro has
    have found : group.name ∈ m.groupsOf fold username :=
      List.mem_map_of_mem (List.mem_filter.mpr ⟨member, has⟩)
    exact List.mem_map_of_mem found

theorem takes_finishing (oldUsername newUsername : String) {names : List String} (distinct : DistinctGroups fold m)
    (nodup : (names.map fold).Nodup)
    (members : ∀ name ∈ names, ∃ group ∈ m.groups, fold group.name = fold name) :
    Takes (finishing fold oldUsername newUsername names) m
      ((moving fold m oldUsername newUsername + 1) + (1 + 2 * names.length))
      (Renameable fold oldUsername newUsername m ∧
        ∀ group ∈ m.groups, fold group.name ∈ names.map fold → group.has fold newUsername = false)
      fun _ m' => m'.groups = m.groups.map (among fold names (added newUsername)) := by
  rw [finishing_eq]
  refine (takes_replacing fold oldUsername newUsername m).bind (fun _ _ gone => gone.faults)
    fun newHome m' gone => ?_
  rw [← gone.groups] at members ⊢
  exact takes_closing newHome (distinctGroups_of_groups distinct gone.groups) nodup members gone.new

def regrouped (fold : String → String) (oldUsername newUsername : String) (names : List String)
    (group : Group) : Group :=
  among fold names (added newUsername) (among fold names (removed fold oldUsername) group)

theorem has_among_removed (apart : fold newUsername ≠ fold oldUsername) (names : List String)
    (group : Group) : (among fold names (removed fold oldUsername) group).has fold newUsername =
      group.has fold newUsername := by
  unfold among
  split
  · rw [Bool.eq_iff_iff, has_removed_iff]
    exact and_iff_left apart
  · rfl

theorem has_regrouped_iff (apart : fold newUsername ≠ fold oldUsername) (names : List String)
    (group : Group) : (regrouped fold oldUsername newUsername names group).has fold newUsername =
      true ↔ fold group.name ∈ names.map fold ∨ group.has fold newUsername = true := by
  have keeps : ∀ group, (removed fold oldUsername group).name = group.name := fun _ => rfl
  rw [regrouped, among, name_among keeps]
  split
  · rename_i listed
    rw [has_added_iff]
    exact iff_of_true (.inr rfl) (.inl listed)
  · rename_i unlisted
    rw [has_among_removed apart]
    exact (or_iff_right unlisted).symm

theorem groupsOf_regrouped (distinct : DistinctGroups fold m)
    (apart : fold newUsername ≠ fold oldUsername)
    (groups : m'.groups = m.groups.map
      (regrouped fold oldUsername newUsername (m.groupsOf fold oldUsername))) :
    m'.groupsOf fold newUsername = (m.groups.filter fun group =>
      group.has fold oldUsername ∨ group.has fold newUsername).map Group.name := by
  have keeps : ∀ group, (regrouped fold oldUsername newUsername
      (m.groupsOf fold oldUsername) group).name = group.name := by
    intro group
    rw [regrouped, name_among (name_added newUsername),
      name_among (name_removed fold oldUsername)]
  rw [Machine.groupsOf, groups, List.filter_map, List.map_map]
  have same : ∀ group ∈ m.groups, ((fun group => group.has fold newUsername) ∘
      regrouped fold oldUsername newUsername (m.groupsOf fold oldUsername)) group =
        decide (group.has fold oldUsername ∨ group.has fold newUsername) := by
    intro group member
    rw [Function.comp_apply, Bool.eq_iff_iff, has_regrouped_iff apart, listed_iff distinct member,
      decide_eq_true_iff]
  rw [List.filter_congr same]
  exact List.map_congr_left fun group _ => keeps group

theorem groupsOf_regrouped_iff (distinct : DistinctGroups fold m) :
    (m.groups.filter fun group => group.has fold oldUsername ∨ group.has fold newUsername).map
      Group.name = m.groupsOf fold oldUsername ↔
      ∀ group ∈ m.groups, group.has fold newUsername = true → group.has fold oldUsername = true := by
  constructor
  · intro same group member has
    have named : group.name ∈ m.groupsOf fold oldUsername := by
      rw [← same]
      exact List.mem_map_of_mem (List.mem_filter.mpr ⟨member, by simp [has]⟩)
    rw [← listed_iff distinct member]
    exact List.mem_map_of_mem named
  · intro fewer
    rw [Machine.groupsOf]
    congr 1
    apply List.filter_congr
    intro group member
    rw [Bool.eq_iff_iff, decide_eq_true_iff]
    exact or_iff_left_of_imp (fewer group member)

theorem knownGroups_of_present (present : m.account? fold oldUsername ≠ none) :
    knownGroups fold m oldUsername = m.groupsOf fold oldUsername := by
  unfold knownGroups
  split
  · contradiction
  · rfl

theorem takes_regrouping (newUsername : String) {count : Nat} (distinct : DistinctGroups fold m)
    (regroups : Regroups count
      (among fold (knownGroups fold m oldUsername) (removed fold oldUsername)) m m') :
    Takes (finishing fold oldUsername newUsername (knownGroups fold m oldUsername)) m'
      ((moving fold m oldUsername newUsername + 1) +
        (1 + 2 * (knownGroups fold m oldUsername).length))
      (Renameable fold oldUsername newUsername m ∧
        ∀ group ∈ m.groups, group.has fold oldUsername = true →
          group.has fold newUsername = false)
      fun _ m'' => m''.groups = m.groups.map
        (regrouped fold oldUsername newUsername (knownGroups fold m oldUsername)) := by
  have keeps : ∀ group, (among fold (knownGroups fold m oldUsername) (removed fold oldUsername)
      group).name = group.name := name_among (name_removed fold oldUsername)
  have members : ∀ name ∈ knownGroups fold m oldUsername,
      ∃ group ∈ m'.groups, fold group.name = fold name := by
    intro name known
    obtain ⟨group, member, rfl, -⟩ := group_of_known known
    rw [regroups.groups]
    exact ⟨_, List.mem_map_of_mem member, congrArg fold (keeps group)⟩
  have takes := takes_finishing oldUsername newUsername
    (distinctGroups_map keeps distinct regroups.groups) (nodup_knownGroups distinct oldUsername)
    members
  rw [moving_congr regroups.accounts regroups.homes] at takes
  refine takes.conseq ?_ fun _ m'' groups _ => ?_
  · rw [renameable_congr regroups.accounts, regroups.groups, List.forall_mem_map]
    apply and_congr_right
    intro renameable
    apply forall₂_congr
    intro group member
    rw [keeps, has_among_removed renameable.apart, knownGroups_of_present renameable.1,
      listed_iff distinct member]
  · rw [groups, regroups.groups, List.map_map]
    rfl

theorem takes_renameUser (oldUsername newUsername : String) (distinct : DistinctGroups fold m) :
    Takes (renameUser fold oldUsername newUsername) m (allCommands fold oldUsername newUsername m)
      ((ValidName oldUsername ∧ ValidName newUsername) ∧
        Renameable fold oldUsername newUsername m ∧
        ∀ group ∈ m.groups, group.has fold oldUsername = true →
          group.has fold newUsername = false)
      fun _ m' => m'.groups = m.groups.map
        (regrouped fold oldUsername newUsername (knownGroups fold m oldUsername)) := by
  rw [renameUser_eq]
  refine (takes_prepare fold oldUsername newUsername m).bind
    (fun _ _ here => here.2.faults) ?_
  rintro - m' ⟨rfl, follows⟩
  have distinct' := distinctGroups_of_groups distinct follows.groups
  have members : ∀ name ∈ knownGroups fold m oldUsername, ∃ group ∈ m'.groups,
      fold group.name = fold name ∧ group.has fold oldUsername = true := by
    intro name known
    obtain ⟨group, member, rfl, has⟩ := group_of_known known
    exact ⟨group, follows.groups ▸ member, rfl, has⟩
  refine (takes_removals distinct' (nodup_knownGroups distinct oldUsername) members).bind_always _
    (fun _ _ regroups => regroups.faults) fun _ m'' regroups => ?_
  have same : knownGroups fold m' oldUsername = knownGroups fold m oldUsername := by
    unfold knownGroups Machine.groupsOf
    rw [account?_congr follows.accounts, follows.groups]
  rw [← same] at regroups
  have takes := takes_regrouping newUsername distinct' regroups
  rw [same, follows.groups, moving_congr follows.accounts follows.homes,
    renameable_congr follows.accounts] at takes
  exact takes

theorem firstChange_le :
    firstChange fold oldUsername newUsername m ≤ allCommands fold oldUsername newUsername m := by
  unfold firstChange allCommands
  cases known : knownGroups fold m oldUsername with
  | nil => simp
  | cons name rest =>
    rw [if_neg (by simp), List.length_cons]
    omega

theorem touched_of_returns (distinct : DistinctGroups fold m)
    (returned : (renameUser fold oldUsername newUsername).exec m = (.ok (), m')) :
    ¬ Untouched fold oldUsername newUsername m := by
  obtain ⟨steady, ⟨names, renameable, -⟩, -⟩ :=
    (takes_renameUser oldUsername newUsername distinct).spec _ m' returned
  rintro (wrong | early | ⟨-, stuck⟩)
  · exact wrong names
  · exact early (steady.mono firstChange_le)
  · exact stuck renameable

theorem groupsOf_renamed_iff (distinct : DistinctGroups fold m)
    (returned : (renameUser fold oldUsername newUsername).exec m = (.ok (), m')) :
    m'.groupsOf fold newUsername = m.groupsOf fold oldUsername ↔
      Completes fold oldUsername newUsername m := by
  obtain ⟨steady, ⟨-, renameable, separate⟩, groups⟩ :=
    (takes_renameUser oldUsername newUsername distinct).spec _ m' returned
  rw [knownGroups_of_present renameable.1] at groups
  rw [groupsOf_regrouped distinct renameable.apart groups, groupsOf_regrouped_iff distinct]
  constructor
  · intro fewer
    refine ⟨steady, renameable, fun group member => ?_⟩
    rw [Bool.eq_false_iff]
    intro has
    rw [separate group member (fewer group member has)] at has
    cases has
  · intro completes group member has
    rw [completes.apart group member] at has
    cases has

end Plinth.Users.Ldap
