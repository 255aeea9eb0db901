import Plinth.Lib.Runs
import Plinth.Model.Users.Directory

/-! # Who changes the group of administrators -/

namespace Plinth.Users.Ldap

open Python Exception Effect

variable (fold : String → String)

namespace Machine

def adminGroups (m : Machine) : List Group :=
  m.groups.filter fun group => fold group.name = fold "admin"

def isAdmin (m : Machine) (username : String) : Bool :=
  (m.adminGroups fold).any fun group => group.has fold username

theorem members_admin (m : Machine) :
    m.members fold "admin" = match (m.adminGroups fold).head? with
      | none => []
      | some group => group.members := by
  have found : m.group? fold "admin" = (m.adminGroups fold).head? := (List.head?_filter ..).symm
  unfold members
  cases first : (m.adminGroups fold).head? with
  | none => rw [found, first]
  | some group => rw [found, first]

end Machine

structure Spared (m m' : Machine) : Prop where
  groups : m'.adminGroups fold = m.adminGroups fold
  accounts : ∀ account ∈ m.accounts, m.isAdmin fold account.name →
    ∃ account' ∈ m'.accounts, account'.name = account.name ∧ account'.isLocked = account.isLocked

theorem Spared.refl (m : Machine) : Spared fold m m :=
  ⟨rfl, fun account member _ => ⟨account, member, rfl, rfl⟩⟩

variable {fold}

theorem Spared.isAdmin {m m' : Machine} (spared : Spared fold m m') (username : String) :
    m'.isAdmin fold username = m.isAdmin fold username := by
  rw [Machine.isAdmin, Machine.isAdmin, spared.groups]

theorem Spared.trans {m m' m'' : Machine} (first : Spared fold m m') (second : Spared fold m' m'') :
    Spared fold m m'' := by
  refine ⟨second.groups.trans first.groups, ?_⟩
  intro account member admin
  obtain ⟨account', member', name, locked⟩ := first.accounts account member admin
  rw [← name, ← first.isAdmin] at admin
  obtain ⟨account'', member'', name', locked'⟩ := second.accounts account' member' admin
  exact ⟨account'', member'', name'.trans name, locked'.trans locked⟩

theorem Spared.members {m m' : Machine} (spared : Spared fold m m') :
    m'.members fold "admin" = m.members fold "admin" := by
  rw [Machine.members_admin, Machine.members_admin, spared.groups]

/-! ## Commands -/

theorem spared_of_same {m m' : Machine} (accounts : m'.accounts = m.accounts)
    (groups : m'.groups = m.groups) : Spared fold m m' := by
  refine ⟨by rw [Machine.adminGroups, groups]; rfl, ?_⟩
  intro account member _
  exact ⟨account, by rwa [accounts], rfl, rfl⟩

theorem spared_mapAccount {m m' : Machine} {username : String} {change : Account → Account}
    (changed : m.mapAccount fold username change = some m')
    (harmless : m.isAdmin fold username = false ∨
      ∀ account, (change account).name = account.name ∧ (change account).isLocked = account.isLocked) :
    Spared fold m m' := by
  unfold Machine.mapAccount at changed
  split at changed
  · cases changed
    refine ⟨rfl, ?_⟩
    intro account member admin
    refine ⟨_, List.mem_map_of_mem member, ?_⟩
    split
    · rename_i same
      rcases harmless with other | keeps
      · have differs : m.isAdmin fold account.name = m.isAdmin fold username := by
          simp only [Machine.isAdmin, Group.has, same]
        rw [differs, other] at admin
        cases admin
      · exact keeps account
    · exact ⟨rfl, rfl⟩
  · cases changed

theorem spared_mapGroup (m : Machine) {groupname : String} {change : Group → Group}
    (other : fold groupname ≠ fold "admin")
    (apart : ∀ group ∈ m.groups, fold group.name = fold groupname →
      fold (change group).name ≠ fold "admin") :
    Spared fold m (m.mapGroup fold groupname change) := by
  refine ⟨?_, fun account member _ => ⟨account, member, rfl, rfl⟩⟩
  unfold Machine.adminGroups Machine.mapGroup
  dsimp only
  generalize m.groups = groups at apart
  induction groups with
  | nil => rfl
  | cons group groups ih =>
    have rest := ih fun group member => apart group (List.mem_cons_of_mem _ member)
    rw [List.map_cons, List.filter_cons, List.filter_cons, rest]
    by_cases same : fold group.name = fold groupname
    · have changed := apart group List.mem_cons_self same
      rw [if_pos same]
      simp [changed, same, other]
    · rw [if_neg same]

theorem group?_isSome_of_admin {m : Machine} {groupname : String} (present : m.adminGroups fold ≠ [])
    (same : fold groupname = fold "admin") : (m.group? fold groupname).isSome := by
  obtain ⟨group, member⟩ := List.exists_mem_of_ne_nil _ present
  obtain ⟨member, admin⟩ := List.mem_filter.mp member
  rw [Machine.group?, List.find?_isSome]
  refine ⟨group, member, ?_⟩
  rw [same]
  exact admin

theorem spared_ldapaddgroup {m m' : Machine} {groupname : String}
    (present : m.adminGroups fold ≠ []) (changed : ldapaddgroup fold groupname m = some m') :
    Spared fold m m' := by
  unfold ldapaddgroup at changed
  split at changed <;> cases changed
  rename_i absent
  have other : fold groupname ≠ fold "admin" := fun same =>
    absent (group?_isSome_of_admin present same)
  refine ⟨?_, fun account member _ => ⟨account, member, rfl, rfl⟩⟩
  simp [Machine.adminGroups, List.filter_append, other]

theorem spared_ldaprenamegroup {m m' : Machine} {oldGroupname newGroupname : String}
    (present : m.adminGroups fold ≠ []) (other : fold oldGroupname ≠ fold "admin")
    (changed : ldaprenamegroup fold oldGroupname newGroupname m = some m') : Spared fold m m' := by
  unfold ldaprenamegroup at changed
  split at changed <;> cases changed
  rename_i free
  apply spared_mapGroup m other
  intro _ _ _ same
  exact free (.inl (group?_isSome_of_admin present same))

theorem spared_ldapdeletegroup {m m' : Machine} {groupname : String}
    (other : fold groupname ≠ fold "admin") (changed : ldapdeletegroup fold groupname m = some m') :
    Spared fold m m' := by
  unfold ldapdeletegroup at changed
  split at changed <;> cases changed
  refine ⟨?_, fun account member _ => ⟨account, member, rfl, rfl⟩⟩
  unfold Machine.adminGroups
  rw [List.filter_filter]
  apply List.filter_congr
  intro group _
  by_cases same : fold group.name = fold "admin"
  · simp [same, other.symm]
  · simp [same]

theorem spared_ldapaddusertogroup {m m' : Machine} {username groupname : String}
    (other : fold groupname ≠ fold "admin" )
    (changed : ldapaddusertogroup fold username groupname m = some m') : Spared fold m m' := by
  unfold ldapaddusertogroup at changed
  split at changed
  · cases changed
  · split at changed <;> cases changed
    apply spared_mapGroup m other
    intro group _ same h
    exact other (same.symm.trans h)

theorem spared_ldapdeleteuserfromgroup {m m' : Machine} {username groupname : String}
    (other : fold groupname ≠ fold "admin" )
    (changed : ldapdeleteuserfromgroup fold username groupname m = some m') : Spared fold m m' := by
  unfold ldapdeleteuserfromgroup at changed
  split at changed
  · cases changed
  · split at changed <;> cases changed
    apply spared_mapGroup m other
    intro group _ same h
    exact other (same.symm.trans h)

/-! ## Actions -/

def Quiet (m m' : Machine) : Prop :=
  m'.accounts = m.accounts ∧ m'.groups = m.groups

theorem Quiet.spared {m m' : Machine} (quiet : Quiet m m') : Spared fold m m' :=
  spared_of_same quiet.1 quiet.2

section Rules

variable {P : Machine → Prop}

/-- A property of the accounts and the groups. -/
class OfDirectory (P : Machine → Prop) : Prop where
  same : ∀ m m', Quiet m m' → P m → P m'

variable [OfDirectory P]

theorem safe_fails : Safe P fails := by
  intro m h
  exact OfDirectory.same m _ ⟨rfl, rfl⟩ h

theorem safe_command {failure : Exception} {change : Machine → Option Machine}
    (keeps : ∀ m m', P m → change m = some m' → P m') : Safe P (command failure change) := by
  apply safe_fails.bind
  intro failed
  split
  · exact safe_throw failure
  · intro m h
    rw [exec_bind, exec_get]
    dsimp only
    cases changed : change m with
    | none => exact h
    | some m' => exact keeps m m' h changed

theorem safe_lookUp : Safe P lookUp :=
  safe_command fun _ _ h same => Option.some.inj same ▸ h

theorem safe_getSambaUsers : Safe P getSambaUsers :=
  safe_lookUp.bind fun _ => safe_get.bind fun _ => safe_pure _

theorem safe_groupExists (groupname : String) : Safe P (groupExists fold groupname) := by
  apply safe_fails.bind
  intro failed
  split
  · exact safe_pure _
  · exact safe_get.bind fun _ => safe_pure _

theorem safe_getUserGroups (username : String) : Safe P (getUserGroups fold username) := by
  apply safe_lookUp.bind
  intro _
  apply safe_get.bind
  intro m
  split <;> exact safe_pure _

theorem safe_getUserHome (username : String) : Safe P (getUserHome fold username) := by
  apply safe_lookUp.bind
  intro _
  apply safe_get.bind
  intro m
  split
  · exact safe_throw _
  · exact safe_pure _

omit [OfDirectory P] in
theorem safe_validateUsername (username : String) : Safe P (validateUsername username) := by
  unfold validateUsername
  split
  · exact safe_throw _
  · split
    · exact safe_throw _
    · exact safe_pure _

omit [OfDirectory P] in
theorem safe_validatePassword (username : String) (password : Option String) :
    Safe P (validatePassword fold username password) := by
  apply safe_get.bind
  intro m
  split
  · exact safe_pure _
  · exact safe_throw _

omit [OfDirectory P] in
theorem safe_givenName (username : Option String) : Safe P (givenName username) := by
  unfold givenName
  split
  · exact safe_throw _
  · split
    · exact safe_throw _
    · exact safe_pure _

theorem safe_same {failure : Exception} {change : Machine → Option Machine}
    (keeps : ∀ m m', change m = some m' → Quiet m m') : Safe P (command failure change) :=
  safe_command fun m m' h changed => OfDirectory.same m m' (keeps m m' changed) h

theorem safe_deleteSambaUser (username : String) : Safe P (deleteSambaUser username) := by
  apply safe_getSambaUsers.bind
  intro users
  split
  · apply Safe.bind
    · apply safe_same
      intro m m' changed
      cases changed
      exact ⟨rfl, rfl⟩
    · exact fun _ => safe_lookUp
  · exact safe_pure _

theorem safe_setSambaUser (username : String) : Safe P (setSambaUser username) := by
  apply safe_same
  intro m m' changed
  cases changed
  exact ⟨rfl, rfl⟩

theorem safe_moveHome (oldHome newUsername : String) : Safe P (moveHome oldHome newUsername) := by
  unfold moveHome
  split
  · exact safe_throw _
  · apply safe_get.bind
    intro m
    split
    · exact safe_pure _
    · split
      · exact safe_pure _
      · apply Safe.bind
        · apply safe_same
          intro m m' changed
          cases changed
          exact ⟨rfl, rfl⟩
        · exact fun _ => safe_pure _

theorem safe_validateUser (username password : Option String) (mustBeAdmin : Bool) :
    Safe P (validateUser fold username password mustBeAdmin) := by
  unfold validateUser
  split
  · apply (safe_lookUp.bind fun _ => safe_get.bind fun _ => safe_pure _).bind
    intro admins
    split
    · exact safe_pure _
    · apply (safe_givenName username).bind
      intro username
      split
      · exact safe_throw _
      · exact safe_validatePassword username password
  · exact (safe_givenName username).bind fun username => safe_validatePassword username password

end Rules

instance ofDirectory_spared (m : Machine) : OfDirectory (Spared fold m) where
  same _ _ quiet spared := spared.trans quiet.spared

instance ofDirectory_quiet (m : Machine) : OfDirectory (Quiet m) where
  same _ _ quiet first := ⟨quiet.1.trans first.1, quiet.2.trans first.2⟩

section Spared

variable {m₀ : Machine} (present : m₀.adminGroups fold ≠ [])

include present

theorem safe_spared {failure : Exception} {change : Machine → Option Machine}
    (keeps : ∀ m m', Spared fold m₀ m → m.adminGroups fold ≠ [] → change m = some m' →
      Spared fold m m') : Safe (Spared fold m₀) (command failure change) := by
  apply safe_command
  intro m m' spared changed
  apply spared.trans
  apply keeps m m' spared _ changed
  rw [spared.groups]
  exact present

theorem safe_setPassword (username password : String) :
    Safe (Spared fold m₀) (setPassword fold username password) := by
  apply safe_lookUp.bind
  intro _
  apply safe_spared present
  intro m m' _ _ changed
  exact spared_mapAccount changed (.inr fun _ => ⟨rfl, rfl⟩)

theorem safe_ensureGroup (groupname : String) :
    Safe (Spared fold m₀) (ensureGroup fold groupname) := by
  apply (safe_groupExists groupname).bind
  intro found
  split
  · exact safe_pure _
  · apply safe_spared present
    intro m m' _ here changed
    exact spared_ldapaddgroup here changed

theorem safe_addMember (username : String) {groupname : String}
    (other : fold groupname ≠ fold "admin") :
    Safe (Spared fold m₀) (addMember fold username groupname) := by
  apply (safe_ensureGroup present groupname).bind
  intro _
  apply safe_spared present
  intro m m' _ _ changed
  exact spared_ldapaddusertogroup other changed

theorem safe_removeMember (username : String) {groupname : String}
    (other : fold groupname ≠ fold "admin") :
    Safe (Spared fold m₀) (removeMember fold username groupname) := by
  apply safe_spared present
  intro m m' _ _ changed
  exact spared_ldapdeleteuserfromgroup other changed

theorem safe_renameLdapUser {oldUsername : String} (newUsername : String)
    (newHome : Option String) (other : m₀.isAdmin fold oldUsername = false) :
    Safe (Spared fold m₀) (renameLdapUser fold oldUsername newUsername newHome) := by
  apply Safe.bind
  · apply safe_spared present
    intro m m' spared _ changed
    unfold ldaprenameuser at changed
    split at changed
    · cases changed
    · exact spared_mapAccount changed (.inl ((spared.isAdmin oldUsername).trans other))
  · intro _
    apply safe_spared present
    intro m m' _ _ changed
    split at changed <;> exact spared_mapAccount changed (.inr fun _ => ⟨rfl, rfl⟩)

omit present in
theorem groupsOf_other {m : Machine} {username : String} (other : m.isAdmin fold username = false)
    {groupname : String} (member : groupname ∈ m.groupsOf fold username) :
    fold groupname ≠ fold "admin" := by
  obtain ⟨group, found, rfl⟩ := List.mem_map.mp member
  obtain ⟨there, has⟩ := List.mem_filter.mp found
  intro same
  have admin : m.isAdmin fold username = true := by
    rw [Machine.isAdmin, List.any_eq_true]
    exact ⟨group, List.mem_filter.mpr ⟨there, by simpa using same⟩, has⟩
  rw [admin] at other
  cases other

theorem safe_renameUser {oldUsername : String} (newUsername : String)
    (other : m₀.isAdmin fold oldUsername = false) :
    Safe (Spared fold m₀) (renameUser fold oldUsername newUsername) := by
  apply (safe_validateUsername oldUsername).bind
  intro _
  apply (safe_validateUsername newUsername).bind
  intro _
  have groups : Triple (Spared fold m₀) (getUserGroups fold oldUsername)
      (fun groups m => Spared fold m₀ m ∧ ∀ group ∈ groups, fold group ≠ fold "admin")
      (fun _ => Spared fold m₀) := by
    have looked : Safe (Spared fold m₀) lookUp := safe_lookUp
    apply Triple.bind looked
    intro _ m spared
    have other' := (spared.isAdmin oldUsername).trans other
    rw [exec_bind, exec_get]
    dsimp only
    cases m.account? fold oldUsername with
    | none => exact ⟨spared, by simp⟩
    | some account => exact ⟨spared, fun group member => groupsOf_other other' member⟩
  apply groups.bind
  intro groups
  apply Triple.extract (∀ group ∈ groups, fold group ≠ fold "admin") fun _ h => h.2
  intro apart
  apply Triple.strengthen _ fun _ h => h.1
  apply (safe_deleteSambaUser oldUsername).bind
  intro _
  apply Safe.bind (safe_forEach fun group member => safe_removeMember present _ (apart group member))
  intro _
  apply (safe_getUserHome oldUsername).bind
  intro oldHome
  apply (safe_moveHome oldHome newUsername).bind
  intro newHome
  apply (safe_renameLdapUser present newUsername newHome other).bind
  intro _
  exact safe_forEach fun group member => safe_addMember present _ (apart group member)

end Spared

/-! ## Refusals -/

def Authorized (fold : String → String) (m : Machine) (user password : Option String) : Prop :=
  ∃ username, user = some username ∧ username ∈ m.members fold "admin" ∧
    m.isAuthenticated fold username password

section Refused

variable {m₀ : Machine}

theorem Quiet.members {m m' : Machine} (quiet : Quiet m m') (groupname : String) :
    m'.members fold groupname = m.members fold groupname := by
  rw [Machine.members, Machine.members, Machine.group?, Machine.group?, quiet.2]

theorem Quiet.account? {m m' : Machine} (quiet : Quiet m m') (username : String) :
    m'.account? fold username = m.account? fold username := by
  rw [Machine.account?, Machine.account?, quiet.1]

theorem refused {user password : Option String} (admins : m₀.members fold "admin" ≠ [])
    (visitor : ¬ Authorized fold m₀ user password) :
    Triple (Quiet m₀) (validateUser fold user password true) (fun _ _ => False)
      (fun _ => Quiet m₀) := by
  have found : Triple (Quiet m₀) (getAdminUsers fold)
      (fun members m => Quiet m₀ m ∧ members = m₀.members fold "admin") (fun _ => Quiet m₀) := by
    have looked : Safe (Quiet m₀) lookUp := safe_lookUp
    apply Triple.bind looked
    intro _ m quiet
    exact ⟨quiet, quiet.members "admin"⟩
  unfold validateUser
  rw [if_pos rfl]
  apply found.bind
  intro members
  apply Triple.extract (members = m₀.members fold "admin") fun _ h => h.2
  rintro rfl
  apply Triple.strengthen _ fun _ h => h.1
  rw [if_neg admins]
  cases user with
  | none => exact Triple.throw fun _ h => h
  | some username =>
    unfold givenName
    dsimp only
    split
    · exact Triple.throw fun _ h => h
    · show Triple (Quiet m₀) (if _ then _ else _) _ _
      split
      · exact Triple.throw fun _ h => h
      · rename_i admin
        intro m quiet
        have same : m.isAuthenticated fold username password =
            m₀.isAuthenticated fold username password := by
          rw [Machine.isAuthenticated, Machine.isAuthenticated, quiet.account?]
        have wrong : m₀.isAuthenticated fold username password = false := by
          rw [Bool.eq_false_iff]
          intro right
          exact visitor ⟨username, rfl, not_not.mp admin, right⟩
        rw [validatePassword, exec_bind, exec_get]
        dsimp only
        rw [same, wrong]
        exact quiet

theorem quiet_renameUser {oldUsername : String} (newUsername : String)
    (absent : m₀.account? fold oldUsername = none) :
    Safe (Quiet m₀) (renameUser fold oldUsername newUsername) := by
  apply (safe_validateUsername oldUsername).bind
  intro _
  apply (safe_validateUsername newUsername).bind
  intro _
  have groups : Triple (Quiet m₀) (getUserGroups fold oldUsername)
      (fun groups m => Quiet m₀ m ∧ groups = []) (fun _ => Quiet m₀) := by
    have looked : Safe (Quiet m₀) lookUp := safe_lookUp
    apply Triple.bind looked
    intro _ m quiet
    have none := (quiet.account? oldUsername).trans absent
    rw [exec_bind, exec_get]
    dsimp only
    rw [none]
    exact ⟨quiet, rfl⟩
  apply groups.bind
  intro groups
  apply Triple.extract (groups = []) fun _ h => h.2
  rintro rfl
  apply Triple.strengthen _ fun _ h => h.1
  apply (safe_deleteSambaUser oldUsername).bind
  intro _
  apply Safe.bind (safe_pure _)
  intro _
  have home : Triple (Quiet m₀) (getUserHome fold oldUsername) (fun _ _ => False)
      (fun _ => Quiet m₀) := by
    have looked : Safe (Quiet m₀) lookUp := safe_lookUp
    apply Triple.bind looked
    intro _ m quiet
    have none := (quiet.account? oldUsername).trans absent
    rw [exec_bind, exec_get]
    dsimp only
    rw [none]
    exact quiet
  apply home.bind
  intro _ m impossible
  exact impossible.elim

end Refused

/-! ## Runs -/

def LeavesAdmins (fold : String → String) (m : Machine) (call : Call) : Prop :=
  m.members fold "admin" ≠ [] → ¬ Authorized fold m call.credentials.1 call.credentials.2 →
    (step fold m call).members fold "admin" = m.members fold "admin" ∧
      ∀ account ∈ m.accounts, m.isAdmin fold account.name →
        ∃ account' ∈ (step fold m call).accounts,
          account'.name = account.name ∧ account'.isLocked = account.isLocked

/-- The call renames an administrator, or spells the group `admin` in another way. -/
def Bypasses (fold : String → String) (m : Machine) : Call → Prop
  | .renameUser oldUsername _ =>
    (m.account? fold oldUsername).isSome ∧ m.isAdmin fold oldUsername
  | .renameGroup groupname _ | .removeGroup groupname | .addUserToGroup _ groupname _ _
  | .removeUserFromGroup _ groupname _ _ => groupname ≠ "admin" ∧ fold groupname = fold "admin"
  | _ => False

theorem refused_then {α : Type} {m : Machine} {user password : Option String} {rest : Unit → Action α}
    (admins : m.members fold "admin" ≠ []) (visitor : ¬ Authorized fold m user password) :
    Safe (Quiet m) (validateUser fold user password true >>= rest) := by
  apply (refused admins visitor).bind
  intro _ _ impossible
  exact impossible.elim

theorem spared_step {m : Machine} {call : Call} (admins : m.members fold "admin" ≠ [])
    (visitor : ¬ Authorized fold m call.credentials.1 call.credentials.2)
    (guarded : ¬ Bypasses fold m call) : Spared fold m (step fold m call) := by
  have present : m.adminGroups fold ≠ [] := by
    intro none
    rw [Machine.members_admin, none] at admins
    exact admins rfl
  have quiet {act : Action Unit} (safe : Safe (Quiet m) act) : Spared fold m (act.exec m).2 :=
    Quiet.spared (safe.final ⟨rfl, rfl⟩)
  have spared {act : Action Unit} (safe : Safe (Spared fold m) act) :
      Spared fold m (act.exec m).2 :=
    safe.final (Spared.refl fold m)
  cases call with
  | createUser username password authUser authPassword =>
    apply quiet
    exact (safe_validateUsername username).bind fun _ => refused_then admins visitor
  | removeUser username authUser authPassword =>
    apply quiet
    exact (safe_validateUsername username).bind fun _ => refused_then admins visitor
  | renameUser oldUsername newUsername =>
    cases account : m.account? fold oldUsername with
    | none => exact quiet (quiet_renameUser newUsername account)
    | some found =>
      have other : m.isAdmin fold oldUsername = false := by
        rw [Bool.eq_false_iff]
        intro admin
        exact guarded ⟨by rw [account]; rfl, admin⟩
      exact spared (safe_renameUser present newUsername other)
  | setUserPassword username password authUser authPassword =>
    apply spared
    apply (safe_validateUser (some authUser) (some authPassword) _).bind
    intro _
    apply (safe_setPassword present username password).bind
    intro _
    exact safe_setSambaUser username
  | createGroup groupname => exact spared (safe_ensureGroup present groupname)
  | renameGroup oldGroupname newGroupname =>
    apply spared
    unfold perform renameGroup
    dsimp only
    split
    · exact safe_throw _
    · rename_i named
      simp only [not_or] at named
      have other : fold oldGroupname ≠ fold "admin" := fun same => guarded ⟨named.1, same⟩
      apply (safe_groupExists oldGroupname).bind
      intro found
      split
      · apply safe_spared present
        intro m' m'' _ here changed
        exact spared_ldaprenamegroup here other changed
      · exact safe_pure _
  | removeGroup groupname =>
    apply spared
    unfold perform removeGroup
    dsimp only
    split
    · exact safe_throw _
    · rename_i named
      have other : fold groupname ≠ fold "admin" := fun same => guarded ⟨named, same⟩
      apply (safe_groupExists groupname).bind
      intro found
      split
      · apply safe_spared present
        intro m' m'' _ _ changed
        exact spared_ldapdeletegroup other changed
      · exact safe_pure _
  | addUserToGroup username groupname authUser authPassword =>
    by_cases named : groupname = "admin"
    · apply quiet
      unfold perform addUserToGroup
      dsimp only
      rw [when_of named]
      exact refused_then admins visitor
    · apply spared
      have other : fold groupname ≠ fold "admin" := fun same => guarded ⟨named, same⟩
      unfold perform addUserToGroup
      dsimp only
      rw [when_of_not named]
      exact (safe_pure ()).bind fun _ => safe_addMember present username other
  | removeUserFromGroup username groupname authUser authPassword =>
    by_cases named : groupname = "admin"
    · apply quiet
      unfold perform removeUserFromGroup
      dsimp only
      rw [when_of named]
      exact refused_then admins visitor
    · apply spared
      have other : fold groupname ≠ fold "admin" := fun same => guarded ⟨named, same⟩
      unfold perform removeUserFromGroup
      dsimp only
      rw [when_of_not named]
      apply (safe_pure ()).bind
      intro _
      apply (safe_removeMember present username other).bind
      intro _
      exact safe_when fun _ => safe_lookUp
  | setUserStatus username status authUser authPassword =>
    apply quiet
    unfold perform setUserStatus
    dsimp only
    split
    · exact safe_throw _
    · exact refused_then admins visitor

def oneAdmin : Machine where
  accounts := [⟨"alice", some "secret", false, "alice"⟩, ⟨"mallory", some "password", false, "mallory"⟩]
  groups := [⟨"admin", ["alice"]⟩]
  samba := []
  homes := OrderedDict.empty
  faults := []

end Plinth.Users.Ldap
