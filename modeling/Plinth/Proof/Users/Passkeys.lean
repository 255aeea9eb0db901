import Plinth.Lib.Effect
import Plinth.Lib.Runs
import Plinth.Model.Users.Passkeys

/-! # Whose passkeys a session acts on -/

namespace Plinth.Users

def Response.actedOn : Response → List Passkey
  | .listed passkeys => passkeys
  | .page passkey => [passkey]
  | .created passkey => [passkey]
  | .renamed passkey => [passkey]
  | .deleted passkey => [passkey]
  | _ => []

section

variable (fido2 : Fido2) (s : System) (request : Request)

def VerifiedAgainst (passkey : Passkey) : Prop :=
  ∃ body found, request.view = .loginComplete body ∧
    fido2.authenticateComplete request.domain (s.sessions request.session).fido2ServerState
      ⟨passkey.aaguid, passkey.credentialId, passkey.publicKey⟩ body = .ok found

/-- A request acts on passkeys of the user of the session only, and leaves those of every other
user as they are. -/
structure OwnOnly : Prop where
  acted : ∀ passkey ∈ (respond fido2 s request).1.actedOn,
    (s.sessions request.session).user = some passkey.user
  kept : ∀ passkey ∈ s.passkeys.rows,
    ((step fido2 s request).sessions request.session).user ≠ some passkey.user →
      passkey ∈ (step fido2 s request).passkeys.rows
  added : ∀ passkey ∈ (step fido2 s request).passkeys.rows,
    ((step fido2 s request).sessions request.session).user ≠ some passkey.user →
      passkey ∈ s.passkeys.rows
  signsIn : ((step fido2 s request).sessions request.session).user =
      (s.sessions request.session).user ∨
    ∃ passkey ∈ s.passkeys.rows, VerifiedAgainst fido2 s request passkey ∧
      ((step fido2 s request).sessions request.session).user = some passkey.user
  others : ∀ other ≠ request.session,
    (step fido2 s request).sessions other = s.sessions other

/-- What a request for the own user name selects by its `passkey_id` belongs to that user. -/
def SelectsOwn : Prop :=
  match request.view with
  | .edit username passkeyId _ => (s.sessions request.session).user = some username →
      ∀ passkey, s.passkeys.get? passkeyId = some passkey → passkey.user = username
  | .delete username passkeyId => (s.sessions request.session).user = some username →
      request.post = true →
        ∀ passkey, s.passkeys.get? passkeyId = some passkey → passkey.user = username
  | _ => True

end

variable {fido2 : Fido2} {s : System} {request : Request}

/-! ## Requests that change no passkey -/

theorem ownOnly_of_unchanged {response : Response} (same : respond fido2 s request = (response, s))
    (acted : ∀ passkey ∈ response.actedOn,
      (s.sessions request.session).user = some passkey.user) : OwnOnly fido2 s request := by
  have after : step fido2 s request = s := by
    unfold step
    rw [same]
  constructor
  · rw [same]
    exact acted
  · intro passkey member _
    rw [after]
    exact member
  · intro passkey member _
    rw [after] at member
    exact member
  · left
    rw [after]
  · intro other _
    rw [after]

theorem ownOnly_of_no_action {response : Response}
    (same : respond fido2 s request = (response, s)) (none : response.actedOn = []) :
    OwnOnly fido2 s request := by
  apply ownOnly_of_unchanged same
  intro passkey member
  rw [none] at member
  cases member

theorem ownOnly_of_begun {state : String}
    (begun : respond fido2 s request = (.begun, s.setSession request.session
      { s.sessions request.session with fido2ServerState := some state })) :
    OwnOnly fido2 s request := by
  have after : step fido2 s request = s.setSession request.session
      { s.sessions request.session with fido2ServerState := some state } := by
    unfold step
    rw [begun]
  constructor
  · rw [begun]
    intro passkey member
    cases member
  · intro passkey member _
    rw [after]
    exact member
  · intro passkey member _
    rw [after] at member
    exact member
  · left
    rw [after]
    simp [System.setSession]
  · intro other different
    rw [after]
    simp [System.setSession, different]

theorem requireOwnerOrAdmin_cases {session : Nat} (username : String)
    (view : Response × System) (nonAdmin : isUserAdmin s session = false) :
    ((s.sessions session).user = some username ∧
        requireOwnerOrAdmin s session username view = view) ∨
      ((s.sessions session).user ≠ some username ∧ ∃ response : Response,
        response.actedOn = [] ∧ requireOwnerOrAdmin s session username view = (response, s)) := by
  unfold requireOwnerOrAdmin
  cases signedIn : (s.sessions session).user with
  | none => exact .inr ⟨nofun, .loginRequired, rfl, rfl⟩
  | some user =>
    by_cases same : username = user
    · left
      simp [same]
    · right
      refine ⟨fun own => same (Option.some.inj own).symm, .permissionDenied, rfl, ?_⟩
      simp [same, nonAdmin]

/-! ## Requests that change a passkey -/

theorem mem_modify_iff {t : Passkeys} {id : Nat} {change : Passkey → Passkey}
    {sameId : ∀ row, (change row).id = row.id}
    {sameCredential : ∀ row, (change row).credentialId = row.credentialId} (row : Passkey) :
    row ∈ (t.modify id change sameId sameCredential).rows ↔
      (∃ old ∈ t.rows, old.id = id ∧ change old = row) ∨ (row ∈ t.rows ∧ row.id ≠ id) := by
  show row ∈ t.rows.map (fun row => if row.id = id then change row else row) ↔ _
  rw [List.mem_map]
  constructor
  · rintro ⟨old, member, rfl⟩
    by_cases here : old.id = id
    · rw [if_pos here]
      exact .inl ⟨old, member, here, rfl⟩
    · rw [if_neg here]
      exact .inr ⟨member, here⟩
  · rintro (⟨old, member, here, rfl⟩ | ⟨member, here⟩)
    · exact ⟨old, member, if_pos here⟩
    · exact ⟨row, member, if_neg here⟩

theorem Passkeys.rows_create {t table : Passkeys} {passkey : Passkey}
    (created : t.create passkey = some table) : table.rows = passkey :: t.rows := by
  unfold create at created
  split at created
  · cases created
    rfl
  · cases created

theorem Passkeys.get?_eq_some_iff {t : Passkeys} {id : Nat} {passkey : Passkey} :
    t.get? id = some passkey ↔ passkey ∈ t.rows ∧ passkey.id = id := by
  constructor
  · intro found
    exact ⟨List.mem_of_find?_eq_some found, by simpa using List.find?_some found⟩
  · rintro ⟨member, rfl⟩
    cases found : t.get? passkey.id with
    | none =>
      have := List.find?_eq_none.mp found passkey member
      simp at this
    | some other =>
      have same : other.id = passkey.id := by simpa using List.find?_some found
      have := List.inj_on_of_nodup_map t.ids (List.mem_of_find?_eq_some found) member same
      rw [this]

theorem modify_keeps_others {t : Passkeys} {id : Nat} {change : Passkey → Passkey}
    {sameId : ∀ row, (change row).id = row.id}
    {sameCredential : ∀ row, (change row).credentialId = row.credentialId} {owner : String}
    (owned : ∀ row ∈ t.rows, row.id = id → row.user = owner)
    (sameUser : ∀ row, (change row).user = row.user) {row : Passkey} (other : row.user ≠ owner) :
    row ∈ (t.modify id change sameId sameCredential).rows ↔ row ∈ t.rows := by
  rw [mem_modify_iff]
  constructor
  · rintro (⟨old, member, here, rfl⟩ | ⟨member, _⟩)
    · rw [sameUser] at other
      exact absurd (owned old member here) other
    · exact member
  · intro member
    exact .inr ⟨member, fun here => other (owned row member here)⟩

theorem ownOnly_of_changed {response : Response} {table : Passkeys} {owner : String}
    (changed : respond fido2 s request = (response, { s with passkeys := table }))
    (signedIn : (s.sessions request.session).user = some owner)
    (acted : ∀ passkey ∈ response.actedOn, passkey.user = owner)
    (others : ∀ row : Passkey, row.user ≠ owner → (row ∈ table.rows ↔ row ∈ s.passkeys.rows)) :
    OwnOnly fido2 s request := by
  have after : step fido2 s request = { s with passkeys := table } := by
    unfold step
    rw [changed]
  have notOwner {passkey : Passkey}
      (different : ((step fido2 s request).sessions request.session).user ≠ some passkey.user) :
      passkey.user ≠ owner := by
    intro same
    apply different
    rw [after, same]
    exact signedIn
  constructor
  · rw [changed]
    intro passkey member
    rw [acted passkey member]
    exact signedIn
  · intro passkey member different
    have := (others passkey (notOwner different)).mpr member
    rw [after]
    exact this
  · intro passkey member different
    rw [after] at member
    exact (others passkey (notOwner different)).mp member
  · left
    rw [after]
  · intro other _
    rw [after]

theorem ownOnly_addComplete {username body : String}
    (view : request.view = .addComplete username body)
    (nonAdmin : isUserAdmin s request.session = false) : OwnOnly fido2 s request := by
  have unfolded : respond fido2 s request = requireOwnerOrAdmin s request.session username
      (requirePost s request.post
        (passkeyAddComplete fido2 s request.session request.domain username body)) := by
    unfold respond
    rw [view]
  rcases requireOwnerOrAdmin_cases username (requirePost s request.post
    (passkeyAddComplete fido2 s request.session request.domain username body)) nonAdmin with
    ⟨own, reached⟩ | ⟨_, response, nothing, denied⟩
  · rw [reached] at unfolded
    unfold requirePost at unfolded
    split at unfolded
    · unfold passkeyAddComplete at unfolded
      split at unfolded
      · exact ownOnly_of_no_action unfolded rfl
      · split at unfolded
        · exact ownOnly_of_no_action unfolded rfl
        · split at unfolded
          · exact ownOnly_of_no_action unfolded rfl
          · dsimp only at unfolded
            split at unfolded
            · exact ownOnly_of_no_action unfolded rfl
            · rename_i table created
              apply ownOnly_of_changed unfolded own
              · intro passkey member
                rw [List.mem_singleton.mp member]
              · intro row other
                have rows := Passkeys.rows_create created
                rw [rows, List.mem_cons]
                constructor
                · rintro (rfl | member)
                  · exact absurd rfl other
                  · exact member
                · exact .inr
    · exact ownOnly_of_no_action unfolded rfl
  · exact ownOnly_of_no_action (unfolded.trans denied) nothing

theorem owned_of_get? {t : Passkeys} {id : Nat} {passkey : Passkey}
    (found : t.get? id = some passkey) :
    ∀ row ∈ t.rows, row.id = id → row.user = passkey.user := by
  intro row member here
  have := Passkeys.get?_eq_some_iff.mpr ⟨member, here⟩
  rw [this] at found
  rw [Option.some.inj found]

theorem ownOnly_of_selected_iff {passkeyId : Nat} {owner : String}
    (own : (s.sessions request.session).user = some owner)
    (missing : s.passkeys.get? passkeyId = none → respond fido2 s request = (.notFound, s))
    (selected : ∀ passkey, s.passkeys.get? passkeyId = some passkey →
      (respond fido2 s request).1.actedOn = [passkey] ∧
        (passkey.user = owner → OwnOnly fido2 s request)) :
    OwnOnly fido2 s request ↔
      ∀ passkey, s.passkeys.get? passkeyId = some passkey → passkey.user = owner := by
  constructor
  · intro ownOnly passkey found
    obtain ⟨acted, _⟩ := selected passkey found
    have := ownOnly.acted passkey (by rw [acted]; exact List.mem_singleton_self passkey)
    rw [own] at this
    exact (Option.some.inj this).symm
  · intro owned
    cases found : s.passkeys.get? passkeyId with
    | none => exact ownOnly_of_no_action (missing found) rfl
    | some passkey => exact (selected passkey found).2 (owned passkey found)

theorem ownOnly_edit_iff {username : String} {passkeyId : Nat} {name : Option String}
    (view : request.view = .edit username passkeyId name)
    (nonAdmin : isUserAdmin s request.session = false) :
    OwnOnly fido2 s request ↔ SelectsOwn s request := by
  have unfolded : respond fido2 s request = requireOwnerOrAdmin s request.session username
      (passkeyEdit s request.post passkeyId name) := by
    unfold respond
    rw [view]
  have condition : SelectsOwn s request ↔ ((s.sessions request.session).user = some username →
      ∀ passkey, s.passkeys.get? passkeyId = some passkey → passkey.user = username) := by
    unfold SelectsOwn
    rw [view]
  rw [condition]
  rcases requireOwnerOrAdmin_cases username (passkeyEdit s request.post passkeyId name) nonAdmin
    with ⟨own, reached⟩ | ⟨notOwn, response, nothing, denied⟩
  · rw [reached] at unfolded
    rw [forall_prop_of_true own]
    apply ownOnly_of_selected_iff own
    · intro missing
      rw [unfolded, passkeyEdit, missing]
    · intro passkey found
      rw [passkeyEdit, found] at unfolded
      dsimp only at unfolded
      split at unfolded
      · rename_i newName _
        refine ⟨by rw [unfolded]; rfl, fun owned => ?_⟩
        apply ownOnly_of_changed unfolded own
        · intro acted member
          rw [List.mem_singleton.mp member, owned]
        · intro row other
          apply modify_keeps_others
          · intro row member here
            rw [owned_of_get? found row member here, owned]
          · intro row
            rfl
          · exact other
      · refine ⟨by rw [unfolded]; rfl, fun owned => ?_⟩
        apply ownOnly_of_unchanged unfolded
        intro acted member
        rw [List.mem_singleton.mp member, own, owned]
  · constructor
    · intro _ own
      exact absurd own notOwn
    · intro _
      exact ownOnly_of_no_action (unfolded.trans denied) nothing

theorem ownOnly_delete_iff {username : String} {passkeyId : Nat}
    (view : request.view = .delete username passkeyId)
    (nonAdmin : isUserAdmin s request.session = false) :
    OwnOnly fido2 s request ↔ SelectsOwn s request := by
  have unfolded : respond fido2 s request = requireOwnerOrAdmin s request.session username
      (requirePost s request.post (passkeyDelete s passkeyId)) := by
    unfold respond
    rw [view]
  have condition : SelectsOwn s request ↔ ((s.sessions request.session).user = some username →
      request.post = true →
        ∀ passkey, s.passkeys.get? passkeyId = some passkey → passkey.user = username) := by
    unfold SelectsOwn
    rw [view]
  rw [condition]
  rcases requireOwnerOrAdmin_cases username (requirePost s request.post
    (passkeyDelete s passkeyId)) nonAdmin with ⟨own, reached⟩ | ⟨notOwn, response, nothing, denied⟩
  · rw [reached] at unfolded
    rw [forall_prop_of_true own]
    cases post : request.post with
    | false =>
      rw [requirePost, post] at unfolded
      exact ⟨fun _ => nofun, fun _ => ownOnly_of_no_action unfolded rfl⟩
    | true =>
      rw [requirePost, post, if_pos rfl] at unfolded
      rw [forall_prop_of_true rfl]
      apply ownOnly_of_selected_iff own
      · intro missing
        rw [unfolded, passkeyDelete, missing]
      · intro passkey found
        rw [passkeyDelete, found] at unfolded
        refine ⟨by rw [unfolded]; rfl, fun owned => ?_⟩
        apply ownOnly_of_changed unfolded own
        · intro acted member
          rw [List.mem_singleton.mp member, owned]
        · intro row other
          show row ∈ s.passkeys.rows.filter (fun row => row.id ≠ passkeyId) ↔ _
          rw [List.mem_filter, and_iff_left_iff_imp]
          intro member
          apply decide_eq_true
          intro here
          apply other
          rw [owned_of_get? found row member here, owned]
  · constructor
    · intro _ own
      exact absurd own notOwn
    · intro _
      exact ownOnly_of_no_action (unfolded.trans denied) nothing

/-! ## Signing in -/

theorem verifiedPasskey_ok {session : Nat} {domain body : String} {passkey : Passkey}
    (returnsGiven : fido2.ReturnsGiven)
    (verified : verifiedPasskey fido2 s session domain body = .ok passkey) :
    passkey ∈ s.passkeys.rows ∧ ∃ found,
      fido2.authenticateComplete domain (s.sessions session).fido2ServerState
        ⟨passkey.aaguid, passkey.credentialId, passkey.publicKey⟩ body = .ok found := by
  unfold verifiedPasskey at verified
  obtain ⟨credentialId, _, verified⟩ := Effect.ok_of_bind verified
  split at verified
  · rename_i selected isSelected
    obtain ⟨key, _, verified⟩ := Effect.ok_of_bind verified
    obtain ⟨found, authenticated, verified⟩ := Effect.ok_of_bind verified
    split at verified
    · rename_i stored isStored
      cases verified
      have member := List.mem_of_find?_eq_some isStored
      have given := returnsGiven _ _ _ _ _ authenticated
      have matching : passkey.credentialId = found.credentialId ∧
          passkey.publicKey = found.publicKey := by
        simpa using List.find?_some isStored
      rw [given] at matching
      have same : passkey = selected :=
        List.inj_on_of_nodup_map s.passkeys.credentials member
          (List.mem_of_find?_eq_some isSelected) matching.1
      refine ⟨member, found, ?_⟩
      rw [same] at matching ⊢
      rw [matching.2]
      exact authenticated
    · cases verified
  · cases verified

theorem ownOnly_loginComplete {body : String} (view : request.view = .loginComplete body)
    (returnsGiven : fido2.ReturnsGiven) : OwnOnly fido2 s request := by
  have unfolded : respond fido2 s request = requirePost s request.post
      (passkeyLoginComplete fido2 s request.session request.domain body) := by
    unfold respond
    rw [view]
  unfold requirePost at unfolded
  split at unfolded
  · unfold passkeyLoginComplete at unfolded
    split at unfolded
    · exact ownOnly_of_no_action unfolded rfl
    · rename_i passkey verified
      obtain ⟨member, found, authenticated⟩ := verifiedPasskey_ok returnsGiven verified
      have rows : (step fido2 s request).passkeys =
          s.passkeys.setCounter passkey.id (fido2.counter body) := by
        unfold step
        rw [unfolded]
        rfl
      have signedIn : ((step fido2 s request).sessions request.session).user =
          some passkey.user := by
        unfold step
        rw [unfolded]
        simp [System.setSession]
      have unchanged (row : Passkey) (other : row.user ≠ passkey.user) :
          row ∈ (step fido2 s request).passkeys.rows ↔ row ∈ s.passkeys.rows := by
        rw [rows]
        apply modify_keeps_others (owned_of_get? (Passkeys.get?_eq_some_iff.mpr ⟨member, rfl⟩))
        · intro row
          rfl
        · exact other
      constructor
      · rw [unfolded]
        intro acted member
        cases member
      · intro row member different
        rw [signedIn] at different
        exact (unchanged row fun same => different (by rw [same])).mpr member
      · intro row member different
        rw [signedIn] at different
        exact (unchanged row fun same => different (by rw [same])).mp member
      · exact .inr ⟨passkey, member, ⟨body, found, view, authenticated⟩, signedIn⟩
      · intro other different
        unfold step
        rw [unfolded]
        simp [System.setSession, different]
  · exact ownOnly_of_no_action unfolded rfl

/-! ## Runs -/

theorem ownOnly_iff (returnsGiven : fido2.ReturnsGiven)
    (nonAdmin : isUserAdmin s request.session = false) :
    OwnOnly fido2 s request ↔ SelectsOwn s request := by
  have trivially (other : SelectsOwn s request = True) (ownOnly : OwnOnly fido2 s request) :
      OwnOnly fido2 s request ↔ SelectsOwn s request := by
    rw [other]
    exact ⟨fun _ => trivial, fun _ => ownOnly⟩
  cases view : request.view with
  | list username =>
    apply trivially (by unfold SelectsOwn; rw [view])
    have unfolded : respond fido2 s request = requireOwnerOrAdmin s request.session username
        (if request.post then (.notAllowed, s)
          else (.listed (s.passkeys.rows.filter fun row => row.user = username), s)) := by
      unfold respond
      rw [view]
    rcases requireOwnerOrAdmin_cases username (if request.post then (.notAllowed, s)
        else (.listed (s.passkeys.rows.filter fun row => row.user = username), s)) nonAdmin with
      ⟨own, reached⟩ | ⟨_, response, nothing, denied⟩
    · rw [reached] at unfolded
      split at unfolded
      · exact ownOnly_of_no_action unfolded rfl
      · apply ownOnly_of_unchanged unfolded
        intro passkey member
        have := (List.mem_filter.mp member).2
        rw [own, of_decide_eq_true this]
    · exact ownOnly_of_no_action (unfolded.trans denied) nothing
  | addBegin username =>
    apply trivially (by unfold SelectsOwn; rw [view])
    have unfolded : respond fido2 s request = requireOwnerOrAdmin s request.session username
        (requirePost s request.post
          (if username ∈ s.users then
            (.begun, s.setSession request.session { s.sessions request.session with
              fido2ServerState := some (fido2.registerBegin request.domain username) })
          else (.failed "User matching query does not exist.", s))) := by
      unfold respond
      rw [view]
    unfold requireOwnerOrAdmin requirePost at unfolded
    split at unfolded
    · exact ownOnly_of_no_action unfolded rfl
    · split at unfolded
      · exact ownOnly_of_no_action unfolded rfl
      · split at unfolded
        · split at unfolded
          · exact ownOnly_of_begun unfolded
          · exact ownOnly_of_no_action unfolded rfl
        · exact ownOnly_of_no_action unfolded rfl
  | addComplete username body =>
    exact trivially (by unfold SelectsOwn; rw [view]) (ownOnly_addComplete view nonAdmin)
  | edit username passkeyId name => exact ownOnly_edit_iff view nonAdmin
  | delete username passkeyId => exact ownOnly_delete_iff view nonAdmin
  | loginBegin =>
    apply trivially (by unfold SelectsOwn; rw [view])
    have unfolded : respond fido2 s request = requirePost s request.post
        (.begun, s.setSession request.session { s.sessions request.session with
          fido2ServerState := some (fido2.authenticateBegin request.domain) }) := by
      unfold respond
      rw [view]
    unfold requirePost at unfolded
    split at unfolded
    · exact ownOnly_of_begun unfolded
    · exact ownOnly_of_no_action unfolded rfl
  | loginComplete body =>
    exact trivially (by unfold SelectsOwn; rw [view]) (ownOnly_loginComplete view returnsGiven)

/-- In a run the sessions of users who are not administrators keep to their own passkeys exactly
if every request of an edit or a deletion selects a passkey of the user that it names. -/
theorem passkeys_belong_to_owner_iff (fido2 : Fido2) (returnsGiven : fido2.ReturnsGiven)
    (s : System) (requests : List Request) :
    Runs.Throughout (step fido2)
        (fun s request => isUserAdmin s request.session = false → OwnOnly fido2 s request)
        s requests ↔
      Runs.Throughout (step fido2)
        (fun s request => isUserAdmin s request.session = false → SelectsOwn s request)
        s requests := by
  apply Runs.throughout_congr (fun _ => True)
  · intro s request _
    constructor
    · intro ownOnly nonAdmin
      exact (ownOnly_iff returnsGiven nonAdmin).mp (ownOnly nonAdmin)
    · intro selects nonAdmin
      exact (ownOnly_iff returnsGiven nonAdmin).mpr (selects nonAdmin)
  · intro _ _ _ _
    trivial
  · trivial

/-! ## Two users -/

def passkeyOf (id : Nat) (user : String) : Passkey :=
  { id := id
    user := user
    name := some "Key 1"
    domain := "freedombox.local"
    signatureCounter := 0
    registrationFlags := 69
    extensions := "null"
    aaguid := "00000000-0000-0000-0000-000000000000"
    credentialId := user
    publicKey := user }

def aliceAndBob : System where
  passkeys :=
    { rows := [passkeyOf 1 "alice", passkeyOf 2 "bob"]
      ids := by decide
      credentials := by decide }
  users := ["admin", "alice", "bob"]
  admins := ["admin"]
  sessions := fun _ => ⟨some "alice", none⟩

def anyResponse : Fido2 where
  registerBegin := fun _ user => user
  registerComplete := fun _ _ _ => .error "Invalid response"
  authenticateBegin := fun domain => domain
  credentialId := fun body => .ok body
  recode := fun key => .ok key
  authenticateComplete := fun _ _ credential _ => .ok credential
  counter := fun _ => 1

theorem anyResponse_returnsGiven : anyResponse.ReturnsGiven := by
  intro domain state credential body found same
  exact (Except.ok.inj same).symm

theorem own_passkey_renamed :
    OwnOnly anyResponse aliceAndBob
      ⟨0, "freedombox.local", true, .edit "alice" 1 (some "Laptop")⟩ := by
  have condition := (passkeys_belong_to_owner_iff anyResponse anyResponse_returnsGiven aliceAndBob
    [⟨0, "freedombox.local", true, .edit "alice" 1 (some "Laptop")⟩]).mpr
    ⟨fun _ _ passkey found => (by cases found; rfl), trivial⟩
  exact condition.1 (by decide)

theorem passkey_of_other_deleted :
    let request : Request := ⟨0, "freedombox.local", true, .delete "alice" 2⟩
    isUserAdmin aliceAndBob request.session = false ∧
      respond anyResponse aliceAndBob request =
        (.deleted (passkeyOf 2 "bob"), step anyResponse aliceAndBob request) ∧
      (aliceAndBob.sessions request.session).user = some "alice" ∧
      passkeyOf 2 "bob" ∈ aliceAndBob.passkeys.rows ∧
      passkeyOf 2 "bob" ∉ (step anyResponse aliceAndBob request).passkeys.rows := by
  refine ⟨by decide, rfl, rfl, by decide, by decide⟩

end Plinth.Users
