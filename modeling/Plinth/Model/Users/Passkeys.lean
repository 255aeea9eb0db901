import Mathlib.Data.List.Nodup
import Mathlib.Logic.Function.Basic
import Plinth.Lib.Python.Text

/-!
# Passkeys

The passkey views of `plinth/modules/users/views.py` and the table of `plinth/models.py`. A user
stands for its name, which is unique. What the fido2 library computes is `Fido2`.
-/

namespace Plinth.Users

open Python.Text

structure Passkey where
  id : Nat
  user : String
  name : Option String
  domain : String
  signatureCounter : Nat
  registrationFlags : Nat
  extensions : String
  aaguid : String
  credentialId : String
  publicKey : String
  deriving DecidableEq, Repr

structure Passkeys where
  rows : List Passkey
  ids : (rows.map Passkey.id).Nodup
  credentials : (rows.map Passkey.credentialId).Nodup

namespace Passkeys

def get? (t : Passkeys) (id : Nat) : Option Passkey :=
  t.rows.find? fun passkey => passkey.id = id

def modify (t : Passkeys) (id : Nat) (change : Passkey → Passkey)
    (sameId : ∀ row, (change row).id = row.id)
    (sameCredential : ∀ row, (change row).credentialId = row.credentialId) : Passkeys where
  rows := t.rows.map fun row => if row.id = id then change row else row
  ids := by
    have unchanged : (t.rows.map fun row => if row.id = id then change row else row).map
        Passkey.id = t.rows.map Passkey.id := by
      rw [List.map_map]
      apply List.map_congr_left
      intro row member
      by_cases here : row.id = id <;> simp [here, sameId]
    rw [unchanged]
    exact t.ids
  credentials := by
    have unchanged : (t.rows.map fun row => if row.id = id then change row else row).map
        Passkey.credentialId = t.rows.map Passkey.credentialId := by
      rw [List.map_map]
      apply List.map_congr_left
      intro row member
      by_cases here : row.id = id <;> simp [here, sameCredential]
    rw [unchanged]
    exact t.credentials

def rename (t : Passkeys) (id : Nat) (name : Option String) : Passkeys :=
  t.modify id (fun row => { row with name := name }) (fun _ => rfl) (fun _ => rfl)

def setCounter (t : Passkeys) (id counter : Nat) : Passkeys :=
  t.modify id (fun row => { row with signatureCounter := counter }) (fun _ => rfl) (fun _ => rfl)

def delete (t : Passkeys) (id : Nat) : Passkeys where
  rows := t.rows.filter fun row => row.id ≠ id
  ids := t.ids.sublist (List.filter_sublist.map _)
  credentials := t.credentials.sublist (List.filter_sublist.map _)

/-- A new row, or `none` for the `IntegrityError` of a credential that is there. -/
def create (t : Passkeys) (passkey : Passkey) : Option Passkeys :=
  if unique : passkey.id ∉ t.rows.map Passkey.id ∧
      passkey.credentialId ∉ t.rows.map Passkey.credentialId then
    some
      { rows := passkey :: t.rows
        ids := List.nodup_cons.mpr ⟨unique.1, t.ids⟩
        credentials := List.nodup_cons.mpr ⟨unique.2, t.credentials⟩ }
  else none

def nextId (t : Passkeys) : Nat :=
  (t.rows.map Passkey.id).foldl max 0 + 1

end Passkeys

structure AuthenticatorData where
  counter : Nat
  flags : Nat
  extensions : String
  aaguid : String
  credentialId : String
  publicKey : String

/-- `AttestedCredentialData`, with the public key in its encoded form. -/
structure Credential where
  aaguid : String
  credentialId : String
  publicKey : String
  deriving DecidableEq, Repr

/-- The library for a domain: what it makes of the state in the session and of the body of a
request, with the message of the exception otherwise. -/
structure Fido2 where
  registerBegin : (domain user : String) → String
  registerComplete : (domain : String) → Option String → (body : String) →
    Except String AuthenticatorData
  authenticateBegin : (domain : String) → String
  credentialId : (body : String) → Except String String
  /-- `cbor.encode(cbor.decode(key))` -/
  recode : String → Except String String
  authenticateComplete : (domain : String) → Option String → Credential → (body : String) →
    Except String Credential
  counter : (body : String) → Nat

/-- It returns the credential that has signed the response, one of those that it has been given. -/
def Fido2.ReturnsGiven (fido2 : Fido2) : Prop :=
  ∀ domain state credential body found,
    fido2.authenticateComplete domain state credential body = .ok found → found = credential

structure Session where
  user : Option String
  fido2ServerState : Option String
  deriving DecidableEq, Repr

structure System where
  passkeys : Passkeys
  users : List String
  admins : List String
  sessions : Nat → Session

def System.setSession (s : System) (session : Nat) (value : Session) : System :=
  { s with sessions := Function.update s.sessions session value }

inductive View
  | list (username : String)
  | addBegin (username : String)
  | addComplete (username body : String)
  /-- the submitted name, or `none` for a request of the page -/
  | edit (username : String) (passkeyId : Nat) (name : Option String)
  | delete (username : String) (passkeyId : Nat)
  | loginBegin
  | loginComplete (body : String)
  deriving DecidableEq, Repr

structure Request where
  session : Nat
  domain : String
  post : Bool
  view : View
  deriving DecidableEq, Repr

inductive Response
  | loginRequired
  | permissionDenied
  | notAllowed
  | notFound
  | failed (error : String)
  | begun
  | listed (passkeys : List Passkey)
  | page (passkey : Passkey)
  | created (passkey : Passkey)
  | renamed (passkey : Passkey)
  | deleted (passkey : Passkey)
  | signedIn (passkey : Passkey)
  deriving DecidableEq, Repr

def isUserAdmin (s : System) (session : Nat) : Bool :=
  (s.sessions session).user.any (· ∈ s.admins)

/-- A view that needs a login, and that `require_owner_or_admin` wraps. -/
def requireOwnerOrAdmin (s : System) (session : Nat) (username : String)
    (view : Response × System) : Response × System :=
  match (s.sessions session).user with
  | none => (.loginRequired, s)
  | some user =>
    if username ≠ user ∧ isUserAdmin s session = false then (.permissionDenied, s) else view

def requirePost (s : System) (post : Bool) (view : Response × System) : Response × System :=
  if post then view else (.notAllowed, s)

/-- The number that `^Key (\d+)$` finds in a name. -/
def keyNumber (name : String) : Option Nat :=
  match name.toList with
  | 'K' :: 'e' :: 'y' :: ' ' :: digits =>
    if digits ≠ [] ∧ digits.all Char.isDigit then (String.ofList digits).toNat? else none
  | _ => none

/-- `_passkey_get_next_name`, which fails on a passkey without a name. -/
def passkeyGetNextName (passkeys : List Passkey) : Option String := do
  let names ← passkeys.mapM Passkey.name
  let number := (names.filterMap keyNumber).foldl (fun number key => max number (key + 1)) 1
  return "Key " ++ toString number

def passkeyAddComplete (fido2 : Fido2) (s : System) (session : Nat) (domain username body : String) :
    Response × System :=
  if username ∉ s.users then (.failed "User matching query does not exist.", s)
  else match fido2.registerComplete domain (s.sessions session).fido2ServerState body with
    | .error error => (.failed error, s)
    | .ok data =>
      match passkeyGetNextName (s.passkeys.rows.filter fun row => row.user = username) with
      | none => (.failed "expected string or bytes-like object, got 'NoneType'", s)
      | some name =>
        let passkey : Passkey :=
          { id := s.passkeys.nextId
            user := username
            name := some name
            domain := domain
            signatureCounter := data.counter
            registrationFlags := data.flags
            extensions := data.extensions
            aaguid := data.aaguid
            credentialId := data.credentialId
            publicKey := data.publicKey }
        match s.passkeys.create passkey with
        | none => (.failed "Passkey with that identifier already exists.", s)
        | some passkeys => (.created passkey, { s with passkeys := passkeys })

def cleanName (name : String) : Option (Option String) :=
  let stripped := strip name.toList
  if stripped = [] then some none
  else if stripped.length ≤ 256 then some (some (String.ofList stripped))
  else none

def passkeyEdit (s : System) (post : Bool) (passkeyId : Nat) (name : Option String) :
    Response × System :=
  match s.passkeys.get? passkeyId with
  | none => (.notFound, s)
  | some passkey =>
    match post, name.bind cleanName with
    | true, some name =>
      (.renamed passkey, { s with passkeys := s.passkeys.rename passkeyId name })
    | _, _ => (.page passkey, s)

def passkeyDelete (s : System) (passkeyId : Nat) : Response × System :=
  match s.passkeys.get? passkeyId with
  | none => (.notFound, s)
  | some passkey => (.deleted passkey, { s with passkeys := s.passkeys.delete passkeyId })

def unknownPasskey : String := "Passkey used is not known."

/-- The stored passkey that the response has been verified against, or what has stopped it. -/
def verifiedPasskey (fido2 : Fido2) (s : System) (session : Nat) (domain body : String) :
    Except String Passkey := do
  let credentialId ← fido2.credentialId body
  let some selected := s.passkeys.rows.find? fun row => row.credentialId = credentialId
    | throw unknownPasskey
  let found ← fido2.authenticateComplete domain (s.sessions session).fido2ServerState
    ⟨selected.aaguid, selected.credentialId, ← fido2.recode selected.publicKey⟩ body
  let some passkey := s.passkeys.rows.find? fun row =>
      row.credentialId = found.credentialId ∧ row.publicKey = found.publicKey
    | throw unknownPasskey
  return passkey

/-- The language of the session and the warning about a cloned passkey are left out. -/
def passkeyLoginComplete (fido2 : Fido2) (s : System) (session : Nat) (domain body : String) :
    Response × System :=
  match verifiedPasskey fido2 s session domain body with
  | .error error => (.failed error, s)
  | .ok passkey =>
    (.signedIn passkey,
      { s with passkeys := s.passkeys.setCounter passkey.id (fido2.counter body) }.setSession
        session { s.sessions session with user := some passkey.user })

def respond (fido2 : Fido2) (s : System) (request : Request) : Response × System :=
  let session := request.session
  match request.view with
  | .list username =>
    requireOwnerOrAdmin s session username
      (if request.post then (.notAllowed, s)
        else (.listed (s.passkeys.rows.filter fun row => row.user = username), s))
  | .addBegin username =>
    requireOwnerOrAdmin s session username
      (requirePost s request.post
        (if username ∈ s.users then
          (.begun, s.setSession session { s.sessions session with
            fido2ServerState := some (fido2.registerBegin request.domain username) })
        else (.failed "User matching query does not exist.", s)))
  | .addComplete username body =>
    requireOwnerOrAdmin s session username
      (requirePost s request.post
        (passkeyAddComplete fido2 s session request.domain username body))
  | .edit username passkeyId name =>
    requireOwnerOrAdmin s session username (passkeyEdit s request.post passkeyId name)
  | .delete username passkeyId =>
    requireOwnerOrAdmin s session username
      (requirePost s request.post (passkeyDelete s passkeyId))
  | .loginBegin =>
    requirePost s request.post
      (.begun, s.setSession session { s.sessions session with
        fido2ServerState := some (fido2.authenticateBegin request.domain) })
  | .loginComplete body =>
    requirePost s request.post (passkeyLoginComplete fido2 s session request.domain body)

def step (fido2 : Fido2) (s : System) (request : Request) : System :=
  (respond fido2 s request).2

end Plinth.Users
