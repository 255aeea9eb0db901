import Plinth.Lib.Distinct
import Plinth.Lib.Effect
import Plinth.Lib.Python.Value

/-!
# Listeners of ejabberd

`plinth/modules/ejabberd/privileged.py`, lines 47 to 140: the changes to `ejabberd.yml`, which is
kept as the mapping that it holds.
-/

namespace Plinth.Ejabberd

open Effect Python Exception

/-! ## The file -/

inductive Field
  | flag (b : Bool)
  | number (n : Int)
  | text (s : String)
  | texts (l : List String)
  | mapping (items : OrderedDict String String)
  | other (s : String)

abbrev Listener := OrderedDict String Field

abbrev Module := OrderedDict String Field

structure Conf where
  listen : List Listener
  modules : OrderedDict String Module
  certfiles : List String
  settings : OrderedDict String Field

structure SetOrder where
  /-- `list(set(l))` -/
  list : List String → List String
  perm : ∀ l, (list l).Perm (Distinct.distinct l)

structure Version where
  /-- The version is not known, or is after the one that `iqdisc` is deprecated in. -/
  afterIqdisc : Bool
  /-- the same for `mod_irc` -/
  afterIrc : Bool

/-! ## Equality -/

def sameItems (a b : OrderedDict String String) : Bool :=
  a.entries.length = b.entries.length && a.entries.all fun item => b.get? item.1 = some item.2

def Field.same : Field → Field → Bool
  | .flag a, .flag b => a = b
  | .flag a, .number n => n = if a then 1 else 0
  | .number n, .flag b => n = if b then 1 else 0
  | .number m, .number n => m = n
  | .text s, .text t => s = t
  | .texts l, .texts m => l = m
  | .mapping a, .mapping b => sameItems a b
  | .other s, .other t => s = t
  | _, _ => false

/-- `a == b` of mappings -/
def sameListener (a b : Listener) : Bool :=
  a.entries.length = b.entries.length && a.entries.all fun item =>
    match b.get? item.1 with
    | some value => item.2.same value
    | none => false

/-! ## One listener -/

def isIn (key : String) (listener : Listener) : Bool :=
  (listener.get? key).isSome

def disableTls (listener : Listener) : Listener :=
  if isIn "tls" listener then listener.set "tls" (.flag false) else listener

def portOf (listener : Listener) : Except Exception Field :=
  match listener.get? "port" with
  | some port => .ok port
  | none => .error (KeyError (.str "port"))

def isPort (port : Int) : Field → Bool
  | .number n => n = port
  | _ => false

def addUpload (listener : Listener) : Except Exception Listener :=
  match listener.get? "request_handlers" with
  | some (.mapping handlers) =>
    .ok (listener.set "request_handlers" (.mapping (handlers.set "/upload" "mod_http_upload")))
  | some _ => .error (TypeError "object does not support item assignment")
  | none => .error (KeyError (.str "request_handlers"))

def enableUpload (listener : Listener) : Except Exception Listener := do
  let port ← portOf listener
  if isPort 5443 port then addUpload listener else return listener

/-! ## The loop -/

/-- The body of the loop. The listener that is looked at stays in the list if another one that is
equal to it comes before it and is removed in its place. -/
def visit (listen : List Listener) (i : Nat) (listener : Listener) :
    Except Exception (List Listener) := do
  let disabled := disableTls listener
  let listen := listen.set i disabled
  let finished ← enableUpload disabled
  if isIn "use_turn" disabled then
    let first := listen.findIdx (sameListener disabled)
    return (listen.set i finished).eraseIdx first
  else
    return listen.set i finished

def visitFrom : Nat → Nat → List Listener → Except Exception (List Listener)
  | 0, _, listen => .ok listen
  | fuel + 1, i, listen =>
    match listen[i]? with
    | none => .ok listen
    | some listener => do
        let listen ← visit listen i listener
        visitFrom fuel (i + 1) listen

def rewriteListeners (listen : List Listener) : Except Exception (List Listener) :=
  visitFrom listen.length 0 listen

/-! ## The setup -/

def modHttpUpload : Module :=
  OrderedDict.ofEntries [("put_url", .text "https://@HOST@/upload"),
    ("custom_headers", .mapping (OrderedDict.ofEntries [
      ("Access-Control-Allow-Origin", "https://@HOST@"),
      ("Access-Control-Allow-Methods", "GET,HEAD,PUT,OPTIONS"),
      ("Access-Control-Allow-Headers", "Content-Type")]))]

def ldapSettings : List (String × Field) :=
  [("auth_method", .text "ldap"), ("ldap_servers", .texts ["localhost"]),
    ("ldap_base", .text "ou=users,dc=thisbox")]

def letsencryptCertfiles : String :=
  "/etc/ejabberd/letsencrypt/*/ejabberd.pem"

variable (order : SetOrder) (version : Version)

def rewrite (conf : Conf) : Except Exception Conf := do
  let listen ← rewriteListeners conf.listen
  return {
    listen := listen
    modules := conf.modules.set "mod_http_upload" modHttpUpload
    certfiles := order.list (conf.certfiles ++ [letsencryptCertfiles])
    settings := conf.settings.update ldapSettings }

/-- `any(...)`, which stops at the first one -/
def anyOnPort (port : Int) : List Listener → Except Exception Bool
  | [] => .ok false
  | listener :: rest => do
      let found ← portOf listener
      if isPort port found then return true else anyOnPort port rest

def movePort (listener : Listener) : Except Exception Listener := do
  let port ← portOf listener
  if isPort 5280 port then return listener.set "port" (.number 5443) else return listener

def upgradeListeners (listen : List Listener) : Except Exception (List Listener) := do
  let boshPort ← anyOnPort 5443 listen
  if boshPort then return listen else listen.mapM movePort

def upgradeModules (modules : OrderedDict String Module) : OrderedDict String Module :=
  let modules :=
    match version.afterIqdisc, modules.get? "mod_mam" with
    | true, some modMam => modules.set "mod_mam" (modMam.erase "iqdisc")
    | _, _ => modules
  if version.afterIrc then modules.erase "mod_irc" else modules

def upgradeConfig (conf : Conf) : Except Exception Conf := do
  let listen ← upgradeListeners conf.listen
  return { conf with
    listen := listen
    modules := upgradeModules version conf.modules
    settings := conf.settings.erase "s2s_certfile" }

def setup : Effect Conf Exception Unit := do
  let conf ← lift (rewrite order (← get))
  set conf
  let conf ← lift (upgradeConfig version (← get))
  set conf

/-! ## What the setup is for -/

def handlesUpload (listener : Listener) : Prop :=
  ∃ handlers, listener.get? "request_handlers" = some (.mapping handlers) ∧
    handlers.get? "/upload" = some "mod_http_upload"

def OnPort (port : Int) (listener : Listener) : Prop :=
  listener.get? "port" = some (.number port)

structure Kept (listener changed : Listener) : Prop where
  keys : changed.keys = listener.keys
  other : ∀ key, key ≠ "tls" → key ≠ "port" → key ≠ "request_handlers" →
    changed.get? key = listener.get? key
  port : changed.get? "port" = listener.get? "port" ∨ (OnPort 5280 listener ∧ OnPort 5443 changed)
  handlers : changed.get? "request_handlers" = listener.get? "request_handlers" ∨
    ∃ handlers, listener.get? "request_handlers" = some (.mapping handlers) ∧
      changed.get? "request_handlers" =
        some (.mapping (handlers.set "/upload" "mod_http_upload"))

def withoutTurn (listen : List Listener) : List Listener :=
  listen.filter fun listener => !isIn "use_turn" listener

structure Done (conf changed : Conf) : Prop where
  turn : ∀ listener ∈ changed.listen, isIn "use_turn" listener = false
  tls : ∀ listener ∈ changed.listen, isIn "tls" listener = true →
    listener.get? "tls" = some (.flag false)
  upload : ∀ listener ∈ changed.listen, OnPort 5443 listener → handlesUpload listener
  kept : List.Forall₂ Kept (withoutTurn conf.listen) changed.listen

def SetsUp (order' : SetOrder) (conf : Conf) : Prop :=
  ∃ changed, (setup order version).exec conf = (.ok (), changed) ∧ Done conf changed ∧
    (setup order' version).exec changed = (.ok (), changed)

end Plinth.Ejabberd
