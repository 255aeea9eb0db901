import Mathlib.Logic.Function.Basic
import Plinth.Lib.Python.Text
import Plinth.Lib.Runs

/-!
# WireGuard clients

The adding of clients in `plinth/modules/wireguard/views.py` and `utils.py`. A request is carried
out as a whole, and what it leaves in its session is kept. NetworkManager keeps the connection of
the server as it is committed, and a public key is in its normal form.
-/

namespace Plinth.Wireguard

structure Peer where
  publicKey : String
  allowedIps : List String
  persistentKeepalive : Nat
  deriving DecidableEq, Repr

/-- The connection `wg0`. -/
structure Connection where
  publicKey : String
  listenPort : Nat
  peers : List Peer
  deriving DecidableEq, Repr

structure Session where
  nextIp : Option String
  clientPubkey : Option String
  clientPrivkey : Option String
  endpoint : Option String
  deriving DecidableEq, Repr

/-- A configuration that has been given to a client, with the arguments it has been built from. -/
structure Configuration where
  clientIp : String
  clientPubkey : String
  text : String
  deriving DecidableEq, Repr

structure System where
  server : Option Connection
  newServerKey : String
  /-- the names for the service that do not end in `.local` -/
  domains : List String
  sessions : Nat → Session
  handedOut : List Configuration

def ipTemplate (index : Nat) : String :=
  "10.84.0." ++ toString index

def allocatedIps (peers : List Peer) : List String :=
  peers.flatMap Peer.allowedIps

/-- `none` for the `IndexError` at the client limit. -/
def getNextAvailableIpAddress (peers : List Peer) : Option String :=
  ((List.range' 2 252).map ipTemplate).find? fun ip => ip ∉ allocatedIps peers

def serverConnection (s : System) : Connection :=
  s.server.getD ⟨s.newServerKey, 51820, []⟩

inductive AddError
  | valueError
  | indexError
  deriving DecidableEq, Repr

def addPeer (connection : Connection) (publicKey : String) : Except AddError Connection :=
  if connection.peers.any fun peer => peer.publicKey = publicKey then .error .valueError
  else match getNextAvailableIpAddress connection.peers with
    | none => .error .indexError
    | some ip => .ok { connection with peers := connection.peers ++ [⟨publicKey, [ip], 25⟩] }

def addClient (s : System) (publicKey : String) : System :=
  match addPeer (serverConnection s) publicKey with
  | .error _ => { s with server := some (serverConnection s) }
  | .ok connection => { s with server := some connection }

/-- Removes the peer with this key, or leaves the connection as it is with a `KeyError`. -/
def removeClient (s : System) (publicKey : String) : System :=
  let connection := serverConnection s
  { s with
    server := some { connection with
      peers := connection.peers.eraseP fun peer => peer.publicKey = publicKey } }

/-- `EditClientView.form_valid`. Only the `ValueError` of adding is caught; removing comes after it
either way. -/
def editClient (s : System) (oldPublicKey publicKey : String) : System :=
  if oldPublicKey = publicKey then s
  else
    let added := addClient s publicKey
    match addPeer (serverConnection s) publicKey with
    | .error .indexError => added
    | .error .valueError | .ok _ => removeClient added oldPublicKey

def buildClientConfig (clientIp clientPrivkey serverPubkey endpoint : String) : String :=
  "[Interface]\nPrivateKey = " ++ clientPrivkey ++ "\nAddress = " ++ clientIp ++
    "/32\nDNS = 10.84.0.1\n\n[Peer]\nPublicKey = " ++ serverPubkey ++
    "\nAllowedIPs = 0.0.0.0/0\nEndpoint = " ++ endpoint ++ "\nPersistentKeepalive = 25"

def setSession (s : System) (session : Nat) (value : Session) : System :=
  { s with sessions := Function.update s.sessions session value }

/-- The page of `AutoAddClientView`, with the key pair that it has generated. Without a server or
a domain, or at the client limit, it fails; without a server it has created one by then. -/
def showAutoAddClient (s : System) (session : Nat) (privateKey publicKey : String) : System :=
  match s.server, s.domains with
  | none, _ => { s with server := some (serverConnection s) }
  | some _, [] => s
  | some server, domain :: _ =>
    match getNextAvailableIpAddress server.peers with
    | none => s
    | some nextIp =>
      setSession s session
        { nextIp := some nextIp
          clientPubkey := some publicKey
          clientPrivkey := some privateKey
          endpoint := some (domain ++ ":" ++ toString server.listenPort) }

/-- The submission takes the public key out of the session whether or not the client is added. -/
def submitAutoAddClient (s : System) (session : Nat) : System :=
  match (s.sessions session).clientPubkey with
  | none => s
  | some clientPubkey =>
    addClient (setSession s session { s.sessions session with clientPubkey := none }) clientPubkey

/-- `get_client_config`, for the download and the QR code. -/
def getClientConfig (s : System) (session : Nat) : Option Configuration := do
  let clientIp ← (s.sessions session).nextIp
  let clientPrivkey ← (s.sessions session).clientPrivkey
  let clientPubkey ← (s.sessions session).clientPubkey
  let endpoint ← (s.sessions session).endpoint
  let server ← s.server
  return ⟨clientIp, clientPubkey,
    buildClientConfig clientIp clientPrivkey server.publicKey endpoint⟩

def download (s : System) (session : Nat) : System :=
  match getClientConfig s session with
  | none => s
  | some configuration => { s with handedOut := configuration :: s.handedOut }

inductive Event
  | show (session : Nat) (privateKey publicKey : String)
  | submit (session : Nat)
  | download (session : Nat)
  | addClient (publicKey : String)
  | removeClient (publicKey : String)
  deriving DecidableEq, Repr

def step (s : System) : Event → System
  | .show session privateKey publicKey => showAutoAddClient s session privateKey publicKey
  | .submit session => submitAutoAddClient s session
  | .download session => download s session
  | .addClient publicKey => addClient s publicKey
  | .removeClient publicKey => removeClient s publicKey

end Plinth.Wireguard

/-!
## The interfaces of WireGuard connections

`_find_next_interface` and `add_server` of `plinth/modules/wireguard/utils.py`, with the connections
that NetworkManager keeps. A connection that is not active is kept, and its interface is not there.
-/

namespace Plinth.Wireguard

structure NmConnection where
  uuid : Nat
  name : String
  interface : String
  autoconnect : Bool
  privateKey : String
  active : Bool
  deriving DecidableEq, Repr

structure Network where
  connections : List NmConnection
  unmanaged : List String
  /-- `app.is_enabled()` -/
  appEnabled : Bool
  deriving DecidableEq, Repr

def interfaceName (interfaceNum : Nat) : String :=
  "wg" ++ toString interfaceNum

/-- `wg show interfaces` -/
def showInterfaces (n : Network) : List String :=
  n.unmanaged ++ (n.connections.filter NmConnection.active).map NmConnection.interface

def findInterface (interfaces : List String) (interfaceNum : Nat) : Nat → Option String
  | 0 => none
  | fuel + 1 =>
    if interfaceName interfaceNum ∈ interfaces then
      findInterface interfaces (interfaceNum + 1) fuel
    else some (interfaceName interfaceNum)

/-- `_find_next_interface` -/
def findNextInterface (n : Network) : Option String :=
  findInterface (showInterfaces n) 1 ((showInterfaces n).length + 1)

/-- The connection that `add_server` adds, with the key that it generates if none is given. -/
def newConnection (n : Network) (uuid : Nat) (privateKey generatedKey : String) :
    Option NmConnection := do
  let interfaceName ← findNextInterface n
  return {
    uuid := uuid
    name := "WireGuard-Client-" ++ interfaceName
    interface := interfaceName
    autoconnect := n.appEnabled
    privateKey := if privateKey = "" then generatedKey else privateKey
    active := false }

def addServer (n : Network) (uuid : Nat) (privateKey generatedKey : String) : Network :=
  { n with connections := n.connections ++ (newConnection n uuid privateKey generatedKey).toList }

def activateConnection (n : Network) (uuid : Nat) : Network :=
  match n.connections.find? (fun connection => connection.uuid = uuid) with
  | none => n
  | some activated =>
    { n with
      connections := n.connections.map fun connection =>
        if connection.uuid = uuid then { connection with active := true }
        else if connection.interface = activated.interface then
          { connection with active := false }
        else connection }

def deactivateConnection (n : Network) (uuid : Nat) : Network :=
  { n with
    connections := n.connections.map fun connection =>
      if connection.uuid = uuid then { connection with active := false } else connection }

def deleteConnection (n : Network) (uuid : Nat) : Network :=
  { n with connections := n.connections.filter fun connection => connection.uuid ≠ uuid }

/-- The connections that `enable_connections` activates or deactivates are events of their own. -/
def setEnabled (n : Network) (enable : Bool) : Network :=
  { n with
    connections := n.connections.map fun connection => { connection with autoconnect := enable }
    appEnabled := enable }

inductive NetworkEvent
  | addServer (uuid : Nat) (privateKey generatedKey : String)
  | activate (uuid : Nat)
  | deactivate (uuid : Nat)
  | delete (uuid : Nat)
  | setEnabled (enable : Bool)
  deriving DecidableEq, Repr

def networkStep (n : Network) : NetworkEvent → Network
  | .addServer uuid privateKey generatedKey => addServer n uuid privateKey generatedKey
  | .activate uuid => activateConnection n uuid
  | .deactivate uuid => deactivateConnection n uuid
  | .delete uuid => deleteConnection n uuid
  | .setEnabled enable => setEnabled n enable

end Plinth.Wireguard
