import Mathlib.Algebra.Order.Ring.Rat
import Plinth.Model.Actions

/-!
# The privileged daemon

The request handler of `plinth/privileged_daemon.py`. Each connection has a thread of its own.
-/

namespace Plinth.PrivilegedDaemon

open Effect Python Exception Actions

def maxRequestLength : Nat :=
  1000000

def readRequest (requestData : Bytes) : Except Exception String :=
  if maxRequestLength < requestData.length then .error (ValueError "Request too large")
  else match decodeUtf8 requestData with
    | some request => .ok request
    | none => .error (ValueError "Invalid Unicode in request")

def write (chunk : Bytes) : Call Unit :=
  modify fun thread => { thread with written := thread.written ++ chunk }

def writeResponse : Response → Call Unit
  | .text response => write (encodeUtf8 response)
  | .reader stream => do
      write stream.content
      match stream.failure with
      | some exception => throw exception
      | none => return ()

def handleFailure (env : Environment) (exception : Exception) : Call Response := do
  log ⟨.error, .text "Error running privileged request: %s", [.exception exception]⟩
  let response ← getReturnValueFromException env exception
  return .text (← lift (dumps jsonDefault response))

/-- The part of `handle` whose exceptions are caught. -/
def answerRequest (env : Environment) (requestData : Bytes) : Call Response := do
  let request ← lift (readRequest requestData)
  privilegedHandleJsonRequest env request

def handle (env : Environment) (requestData : Bytes) : Call Unit := do
  let response ← catchException (answerRequest env requestData) (handleFailure env)
  writeResponse response

end Plinth.PrivilegedDaemon

/-!
## The idle exit of the privileged daemon

`Server.service_actions` and `Server.verify_request` of `plinth/privileged_daemon.py`, with what
`socketserver.ThreadingMixIn` does for a connection. A request thread is known by its number.
-/

namespace Plinth.PrivilegedDaemon.Idle

structure Server where
  allowedPeerUids : List Nat
  idleShutdownTime : Option Rat
  lastRequestTime : Rat
  /-- `_threads`, which is a list from the first request on -/
  threads : Option (List Nat)
  deriving DecidableEq, Repr

/-- The server, the request threads that are alive, and the number of the next one. -/
structure System where
  server : Server
  alive : List Nat
  next : Nat
  deriving DecidableEq, Repr

inductive Event
  /-- a connection from a process of the user, and whether a thread can be started for it -/
  | connection (uid : Nat) (starts : Bool)
  | threadEnds (thread : Nat)
  /-- an iteration of the loop of `serve_forever` ends -/
  | tick
  deriving DecidableEq, Repr

def initial (allowedPeerUids : List Nat) (idleShutdownTime : Option Rat) (now : Rat) : System where
  server := ⟨allowedPeerUids, idleShutdownTime, now, none⟩
  alive := []
  next := 0

def verifyRequest (uid : Nat) (now : Rat) (server : Server) : Bool × Server :=
  if uid ∈ server.allowedPeerUids then (true, { server with lastRequestTime := now })
  else (false, server)

def processRequest (starts : Bool) (s : System) : System :=
  let known := s.server.threads.getD []
  { server := { s.server with
      threads := some (known.filter (fun thread => thread ∈ s.alive) ++ [s.next]) }
    alive := if starts then s.next :: s.alive else s.alive
    next := s.next + 1 }

def handleRequest (uid : Nat) (starts : Bool) (now : Rat) (s : System) : System :=
  match verifyRequest uid now s.server with
  | (true, server) => processRequest starts { s with server := server }
  | (false, server) => { s with server := server }

/-- Whether `service_actions` raises `TimeoutError`. -/
def serviceActions (now : Rat) (s : System) : Bool :=
  match s.server.idleShutdownTime, s.server.threads with
  | none, _ => false
  | some _, none => false
  | some idle, some threads =>
    decide (idle ≤ now - s.server.lastRequestTime) && !threads.any fun thread => thread ∈ s.alive

def step (s : System) (event : Rat × Event) : Option System :=
  match event with
  | (now, .connection uid starts) => some (handleRequest uid starts now s)
  | (_, .threadEnds thread) => some { s with alive := s.alive.filter (· ≠ thread) }
  | (now, .tick) => if serviceActions now s then none else some s

def serve (s : System) (events : List (Rat × Event)) : Option System :=
  events.foldlM step s

/-! ## What has happened -/

section

variable (allowedPeerUids : List Nat)

def isAccepted : Rat × Event → Bool
  | (_, .connection uid _) => uid ∈ allowedPeerUids
  | _ => false

def lastAccepted (start : Rat) (events : List (Rat × Event)) : Rat :=
  ((events.filter (isAccepted allowedPeerUids)).getLast?.map Prod.fst).getD start

/-- The request that the thread is for has been accepted, and the thread has not ended. -/
def Alive (events : List (Rat × Event)) (thread : Nat) : Prop :=
  ∃ earlier now uid later, events = earlier ++ (now, .connection uid true) :: later ∧
    uid ∈ allowedPeerUids ∧ earlier.countP (isAccepted allowedPeerUids) = thread ∧
    ∀ event ∈ later, event.2 ≠ .threadEnds thread

end

end Plinth.PrivilegedDaemon.Idle
