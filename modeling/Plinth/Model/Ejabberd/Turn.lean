import Plinth.Lib.Distinct
import Plinth.Lib.Effect
import Plinth.Lib.Python.Integer
import Plinth.Lib.Python.Regex

/-!
# STUN and TURN servers of ejabberd

`plinth/modules/coturn/components.py`, lines 20 to 64, `plinth/modules/ejabberd/privileged.py`,
lines 288 to 365, and `plinth/modules/ejabberd/__init__.py`, lines 228 to 242. The configuration
file is kept as the mapping that it holds; of it only `mod_stun_disco` is read and written here.
-/

namespace Plinth.Ejabberd

open Effect Python Python.Regex Exception

def stun : List Char := "stun".toList

def turn : List Char := "turn".toList

def tcp : List Char := "tcp".toList

def udp : List Char := "udp".toList

def transportQuery : List Char := "?transport=".toList

/-! ## Configurations -/

structure TurnConfiguration where
  domain : Option (List Char)
  uris : List (List Char)
  sharedSecret : Option (List Char)

/-- `[0-9]{4}` -/
def port : Pattern (List Char) := do
  let a ← char Char.isDigit
  let b ← char Char.isDigit
  let c ← char Char.isDigit
  let d ← char Char.isDigit
  return [a, b, c, d]

/-- `TURN_URI_REGEX` of `coturn/components.py` -/
def turnUri : Pattern Unit :=
  choice [do
      let _ ← literal (stun ++ [':'])
      let _ ← many notNewline
      let _ ← literal [':']
      let _ ← port
      return (),
    do
      let _ ← literal (turn ++ [':'])
      let _ ← many notNewline
      let _ ← literal [':']
      let _ ← port
      let _ ← literal transportQuery
      let _ ← choice [literal tcp, literal udp]
      return ()]

def validateTurnUris (uris : List (List Char)) : Bool :=
  uris.all fun uri => fullmatch turnUri uri

def TurnConfiguration.new (domain : Option (List Char)) (uris : List (List Char))
    (sharedSecret : Option (List Char)) : TurnConfiguration :=
  match domain, uris with
  | some (c :: host), [] => {
      domain := domain
      uris := [stun ++ ':' :: (c :: host) ++ ":3478".toList,
        turn ++ ':' :: (c :: host) ++ ":3478?transport=tcp".toList,
        turn ++ ':' :: (c :: host) ++ ":3478?transport=udp".toList]
      sharedSecret := sharedSecret }
  | _, _ => ⟨domain, uris, sharedSecret⟩

/-! ## Services -/

structure Service where
  host : List Char
  port : Int
  type : List Char
  transport : List Char
  deriving DecidableEq, Repr

structure StunDisco where
  credentialsLifetime : List Char
  secret : List Char
  services : List Service
  deriving DecidableEq, Repr

/-- `TURN_URI_REGEX` of `ejabberd/privileged.py`, and what is captured -/
def serviceUri : Pattern (List Char × List Char × List Char × List Char) := do
  let typ ← choice [literal stun, literal turn]
  let _ ← literal [':']
  let domain ← many notNewline
  let _ ← literal [':']
  let digits ← port
  let transport ← choice [do
      let _ ← literal transportQuery
      choice [literal tcp, literal udp],
    pure udp]
  return (typ, domain, digits, transport)

/-- `str(n)` -/
def intText (n : Int) : List Char :=
  (toString n).toList

variable (digits : Integer.Digits)

def generateService (uri : List Char) : Except Exception Service :=
  match match? serviceUri uri with
  | none => .error (ValueError "URL does not match TURN URI")
  | some (typ, domain, port, transport) => do
      let port ← Integer.int digits port
      return { host := domain, port := port, type := typ, transport := transport }

def serviceText (s : Service) : List Char :=
  let uri := s.type ++ ':' :: s.host ++ ':' :: intText s.port
  if s.type ≠ stun then uri ++ transportQuery ++ s.transport else uri

def generateUris (services : List Service) : List (List Char) :=
  services.foldl
    (fun uris s => if serviceText s ∈ uris then uris else uris ++ [serviceText s]) []

/-! ## The configuration file -/

structure System where
  /-- `conf['modules']['mod_stun_disco']`, if it is there, and whether it is an empty mapping -/
  modStunDisco : Option (Option StunDisco)
  /-- `EJABBERD_MANAGED_COTURN` is there -/
  managed : Bool
  deriving DecidableEq, Repr

def stunDisco (config : TurnConfiguration) : Except Exception (Option StunDisco) :=
  match config.uris, config.sharedSecret with
  | uri :: uris, some (c :: secret) => do
      let services ← (uri :: uris).mapM (generateService digits)
      return some ⟨"1000d".toList, c :: secret, services⟩
  | _, _ => .ok none

abbrev Action := Effect System Exception

def configureTurn (config : TurnConfiguration) (managed : Bool) : Action Unit := do
  let modStunDisco ← lift (stunDisco digits config)
  modify fun _ => ⟨some modStunDisco, managed⟩

def getTurnConfig : Action (TurnConfiguration × Bool) := do
  let s ← get
  match s.modStunDisco with
  | none => throw (KeyError (.str "mod_stun_disco"))
  | some (some config) =>
    return (⟨some [], generateUris config.services, some config.secret⟩, s.managed)
  | some none => return (⟨none, [], none⟩, s.managed)

def updateTurnConfiguration (needsSetup : Bool) (config : TurnConfiguration) (managed force : Bool) :
    Action Unit :=
  if !force && needsSetup then pure () else configureTurn digits config managed

def getTurnConfiguration : Action (TurnConfiguration × Bool) := do
  let (tc, managed) ← getTurnConfig
  return (TurnConfiguration.new tc.domain tc.uris tc.sharedSecret, managed)

/-! ## The round trip -/

/-- What is shown is what has been submitted, and can be submitted again to no effect. -/
def RoundTrips (needsSetup force : Bool) (config : TurnConfiguration) (managed : Bool) (s : System) :
    Prop :=
  ∃ s' shown, (updateTurnConfiguration digits needsSetup config managed force).exec s = (.ok (), s') ∧
    getTurnConfiguration.exec s' = (.ok (shown, managed), s') ∧
    shown.uris = Distinct.distinct config.uris ∧ shown.sharedSecret = config.sharedSecret ∧
    validateTurnUris shown.uris = true ∧
    ∃ s'', (updateTurnConfiguration digits needsSetup shown managed force).exec s' = (.ok (), s'') ∧
      getTurnConfiguration.exec s'' = (.ok (shown, managed), s'')

end Plinth.Ejabberd
