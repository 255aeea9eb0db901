import Plinth.Lib.Python.Text
import Plinth.Lib.Runs

/-!
# Downloading packages over Tor

`_enable_apt_transport_tor`, `_disable_apt_transport_tor` and `configure` of
`plinth/modules/torproxy/privileged.py`, and `plinth/modules/torproxy/utils.py`.
-/

namespace Plinth.TorProxy

open Python

def aptTorPrefix : List Char := "tor+".toList

/-- A file of APT sources. Augeas has no tree for a file that it cannot parse. -/
structure SourcesList where
  uris : List (List Char)
  error : Bool
  deriving DecidableEq

def SourcesList.setUris (f : List Char → List Char) (sources : SourcesList) : SourcesList :=
  if sources.error then sources else { sources with uris := sources.uris.map f }

def isHttp (uri : List Char) : Bool :=
  Text.startswith uri "http://".toList || Text.startswith uri "https://".toList

def enableUri (uri : List Char) : List Char :=
  if isHttp uri then aptTorPrefix ++ uri else uri

def disableUri (uri : List Char) : List Char :=
  if Text.startswith uri aptTorPrefix then uri.drop aptTorPrefix.length else uri

/-- `get_augeas()` raises when there is a file with an error, and nothing is changed. -/
def enableAptTransportTor (files : List SourcesList) : List SourcesList :=
  if files.any (·.error) then files else files.map (.setUris enableUri)

def disableAptTransportTor (files : List SourcesList) : List SourcesList :=
  files.map (.setUris disableUri)

def configure (files : List SourcesList) (aptTransportTor : Option Bool) : List SourcesList :=
  match aptTransportTor with
  | some true => enableAptTransportTor files
  | some false => disableAptTransportTor files
  | none => files

def isAptTransportTorEnabled (files : List SourcesList) : Bool :=
  !files.any (·.error) && (files.flatMap (·.uris)).all fun uri =>
    Text.startswith uri aptTorPrefix || !isHttp uri

end Plinth.TorProxy
