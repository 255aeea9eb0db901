import Plinth.Lib.Python.Url

/-!
# Redirects of OpenID Connect

`plinth/modules/oidc/validators.py`. A redirect to this machine is allowed by any of its addresses
and names if its path and query are those of a redirect that is allowed.
-/

namespace Plinth.Oidc

open Python Url IpAddress

def localhostNames : List (List Char) :=
  ["localhost".toList, "ip6-localhost".toList, "ip6-loopback".toList]

section Validate

variable (unicode : Unicode)

def checkAllowed (parsedRedirectUri : ParseResult) (redirectUriIsIp redirectUriIsLocalhost : Bool)
    (requestHost : Option (List Char)) : List (List Char) → Except Exception Bool
  | [] => .ok false
  | allowedUri :: rest =>
    let next := checkAllowed parsedRedirectUri redirectUriIsIp redirectUriIsLocalhost
      requestHost rest
    match urlparse unicode allowedUri with
    | .error e => .error e
    | .ok parsedAllowedUri =>
      if parsedRedirectUri.path ≠ parsedAllowedUri.path then next
      else if ¬ (parseQs parsedAllowedUri.query).keys ⊆
          (parseQs parsedRedirectUri.query).keys then next
      else if redirectUriIsIp ∧ requestHost.getD [] ≠ [] ∧
          requestHost = some parsedRedirectUri.netloc then .ok true
      else if redirectUriIsLocalhost then .ok true
      else next

def validateLocalDomainsAndIps (getHostname : Except Exception (List Char))
    (redirectUri : List Char) (requestHost : Option (List Char))
    (allowedRedirectUris : List (List Char)) : Except Exception Bool := do
  let parsedRedirectUri ← urlparse unicode redirectUri
  let host := hostname unicode parsedRedirectUri.netloc
  let machine ← getHostname
  let redirectUriIsLocalhost := host.any fun name => name ∈ localhostNames ++ [machine]
  checkAllowed unicode parsedRedirectUri (host.any isIpAddress) redirectUriIsLocalhost requestHost
    allowedRedirectUris

def validateRedirectUri (getHostname : Except Exception (List Char))
    (inherited : Except Exception Bool) (redirectUri : List Char)
    (requestHost : Option (List Char)) (clientRedirectUris : List Char) :
    Except Exception Bool := do
  if (← validateLocalDomainsAndIps unicode getHostname redirectUri requestHost
      (Text.words clientRedirectUris)) then return true
  inherited

end Validate

end Plinth.Oidc
