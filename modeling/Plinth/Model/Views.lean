import Plinth.Lib.Python.Url

/-!
# Redirects

What `plinth/views.py` takes for a URL that it may redirect to.
-/

namespace Plinth.Views

open Python

section

variable (unicode : Url.Unicode)

def isSafeUrl (url : Option (List Char)) : Bool :=
  match url.map Text.strip with
  | none => false
  | some url =>
    if url = [] then false
    else if '\\' ∈ url ∨ Text.startswith url "///".toList then false
    else
      -- what is raised is a `ValueError`
      match Url.urlparse unicode url with
      | .error _ => false
      | .ok result => ¬ (result.scheme ≠ [] ∨ result.netloc ≠ [])

def getRedirectUrlFromParam (get post : Option (List Char)) (index : List Char) : List Char :=
  let redirectTo := post.getD (get.getD [])
  if isSafeUrl unicode (some redirectTo) then redirectTo else index

end

end Plinth.Views
