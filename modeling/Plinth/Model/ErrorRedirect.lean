import Plinth.Lib.Python.Value

/-!
# Redirects after errors

`CommonErrorMiddleware` of `plinth/middleware.py`, with `get_breadcrumbs` of `plinth/views.py` and
`Menu.get_with_url_name` of `plinth/menu.py`. The menu items are in the order in which they are
looked through.
-/

namespace Plinth.ErrorRedirect

open Python Exception

abbrev Path := List Char
abbrev Name := List Char

structure MenuItem where
  name : Option String
  url : Path
  urlName : Name
  parentUrlName : Option Name
  deriving DecidableEq, Repr

structure ResolverMatch where
  appNames : List Name
  /-- `None` for a URL pattern without a name -/
  urlName : Option Name
  deriving DecidableEq, Repr

inductive Method
  | get
  | post
  deriving DecidableEq, Repr

structure Request where
  method : Method
  path : Path
  resolverMatch : Option ResolverMatch
  deriving DecidableEq, Repr

structure Crumb where
  name : Option String
  isActive : Bool
  urlName : Option Name
  isActiveSection : Bool
  deriving DecidableEq, Repr

abbrev Breadcrumbs := OrderedDict Path Crumb

def lookupError : Exception :=
  ⟨builtin "LookupError" [.exception], []⟩

def index : Name :=
  "index".toList

/-- `':'.join(names)` -/
def joinNames (names : List Name) : Name :=
  [':'].intercalate names

/-- `':'.join(app_names + [url_name])` -/
def fullUrlName (found : ResolverMatch) : Except Exception Name :=
  match found.urlName with
  | some urlName => .ok (joinNames (found.appNames ++ [urlName]))
  | none => .error (TypeError "sequence item: expected str instance, NoneType found")

section

variable (menus : List MenuItem)

def getWithUrlName (urlName : Name) : Except Exception MenuItem :=
  match menus.find? fun item => item.urlName = urlName with
  | some item => .ok item
  | none => .error lookupError

def MenuItem.parent (item : MenuItem) : Option Name :=
  item.parentUrlName.filter (· ≠ [])

variable (request : Request)

def add (url : Path) (name : Option String) (urlName : Option Name) (breadcrumbs : Breadcrumbs) :
    Breadcrumbs :=
  breadcrumbs.set url ⟨name, request.path = url, urlName, false⟩

def addItem (item : MenuItem) (breadcrumbs : Breadcrumbs) : Breadcrumbs :=
  add request item.url item.name (some item.urlName) breadcrumbs

def start : Except Exception (Breadcrumbs × MenuItem) :=
  match request.resolverMatch with
  | none => do return (OrderedDict.empty, ← getWithUrlName menus index)
  | some found => do
      let full ← fullUrlName found
      match getWithUrlName menus full with
      | .ok item => return (OrderedDict.empty, item)
      | .error _ =>
        let here := add request request.path (some "Here") (some full) OrderedDict.empty
        match getWithUrlName menus (joinNames (found.appNames ++ [index])) with
        | .ok item => return (here, item)
        | .error _ => return (here, ← getWithUrlName menus index)

def climb : Nat → MenuItem → Breadcrumbs → Except Exception (Option Breadcrumbs)
  | 0, _, _ => return none
  | n + 1, item, breadcrumbs =>
    match item.parent with
    | none => return some (addItem request item breadcrumbs)
    | some parent => do
        climb n (← getWithUrlName menus parent) (addItem request item breadcrumbs)

/-- `breadcrumbs[active_section_key]['is_active_section'] = True` -/
def markActiveSection (breadcrumbs : Breadcrumbs) : Breadcrumbs :=
  let place := if 2 ≤ breadcrumbs.keys.length then breadcrumbs.keys.length - 2
    else breadcrumbs.keys.length - 1
  match breadcrumbs.entries[place]? with
  | some (url, crumb) => breadcrumbs.set url { crumb with isActiveSection := true }
  | none => breadcrumbs

def getBreadcrumbs : Except Exception Breadcrumbs := do
  let (breadcrumbs, item) ← start menus request
  match ← climb menus request 10 item breadcrumbs with
  | some breadcrumbs => return markActiveSection breadcrumbs
  | none => do
      let item ← getWithUrlName menus index
      return markActiveSection (addItem request item OrderedDict.empty)

/-! ## The middleware -/

def getRedirectUrlOnError : Except Exception Path :=
  match request.method with
  | .post => return request.path
  | .get => do
      let keys := (← getBreadcrumbs menus request).keys
      match keys[if 1 < keys.length then 1 else 0]? with
      | some url => return url
      | none => throw (IndexError "list index out of range")

inductive Outcome
  | response
  /-- `HttpResponseNotAllowed` -/
  | notAllowed
  | operationalError
  | http404
  | otherException
  deriving DecidableEq, Repr

inductive Response
  | view
  | error (message : String) (status : Nat)
  | redirect (url : Path)
  | unhandled
  deriving DecidableEq, Repr

structure Message where
  text : String
  details : Bool
  deriving DecidableEq, Repr

def errorMessage (outcome : Outcome) : Message :=
  if outcome = .http404 then ⟨"Page not found: " ++ String.ofList request.path, false⟩
  else if request.method = .post then ⟨"Error running operation.", true⟩
  else ⟨"Error loading page.", true⟩

/-- `not match.app_name and match.url_name == 'index'` -/
def isHome (found : ResolverMatch) : Bool :=
  joinNames found.appNames = [] ∧ found.urlName = some index

def processException (outcome : Outcome) : Except Exception (Response × List Message) :=
  if outcome = .operationalError then
    return (.error "System is possibly under heavy load. Please retry later." 503, [])
  else
    match request.resolverMatch with
    | none => throw (AttributeError "'NoneType' object has no attribute 'app_name'")
    | some found =>
      if isHome found then return (.unhandled, [])
      else do
        let url ← getRedirectUrlOnError menus request
        return (.redirect url, [errorMessage request outcome])

/-- `process_exception` and `process_response` -/
def respond (outcome : Outcome) : Except Exception (Response × List Message) :=
  match outcome with
  | .response => return (.view, [])
  | .notAllowed => do return (.redirect (← getRedirectUrlOnError menus request), [])
  | _ => processException menus request outcome

end

/-! ## Following the redirects -/

structure Site where
  menus : List MenuItem
  resolve : Path → Option ResolverMatch

structure Visit where
  method : Method
  path : Path
  deriving DecidableEq, Repr

def Site.request (site : Site) (visit : Visit) : Request :=
  ⟨visit.method, visit.path, site.resolve visit.path⟩

def Site.next (site : Site) (outcome : Outcome) (visit : Visit) : Option Visit :=
  match respond site.menus (site.request visit) outcome with
  | .ok (.redirect url, _) => some ⟨.get, url⟩
  | _ => none

/-- The visit after so many redirects, where `view` is what the views do in one visit after the
other. -/
def Site.visitAt (site : Site) (view : Nat → Visit → Outcome) (visit : Visit) : Nat → Option Visit
  | 0 => some visit
  | n + 1 => (site.visitAt view visit n).bind fun visit => site.next (view n visit) visit

end Plinth.ErrorRedirect
