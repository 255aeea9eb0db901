import Mathlib.Data.List.DropRight

/-!
# Where a URL leads

What a browser makes of a URL that it finds on a page, as far as the origin goes: controls and blanks
at the ends and tabs and line breaks anywhere are removed, a backslash is a slash, and two slashes or
more come before an authority.
-/

namespace Browser

inductive Scheme
  | http
  | https
  deriving DecidableEq, Repr

def Scheme.name : Scheme → List Char
  | .http => "http".toList
  | .https => "https".toList

structure Origin where
  scheme : List Char
  host : List Char
  deriving DecidableEq, Repr

structure Page where
  scheme : Scheme
  host : List Char
  deriving DecidableEq, Repr

def Page.origin (page : Page) : Origin :=
  ⟨page.scheme.name, page.host⟩

structure Hosts where
  read : List Char → Option (List Char)
  read_nil : read [] = none

def isBlank (c : Char) : Bool :=
  c.toNat ≤ 0x20

def isKept (c : Char) : Bool :=
  c ∉ ['\t', '\r', '\n']

def trim (url : List Char) : List Char :=
  ((url.dropWhile isBlank).rdropWhile isBlank).filter isKept

def isSlash (c : Char) : Bool :=
  c == '/' || c == '\\'

def isSchemeChar (c : Char) : Bool :=
  c.isAlphanum || c == '+' || c == '-' || c == '.'

def takeScheme (url : List Char) : Option (List Char × List Char) :=
  if (url.head?.any Char.isAlpha) = true then
    match url.dropWhile isSchemeChar with
    | ':' :: rest => some ((url.takeWhile isSchemeChar).map Char.toLower, rest)
    | _ => none
  else none

def special : List (List Char) :=
  ["ftp".toList, "http".toList, "https".toList, "ws".toList, "wss".toList]

def authority (rest : List Char) : List Char :=
  (rest.dropWhile isSlash).takeWhile fun c => !(isSlash c || c == '?' || c == '#')

section Resolve

variable (hosts : Hosts) (page : Page)

def withAuthority (scheme rest : List Char) : Option Origin :=
  (hosts.read (authority rest)).map fun host => ⟨scheme, host⟩

def relative (url : List Char) : Option Origin :=
  match url with
  | c :: c' :: rest =>
    if isSlash c && isSlash c' then withAuthority hosts page.scheme.name (c :: c' :: rest)
    else some page.origin
  | _ => some page.origin

/-- The origin of what a URL on a page leads to, unless the URL is invalid. A scheme that is not
special leads out of the web. -/
def resolve (url : List Char) : Option Origin :=
  match takeScheme (trim url) with
  | none => relative hosts page (trim url)
  | some (scheme, rest) =>
    if scheme = page.scheme.name then relative hosts page rest
    else if scheme ∈ special then withAuthority hosts scheme rest
    else some ⟨scheme, []⟩

end Resolve

def StaysOnSite (hosts : Hosts) (url : List Char) : Prop :=
  ∀ page origin, resolve hosts page url = some origin → origin = page.origin

/-! ## Relative URLs -/

theorem relative_other (hosts : Hosts) (page : Page) {url : List Char}
    (other : ∀ c c' rest, url = c :: c' :: rest → ¬ (isSlash c && isSlash c') = true) :
    relative hosts page url = some page.origin := by
  unfold relative
  split
  · exact if_neg (other _ _ _ rfl)
  · rfl

theorem relative_slashes (hosts : Hosts) (page : Page) {c c' : Char} (rest : List Char)
    (slashes : (isSlash c && isSlash c') = true) :
    relative hosts page (c :: c' :: rest) =
      withAuthority hosts page.scheme.name (c :: c' :: rest) :=
  if_pos slashes

theorem staysOnSite_relative (hosts : Hosts) {url : List Char} (plain : takeScheme (trim url) = none)
    (other : ∀ c c' rest, trim url = c :: c' :: rest → ¬ (isSlash c && isSlash c') = true) :
    StaysOnSite hosts url := by
  intro page origin leads
  rw [resolve, plain] at leads
  rw [← Option.some.inj (leads.symm.trans (relative_other hosts page other))]

theorem staysOnSite_authority_iff (hosts : Hosts) {url : List Char} (plain : takeScheme (trim url) = none)
    {c c' : Char} {rest : List Char} (text : trim url = c :: c' :: rest)
    (slashes : (isSlash c && isSlash c') = true) :
    StaysOnSite hosts url ↔ hosts.read (authority (trim url)) = none := by
  have leads (page : Page) : resolve hosts page url =
      withAuthority hosts page.scheme.name (trim url) := by
    rw [resolve, plain, text]
    exact relative_slashes hosts page rest slashes
  constructor
  · intro stays
    cases read : hosts.read (authority (trim url)) with
    | none => rfl
    | some host =>
      -- a page of another host
      have origin := stays ⟨.http, 'x' :: host⟩ ⟨Scheme.http.name, host⟩
        (by rw [leads, withAuthority, read]; rfl)
      have hosts_ : host = 'x' :: host := congrArg Origin.host origin
      exact absurd hosts_.symm (List.cons_ne_self _ _)
  · intro invalid page origin leads'
    rw [leads, withAuthority, invalid] at leads'
    cases leads'

theorem trim_subset (url : List Char) : trim url ⊆ url := by
  intro c member
  have inside := (List.mem_filter.mp member).1
  exact (List.dropWhile_sublist _).subset ((List.rdropWhile_prefix _ _).subset inside)

end Browser
