import Plinth.Lib.Effect
import Plinth.Model.Oidc

/-! # Where a redirect goes that is allowed -/

namespace Plinth.Oidc

open Effect Python Url IpAddress

def StaysHere (machine : List Char) (requestHost : Option (List Char)) (uri : Uri.Absolute) :
    Prop :=
  ∃ authority, uri.authority = some authority ∧ authority.host.bare ≠ [] ∧
    (folded authority.host ∈ localhostNames ∨ folded authority.host = machine ∨
      (isIpAddress (folded authority.host) = true ∧ requestHost = some authority.text))

def Agrees (uri : Uri.Absolute) (allowedUri : List Char) : Prop :=
  Uri.path allowedUri = uri.path ∧
    ∀ parameter ∈ parseQsl true (Uri.query allowedUri),
      parameter ∈ parseQsl true (uri.query.getD [])

def shortPath (uri : Uri.Absolute) : List Char :=
  if uri.scheme.map Char.toLower ∈ usesParams then (splitParams uri.path).1 else uri.path

section Validate

variable {unicode : Unicode}

def Resembles (unicode : Unicode) (uri : Uri.Absolute) (allowedUri : List Char) : Prop :=
  ∃ parsed, urlparse unicode allowedUri = .ok parsed ∧ parsed.path = shortPath uri ∧
    ∀ name value, (name, value) ∈ parseQsl false parsed.query →
      ∃ other, (name, other) ∈ parseQsl false (uri.query.getD [])

def Reached (unicode : Unicode) (uri : Uri.Absolute) (allowed : List (List Char)) : Prop :=
  ∃ before allowedUri after, allowed = before ++ allowedUri :: after ∧
    (∀ earlier ∈ before, ∃ parsed, urlparse unicode earlier = .ok parsed) ∧
    Resembles unicode uri allowedUri

theorem reached_nil (uri : Uri.Absolute) : ¬ Reached unicode uri [] := by
  rintro ⟨before, allowedUri, after, split, -⟩
  simp at split

theorem reached_cons (uri : Uri.Absolute) (allowedUri : List Char) (rest : List (List Char)) :
    Reached unicode uri (allowedUri :: rest) ↔ Resembles unicode uri allowedUri ∨
      ((∃ parsed, urlparse unicode allowedUri = .ok parsed) ∧ Reached unicode uri rest) := by
  constructor
  · rintro ⟨before, found, after, split, parsed, like⟩
    cases before with
    | nil =>
      cases split
      exact .inl like
    | cons first before =>
      cases split
      exact .inr ⟨parsed _ List.mem_cons_self, before, found, after, rfl,
        fun earlier member => parsed earlier (List.mem_cons_of_mem _ member), like⟩
  · rintro (like | ⟨parsed, before, found, after, rfl, earlier, like⟩)
    · exact ⟨[], allowedUri, rest, rfl, fun _ member => absurd member List.not_mem_nil, like⟩
    · exact ⟨allowedUri :: before, found, after, rfl, List.forall_mem_cons.mpr ⟨parsed, earlier⟩,
        like⟩

def parsedUri (uri : Uri.Absolute) : ParseResult :=
  { scheme := uri.scheme.map Char.toLower
    netloc := uri.netloc
    path := shortPath uri
    query := uri.query.getD []
    fragment := []
    params := if uri.scheme.map Char.toLower ∈ usesParams then (splitParams uri.path).2 else [] }

theorem urlparse_text (unicode : Unicode) (uri : Uri.Absolute) :
    urlparse unicode uri.text = (checkBrackets uri.netloc).map fun _ => parsedUri uri := by
  rw [urlparse, urlsplit_text]
  cases checkBrackets uri.netloc with
  | error e => rfl
  | ok _ =>
    unfold parsedUri shortPath
    by_cases params : uri.scheme.map Char.toLower ∈ usesParams
    · rw [if_pos params, if_pos params]
      exact if_pos params
    · rw [if_neg params, if_neg params]
      exact if_neg params

theorem hostname_netloc (unicode : Unicode) (uri : Uri.Absolute) (name : List Char) :
    hostname unicode uri.netloc = some name ↔ ∃ authority, uri.authority = some authority ∧
      authority.host.bare ≠ [] ∧ folded authority.host = name := by
  unfold Uri.Absolute.netloc
  cases uri.authority with
  | none =>
    rw [hostname_nil]
    simp
  | some authority =>
    rw [hostname_text]
    by_cases empty : authority.host.bare = []
    · simp [empty]
    · simp [empty]

theorem resembles_iff (uri : Uri.Absolute) {allowedUri : List Char} {parsed : ParseResult}
    (read : urlparse unicode allowedUri = .ok parsed) :
    Resembles unicode uri allowedUri ↔ parsed.path = shortPath uri ∧
      (parseQs parsed.query).keys ⊆ (parseQs (uri.query.getD [])).keys := by
  have names : (parseQs parsed.query).keys ⊆ (parseQs (uri.query.getD [])).keys ↔
      ∀ name value, (name, value) ∈ parseQsl false parsed.query →
        ∃ other, (name, other) ∈ parseQsl false (uri.query.getD []) := by
    constructor
    · intro subset name value member
      exact (mem_keys_parseQs _ name).mp
        (subset ((mem_keys_parseQs _ name).mpr ⟨value, member⟩))
    · intro each name member
      obtain ⟨value, pair⟩ := (mem_keys_parseQs _ name).mp member
      exact (mem_keys_parseQs _ name).mpr (each name value pair)
  rw [names]
  constructor
  · rintro ⟨parsed', read', like⟩
    rw [read] at read'
    cases read'
    exact like
  · exact fun like => ⟨parsed, read, like⟩

section Loop

variable {uri : Uri.Absolute} {isIp isLocalhost : Bool} {requestHost : Option (List Char)}
  {allowedUri : List Char} {parsed : ParseResult}

def HostAllowed (uri : Uri.Absolute) (isIp isLocalhost : Bool)
    (requestHost : Option (List Char)) : Prop :=
  (isIp = true ∧ requestHost.getD [] ≠ [] ∧ requestHost = some uri.netloc) ∨ isLocalhost = true

theorem checkAllowed_of_unlike (rest : List (List Char))
    (read : urlparse unicode allowedUri = .ok parsed)
    (unlike : ¬ Resembles unicode uri allowedUri) :
    checkAllowed unicode (parsedUri uri) isIp isLocalhost requestHost (allowedUri :: rest) =
      checkAllowed unicode (parsedUri uri) isIp isLocalhost requestHost rest := by
  rw [resembles_iff uri read, not_and] at unlike
  rw [checkAllowed, read]
  dsimp only
  by_cases path : shortPath uri = parsed.path
  · exact (if_neg (not_not.mpr path)).trans (if_pos (unlike path.symm))
  · exact if_pos path

theorem checkAllowed_of_like (rest : List (List Char))
    (read : urlparse unicode allowedUri = .ok parsed) (like : Resembles unicode uri allowedUri) :
    checkAllowed unicode (parsedUri uri) isIp isLocalhost requestHost (allowedUri :: rest) =
      if isIp = true ∧ requestHost.getD [] ≠ [] ∧ requestHost = some uri.netloc then .ok true
      else if isLocalhost = true then .ok true
      else checkAllowed unicode (parsedUri uri) isIp isLocalhost requestHost rest := by
  obtain ⟨path, names⟩ := (resembles_iff uri read).mp like
  rw [checkAllowed, read]
  dsimp only
  exact (if_neg (not_not.mpr path.symm)).trans (if_neg (not_not.mpr names))

theorem checkAllowed_iff (uri : Uri.Absolute) (isIp isLocalhost : Bool)
    (requestHost : Option (List Char)) (allowed : List (List Char)) :
    checkAllowed unicode (parsedUri uri) isIp isLocalhost requestHost allowed = .ok true ↔
      HostAllowed uri isIp isLocalhost requestHost ∧ Reached unicode uri allowed := by
  induction allowed with
  | nil =>
    rw [checkAllowed]
    constructor
    · intro same
      cases same
    · exact fun reached => absurd reached.2 (reached_nil uri)
  | cons allowedUri rest ih =>
    rw [reached_cons]
    cases read : urlparse unicode allowedUri with
    | error e =>
      rw [checkAllowed, read]
      constructor
      · intro same
        cases same
      · rintro ⟨-, ⟨parsed, read', -⟩ | ⟨⟨parsed, read'⟩, -⟩⟩
        · rw [read] at read'
          cases read'
        · cases read'
    | ok parsed =>
      have present : ∃ parsed', (.ok parsed : Except Exception ParseResult) = .ok parsed' :=
        ⟨parsed, rfl⟩
      rw [and_iff_right present]
      by_cases like : Resembles unicode uri allowedUri
      · rw [checkAllowed_of_like rest read like, iff_true_intro like, true_or, and_true]
        by_cases address : isIp = true ∧ requestHost.getD [] ≠ [] ∧
            requestHost = some uri.netloc
        · rw [if_pos address]
          exact ⟨fun _ => .inl address, fun _ => rfl⟩
        · rw [if_neg address]
          by_cases named : isLocalhost = true
          · rw [if_pos named]
            exact ⟨fun _ => .inr named, fun _ => rfl⟩
          · rw [if_neg named, ih]
            have refused : ¬ HostAllowed uri isIp isLocalhost requestHost := by
              rintro (allowed | allowed)
              · exact address allowed
              · exact named allowed
            exact ⟨fun allowed => allowed.1, fun allowed => absurd allowed refused⟩
      · rw [checkAllowed_of_unlike rest read like, ih, iff_false_intro like, false_or]

end Loop

theorem hostAllowed_iff (uri : Uri.Absolute) (machine : List Char)
    (requestHost : Option (List Char)) :
    HostAllowed uri ((hostname unicode uri.netloc).any isIpAddress)
        ((hostname unicode uri.netloc).any fun name => name ∈ localhostNames ++ [machine])
        requestHost ↔ StaysHere machine requestHost uri := by
  unfold HostAllowed StaysHere
  cases host : hostname unicode uri.netloc with
  | none =>
    have absent (name : List Char) : ¬ hostname unicode uri.netloc = some name := by
      rw [host]
      simp
    constructor
    · rintro (⟨none, -⟩ | none) <;> cases none
    · rintro ⟨authority, present, nonempty, -⟩
      exact absurd ((hostname_netloc unicode uri _).mpr ⟨authority, present, nonempty, rfl⟩)
        (absent _)
  | some name =>
    obtain ⟨authority, present, nonempty, rfl⟩ := (hostname_netloc unicode uri name).mp host
    have netloc : uri.netloc = authority.text := by rw [Uri.Absolute.netloc, present]
    have written : authority.text ≠ [] := by
      intro empty
      rw [netloc, empty, hostname_nil] at host
      cases host
    have named : (folded authority.host ∈ localhostNames ++ [machine]) ↔
        folded authority.host ∈ localhostNames ∨ folded authority.host = machine := by
      rw [List.mem_append, List.mem_singleton]
    rw [Option.any_some, Option.any_some, decide_eq_true_iff, named, netloc]
    constructor
    · rintro (⟨address, -, asked⟩ | local' | machine')
      · exact ⟨authority, present, nonempty, .inr (.inr ⟨address, asked⟩)⟩
      · exact ⟨authority, present, nonempty, .inl local'⟩
      · exact ⟨authority, present, nonempty, .inr (.inl machine')⟩
    · rintro ⟨authority', present', -, allowed⟩
      rw [present, Option.some.injEq] at present'
      subst present'
      rcases allowed with local' | machine' | ⟨address, asked⟩
      · exact .inr (.inl local')
      · exact .inr (.inr machine')
      · refine .inl ⟨address, ?_, asked⟩
        rw [asked]
        exact written

theorem validate_iff (getHostname : Except Exception (List Char)) (uri : Uri.Absolute)
    (requestHost : Option (List Char)) (allowed : List (List Char)) :
    validateLocalDomainsAndIps unicode getHostname uri.text requestHost allowed = .ok true ↔
      checkBrackets uri.netloc = .ok () ∧ ∃ machine, getHostname = .ok machine ∧
        StaysHere machine requestHost uri ∧ Reached unicode uri allowed := by
  rw [validateLocalDomainsAndIps, urlparse_text]
  cases checked : checkBrackets uri.netloc with
  | error e =>
    constructor
    · intro same
      cases same
    · rintro ⟨same, -⟩
      cases same
  | ok _ =>
    cases getHostname with
    | error e =>
      constructor
      · intro same
        cases same
      · rintro ⟨-, machine, same, -⟩
        cases same
    | ok machine =>
      show checkAllowed unicode (parsedUri uri) _ _ requestHost allowed = .ok true ↔ _
      rw [checkAllowed_iff]
      show HostAllowed uri ((hostname unicode uri.netloc).any isIpAddress)
        ((hostname unicode uri.netloc).any fun name => name ∈ localhostNames ++ [machine])
        requestHost ∧ _ ↔ _
      rw [hostAllowed_iff]
      constructor
      · exact fun allowed => ⟨rfl, machine, rfl, allowed⟩
      · rintro ⟨-, machine', same, allowed⟩
        cases same
        exact allowed

/-- A redirect that is allowed goes to this machine, to the path of an allowed URI and with all its
parameters, exactly if the first URI that it resembles comes with one that it agrees with. -/
theorem redirect_agrees_iff (unicode : Unicode) (getHostname : Except Exception (List Char))
    (uri : Uri.Absolute) (requestHost : Option (List Char)) (allowed : List (List Char)) :
    (validateLocalDomainsAndIps unicode getHostname uri.text requestHost allowed = .ok true →
      ∃ machine, getHostname = .ok machine ∧ StaysHere machine requestHost uri ∧
        ∃ allowedUri ∈ allowed, Agrees uri allowedUri) ↔
      (checkBrackets uri.netloc = .ok () →
        (∃ machine, getHostname = .ok machine ∧ StaysHere machine requestHost uri) →
          Reached unicode uri allowed → ∃ allowedUri ∈ allowed, Agrees uri allowedUri) := by
  rw [validate_iff]
  constructor
  · rintro holds checked ⟨machine, named, stays⟩ reached
    obtain ⟨-, -, -, agrees⟩ := holds ⟨checked, machine, named, stays, reached⟩
    exact agrees
  · rintro agrees ⟨checked, machine, named, stays, reached⟩
    exact ⟨machine, named, stays, agrees checked ⟨machine, named, stays⟩ reached⟩

end Validate

/-! ## Redirects without parameters -/

/-! ## A redirect with another value -/

def plainUnicode : Unicode where
  lower := fun s => s.map Char.toLower
  nfkc := id
  lower_ascii := fun _ _ => rfl

instance (uri : Uri.Absolute) (allowedUri : List Char) : Decidable (Agrees uri allowedUri) :=
  inferInstanceAs (Decidable (_ ∧ ∀ parameter ∈ _, _))

def localhost : Uri.Authority where
  userinfo := none
  host := .name "localhost".toList (List.all_eq_true.mp (by decide))
  port := none
  userinfo_letters := by simp
  port_digits := by simp

def redirectTo (path query : List Char) (letters : path.all Uri.isPathChar = true)
    (rooted : path.head? = some '/') (asked : query.all Uri.isQueryChar = true) :
    Uri.Absolute where
  scheme := "https".toList
  authority := some localhost
  path := path
  query := some query
  scheme_head := ⟨'h', by decide, by decide⟩
  scheme_letters := List.all_eq_true.mp (by decide)
  path_letters := List.all_eq_true.mp letters
  path_rooted := fun _ _ => rooted
  path_rootless := by simp
  query_letters := by simpa using List.all_eq_true.mp asked

def otherValue : Uri.Absolute :=
  redirectTo "/callback".toList "client=other".toList (by decide) (by decide) (by decide)

def otherParams : Uri.Absolute :=
  redirectTo "/callback;other".toList "client=app".toList (by decide) (by decide) (by decide)

def registered : List (List Char) :=
  ["https://box.example/callback?client=app".toList]

theorem eq_ok_of_toOption {α : Type*} {result : Except Exception α} {a : α}
    (ok : result.toOption = some a) : result = .ok a := by
  cases result with
  | error e => cases ok
  | ok b => exact congrArg Except.ok (Option.some.inj ok)

theorem other_value_allowed :
    (validateLocalDomainsAndIps plainUnicode (.ok "box".toList) otherValue.text none registered =
        .ok true ∧ ¬ ∃ allowedUri ∈ registered, Agrees otherValue allowedUri) ∧
      validateLocalDomainsAndIps plainUnicode (.ok "box".toList) otherParams.text none registered =
        .ok true ∧ ¬ ∃ allowedUri ∈ registered, Agrees otherParams allowedUri := by
  refine ⟨⟨eq_ok_of_toOption ?_, ?_⟩, eq_ok_of_toOption ?_, ?_⟩ <;> decide +kernel

end Plinth.Oidc
