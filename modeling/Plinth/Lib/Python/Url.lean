import Mathlib.Data.List.DropRight
import Plinth.Lib.Python.IpAddress
import Plinth.Lib.Python.Text
import Plinth.Lib.Python.Value
import Plinth.Lib.Uri

/-!
# URLs

The functions of `urllib.parse` that take a URL apart, and what they make of an absolute URI.
-/

namespace Python.Url

open Exception IpAddress

structure Unicode where
  lower : List Char → List Char
  nfkc : List Char → List Char
  lower_ascii : ∀ s, (∀ c ∈ s, c.toNat < 128) → lower s = s.map Char.toLower

def isAscii (c : Char) : Bool :=
  c.toNat < 128

/-- The texts before and after the first `c`. -/
def cut (c : Char) (s : List Char) : List Char × List Char :=
  (s.takeWhile (· ≠ c), (s.dropWhile (· ≠ c)).drop 1)

/-! ## `urlsplit` -/

structure SplitResult where
  scheme : List Char
  netloc : List Char
  path : List Char
  query : List Char
  fragment : List Char
  deriving DecidableEq, Repr

def sanitize (url : List Char) : List Char :=
  (url.dropWhile fun c => c.toNat ≤ 0x20).filter (· ∉ ['\t', '\r', '\n'])

def isSchemeChar (c : Char) : Bool :=
  c.isAlphanum || c == '+' || c == '-' || c == '.'

def splitScheme (url : List Char) : List Char × List Char :=
  let scheme := (cut ':' url).1
  if ':' ∈ url ∧ scheme.head?.any Char.isAlpha ∧ scheme.all isSchemeChar then
    (scheme.map Char.toLower, (cut ':' url).2)
  else ([], url)

def splitNetloc (url : List Char) : List Char × List Char :=
  if ['/', '/'].isPrefixOf url then
    ((url.drop 2).takeWhile (!Uri.isDelimiter ·), (url.drop 2).dropWhile (!Uri.isDelimiter ·))
  else ([], url)

/-- `hostinfo`: what is after the last `@`. -/
def hostinfo (netloc : List Char) : List Char :=
  netloc.rtakeWhile (· ≠ '@')

def invalidIpv6Url : Exception :=
  ValueError "Invalid IPv6 URL"

def isIpFuture (hostname : List Char) : Bool :=
  let version := (hostname.drop 1).takeWhile isHexDigit
  match hostname.drop (1 + version.length) with
  | '.' :: rest => version ≠ [] && rest ≠ []
  | _ => false

def checkBracketedHost (hostname : List Char) : Except Exception Unit :=
  if hostname.head? = some 'v' then
    if isIpFuture hostname then .ok () else .error (ValueError "IPvFuture address is invalid")
  else if isIpv4 hostname then
    .error (ValueError "An IPv4 address cannot be in brackets")
  else if isIpv6 hostname then .ok ()
  else .error (ValueError "does not appear to be an IPv4 or IPv6 address")

def checkBracketedNetloc (netloc : List Char) : Except Exception Unit :=
  let before := (cut '[' (hostinfo netloc)).1
  let bracketed := (cut '[' (hostinfo netloc)).2
  if '[' ∈ hostinfo netloc then
    let port := (cut ']' bracketed).2
    if before ≠ [] then .error invalidIpv6Url
    else if port ≠ [] ∧ port.head? ≠ some ':' then .error invalidIpv6Url
    else checkBracketedHost (cut ']' bracketed).1
  else checkBracketedHost (cut ':' (hostinfo netloc)).1

def checkBrackets (netloc : List Char) : Except Exception Unit :=
  if '[' ∈ netloc ∧ ']' ∈ netloc then checkBracketedNetloc netloc
  else if '[' ∈ netloc ∨ ']' ∈ netloc then .error invalidIpv6Url
  else .ok ()

section Unicode

variable (unicode : Unicode)

def checkNetloc (netloc : List Char) : Except Exception Unit :=
  let kept := netloc.filter (· ∉ ['@', ':', '#', '?'])
  if netloc.all isAscii ∨ unicode.nfkc kept = kept then .ok ()
  else if (unicode.nfkc kept).any (· ∈ ['/', '?', '#', '@', ':']) then
    .error (ValueError "netloc contains invalid characters under NFKC normalization")
  else .ok ()

def urlsplit (url : List Char) : Except Exception SplitResult := do
  let (scheme, url) := splitScheme (sanitize url)
  let (netloc, url) := splitNetloc url
  checkBrackets netloc
  let (url, fragment) := cut '#' url
  let (path, query) := cut '?' url
  checkNetloc unicode netloc
  return { scheme, netloc, path, query, fragment }

/-! ## `urlparse` -/

def usesParams : List (List Char) :=
  ["".toList, "ftp".toList, "hdl".toList, "prospero".toList, "http".toList, "https".toList,
    "shttp".toList, "rtsp".toList, "rtsps".toList, "sip".toList, "sips".toList, "mms".toList,
    "sftp".toList, "tel".toList]

def splitParams (path : List Char) : List Char × List Char :=
  let last := path.rtakeWhile (· ≠ '/')
  let before := path.rdropWhile (· ≠ '/')
  (before ++ (cut ';' last).1, (cut ';' last).2)

structure ParseResult extends SplitResult where
  params : List Char
  deriving DecidableEq, Repr

def urlparse (url : List Char) : Except Exception ParseResult := do
  let result ← urlsplit unicode url
  if result.scheme ∈ usesParams then
    return { result with path := (splitParams result.path).1, params := (splitParams result.path).2 }
  else return { result with params := [] }

/-- `result.hostname` of a network location -/
def hostname (netloc : List Char) : Option (List Char) :=
  let hostname :=
    if '[' ∈ hostinfo netloc then (cut ']' (cut '[' (hostinfo netloc)).2).1
    else (cut ':' (hostinfo netloc)).1
  if hostname = [] then none
  else some (unicode.lower (cut '%' hostname).1 ++ hostname.dropWhile (· ≠ '%'))

end Unicode

/-! ## Queries -/

def unquoteToBytes : List Char → Bytes
  | '%' :: high :: low :: s =>
    match Json.hexValue high, Json.hexValue low with
    | some high, some low => UInt8.ofNat (high * 16 + low) :: unquoteToBytes s
    | _, _ => 0x25 :: unquoteToBytes (high :: low :: s)
  | c :: s => UInt8.ofNat c.toNat :: unquoteToBytes s
  | [] => []

def unquote (s : List Char) : List Char :=
  if '%' ∈ s then
    (s.splitBy fun c c' => isAscii c == isAscii c').flatMap fun part =>
      if part.all isAscii then decodeReplace (unquoteToBytes part) else part
  else s

def unquotePlus (s : List Char) : List Char :=
  unquote (s.map fun c => if c = '+' then ' ' else c)

def parseQsl (keepBlankValues : Bool) (qs : List Char) : List (List Char × List Char) :=
  (qs.splitOn '&').filterMap fun nameValue =>
    let name := (cut '=' nameValue).1
    let value := (cut '=' nameValue).2
    if nameValue ≠ [] ∧ (value ≠ [] ∨ keepBlankValues) then
      some (unquotePlus name, unquotePlus value)
    else none

def parseQs (qs : List Char) : OrderedDict (List Char) (List (List Char)) :=
  (parseQsl false qs).foldl (fun parsed pair =>
    parsed.set pair.1 ((parsed.get? pair.1).getD [] ++ [pair.2])) OrderedDict.empty

/-! ## Cutting -/

open Uri

theorem ne_of_not_mem {c : Char} {s : List Char} (free : c ∉ s) :
    ∀ c' ∈ s, decide (c' ≠ c) = true := by
  intro c' member
  refine decide_eq_true ?_
  rintro rfl
  exact free member

theorem cut_append {c : Char} {front : List Char} (free : c ∉ front) (back : List Char) :
    cut c (front ++ c :: back) = (front, back) := by
  obtain ⟨taken, dropped⟩ := takeWhile_stopped (c :: back) (ne_of_not_mem free) (by simp)
  rw [cut, taken, dropped]
  rfl

theorem cut_of_not_mem {c : Char} {s : List Char} (free : c ∉ s) : cut c s = (s, []) := by
  obtain ⟨taken, dropped⟩ := takeWhile_stopped [] (ne_of_not_mem free) (by simp)
  rw [List.append_nil] at taken dropped
  rw [cut, taken, dropped]
  rfl

theorem cut_begun {c : Char} {front : List Char} (free : c ∉ front) (part : Option (List Char)) :
    cut c (front ++ Uri.begun c part) = (front, part.getD []) := by
  cases part with
  | none =>
    rw [Uri.begun, List.append_nil]
    exact cut_of_not_mem free
  | some back => exact cut_append free back

theorem hostinfo_ended {back : List Char} (free : '@' ∉ back) (part : Option (List Char)) :
    hostinfo (Uri.ended part '@' ++ back) = back := by
  have reversed : '@' ∉ back.reverse := by simpa using free
  have stop : ∀ c ∈ (Uri.ended part '@').reverse.head?, decide (c ≠ '@') = false := by
    cases part <;> simp [Uri.ended]
  obtain ⟨taken, -⟩ := takeWhile_stopped _ (ne_of_not_mem reversed) stop
  rw [hostinfo, List.rtakeWhile, List.reverse_append, taken, List.reverse_reverse]

/-! ## The letters of a URI -/

theorem not_mem_begun {start c : Char} (other : c ≠ start) {part : Option (List Char)}
    (free : ∀ text ∈ part, c ∉ text) : c ∉ Uri.begun start part := by
  cases part with
  | none => exact List.not_mem_nil
  | some text => exact List.not_mem_cons_of_ne_of_not_mem other (free text rfl)

/-! ## Absolute URIs -/

theorem sanitize_text (uri : Absolute) : sanitize uri.text = uri.text := by
  have printable : ∀ c ∈ uri.text, 0x20 < c.toNat := fun c member =>
    (printable_of_uriChar (uri.uriChar c member)).1
  have kept : (uri.text.dropWhile fun c => c.toNat ≤ 0x20) = uri.text := by
    rw [List.dropWhile_eq_self_iff]
    intro nonempty blank
    have first := printable _ (List.getElem_mem nonempty)
    have low := of_decide_eq_true blank
    omega
  rw [sanitize, kept, List.filter_eq_self]
  intro c member
  have first := printable c member
  refine decide_eq_true ?_
  simp only [List.mem_cons, List.not_mem_nil, or_false]
  rintro (rfl | rfl | rfl) <;> exact absurd first (by decide)

theorem splitScheme_text (uri : Absolute) :
    splitScheme uri.text = (uri.scheme.map Char.toLower, uri.rest) := by
  have free : ':' ∉ uri.scheme := not_mem_of_letters uri.scheme_letters (by decide)
  have split : cut ':' uri.text = (uri.scheme, uri.rest) := cut_append free uri.rest
  have colon : ':' ∈ uri.text := by simp [Absolute.text]
  obtain ⟨c, first, letter⟩ := uri.scheme_head
  have head : uri.scheme.head?.any Char.isAlpha = true := by
    rw [Option.mem_def.mp first]
    exact letter
  have all : uri.scheme.all isSchemeChar = true := List.all_eq_true.mpr uri.scheme_letters
  rw [splitScheme, split]
  exact if_pos ⟨colon, head, all⟩

theorem splitNetloc_rest (uri : Absolute) : splitNetloc uri.rest = (uri.netloc, uri.tail) := by
  unfold Absolute.rest Absolute.netloc
  cases present : uri.authority with
  | some authority =>
    obtain ⟨taken, dropped⟩ := authority.stopped present
    show splitNetloc ('/' :: '/' :: (authority.text ++ uri.tail)) = _
    rw [splitNetloc, if_pos (by rfl)]
    exact Prod.ext taken dropped
  | none =>
    show splitNetloc uri.tail = ([], uri.tail)
    refine if_neg ?_
    rw [List.isPrefixOf_iff_prefix]
    exact uri.tail_rootless present

theorem cut_fragment (uri : Absolute) : cut '#' uri.tail = (uri.tail, []) := by
  apply cut_of_not_mem
  rw [Absolute.tail, List.mem_append, not_or]
  refine ⟨not_mem_of_letters uri.path_letters (by decide), not_mem_begun (by decide) ?_⟩
  exact fun text present => not_mem_of_letters (uri.query_letters text present) (by decide)

theorem cut_query (uri : Absolute) : cut '?' uri.tail = (uri.path, uri.query.getD []) :=
  cut_begun (not_mem_of_letters uri.path_letters (by decide)) uri.query

theorem checkNetloc_text (unicode : Unicode) (uri : Absolute) :
    checkNetloc unicode uri.netloc = .ok () := by
  refine if_pos (.inl (List.all_eq_true.mpr fun c member => decide_eq_true ?_))
  unfold Absolute.netloc at member
  cases present : uri.authority with
  | none =>
    rw [present] at member
    cases member
  | some authority =>
    rw [present] at member
    exact (printable_of_uriChar (authority.uriChar c member)).2

theorem urlsplit_text (unicode : Unicode) (uri : Absolute) :
    urlsplit unicode uri.text = (checkBrackets uri.netloc).map fun _ =>
      ⟨uri.scheme.map Char.toLower, uri.netloc, uri.path, uri.query.getD [], []⟩ := by
  rw [urlsplit, sanitize_text, splitScheme_text]
  dsimp only
  rw [splitNetloc_rest]
  dsimp only
  rw [cut_fragment]
  dsimp only
  rw [cut_query, checkNetloc_text]
  cases checkBrackets uri.netloc <;> rfl

def folded (host : Host) : List Char :=
  (cut '%' host.bare).1.map Char.toLower ++ host.bare.dropWhile (· ≠ '%')

theorem not_mem_authority_end (authority : Authority) :
    '@' ∉ authority.host.text ++ begun ':' authority.port := by
  rw [List.mem_append, not_or]
  constructor
  · cases authority.host with
    | name text letters => exact not_mem_of_letters letters (by decide)
    | literal text letters =>
      have inside : '@' ∉ text := not_mem_of_letters letters (by decide)
      simpa [Host.text] using inside
  · refine not_mem_begun (by decide) fun text present => ?_
    exact not_mem_of_letters (authority.port_digits text present) (by decide)

theorem hostname_text (unicode : Unicode) (authority : Authority) :
    hostname unicode authority.text =
      if authority.host.bare = [] then none else some (folded authority.host) := by
  have info : hostinfo authority.text = authority.host.text ++ begun ':' authority.port :=
    hostinfo_ended (not_mem_authority_end authority) authority.userinfo
  have found : (if '[' ∈ hostinfo authority.text then
      (cut ']' (cut '[' (hostinfo authority.text)).2).1
        else (cut ':' (hostinfo authority.text)).1) = authority.host.bare := by
    rw [info]
    cases authority.host with
    | name text letters =>
      have closed : '[' ∉ (Host.name text letters).text ++ begun ':' authority.port := by
        rw [List.mem_append, not_or]
        refine ⟨not_mem_of_letters letters (by decide), not_mem_begun (by decide) ?_⟩
        exact fun text present =>
          not_mem_of_letters (authority.port_digits text present) (by decide)
      have free : ':' ∉ text := not_mem_of_letters letters (by decide)
      rw [if_neg closed, Host.text, cut_begun free]
      rfl
    | literal text letters =>
      have free : ']' ∉ text := not_mem_of_letters letters (by decide)
      have opened : cut '[' ((Host.literal text letters).text ++ begun ':' authority.port) =
          ([], text ++ ']' :: begun ':' authority.port) := by
        have split : cut '[' ([] ++ '[' :: (text ++ ']' :: begun ':' authority.port)) =
            ([], text ++ ']' :: begun ':' authority.port) := cut_append List.not_mem_nil _
        simpa [Host.text] using split
      rw [if_pos (by simp [Host.text]), opened]
      dsimp only
      rw [cut_append free]
      rfl
  have ascii : ∀ c ∈ (cut '%' authority.host.bare).1, c.toNat < 128 := by
    intro c member
    have inside : c ∈ authority.host.bare := (List.takeWhile_prefix _).subset member
    refine (printable_of_uriChar ?_).2
    cases host : authority.host with
    | name text letters =>
      rw [host] at inside
      exact uriChar_of_regName (letters c inside)
    | literal text letters =>
      rw [host] at inside
      exact uriChar_of_literal (letters c inside)
  unfold hostname
  rw [found]
  dsimp only
  rw [unicode.lower_ascii _ ascii]
  rfl

theorem hostname_nil (unicode : Unicode) : hostname unicode [] = none := rfl

/-! ## Parameters -/

theorem mem_keys_parseQs (qs name : List Char) :
    name ∈ (parseQs qs).keys ↔ ∃ value, (name, value) ∈ parseQsl false qs := by
  have collected (pairs : List (List Char × List Char))
      (parsed : OrderedDict (List Char) (List (List Char))) :
      name ∈ (pairs.foldl (fun parsed pair =>
        parsed.set pair.1 ((parsed.get? pair.1).getD [] ++ [pair.2])) parsed).keys ↔
        name ∈ parsed.keys ∨ ∃ value, (name, value) ∈ pairs := by
    induction pairs generalizing parsed with
    | nil => simp
    | cons pair pairs ih =>
      rw [List.foldl_cons, ih, OrderedDict.mem_keys_set]
      simp only [List.mem_cons, Prod.ext_iff, exists_or]
      constructor
      · rintro ((rfl | known) | later)
        · exact .inr (.inl ⟨pair.2, rfl, rfl⟩)
        · exact .inl known
        · exact .inr (.inr later)
      · rintro (known | ⟨value, rfl, -⟩ | later)
        · exact .inl (.inr known)
        · exact .inl (.inl rfl)
        · exact .inr later
  have none : name ∉ (OrderedDict.empty : OrderedDict (List Char) (List (List Char))).keys :=
    List.not_mem_nil
  rw [parseQs, collected, or_iff_right none]

/-! ## Quoting -/

def hexDigit (n : Nat) : Char :=
  "0123456789ABCDEF".toList.getD n '0'

def quoteByte (byte : UInt8) : List Char :=
  let c := Char.ofNat byte.toNat
  if c.isAlphanum ∨ c ∈ ['_', '.', '-', '~', '/'] then [c]
  else ['%', hexDigit (byte.toNat / 16), hexDigit (byte.toNat % 16)]

def quote (s : String) : List Char :=
  (encodeUtf8 s).flatMap quoteByte

end Python.Url
