import Mathlib.Data.List.TakeWhile

/-!
# Absolute URIs

RFC 3986, section 4.3: a scheme, an authority and a path, and a query. A part has the letters that
the grammar lets it have; the digits after a percent sign and the address in brackets are not
looked at further, so that every absolute URI is one of these and a few other texts are too.
-/

namespace Uri

def isUnreserved (c : Char) : Bool :=
  c.isAlphanum || c == '-' || c == '.' || c == '_' || c == '~'

def isSubDelim (c : Char) : Bool :=
  c ∈ ['!', '$', '&', '\'', '(', ')', '*', '+', ',', ';', '=']

def isRegNameChar (c : Char) : Bool :=
  isUnreserved c || isSubDelim c || c == '%'

def isUserinfoChar (c : Char) : Bool :=
  isRegNameChar c || c == ':'

def isLiteralChar (c : Char) : Bool :=
  isUnreserved c || isSubDelim c || c == ':'

def isPathChar (c : Char) : Bool :=
  isRegNameChar c || c == ':' || c == '@' || c == '/'

def isQueryChar (c : Char) : Bool :=
  isPathChar c || c == '?'

def isSchemeChar (c : Char) : Bool :=
  c.isAlphanum || c == '+' || c == '-' || c == '.'

def isDelimiter (c : Char) : Bool :=
  c == '/' || c == '?' || c == '#'

inductive Host
  | name (text : List Char) (letters : ∀ c ∈ text, isRegNameChar c = true)
  | literal (text : List Char) (letters : ∀ c ∈ text, isLiteralChar c = true)

def Host.text : Host → List Char
  | name text _ => text
  | literal text _ => '[' :: text ++ [']']

def Host.bare : Host → List Char
  | name text _ => text
  | literal text _ => text

structure Authority where
  userinfo : Option (List Char)
  host : Host
  port : Option (List Char)
  userinfo_letters : ∀ text ∈ userinfo, ∀ c ∈ text, isUserinfoChar c = true
  port_digits : ∀ text ∈ port, ∀ c ∈ text, c.isDigit = true

def ended (part : Option (List Char)) (stop : Char) : List Char :=
  match part with
  | some text => text ++ [stop]
  | none => []

def begun (start : Char) (part : Option (List Char)) : List Char :=
  match part with
  | some text => start :: text
  | none => []

def Authority.text (authority : Authority) : List Char :=
  ended authority.userinfo '@' ++ (authority.host.text ++ begun ':' authority.port)

structure Absolute where
  scheme : List Char
  authority : Option Authority
  path : List Char
  query : Option (List Char)
  scheme_head : ∃ c ∈ scheme.head?, c.isAlpha = true
  scheme_letters : ∀ c ∈ scheme, isSchemeChar c = true
  path_letters : ∀ c ∈ path, isPathChar c = true
  path_rooted : authority.isSome = true → path ≠ [] → path.head? = some '/'
  path_rootless : authority = none → ¬ ['/', '/'] <+: path
  query_letters : ∀ text ∈ query, ∀ c ∈ text, isQueryChar c = true

def Absolute.netloc (uri : Absolute) : List Char :=
  match uri.authority with
  | some authority => authority.text
  | none => []

def Absolute.tail (uri : Absolute) : List Char :=
  uri.path ++ begun '?' uri.query

def Absolute.rest (uri : Absolute) : List Char :=
  match uri.authority with
  | some authority => '/' :: '/' :: (authority.text ++ uri.tail)
  | none => uri.tail

def Absolute.text (uri : Absolute) : List Char :=
  uri.scheme ++ ':' :: uri.rest

/-! ## Letters -/

theorem printable_of_alphanum {c : Char} (letter : c.isAlphanum = true) :
    0x20 < c.toNat ∧ c.toNat < 128 := by
  delta Char.isAlphanum Char.isAlpha Char.isUpper Char.isLower Char.isDigit at letter
  simp only [Bool.or_eq_true, Bool.and_eq_true, decide_eq_true_eq, ge_iff_le,
    UInt32.le_iff_toNat_le] at letter
  have digits : '0'.val.toNat = 48 ∧ '9'.val.toNat = 57 := ⟨rfl, rfl⟩
  have upper : 'A'.val.toNat = 65 ∧ 'Z'.val.toNat = 90 := ⟨rfl, rfl⟩
  have lower : 'a'.val.toNat = 97 ∧ 'z'.val.toNat = 122 := ⟨rfl, rfl⟩
  have whole : c.toNat = c.val.toNat := rfl
  omega

theorem printable_of_unreserved {c : Char} (letter : isUnreserved c = true) :
    0x20 < c.toNat ∧ c.toNat < 128 := by
  simp only [isUnreserved, Bool.or_eq_true, beq_iff_eq] at letter
  obtain (((letter | rfl) | rfl) | rfl) | rfl := letter
  · exact printable_of_alphanum letter
  all_goals decide

theorem printable_of_subDelim {c : Char} (letter : isSubDelim c = true) :
    0x20 < c.toNat ∧ c.toNat < 128 := by
  simp only [isSubDelim, List.mem_cons, List.not_mem_nil, or_false, decide_eq_true_eq] at letter
  rcases letter with rfl | rfl | rfl | rfl | rfl | rfl | rfl | rfl | rfl | rfl | rfl <;> decide

def isUriChar (c : Char) : Bool :=
  isQueryChar c || c == '[' || c == ']'

theorem printable_of_uriChar {c : Char} (letter : isUriChar c = true) :
    0x20 < c.toNat ∧ c.toNat < 128 := by
  simp only [isUriChar, isQueryChar, isPathChar, isRegNameChar, Bool.or_eq_true, beq_iff_eq]
    at letter
  obtain ((((((((letter | letter) | rfl) | rfl) | rfl) | rfl) | rfl) | rfl) | rfl) := letter
  · exact printable_of_unreserved letter
  · exact printable_of_subDelim letter
  all_goals decide

theorem uriChar_of_path {c : Char} (letter : isPathChar c = true) : isUriChar c = true := by
  simp [isUriChar, isQueryChar, letter]

theorem uriChar_of_query {c : Char} (letter : isQueryChar c = true) : isUriChar c = true := by
  simp [isUriChar, letter]

theorem uriChar_of_regName {c : Char} (letter : isRegNameChar c = true) : isUriChar c = true := by
  simp [isUriChar, isQueryChar, isPathChar, letter]

theorem uriChar_of_userinfo {c : Char} (letter : isUserinfoChar c = true) :
    isUriChar c = true := by
  simp only [isUserinfoChar, Bool.or_eq_true, beq_iff_eq] at letter
  obtain letter | rfl := letter
  · exact uriChar_of_regName letter
  · decide

theorem uriChar_of_alphanum {c : Char} (letter : c.isAlphanum = true) : isUriChar c = true := by
  simp [isUriChar, isQueryChar, isPathChar, isRegNameChar, isUnreserved, letter]

theorem uriChar_of_literal {c : Char} (letter : isLiteralChar c = true) : isUriChar c = true := by
  simp only [isLiteralChar, Bool.or_eq_true, beq_iff_eq] at letter
  obtain (letter | letter) | rfl := letter
  · exact uriChar_of_regName (by simp [isRegNameChar, letter])
  · exact uriChar_of_regName (by simp [isRegNameChar, letter])
  · decide

theorem uriChar_of_scheme {c : Char} (letter : isSchemeChar c = true) : isUriChar c = true := by
  simp only [isSchemeChar, Bool.or_eq_true, beq_iff_eq] at letter
  obtain ((letter | rfl) | rfl) | rfl := letter
  · exact uriChar_of_alphanum letter
  all_goals decide

theorem uriChar_begun {start : Char} (printable : isUriChar start = true)
    {part : Option (List Char)} (letters : ∀ text ∈ part, ∀ c ∈ text, isUriChar c = true) :
    ∀ c ∈ begun start part, isUriChar c = true := by
  cases part with
  | none => simp [begun]
  | some text => exact List.forall_mem_cons.mpr ⟨printable, letters text rfl⟩

theorem uriChar_ended {stop : Char} (printable : isUriChar stop = true)
    {part : Option (List Char)} (letters : ∀ text ∈ part, ∀ c ∈ text, isUriChar c = true) :
    ∀ c ∈ ended part stop, isUriChar c = true := by
  cases part with
  | none => simp [ended]
  | some text =>
    exact List.forall_mem_append.mpr ⟨letters text rfl, List.forall_mem_singleton.mpr printable⟩

theorem Host.uriChar (host : Host) : ∀ c ∈ host.text, isUriChar c = true := by
  cases host with
  | name text letters => exact fun c member => uriChar_of_regName (letters c member)
  | literal text letters =>
    refine List.forall_mem_append.mpr ⟨List.forall_mem_cons.mpr ⟨by decide, ?_⟩, ?_⟩
    · exact fun c member => uriChar_of_literal (letters c member)
    · exact List.forall_mem_singleton.mpr (by decide)

theorem Authority.uriChar (authority : Authority) :
    ∀ c ∈ authority.text, isUriChar c = true := by
  refine List.forall_mem_append.mpr ⟨?_, List.forall_mem_append.mpr ⟨authority.host.uriChar, ?_⟩⟩
  · refine uriChar_ended (by decide) fun text present c member => ?_
    exact uriChar_of_userinfo (authority.userinfo_letters text present c member)
  · refine uriChar_begun (by decide) fun text present c member => ?_
    have digit := authority.port_digits text present c member
    exact uriChar_of_alphanum (by simp [Char.isAlphanum, digit])

theorem Absolute.uriChar (uri : Absolute) : ∀ c ∈ uri.text, isUriChar c = true := by
  have tail : ∀ c ∈ uri.path ++ begun '?' uri.query, isUriChar c = true := by
    refine List.forall_mem_append.mpr ⟨fun c member => uriChar_of_path (uri.path_letters c member),
      uriChar_begun (by decide) fun text present c member => ?_⟩
    exact uriChar_of_query (uri.query_letters text present c member)
  refine List.forall_mem_append.mpr ⟨fun c member => ?_, List.forall_mem_cons.mpr ⟨by decide, ?_⟩⟩
  · exact uriChar_of_scheme (uri.scheme_letters c member)
  · rw [Absolute.rest]
    cases uri.authority with
    | none => exact tail
    | some authority =>
      refine List.forall_mem_cons.mpr ⟨by decide, List.forall_mem_cons.mpr ⟨by decide, ?_⟩⟩
      exact List.forall_mem_append.mpr ⟨authority.uriChar, tail⟩

theorem not_mem_of_letters {p : Char → Bool} {s : List Char} (letters : ∀ c ∈ s, p c = true)
    {c : Char} (other : p c = false) : c ∉ s := by
  intro member
  rw [letters c member] at other
  cases other

theorem not_delimiter_of_userinfo {c : Char} (letter : isUserinfoChar c = true) :
    isDelimiter c = false := by
  rw [Bool.eq_false_iff]
  intro delimiter
  simp only [isDelimiter, Bool.or_eq_true, beq_iff_eq] at delimiter
  obtain (rfl | rfl) | rfl := delimiter <;> exact absurd letter (by decide)

theorem userinfo_of_literal {c : Char} (letter : isLiteralChar c = true) :
    isUserinfoChar c = true := by
  simp only [isLiteralChar, Bool.or_eq_true] at letter
  obtain (letter | letter) | letter := letter <;> simp [isUserinfoChar, isRegNameChar, letter]

theorem not_delimiter (authority : Authority) : ∀ c ∈ authority.text, isDelimiter c = false := by
  have begins : ∀ c ∈ authority.host.text, isDelimiter c = false := by
    cases authority.host with
    | name text letters =>
      intro c member
      exact not_delimiter_of_userinfo (by simp [isUserinfoChar, letters c member])
    | literal text letters =>
      refine List.forall_mem_append.mpr ⟨List.forall_mem_cons.mpr ⟨by decide, ?_⟩, ?_⟩
      · exact fun c member =>
          not_delimiter_of_userinfo (userinfo_of_literal (letters c member))
      · exact List.forall_mem_singleton.mpr (by decide)
  refine List.forall_mem_append.mpr ⟨?_, List.forall_mem_append.mpr ⟨begins, ?_⟩⟩
  · intro c member
    cases present : authority.userinfo with
    | none =>
      rw [present] at member
      cases member
    | some text =>
      rw [present, ended, List.mem_append, List.mem_singleton] at member
      obtain letter | rfl := member
      · exact not_delimiter_of_userinfo (authority.userinfo_letters text present c letter)
      · decide
  · intro c member
    cases present : authority.port with
    | none =>
      rw [present] at member
      cases member
    | some text =>
      rw [present, begun, List.mem_cons] at member
      obtain rfl | digit := member
      · decide
      · have number := authority.port_digits text present c digit
        apply not_delimiter_of_userinfo
        simp [isUserinfoChar, isRegNameChar, isUnreserved, Char.isAlphanum, number]

theorem Absolute.stops (uri : Absolute) (rooted : uri.authority.isSome = true) :
    ∀ c ∈ uri.tail.head?, isDelimiter c = true := by
  intro c first
  rw [Absolute.tail] at first
  by_cases empty : uri.path = []
  · rw [empty, List.nil_append] at first
    cases asked : uri.query with
    | none =>
      rw [asked] at first
      cases first
    | some query =>
      rw [asked] at first
      cases first
      decide
  · rw [List.head?_append, uri.path_rooted rooted empty] at first
    cases first
    decide

theorem Absolute.tail_rootless (uri : Absolute) (absent : uri.authority = none) :
    ¬ ['/', '/'] <+: uri.tail := by
  have rootless := uri.path_rootless absent
  rw [Absolute.tail]
  match whole : uri.path with
  | [] => cases uri.query <;> simp [begun]
  | [c] => cases uri.query <;> simp [begun]
  | c :: c' :: path =>
    rw [whole] at rootless
    simpa using rootless

/-! ## Cutting a text -/

theorem takeWhile_stopped {p : Char → Bool} {front : List Char} (back : List Char)
    (all : ∀ c ∈ front, p c = true) (stop : ∀ c ∈ back.head?, p c = false) :
    (front ++ back).takeWhile p = front ∧ (front ++ back).dropWhile p = back := by
  rw [List.takeWhile_append_of_pos all, List.dropWhile_append_of_pos all]
  cases back with
  | nil => simp
  | cons c back =>
    have stopped : ¬ p c = true := by
      rw [stop c rfl]
      decide
    rw [List.takeWhile_cons_of_neg stopped, List.dropWhile_cons_of_neg stopped]
    simp

theorem Authority.stopped {uri : Absolute} (authority : Authority)
    (present : uri.authority = some authority) :
    (authority.text ++ uri.tail).takeWhile (!isDelimiter ·) = authority.text ∧
      (authority.text ++ uri.tail).dropWhile (!isDelimiter ·) = uri.tail := by
  apply takeWhile_stopped uri.tail
  · intro c member
    rw [not_delimiter authority c member]
    rfl
  · intro c first
    rw [uri.stops (by rw [present]; rfl) c first]
    rfl

/-! ## The parts of any text

The expression of appendix B, which is what a text that may not be a URI is split by. -/

def endsScheme (c : Char) : Bool :=
  isDelimiter c || c == ':'

def afterScheme (s : List Char) : List Char :=
  match s.dropWhile (!endsScheme ·) with
  | ':' :: rest => if s.takeWhile (!endsScheme ·) = [] then s else rest
  | _ => s

def afterAuthority (s : List Char) : List Char :=
  match afterScheme s with
  | '/' :: '/' :: rest => rest.dropWhile (!isDelimiter ·)
  | rest => rest

def endsPath (c : Char) : Bool :=
  c == '?' || c == '#'

def path (s : List Char) : List Char :=
  (afterAuthority s).takeWhile (!endsPath ·)

def query (s : List Char) : List Char :=
  match (afterAuthority s).dropWhile (!endsPath ·) with
  | '?' :: rest => rest.takeWhile (· ≠ '#')
  | _ => []

end Uri
