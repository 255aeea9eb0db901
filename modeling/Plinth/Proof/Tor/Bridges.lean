import Plinth.Model.Tor

/-! # Which bridges are valid -/

namespace Plinth.Tor

open Effect Python Exception Integer

variable {v : Validators} {address port part : List Char}

/-! ## The form of a bridge -/

structure IsPort (port : List Char) : Prop where
  nonempty : port ≠ []
  digits : ∀ c ∈ port, c.isDigit = true
  small : decimal port ≤ 65535

/-- `IP:ORPort` -/
inductive HasPort (v : Validators) : List Char → Prop
  | ipv4 (address port : List Char) (valid : v.ipv4 address = true) (isPort : IsPort port) :
      HasPort v (address ++ ':' :: port)
  | ipv6 (address port : List Char) (valid : v.ipv6 address = true) (isPort : IsPort port) :
      HasPort v ('[' :: address ++ ']' :: ':' :: port)

def PortOrNone (rest : List Char) : Prop :=
  rest = [] ∨ ∃ port, rest = ':' :: port ∧ IsPort port

/-- `IP[:ORPort]` -/
inductive IsAddress (v : Validators) : List Char → Prop
  | ipv4 (address rest : List Char) (valid : v.ipv4 address = true) (port : PortOrNone rest) :
      IsAddress v (address ++ rest)
  | ipv6 (address rest : List Char) (valid : v.ipv6 address = true) (port : PortOrNone rest) :
      IsAddress v ('[' :: address ++ ']' :: rest)

def IsTransport (transport : List Char) : Prop :=
  transport.head?.any isLowerOrUnderscore ∧
    ∀ c ∈ transport, isLowerOrUnderscore c = true ∨ c.isDigit = true

inductive IsBridge (form : List Char → Prop) : List (List Char) → Prop
  | direct (address : List Char) (rest : List (List Char)) (isAddress : form address) :
      IsBridge form (address :: rest)
  | transport (transport address : List Char) (rest : List (List Char))
      (isTransport : IsTransport transport) (isAddress : form address) :
      IsBridge form (transport :: address :: rest)

/-! ## Where the validator goes by something else -/

/-- `int` reads a port number. -/
def Readable (v : Validators) (port : List Char) : Prop :=
  ∃ n, int v.digits port = .ok n ∧ 0 ≤ n ∧ n ≤ 65535

inductive Loose (v : Validators) : List Char → Prop
  | emptyPort (address : List Char) (valid : isIpv46 v address = true) : Loose v (address ++ [':'])
  | otherNumber (address port : List Char) (valid : v.ipv4 address = true) (last : ':' ∉ port)
      (nonempty : port ≠ []) (other : ¬ ∀ c ∈ port, c.isDigit = true) (readable : Readable v port) :
      Loose v (address ++ ':' :: port)
  | bareIpv6 (address port : List Char) (valid : v.ipv6 address = true) (last : ':' ∉ port)
      (nonempty : port ≠ []) (readable : Readable v port) : Loose v (address ++ ':' :: port)
  /-- something else than a port after the brackets, or something more -/
  | afterBrackets (address rest : List Char) (valid : v.ipv6 address = true)
      (plain : ∀ c ∈ address, isHexColon c = true)
      (other : ¬ PortOrNone rest)
      (readable : portGroup rest = [] ∨ Readable v (portGroup rest)) :
      Loose v ('[' :: address ++ ']' :: rest)

inductive Unreadable (v : Validators) : List Char → Prop
  | port (address port : List Char) (valid : isIpv46 v address = true) (last : ':' ∉ port)
      (nonempty : port ≠ []) (e : Exception) (raises : int v.digits port = .error e) :
      Unreadable v (address ++ ':' :: port)
  | afterBrackets (address rest : List Char) (valid : v.ipv6 address = true)
      (plain : ∀ c ∈ address, isHexColon c = true) (long : maxDigits < (portGroup rest).length) :
      Unreadable v ('[' :: address ++ ']' :: rest)

inductive Mixed (v : Validators) : List Char → Prop
  | mk (address rest : List Char) (valid : v.ipv6 address = true) (port : PortOrNone rest)
      (mixed : ¬ ∀ c ∈ address, isHexColon c = true) :
      Mixed v ('[' :: address ++ ']' :: rest)

/-! ## Taking a part apart -/

theorem not_ipv4_of_mem {c : Char} (inside : c ∈ address) (digit : c.isDigit = false)
    (dot : c ≠ '.') : v.ipv4 address = false := by
  rw [← Bool.not_eq_true]
  intro valid
  rcases (v.ipv4_chars address valid).2 c inside with isDigit | isDot
  · rw [digit] at isDigit
    cases isDigit
  · exact dot isDot

theorem isIpv46_cons_bracket (rest : List Char) : isIpv46 v ('[' :: rest) = false := by
  have ipv4 : v.ipv4 ('[' :: rest) = false :=
    not_ipv4_of_mem List.mem_cons_self (by decide) (by decide)
  rw [isIpv46, ipv4, Bool.false_or, ← Bool.not_eq_true]
  intro valid
  have first := (v.ipv6_chars _ valid).2 '[' (by simp)
  revert first
  decide

theorem rsplitColon_append (last : ':' ∉ port) :
    rsplitColon (address ++ ':' :: port) = (address, port) := by
  have free : ':' ∉ [] ++ port := last
  have found : Text.rfind [':'] (address ++ ':' :: port) = some address.length :=
    Text.rfind_append address free
  unfold rsplitColon
  rw [found]
  simp

theorem rsplitColon_of_none (none : ':' ∉ part) : rsplitColon part = (part, []) := by
  unfold rsplitColon
  rw [Text.rfind_none rfl none]

theorem bracketGroups_of_valid (valid : isIpv46 v address = true) (rest : List Char) :
    bracketGroups (address ++ rest) = none := by
  cases address with
  | nil =>
    rw [isIpv46, Bool.or_eq_true] at valid
    rcases valid with ipv4 | ipv6
    · cases (v.ipv4_chars [] ipv4).1
    · cases (v.ipv6_chars [] ipv6).1
  | cons c address =>
    by_cases bracket : c = '['
    · rw [bracket, isIpv46_cons_bracket] at valid
      cases valid
    · rw [List.cons_append, bracketGroups]
      intro rest same
      exact bracket (List.cons.inj same).1

theorem addressAndPort_of_valid (valid : isIpv46 v address = true) (last : ':' ∉ port) :
    addressAndPort (address ++ ':' :: port) = (address, port) := by
  rw [addressAndPort, bracketGroups_of_valid valid, Option.getD_none, rsplitColon_append last]

theorem addressAndPort_of_ipv4 (valid : v.ipv4 address = true) :
    addressAndPort address = (address, []) := by
  have isIp : isIpv46 v address = true := by rw [isIpv46, valid, Bool.true_or]
  have none : ':' ∉ address := by
    intro inside
    rw [not_ipv4_of_mem inside (by decide) (by decide)] at valid
    cases valid
  have groups := bracketGroups_of_valid isIp []
  rw [List.append_nil] at groups
  rw [addressAndPort, groups, Option.getD_none, rsplitColon_of_none none]

theorem bracketGroups_append (nonempty : address ≠ [])
    (plain : ∀ c ∈ address, isHexColon c = true) (rest : List Char) :
    bracketGroups ('[' :: address ++ ']' :: rest) = some (address, portGroup rest) := by
  have stop : isHexColon ']' = false := by decide
  have taken : (address ++ ']' :: rest).takeWhile isHexColon = address := by
    rw [List.takeWhile_append_of_pos plain, List.takeWhile_cons_of_neg (by simp [stop]),
      List.append_nil]
  have dropped : (address ++ ']' :: rest).dropWhile isHexColon = ']' :: rest := by
    rw [List.dropWhile_append_of_pos plain, List.dropWhile_cons_of_neg (by simp [stop])]
  rw [List.cons_append, bracketGroups, dropped, taken]
  exact if_neg nonempty

theorem exists_first_not {p : Char → Bool} {s : List Char} (some_not : ¬ ∀ c ∈ s, p c = true) :
    ∃ before c after, s = before ++ c :: after ∧ (∀ d ∈ before, p d = true) ∧ p c = false := by
  induction s with
  | nil => exact absurd (List.forall_mem_nil _) some_not
  | cons c s ih =>
    by_cases first : p c = true
    · rw [List.forall_mem_cons, not_and] at some_not
      obtain ⟨before, d, after, rfl, all, stops⟩ := ih (some_not first)
      exact ⟨c :: before, d, after, rfl, List.forall_mem_cons.mpr ⟨first, all⟩, stops⟩
    · exact ⟨[], c, s, rfl, List.forall_mem_nil _, Bool.not_eq_true _ ▸ first⟩

theorem bracketGroups_of_mixed (valid : v.ipv6 address = true)
    (mixed : ¬ ∀ c ∈ address, isHexColon c = true) (rest : List Char) :
    bracketGroups ('[' :: address ++ rest) = none := by
  obtain ⟨before, c, after, rfl, all, stops⟩ := exists_first_not mixed
  have other : c ≠ ']' := by
    rintro rfl
    have noPercent : ∀ d ∈ before, decide (d ≠ '%') = true := by
      intro d member
      apply decide_eq_true
      rintro rfl
      exact absurd (all _ member) (by decide)
    have inside : ']' ∈ (before ++ ']' :: after).takeWhile (· ≠ '%') := by
      rw [List.takeWhile_append_of_pos noPercent]
      simp
    rcases (v.ipv6_chars _ valid).2 _ inside with hex | colon | dot
    · revert hex
      decide
    · revert colon
      decide
    · revert dot
      decide
  have dropped : (before ++ c :: after ++ rest).dropWhile isHexColon = c :: (after ++ rest) := by
    rw [List.append_assoc, List.dropWhile_append_of_pos all, List.cons_append,
      List.dropWhile_cons_of_neg (by simp [stops])]
  rw [List.cons_append, bracketGroups, dropped]
  split
  · rename_i same
    exact absurd (List.cons.inj same).1 other
  · rfl

inductive Taken : List Char → List Char → List Char → Prop
  | brackets (address rest : List Char) (nonempty : address ≠ [])
      (plain : ∀ c ∈ address, isHexColon c = true) :
      Taken ('[' :: address ++ ']' :: rest) address (portGroup rest)
  | colon (address port : List Char) (last : ':' ∉ port) :
      Taken (address ++ ':' :: port) address port
  | whole (part : List Char) (none : ':' ∉ part) : Taken part part []

theorem taken_rsplitColon (part : List Char) :
    Taken part (rsplitColon part).1 (rsplitColon part).2 := by
  by_cases colon : ':' ∈ part
  · obtain ⟨address, port, rfl, last⟩ : ∃ address port, part = address ++ ':' :: port ∧
        ':' ∉ port := by
      obtain ⟨after, before, same, last⟩ :=
        List.eq_append_cons_of_mem (List.mem_reverse.mpr colon)
      refine ⟨before.reverse, after.reverse, ?_, by simpa using last⟩
      rw [← part.reverse_reverse, same]
      simp
    rw [rsplitColon_append last]
    exact .colon address port last
  · rw [rsplitColon_of_none colon]
    exact .whole part colon

theorem taken_addressAndPort (part : List Char) :
    Taken part (addressAndPort part).1 (addressAndPort part).2 := by
  unfold addressAndPort
  cases groups : bracketGroups part with
  | none => exact taken_rsplitColon part
  | some found =>
    unfold bracketGroups at groups
    split at groups
    · rename_i s
      split at groups
      · rename_i rest dropped
        split at groups
        · cases groups
        · rename_i nonempty
          cases groups
          have whole : s = s.takeWhile isHexColon ++ ']' :: rest := by
            rw [← dropped, List.takeWhile_append_dropWhile]
          have groups := Taken.brackets (s.takeWhile isHexColon) rest nonempty
            fun c member => List.mem_takeWhile_imp member
          rwa [List.cons_append, ← whole] at groups
      · cases groups
    · cases groups

theorem cons_bracket_of_taken {s : List Char} (groups : bracketGroups ('[' :: s) = none)
    (taken : Taken ('[' :: s) address port) : ∃ tail, address = '[' :: tail := by
  generalize whole : '[' :: s = part at taken groups
  cases taken with
  | brackets address rest nonempty plain =>
    rw [bracketGroups_append nonempty plain] at groups
    cases groups
  | colon address port last =>
    cases address with
    | nil => simp at whole
    | cons c address =>
      rw [List.cons_append, List.cons.injEq] at whole
      exact ⟨address, by rw [whole.1]⟩
  | whole part none => exact ⟨s, whole.symm⟩

/-! ## What is accepted -/

theorem checkPort_ok_iff : checkPort v port = .ok () ↔ port = [] ∨ Readable v port := by
  unfold checkPort Readable
  by_cases empty : port = []
  · simp [empty]
  · rw [if_neg empty, or_iff_right empty]
    cases read : int v.digits port with
    | error e => exact iff_of_false (fun h => by cases h) (by simp)
    | ok n =>
      by_cases outside : n < 0 ∨ 65535 < n
      · refine iff_of_false (fun h => ?_) ?_
        · change (if n < 0 ∨ 65535 < n then Except.error ValidationError else .ok ()) = .ok () at h
          rw [if_pos outside] at h
          cases h
        · rintro ⟨_, same, low, high⟩
          cases same
          omega
      · refine iff_of_true (bind_of_ok rfl (if_neg outside)) ⟨n, rfl, ?_, ?_⟩ <;> omega

theorem checkPort_error {e : Exception} (h : checkPort v port = .error e) :
    e = ValidationError ∨ port ≠ [] ∧ int v.digits port = .error e := by
  unfold checkPort at h
  by_cases empty : port = []
  · rw [if_pos empty] at h
    cases h
  · rw [if_neg empty] at h
    rcases error_of_bind h with raised | ⟨n, _, refused⟩
    · exact .inr ⟨empty, raised⟩
    · split at refused
      · cases refused
        exact .inl rfl
      · cases refused

theorem int_of_isPort (isPort : IsPort port) : int v.digits port =
    if maxDigits < port.length then .error intError else .ok (decimal port : Int) :=
  int_of_ascii isPort.nonempty isPort.digits

theorem IsPort.last (isPort : IsPort port) : ':' ∉ port := fun member =>
  absurd rfl (isDigit_ne (isPort.digits _ member) (by decide))

theorem readable_of_isPort (isPort : IsPort port) (short : ¬ maxDigits < port.length) :
    Readable v port := by
  have small := isPort.small
  refine ⟨decimal port, by rw [int_of_isPort isPort, if_neg short], ?_, ?_⟩ <;> omega

theorem takeWhile_isDigit (digits : ∀ c ∈ port, c.isDigit = true) :
    port.takeWhile Char.isDigit = port :=
  List.takeWhile_eq_self_iff.mpr digits

theorem isDigit_of_mem_portGroup {rest : List Char} {c : Char} (member : c ∈ portGroup rest) :
    c.isDigit = true := by
  unfold portGroup at member
  split at member
  · exact List.mem_takeWhile_imp member
  · cases member

theorem portGroup_of_isPort (isPort : IsPort port) : portGroup (':' :: port) = port :=
  takeWhile_isDigit isPort.digits

theorem ne_nil_of_ipv6 (valid : v.ipv6 address = true) : address ≠ [] := by
  rintro rfl
  cases (v.ipv6_chars [] valid).1

theorem isIpv46_of_ipv4 (valid : v.ipv4 address = true) : isIpv46 v address = true := by
  rw [isIpv46, valid, Bool.true_or]

theorem isIpv46_of_ipv6 (valid : v.ipv6 address = true) : isIpv46 v address = true := by
  rw [isIpv46, valid, Bool.or_true]

theorem ipv6_of_plain (valid : isIpv46 v address = true)
    (plain : ∀ c ∈ address, isHexColon c = true) : v.ipv6 address = true := by
  rw [isIpv46, Bool.or_eq_true] at valid
  rcases valid with ipv4 | ipv6
  · exact absurd (plain _ (v.ipv4_chars address ipv4).1) (by decide)
  · exact ipv6

theorem checkAddress_of_taken (taken : addressAndPort part = (address, port))
    (valid : isIpv46 v address = true) : checkAddress v part = checkPort v port := by
  unfold checkAddress
  rw [taken]
  exact if_pos valid

theorem addressAndPort_of_brackets (valid : v.ipv6 address = true)
    (plain : ∀ c ∈ address, isHexColon c = true) (rest : List Char) :
    addressAndPort ('[' :: address ++ ']' :: rest) = (address, portGroup rest) := by
  rw [addressAndPort, bracketGroups_append (ne_nil_of_ipv6 valid) plain, Option.getD_some]

theorem checkAddress_of_mixed (mixed : Mixed v part) :
    checkAddress v part = .error ValidationError := by
  obtain ⟨address, rest, valid, port, mixed⟩ := mixed
  have groups : bracketGroups ('[' :: address ++ ']' :: rest) = none :=
    bracketGroups_of_mixed valid mixed _
  have taken := taken_rsplitColon ('[' :: address ++ ']' :: rest)
  unfold checkAddress
  rw [addressAndPort, groups, Option.getD_none]
  generalize rsplitColon _ = found at taken
  obtain ⟨before, after⟩ := found
  obtain ⟨tail, rfl⟩ := cons_bracket_of_taken groups taken
  exact if_neg (by rw [isIpv46_cons_bracket]; decide)

theorem ne_validationError_of_int {e : Exception} (raises : int v.digits port = .error e) :
    e ≠ ValidationError := by
  rcases int_error raises with rfl | rfl
  · simp [invalidLiteral, ValueError, ValidationError, builtin]
  · simp [intError, ValueError, ValidationError, builtin]

theorem checkAddress_of_unreadable (unreadable : Unreadable v part) :
    ∃ e, checkAddress v part = .error e ∧ e ≠ ValidationError := by
  cases unreadable with
  | port address port valid last nonempty e raises =>
    refine ⟨e, ?_, ne_validationError_of_int raises⟩
    rw [checkAddress_of_taken (addressAndPort_of_valid valid last) valid, checkPort,
      if_neg nonempty]
    exact bind_of_error raises
  | afterBrackets address rest valid plain long =>
    have nonempty : portGroup rest ≠ [] := by
      intro empty
      rw [empty] at long
      cases long
    have digits : ∀ c ∈ portGroup rest, c.isDigit = true := fun c => isDigit_of_mem_portGroup
    have raises : int v.digits (portGroup rest) = .error intError := by
      rw [int_of_ascii nonempty digits, if_pos long]
    refine ⟨intError, ?_, ne_validationError_of_int raises⟩
    rw [checkAddress_of_taken (addressAndPort_of_brackets valid plain rest)
      (isIpv46_of_ipv6 valid), checkPort, if_neg nonempty]
    exact bind_of_error raises

theorem checkAddress_of_loose (loose : Loose v part) : checkAddress v part = .ok () := by
  cases loose with
  | emptyPort address valid =>
    rw [checkAddress_of_taken (addressAndPort_of_valid valid List.not_mem_nil) valid]
    exact checkPort_ok_iff.mpr (.inl rfl)
  | otherNumber address port valid last nonempty other readable =>
    have isIp := isIpv46_of_ipv4 valid
    rw [checkAddress_of_taken (addressAndPort_of_valid isIp last) isIp]
    exact checkPort_ok_iff.mpr (.inr readable)
  | bareIpv6 address port valid last nonempty readable =>
    have isIp := isIpv46_of_ipv6 valid
    rw [checkAddress_of_taken (addressAndPort_of_valid isIp last) isIp]
    exact checkPort_ok_iff.mpr (.inr readable)
  | afterBrackets address rest valid plain other readable =>
    rw [checkAddress_of_taken (addressAndPort_of_brackets valid plain rest)
      (isIpv46_of_ipv6 valid)]
    exact checkPort_ok_iff.mpr readable

theorem checkAddress_of_isAddress (isAddress : IsAddress v part) (plain : ¬ Mixed v part)
    (readable : ¬ Unreadable v part) : checkAddress v part = .ok () := by
  cases isAddress with
  | ipv4 address rest valid port =>
    have isIp := isIpv46_of_ipv4 valid
    rcases port with rfl | ⟨port, rfl, isPort⟩
    · rw [List.append_nil, checkAddress_of_taken (addressAndPort_of_ipv4 valid) isIp]
      exact checkPort_ok_iff.mpr (.inl rfl)
    · rw [checkAddress_of_taken (addressAndPort_of_valid isIp isPort.last) isIp, checkPort_ok_iff]
      refine .inr (readable_of_isPort isPort fun long => readable ?_)
      refine .port address port isIp isPort.last isPort.nonempty intError ?_
      rw [int_of_isPort isPort, if_pos long]
  | ipv6 address rest valid port =>
    have allPlain : ∀ c ∈ address, isHexColon c = true := by
      by_contra mixed
      exact plain ⟨address, rest, valid, port, mixed⟩
    rw [checkAddress_of_taken (addressAndPort_of_brackets valid allPlain rest)
      (isIpv46_of_ipv6 valid), checkPort_ok_iff]
    rcases port with rfl | ⟨port, rfl, isPort⟩
    · exact .inl rfl
    · rw [portGroup_of_isPort isPort]
      refine .inr (readable_of_isPort isPort fun long => readable ?_)
      exact .afterBrackets address (':' :: port) valid allPlain
        (by rwa [portGroup_of_isPort isPort])

theorem checkAddress_cases (v : Validators) (part : List Char) : ∃ address port,
    Taken part address port ∧
      checkAddress v part =
        if isIpv46 v address = true then checkPort v port else .error ValidationError :=
  ⟨_, _, taken_addressAndPort part, rfl⟩

theorem isPort_of_readable (nonempty : port ≠ []) (digits : ∀ c ∈ port, c.isDigit = true)
    (readable : Readable v port) : IsPort port := by
  obtain ⟨n, read, low, high⟩ := readable
  rw [int_of_ascii nonempty digits] at read
  split at read
  · cases read
  · cases read
    exact ⟨nonempty, digits, by omega⟩

theorem isAddress_or_loose (taken : checkAddress v part = .ok ()) :
    IsAddress v part ∨ Loose v part := by
  obtain ⟨address, port, parts, checked⟩ := checkAddress_cases v part
  rw [checked] at taken
  by_cases valid : isIpv46 v address = true
  · rw [if_pos valid, checkPort_ok_iff] at taken
    cases parts with
    | brackets address rest nonempty plain =>
      have ipv6 := ipv6_of_plain valid plain
      by_cases port : PortOrNone rest
      · exact .inl (.ipv6 address rest ipv6 port)
      · exact .inr (.afterBrackets address rest ipv6 plain port taken)
    | colon address port last =>
      by_cases nonempty : port = []
      · rw [nonempty]
        exact .inr (.emptyPort address valid)
      · have readable := taken.resolve_left nonempty
        rw [isIpv46, Bool.or_eq_true] at valid
        rcases valid with ipv4 | ipv6
        · by_cases digits : ∀ c ∈ port, c.isDigit = true
          · have isPort := isPort_of_readable nonempty digits readable
            exact .inl (.ipv4 address (':' :: port) ipv4 (.inr ⟨port, rfl, isPort⟩))
          · exact .inr (.otherNumber address port ipv4 last nonempty digits readable)
        · exact .inr (.bareIpv6 address port ipv6 last nonempty readable)
    | whole address none =>
      rw [isIpv46, Bool.or_eq_true] at valid
      rcases valid with ipv4 | ipv6
      · have bare := IsAddress.ipv4 part [] ipv4 (.inl rfl)
        rw [List.append_nil] at bare
        exact .inl bare
      · have colon := (v.ipv6_chars part ipv6).1
        exact absurd ((List.takeWhile_sublist _).subset colon) none
  · rw [if_neg valid] at taken
    cases taken

theorem unreadable_of_error {e : Exception} (raises : checkAddress v part = .error e)
    (other : e ≠ ValidationError) : Unreadable v part := by
  obtain ⟨address, port, parts, checked⟩ := checkAddress_cases v part
  rw [checked] at raises
  by_cases valid : isIpv46 v address = true
  · rw [if_pos valid] at raises
    obtain ⟨nonempty, read⟩ := (checkPort_error raises).resolve_left other
    cases parts with
    | brackets address rest filled plain =>
      refine .afterBrackets address rest (ipv6_of_plain valid plain) plain ?_
      by_contra short
      have digits : ∀ c ∈ portGroup rest, c.isDigit = true := fun c => isDigit_of_mem_portGroup
      rw [int_of_ascii nonempty digits, if_neg short] at read
      cases read
    | colon address port last => exact .port address port valid last nonempty e read
    | whole address none => exact absurd rfl nonempty
  · rw [if_neg valid] at raises
    cases raises
    exact absurd rfl other

/-! ## Lines -/

inductive LooseLine (v : Validators) (parts : List (List Char)) : Prop
  | address (part : List Char) (found : ipPortPart parts = some part) (loose : Loose v part)
  | transport (first part : List Char) (rest : List (List Char))
      (same : parts = first :: part :: rest)
      (begins : first.head?.any isLowerOrUnderscore = true) (other : ¬ IsTransport first)
      (isAddress : IsAddress v part) (plain : ¬ Mixed v part) (readable : ¬ Unreadable v part)

def UnreadableLine (v : Validators) (parts : List (List Char)) : Prop :=
  ∃ part, ipPortPart parts = some part ∧ Unreadable v part

def MixedLine (v : Validators) (parts : List (List Char)) : Prop :=
  ∃ part, ipPortPart parts = some part ∧ Mixed v part

theorem not_lower_of_isDigit {c : Char} (digit : c.isDigit = true) :
    isLowerOrUnderscore c = false := by
  have below : c.toNat ≤ 57 := by
    rw [Char.isDigit, Bool.and_eq_true, decide_eq_true_eq, decide_eq_true_eq] at digit
    exact digit.2
  have notLower : c.isLower = false := by
    delta Char.isLower
    rw [Bool.and_eq_false_iff, decide_eq_false_iff_not]
    refine .inl fun least => ?_
    have above : 97 ≤ c.toNat := least
    omega
  rw [isLowerOrUnderscore, notLower, Bool.false_or, decide_eq_false_iff_not]
  exact isDigit_ne digit (by decide)

theorem head_of_isAddress (isAddress : IsAddress v part) :
    part.head?.any isLowerOrUnderscore = false := by
  cases isAddress with
  | ipv4 address rest valid port =>
    obtain ⟨dot, chars⟩ := v.ipv4_chars address valid
    cases address with
    | nil => cases dot
    | cons c address =>
      change isLowerOrUnderscore c = false
      rcases chars c List.mem_cons_self with digit | rfl
      · exact not_lower_of_isDigit digit
      · decide
  | ipv6 address rest valid port => rfl

theorem ipPortPart_of_isBridge {parts : List (List Char)} (isBridge : IsBridge (IsAddress v) parts) :
    ∃ part, ipPortPart parts = some part ∧ IsAddress v part := by
  cases isBridge with
  | direct address rest isAddress =>
    refine ⟨address, ?_, isAddress⟩
    rw [ipPortPart, head_of_isAddress isAddress]
    rfl
  | transport transport address rest isTransport isAddress =>
    refine ⟨address, ?_, isAddress⟩
    rw [ipPortPart, if_pos isTransport.1]
    rfl

theorem ipPortPart_eq_some {parts : List (List Char)} (found : ipPortPart parts = some part) :
    (∃ rest, parts = part :: rest ∧ part.head?.any isLowerOrUnderscore = false) ∨
      ∃ first rest, parts = first :: part :: rest ∧
        first.head?.any isLowerOrUnderscore = true := by
  cases parts with
  | nil => cases found
  | cons first rest =>
    rw [ipPortPart] at found
    by_cases begins : first.head?.any isLowerOrUnderscore = true
    · rw [if_pos begins] at found
      obtain ⟨rest, rfl⟩ := List.head?_eq_some_iff.mp found
      exact .inr ⟨first, rest, rfl, begins⟩
    · rw [if_neg begins] at found
      cases found
      exact .inl ⟨rest, rfl, Bool.not_eq_true _ ▸ begins⟩

theorem checkBridge_ok_iff (line : List Char) : checkBridge v line = .ok () ↔
    (IsBridge (IsAddress v) (Text.words line) ∧ ¬ MixedLine v (Text.words line) ∧
      ¬ UnreadableLine v (Text.words line)) ∨ LooseLine v (Text.words line) := by
  unfold checkBridge
  generalize Text.words line = parts
  constructor
  · intro taken
    cases found : ipPortPart parts with
    | none =>
      rw [found] at taken
      cases taken
    | some part =>
      replace taken : checkAddress v part = .ok () := by
        rw [found] at taken
        exact taken
      have notMixed : ¬ Mixed v part := by
        intro mixed
        rw [checkAddress_of_mixed mixed] at taken
        cases taken
      have notUnreadable : ¬ Unreadable v part := by
        intro unreadable
        obtain ⟨e, raised, _⟩ := checkAddress_of_unreadable unreadable
        rw [raised] at taken
        cases taken
      have lines : ¬ MixedLine v parts ∧ ¬ UnreadableLine v parts := by
        constructor
        · rintro ⟨other, same, mixed⟩
          cases found.symm.trans same
          exact notMixed mixed
        · rintro ⟨other, same, unreadable⟩
          cases found.symm.trans same
          exact notUnreadable unreadable
      rcases isAddress_or_loose taken with isAddress | loose
      · rcases ipPortPart_eq_some found with ⟨rest, rfl, _⟩ | ⟨first, rest, rfl, begins⟩
        · exact .inl ⟨.direct part rest isAddress, lines⟩
        · by_cases isTransport : IsTransport first
          · exact .inl ⟨.transport first part rest isTransport isAddress, lines⟩
          · exact .inr (.transport first part rest rfl begins isTransport isAddress notMixed
              notUnreadable)
      · exact .inr (.address part found loose)
  · rintro (⟨isBridge, notMixed, notUnreadable⟩ | loose)
    · obtain ⟨part, found, isAddress⟩ := ipPortPart_of_isBridge isBridge
      rw [found]
      exact checkAddress_of_isAddress isAddress (fun mixed => notMixed ⟨part, found, mixed⟩)
        fun unreadable => notUnreadable ⟨part, found, unreadable⟩
    · cases loose with
      | address part found loose =>
        rw [found]
        exact checkAddress_of_loose loose
      | transport first part rest same begins other isAddress plain readable =>
        rw [same, ipPortPart, if_pos begins]
        exact checkAddress_of_isAddress isAddress plain readable

theorem unreadableLine_iff (line : List Char) :
    (∃ e, checkBridge v line = .error e ∧ e ≠ ValidationError) ↔
      UnreadableLine v (Text.words line) := by
  unfold checkBridge UnreadableLine
  cases found : ipPortPart (Text.words line) with
  | none =>
    refine iff_of_false ?_ (by simp)
    rintro ⟨e, raised, other⟩
    cases raised
    exact other rfl
  | some part =>
    constructor
    · intro ⟨e, raised, other⟩
      exact ⟨part, rfl, unreadable_of_error raised other⟩
    · rintro ⟨_, same, unreadable⟩
      cases same
      exact checkAddress_of_unreadable unreadable

/-! ## The whole text -/

def IsBridges (form : List Char → Prop) (bridges : List Char) : Prop :=
  bridgeLines bridges ≠ [] ∧ ∀ line ∈ bridgeLines bridges, IsBridge form (Text.words line)

/-- The validator raises nothing else than a `ValidationError`, and none exactly for bridges of the
form, whose lines are written as they are but for the blanks. -/
structure Exact (v : Validators) (form : List Char → Prop) (bridges : List Char) : Prop where
  raises : ∀ e, bridgesValidator v bridges = .error e → e = ValidationError
  returns : bridgesValidator v bridges = .ok () ↔ IsBridges form bridges
  written : (bridgesOf bridges).map Text.words = (bridgeLines bridges).map Text.words

def Refused (v : Validators) (parts : List (List Char)) : Prop :=
  ¬ LooseLine v parts ∧ (IsBridge (IsAddress v) parts → MixedLine v parts ∨ UnreadableLine v parts)

theorem refused_iff (line : List Char) :
    Refused v (Text.words line) ↔ checkBridge v line ≠ .ok () := by
  rw [Ne, checkBridge_ok_iff, Refused]
  tauto

/-- A line by which the validator goes wrong is hidden by another one: one that raises comes after
a refused one, a loose one is refused with another, and a mixed one is not the only fault. -/
structure Hidden (v : Validators) (lines : List (List Char)) : Prop where
  unreadable : ∀ before line after, lines = before ++ line :: after →
    UnreadableLine v (Text.words line) → ∃ earlier ∈ before, Refused v (Text.words earlier)
  loose : (∃ line ∈ lines, LooseLine v (Text.words line)) →
    (∃ line ∈ lines, Refused v (Text.words line)) ∨ ∀ line ∈ lines, IsBridge (IsAddress v) (Text.words line)
  mixed : (∃ line ∈ lines, MixedLine v (Text.words line)) →
    ∃ line ∈ lines, ¬ IsBridge (IsAddress v) (Text.words line)

theorem validate_of_lines {bridges : List Char} (nonempty : bridgeLines bridges ≠ []) :
    bridgesValidator v bridges = (bridgeLines bridges).forM (checkBridge v) :=
  if_neg nonempty

theorem isBridges_of_hidden {bridges : List Char} (nonempty : bridgeLines bridges ≠ [])
    (hidden : Hidden v (bridgeLines bridges)) :
    bridgesValidator v bridges = .ok () ↔ IsBridges (IsAddress v) bridges := by
  rw [validate_of_lines nonempty, IsBridges, and_iff_right nonempty]
  constructor
  · intro taken
    rw [forM_ok_iff] at taken
    by_cases loose : ∃ line ∈ bridgeLines bridges, LooseLine v (Text.words line)
    · rcases hidden.loose loose with ⟨line, listed, refused⟩ | all
      · exact absurd (taken line listed) ((refused_iff line).mp refused)
      · exact all
    · intro line listed
      rcases (checkBridge_ok_iff line).mp (taken line listed) with ⟨isBridge, _⟩ | isLoose
      · exact isBridge
      · exact absurd ⟨line, listed, isLoose⟩ loose
  · intro all
    cases checked : (bridgeLines bridges).forM (checkBridge v) with
    | ok _ => rfl
    | error e =>
      obtain ⟨before, line, after, split, passed, raised⟩ := forM_error_iff.mp checked
      have refused : Refused v (Text.words line) :=
        (refused_iff line).mpr (by rw [raised]; simp)
      have listed : line ∈ bridgeLines bridges := by simp [split]
      rcases refused.2 (all line listed) with mixed | unreadable
      · obtain ⟨other, otherListed, fault⟩ := hidden.mixed ⟨line, listed, mixed⟩
        exact absurd (all other otherListed) fault
      · obtain ⟨earlier, first, refused⟩ := hidden.unreadable before line after split unreadable
        exact absurd (passed earlier first) ((refused_iff earlier).mp refused)

theorem words_bridgesOf (bridges : List Char) :
    (bridgesOf bridges).map Text.words = (bridgeLines bridges).map Text.words := by
  have lines : bridgesOf bridges = (bridgeLines bridges).map fun bridge =>
    Text.strip ([' '].intercalate (Text.words bridge)) := rfl
  rw [lines, List.map_map]
  apply List.map_congr_left
  intro line _
  rw [Function.comp_apply, Text.words_strip]
  exact Text.words_intercalate fun word member => Text.of_mem_words member

theorem exact_iff (v : Validators) (bridges : List Char) :
    Exact v (IsAddress v) bridges ↔ Hidden v (bridgeLines bridges) := by
  by_cases nonempty : bridgeLines bridges = []
  · have refused : bridgesValidator v bridges = .error ValidationError := if_pos nonempty
    refine iff_of_true ⟨fun e raised => ?_, ?_, words_bridgesOf bridges⟩ ?_
    · rw [refused] at raised
      cases raised
      rfl
    · rw [refused]
      exact iff_of_false (by simp) fun isBridges => isBridges.1 nonempty
    · rw [nonempty]
      exact ⟨by simp, by simp, by simp⟩
  constructor
  · intro exact
    have taken : (bridgeLines bridges).forM (checkBridge v) = .ok () ↔ IsBridges (IsAddress v) bridges := by
      rw [← validate_of_lines nonempty]
      exact exact.returns
    refine ⟨fun before line after split unreadable => ?_, fun loose => ?_, fun mixed => ?_⟩
    · by_contra hidden
      have passed : ∀ earlier ∈ before, checkBridge v earlier = .ok () := by
        intro earlier member
        by_contra refused
        exact hidden ⟨earlier, member, (refused_iff earlier).mpr refused⟩
      obtain ⟨e, raised, other⟩ := (unreadableLine_iff line).mpr unreadable
      refine other (exact.raises e ?_)
      rw [validate_of_lines nonempty]
      exact forM_error_iff.mpr ⟨before, line, after, split, passed, raised⟩
    · by_contra neither
      rw [not_or] at neither
      refine neither.2 (taken.mp (forM_ok_iff.mpr fun line listed => ?_)).2
      by_contra refused
      exact neither.1 ⟨line, listed, (refused_iff line).mpr refused⟩
    · obtain ⟨line, listed, part, found, mixed⟩ := mixed
      by_contra all
      have isBridges : IsBridges (IsAddress v) bridges := by
        refine ⟨nonempty, fun other otherListed => ?_⟩
        by_contra fault
        exact all ⟨other, otherListed, fault⟩
      have passed := forM_ok_iff.mp (taken.mpr isBridges) line listed
      have refused : checkBridge v line = .error ValidationError := by
        rw [checkBridge, found]
        exact checkAddress_of_mixed mixed
      rw [refused] at passed
      cases passed
  · intro hidden
    refine ⟨fun e raised => ?_, isBridges_of_hidden nonempty hidden, words_bridgesOf bridges⟩
    rw [validate_of_lines nonempty] at raised
    obtain ⟨before, line, after, split, passed, raised⟩ := forM_error_iff.mp raised
    by_contra other
    have unreadable := (unreadableLine_iff line).mp ⟨e, raised, other⟩
    obtain ⟨earlier, first, refused⟩ := hidden.unreadable before line after split unreadable
    exact absurd (passed earlier first) ((refused_iff earlier).mp refused)

def Usual (v : Validators) (bridges : List Char) : Prop :=
  ∀ line ∈ bridgeLines bridges, ¬ LooseLine v (Text.words line) ∧ ¬ MixedLine v (Text.words line) ∧
    ¬ UnreadableLine v (Text.words line)

theorem Usual.hidden {bridges : List Char} (usual : Usual v bridges) :
    Hidden v (bridgeLines bridges) := by
  refine ⟨?_, ?_, ?_⟩
  · intro before line after split unreadable
    exact absurd unreadable (usual line (by simp [split])).2.2
  · intro ⟨line, listed, loose⟩
    exact absurd loose (usual line listed).1
  · intro ⟨line, listed, mixed⟩
    exact absurd mixed (usual line listed).2.1

theorem isIpv4_chars {s : List Char} (valid : IpAddress.isIpv4 s = true) :
    '.' ∈ s ∧ ∀ c ∈ s, c.isDigit = true ∨ c = '.' := by
  rw [IpAddress.isIpv4, Bool.and_eq_true, decide_eq_true_eq, Text.length_splitOn,
    List.all_eq_true] at valid
  obtain ⟨four, octets⟩ := valid
  constructor
  · exact List.count_pos_iff.mp (by omega)
  · intro c member
    by_cases dot : c = '.'
    · exact .inr dot
    · obtain ⟨octet, listed, inside⟩ := Text.exists_mem_splitOn member dot
      have isOctet := octets octet listed
      simp only [IpAddress.isOctet, Bool.and_eq_true, List.all_eq_true] at isOctet
      exact .inl (isOctet.1.1.1.2 c inside)

def ipv4Validators : Validators where
  ipv4 := IpAddress.isIpv4
  ipv6 _ := false
  digits := Integer.asciiDigits
  ipv4_chars _ := isIpv4_chars
  ipv6_chars _ valid := by cases valid

/-- On texts without these kinds the validator goes by the form, with a port or without. -/
theorem exact_of_usual (v : Validators) (bridges : List Char) (usual : Usual v bridges) :
    Exact v (IsAddress v) bridges :=
  (exact_iff v bridges).mpr usual.hidden

theorem usual_of_plain {bridges : List Char}
    (parts : ∀ line ∈ bridgeLines bridges, ∃ part rest, Text.words line = part :: rest ∧
      part.head?.any isLowerOrUnderscore = false ∧ ':' ∉ part ∧ '[' ∉ part) : Usual v bridges := by
  intro line listed
  obtain ⟨part, rest, same, begins, noColon, noBracket⟩ := parts line listed
  have only : ∀ other, ipPortPart (Text.words line) = some other → part = other := by
    intro other found
    rw [same, ipPortPart, begins] at found
    exact Option.some.inj found
  refine ⟨fun loose => ?_, fun ⟨other, found, mixed⟩ => ?_, fun ⟨other, found, unreadable⟩ => ?_⟩
  · cases loose with
    | address other found loose =>
      obtain rfl := only other found
      cases loose <;> simp at noColon noBracket
    | transport first part' rest' lineSame firstBegins =>
      rw [same] at lineSame
      cases lineSame
      rw [begins] at firstBegins
      cases firstBegins
  · obtain rfl := only other found
    cases mixed
    simp at noBracket
  · obtain rfl := only other found
    cases unreadable <;> simp at noColon noBracket

theorem two_bridges_exact : Exact ipv4Validators (IsAddress ipv4Validators)
    "73.237.165.184 0D04F10F\n\n 10.1.1.1".toList := by
  apply exact_of_usual
  apply usual_of_plain
  have lines : bridgeLines "73.237.165.184 0D04F10F\n\n 10.1.1.1".toList =
      ["73.237.165.184 0D04F10F".toList, "10.1.1.1".toList] := by rfl
  rw [lines]
  intro line listed
  rcases List.mem_cons.mp listed with rfl | listed
  · exact ⟨"73.237.165.184".toList, ["0D04F10F".toList], by rfl, by decide, by decide, by decide⟩
  · rw [List.mem_singleton.mp listed]
    exact ⟨"10.1.1.1".toList, [], by rfl, by decide, by decide, by decide⟩

theorem bridge_without_port : bridgesValidator ipv4Validators "73.237.165.184".toList = .ok () := by
  rfl

theorem not_only_with_port :
    ¬ Exact ipv4Validators (HasPort ipv4Validators) "73.237.165.184".toList := by
  intro exact
  have single : bridgeLines "73.237.165.184".toList = ["73.237.165.184".toList] := by rfl
  have parts : Text.words "73.237.165.184".toList = ["73.237.165.184".toList] := by rfl
  have isBridges := exact.returns.mp bridge_without_port
  have isBridge := isBridges.2 _ (single ▸ List.mem_singleton_self _)
  rw [parts] at isBridge
  have colon : ∀ part, HasPort ipv4Validators part → ':' ∈ part := by
    intro part hasPort
    cases hasPort <;> simp
  generalize whole : ["73.237.165.184".toList] = all at isBridge
  cases isBridge with
  | direct address rest hasPort =>
    cases whole
    exact absurd (colon _ hasPort) (by decide)
  | transport => cases whole

end Plinth.Tor
