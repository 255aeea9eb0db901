import Plinth.Model.Networks

/-! # Submitting what is shown -/

namespace Plinth.Networks

open Python Forms

variable {manager : Manager} {site : Site} {uuid : List Char}

/-! ## Addresses as numbers -/

theorem octet_shown {n : Nat} (small : n < 256) : IpAddress.isOctet (Nat.toDigits 10 n) = true := by
  have all : ((List.range 256).all fun n => IpAddress.isOctet (Nat.toDigits 10 n)) = true := by
    decide +kernel
  exact List.all_eq_true.mp all n (List.mem_range.mpr small)

theorem point_not_mem_toDigits (n : Nat) : '.' ∉ Nat.toDigits 10 n := by
  intro member
  exact absurd (Nat.isDigit_of_mem_toDigits (by decide) (by decide) member) (by decide)

theorem splitOn_ipv4IntToString (n : Nat) :
    (ipv4IntToString n).splitOn '.' = (octetsOf n).map (Nat.toDigits 10) := by
  apply List.splitOn_intercalate
  · intro octet member
    obtain ⟨value, _, rfl⟩ := List.mem_map.mp member
    exact point_not_mem_toDigits value
  · simp [octetsOf]

theorem octetsOf_lt {n octet : Nat} (member : octet ∈ octetsOf n) : octet < 256 := by
  simp only [octetsOf, List.mem_cons, List.not_mem_nil, or_false] at member
  omega

theorem isIpv4_ipv4IntToString (n : Nat) : IpAddress.isIpv4 (ipv4IntToString n) = true := by
  rw [IpAddress.isIpv4, splitOn_ipv4IntToString, Bool.and_eq_true]
  refine ⟨by simp [octetsOf], ?_⟩
  rw [List.all_eq_true]
  intro octet member
  obtain ⟨value, small, rfl⟩ := List.mem_map.mp member
  exact octet_shown (octetsOf_lt small)

theorem ipv4StringToInt_ipv4IntToString {n : Nat} (word : n < 2 ^ 32) :
    ipv4StringToInt (ipv4IntToString n) = n := by
  have read : octets (ipv4IntToString n) = octetsOf n := by
    rw [octets, splitOn_ipv4IntToString, List.map_map]
    conv_rhs => rw [← List.map_id (octetsOf n)]
    apply List.map_congr_left
    intro octet _
    exact Nat.ofDigitChars_ten_toDigits
  rw [ipv4StringToInt, read]
  simp only [octetsOf, List.foldr_cons, List.foldr_nil]
  omega

theorem ipv4IntToString_chars {n : Nat} {c : Char} (member : c ∈ ipv4IntToString n) :
    c.isDigit = true ∨ c = '.' := by
  by_cases point : c = '.'
  · exact .inr point
  · left
    obtain ⟨piece, isPiece, inside⟩ := Text.exists_mem_splitOn member point
    rw [splitOn_ipv4IntToString] at isPiece
    obtain ⟨value, _, rfl⟩ := List.mem_map.mp isPiece
    exact Nat.isDigit_of_mem_toDigits (by decide) (by decide) inside

theorem ipv4IntToString_ne_nil (n : Nat) : ipv4IntToString n ≠ [] := by
  intro empty
  have split := splitOn_ipv4IntToString n
  rw [empty, List.splitOn_nil] at split
  simp [octetsOf] at split

theorem field_ipv4IntToString (n : Nat) :
    charField false IpAddress.isIpv4 (some (ipv4IntToString n)) = some (ipv4IntToString n) := by
  have noSpace : ∀ c ∈ ipv4IntToString n, Text.isSpace c = false := by
    intro c member
    rcases ipv4IntToString_chars member with digit | rfl
    · exact Integer.isSpace_of_isDigit digit
    · rfl
  apply charField_of_valid (ipv4IntToString_ne_nil n) ?_ (isIpv4_ipv4IntToString n)
  · exact Text.strip_eq_self (fun c first => noSpace c (List.mem_of_mem_head? first))
      fun c last => noSpace c (List.mem_of_mem_getLast? last)
  · intro null
    rcases ipv4IntToString_chars null with digit | point
    · exact absurd digit (by decide)
    · exact absurd point (by decide)

/-! ## What a form has accepted -/

def Ipv4.texts (ipv4 : Ipv4) : List (List Char) :=
  [ipv4.address, ipv4.netmask, ipv4.gateway, ipv4.dns, ipv4.secondDns]

def Ipv6.texts (ipv6 : Ipv6) : List (List Char) :=
  [ipv6.address, ipv6.gateway, ipv6.dns, ipv6.secondDns]

def Ipv4.Accepted (ipv4 : Ipv4) : Prop :=
  ∀ text ∈ ipv4.texts, charField false IpAddress.isIpv4 (some text) = some text

structure Ipv6.Accepted (ipv6 : Ipv6) : Prop where
  text : ∀ text ∈ ipv6.texts, charField false IpAddress.isIpv6 (some text) = some text
  prefixLength : ∀ length, ipv6.prefixLength = some length → 1 ≤ length ∧ length ≤ 128

structure Wireless.Accepted (wireless : Wireless) : Prop where
  ssid : charField true anyText (some wireless.ssid) = some wireless.ssid
  channel : ∀ channel, wireless.channel = some channel → channel ≤ 255
  bssid : regexField false isBssid (some wireless.bssid) = some wireless.bssid
  passphrase : charField false (fun text => 8 ≤ text.length) (some wireless.passphrase) =
    some wireless.passphrase

structure Pppoe.Accepted (pppoe : Pppoe) : Prop where
  username : charField true anyText (some pppoe.username) = some pppoe.username
  password : charField true anyText (some pppoe.password) = some pppoe.password

structure ConnectionForm.Accepted (form : ConnectionForm) : Prop where
  name : charField true anyText (some form.name) = some form.name
  interface : form.interface ≠ []

structure Cleaned.Accepted (cleaned : Cleaned) : Prop where
  connection : cleaned.connection.Accepted
  ipv4 : ∀ form, cleaned.addressing = some form → form.ipv4.Accepted
  ipv6 : ∀ form, cleaned.addressing = some form → form.ipv6.Accepted
  pppoe : ∀ form, cleaned.pppoeSettings = some form → form.Accepted
  wireless : ∀ form, cleaned.wirelessSettings = some form → form.Accepted

section Accepted

variable {data : Data}

theorem accepted_of_cleanConnection {deviceType : DeviceType} {form : ConnectionForm}
    (ok : cleanConnection site data deviceType = some form) : form.Accepted := by
  simp only [cleanConnection, Option.bind_eq_bind, Option.bind_eq_some_iff] at ok
  obtain ⟨name, named, interface, found, zone, _, made⟩ := ok
  cases made
  refine ⟨charField_again named, ?_⟩
  unfold interfaceField at found
  obtain ⟨chosen, _, kept⟩ := Option.bind_eq_some_iff.mp found
  split at kept
  · rename_i both
    cases kept
    exact both.1
  · cases kept

theorem accepted_of_cleanIpv4 {form : Ipv4} (ok : cleanIpv4 data = some form) : form.Accepted := by
  simp only [cleanIpv4, Option.bind_eq_bind, Option.bind_eq_some_iff] at ok
  obtain ⟨method, _, address, h1, netmask, h2, gateway, h3, dns, h4, second, h5, made⟩ := ok
  cases made
  intro text member
  simp only [Ipv4.texts, List.mem_cons, List.not_mem_nil, or_false] at member
  rcases member with rfl | rfl | rfl | rfl | rfl
  · exact charField_again h1
  · exact charField_again h2
  · exact charField_again h3
  · exact charField_again h4
  · exact charField_again h5

theorem accepted_of_cleanIpv6 {form : Ipv6} (ok : cleanIpv6 site data = some form) :
    form.Accepted := by
  simp only [cleanIpv6, Option.bind_eq_bind, Option.bind_eq_some_iff] at ok
  obtain ⟨method, _, address, h1, length, h2, gateway, h3, dns, h4, second, h5, made⟩ := ok
  cases made
  constructor
  · intro text member
    simp only [Ipv6.texts, List.mem_cons, List.not_mem_nil, or_false] at member
    rcases member with rfl | rfl | rfl | rfl
    · exact charField_again h1
    · exact charField_again h3
    · exact charField_again h4
    · exact charField_again h5
  · rintro number rfl
    exact range_of_integerField h2

theorem accepted_of_cleanAddressing {form : AddressingForm}
    (ok : cleanAddressing site data = some form) : form.ipv4.Accepted ∧ form.ipv6.Accepted := by
  simp only [cleanAddressing, Option.bind_eq_bind, Option.bind_eq_some_iff] at ok
  obtain ⟨dnsOverTls, _, ipv4, h4, ipv6, h6, made⟩ := ok
  cases made
  exact ⟨accepted_of_cleanIpv4 h4, accepted_of_cleanIpv6 h6⟩

theorem accepted_of_cleanPppoe {form : Pppoe} (ok : cleanPppoe data = some form) :
    form.Accepted := by
  simp only [cleanPppoe, Option.bind_eq_bind, Option.bind_eq_some_iff] at ok
  obtain ⟨username, h1, password, h2, made⟩ := ok
  cases made
  exact ⟨charField_again h1, charField_again h2⟩

theorem accepted_of_cleanWireless {form : Wireless} (ok : cleanWireless site data = some form) :
    form.Accepted := by
  simp only [cleanWireless, Option.bind_eq_bind, Option.bind_eq_some_iff] at ok
  obtain ⟨ssid, h1, mode, _, band, _, channel, h2, bssid, h3, authMode, _, passphrase, h4, made⟩ := ok
  cases made
  refine ⟨charField_again h1, ?_, regexField_again h3, charField_again h4⟩
  rintro number rfl
  exact (range_of_integerField h2).2

theorem accepted_of_clean {type : ConnectionType} {cleaned : Cleaned}
    (ok : clean site data type = some cleaned) : cleaned.Accepted ∧ cleaned.type = type := by
  cases type with
  | generic =>
    simp only [clean, Option.bind_eq_bind, Option.bind_eq_some_iff] at ok
    obtain ⟨connection, h1, addressing, h2, made⟩ := ok
    cases made
    obtain ⟨ipv4, ipv6⟩ := accepted_of_cleanAddressing h2
    refine ⟨⟨accepted_of_cleanConnection h1, ?_, ?_, nofun, nofun⟩, rfl⟩
    · rintro _ ⟨⟩
      exact ipv4
    · rintro _ ⟨⟩
      exact ipv6
  | ethernet =>
    simp only [clean, Option.bind_eq_bind, Option.bind_eq_some_iff] at ok
    obtain ⟨connection, h1, addressing, h2, made⟩ := ok
    cases made
    obtain ⟨ipv4, ipv6⟩ := accepted_of_cleanAddressing h2
    refine ⟨⟨accepted_of_cleanConnection h1, ?_, ?_, nofun, nofun⟩, rfl⟩
    · rintro _ ⟨⟩
      exact ipv4
    · rintro _ ⟨⟩
      exact ipv6
  | pppoe =>
    simp only [clean, Option.bind_eq_bind, Option.bind_eq_some_iff] at ok
    obtain ⟨connection, h1, settings, h2, made⟩ := ok
    cases made
    refine ⟨⟨accepted_of_cleanConnection h1, nofun, nofun, ?_, nofun⟩, rfl⟩
    rintro _ ⟨⟩
    exact accepted_of_cleanPppoe h2
  | wireless =>
    simp only [clean, Option.bind_eq_bind, Option.bind_eq_some_iff] at ok
    obtain ⟨connection, h1, addressing, h2, settings, h3, made⟩ := ok
    cases made
    obtain ⟨ipv4, ipv6⟩ := accepted_of_cleanAddressing h2
    refine ⟨⟨accepted_of_cleanConnection h1, ?_, ?_, nofun, ?_⟩, rfl⟩
    · rintro _ ⟨⟩
      exact ipv4
    · rintro _ ⟨⟩
      exact ipv6
    · rintro _ ⟨⟩
      exact accepted_of_cleanWireless h3

end Accepted

/-! ## The connection of a submission -/

def made (manager : Manager) (uuid : List Char) (cleaned : Cleaned) : Connection :=
  addConnection manager uuid cleaned.getSettings

theorem editConnection_made (manager : Manager) (uuid : List Char) {last cleaned : Cleaned} (same : last.type = cleaned.type) :
    editConnection manager (made manager uuid last) cleaned.getSettings =
      made manager uuid cleaned := by
  cases last <;> cases cleaned <;> first | rfl | cases same

theorem type_made (cleaned : Cleaned) :
    (made manager uuid cleaned).connection.type = some cleaned.type := by
  cases cleaned <;> rfl

theorem run_made {type : ConnectionType} {connection : Connection} {cleaned : Cleaned}
    (run : Run manager uuid type connection cleaned) :
    connection = made manager uuid cleaned ∧ cleaned.type = type ∧ cleaned.Accepted := by
  induction run with
  | add accepted added =>
    obtain ⟨good, same⟩ := accepted_of_clean accepted
    rw [add, accepted] at added
    cases added
    exact ⟨rfl, same, good⟩
  | edit _ accepted edited ih =>
    obtain ⟨rfl, sameLast, _⟩ := ih
    obtain ⟨good, same⟩ := accepted_of_clean accepted
    refine ⟨?_, same, good⟩
    rw [edit, type_made, sameLast] at edited
    change (clean _ _ _ >>= _) = _ at edited
    rw [accepted] at edited
    cases edited
    exact editConnection_made manager uuid (sameLast.trans same.symm)

/-! ## What a connection carries -/

def ipv4Settings (manager : Manager) (ipv4 : Ipv4) : SettingIpConfig Ipv4Method :=
  addDns (addDns
    (if ipv4.method.TakesAddress ∧ ipv4.address ≠ [] then
      addressed { method := ipv4.method } ⟨ipv4.address, ipv4PrefixOf manager ipv4⟩ ipv4.gateway
        ipv4UnspecifiedGateway
    else unaddressed { method := ipv4.method } ipv4.dns ipv4.secondDns) ipv4.dns) ipv4.secondDns

def ipv6Settings (ipv6 : Ipv6) : SettingIpConfig Ipv6Method :=
  addDns (addDns
    (match ipv6AddressOf ipv6 with
    | some address =>
      addressed { method := ipv6.method } address ipv6.gateway ipv6UnspecifiedGateway
    | none => unaddressed { method := ipv6.method } ipv6.dns ipv6.secondDns) ipv6.dns)
    ipv6.secondDns

theorem ipv4_made (cleaned : Cleaned) : (made manager uuid cleaned).ipv4 =
    cleaned.addressing.map fun form => ipv4Settings manager form.ipv4 := by
  cases cleaned <;> rfl

theorem ipv6_made (cleaned : Cleaned) : (made manager uuid cleaned).ipv6 =
    cleaned.addressing.map fun form => ipv6Settings form.ipv6 := by
  cases cleaned <;> rfl

theorem addDns_addDns {Method : Type} (settings : SettingIpConfig Method)
    (dns secondDns : List Char) : addDns (addDns settings dns) secondDns =
      { settings with dns := settings.dns ++ servers dns secondDns } := by
  unfold addDns servers
  by_cases first : dns = []
  · by_cases second : secondDns = [] <;> simp [first, second]
  · by_cases second : secondDns = [] <;> simp [first, second]

theorem unaddressed_eq {Method : Type} (method : Method) (dns secondDns : List Char) :
    unaddressed { method := method } dns secondDns =
      { method := method, ignoreAutoDns := decide (servers dns secondDns ≠ []) } := by
  unfold unaddressed servers
  by_cases first : dns = []
  · by_cases second : secondDns = [] <;> simp [first, second]
  · by_cases second : secondDns = [] <;> simp [first, second]

section Closed

variable (manager)

theorem ipv4Settings_of_addressed {ipv4 : Ipv4}
    (both : ipv4.method.TakesAddress ∧ ipv4.address ≠ []) : ipv4Settings manager ipv4 =
      { method := ipv4.method
        addresses := [⟨ipv4.address, ipv4PrefixOf manager ipv4⟩]
        gateway := some (if ipv4.gateway = [] then ipv4UnspecifiedGateway else ipv4.gateway)
        dns := servers ipv4.dns ipv4.secondDns } := by
  rw [ipv4Settings, if_pos both, addDns_addDns]
  rfl

theorem ipv4Settings_of_not {ipv4 : Ipv4}
    (missing : ¬ (ipv4.method.TakesAddress ∧ ipv4.address ≠ [])) : ipv4Settings manager ipv4 =
      { method := ipv4.method
        ignoreAutoDns := decide (servers ipv4.dns ipv4.secondDns ≠ [])
        dns := servers ipv4.dns ipv4.secondDns } := by
  rw [ipv4Settings, if_neg missing, addDns_addDns, unaddressed_eq]
  rfl

end Closed

theorem ipv6Settings_of_addressed {ipv6 : Ipv6} {address : IpAddress}
    (found : ipv6AddressOf ipv6 = some address) : ipv6Settings ipv6 =
      { method := ipv6.method
        addresses := [address]
        gateway := some (if ipv6.gateway = [] then ipv6UnspecifiedGateway else ipv6.gateway)
        dns := servers ipv6.dns ipv6.secondDns } := by
  rw [ipv6Settings, found, addDns_addDns]
  rfl

theorem ipv6Settings_of_not {ipv6 : Ipv6} (missing : ipv6AddressOf ipv6 = none) :
    ipv6Settings ipv6 =
      { method := ipv6.method
        ignoreAutoDns := decide (servers ipv6.dns ipv6.secondDns ≠ [])
        dns := servers ipv6.dns ipv6.secondDns } := by
  rw [ipv6Settings, missing]
  dsimp only
  rw [addDns_addDns, unaddressed_eq]
  rfl

theorem dns_ipv4Settings (ipv4 : Ipv4) :
    (ipv4Settings manager ipv4).dns = servers ipv4.dns ipv4.secondDns := by
  by_cases both : ipv4.method.TakesAddress ∧ ipv4.address ≠ []
  · rw [ipv4Settings_of_addressed manager both]
  · rw [ipv4Settings_of_not manager both]

theorem method_ipv4Settings (ipv4 : Ipv4) : (ipv4Settings manager ipv4).method = ipv4.method := by
  by_cases both : ipv4.method.TakesAddress ∧ ipv4.address ≠ []
  · rw [ipv4Settings_of_addressed manager both]
  · rw [ipv4Settings_of_not manager both]

theorem dns_ipv6Settings (ipv6 : Ipv6) :
    (ipv6Settings ipv6).dns = servers ipv6.dns ipv6.secondDns := by
  cases found : ipv6AddressOf ipv6 with
  | some address => rw [ipv6Settings_of_addressed found]
  | none => rw [ipv6Settings_of_not found]

theorem method_ipv6Settings (ipv6 : Ipv6) : (ipv6Settings ipv6).method = ipv6.method := by
  cases found : ipv6AddressOf ipv6 with
  | some address => rw [ipv6Settings_of_addressed found]
  | none => rw [ipv6Settings_of_not found]

section Ipv4Address

variable (manager : Manager) {ipv4 : Ipv4}

theorem carriesIpv4_iff (ipv4 : Ipv4) :
    CarriesIpv4 manager (ipv4Settings manager ipv4) ipv4 ↔ ipv4.Complete manager := by
  by_cases takes : ipv4.method.TakesAddress
  · by_cases given : ipv4.address = []
    · have missing : ¬ (ipv4.method.TakesAddress ∧ ipv4.address ≠ []) := fun both => both.2 given
      have settings := ipv4Settings_of_not manager missing
      constructor
      · intro carries _
        have noNetmask : ipv4.netmask = [] := by
          by_contra some_
          have carried := carries.netmask takes some_
          simp [settings] at carried
        refine ⟨fun _ => ⟨noNetmask, ?_⟩, fun some_ => absurd noNetmask some_⟩
        by_contra some_
        have carried := carries.gateway takes some_
        simp [settings] at carried
      · intro complete
        obtain ⟨noNetmask, noGateway⟩ := (complete takes).1 given
        exact ⟨method_ipv4Settings ipv4, fun _ some_ => absurd given some_,
          fun _ some_ => absurd noNetmask some_, fun _ some_ => absurd noGateway some_,
          dns_ipv4Settings ipv4⟩
    · have settings := ipv4Settings_of_addressed manager ⟨takes, given⟩
      have length : ipv4.netmask ≠ [] →
          ipv4PrefixOf manager ipv4 = manager.netmaskToPrefix (ipv4StringToInt ipv4.netmask) :=
        fun some_ => if_neg some_
      constructor
      · intro carries _
        refine ⟨fun empty => absurd empty given, fun some_ => ?_⟩
        have carried := carries.netmask takes some_
        rw [settings] at carried
        rw [IsNetmask]
        simpa [length some_] using carried
      · intro complete
        refine ⟨method_ipv4Settings ipv4, fun _ _ => ?_, fun _ some_ => ?_, fun _ some_ => ?_,
          dns_ipv4Settings ipv4⟩
        · rw [settings]
          rfl
        · rw [settings, List.map_singleton, length some_]
          exact congrArg (fun netmask => [netmask]) ((complete takes).2 some_)
        · rw [settings, if_neg some_]
  · refine iff_of_true ?_ fun takes' => absurd takes' takes
    exact ⟨method_ipv4Settings ipv4, fun takes' => absurd takes' takes,
      fun takes' => absurd takes' takes, fun takes' => absurd takes' takes, dns_ipv4Settings ipv4⟩

end Ipv4Address

section Ipv6Address

variable {ipv6 : Ipv6}

theorem ipv6AddressOf_eq_some {length : Nat} (manual : ipv6.method = .manual)
    (given : ipv6.address ≠ []) (known : ipv6.prefixLength = some length) (positive : 1 ≤ length) :
    ipv6AddressOf ipv6 = some ⟨ipv6.address, length⟩ := by
  rw [ipv6AddressOf, if_pos ⟨manual, given⟩, known]
  change (if length = 0 then none else some _) = _
  rw [if_neg (by omega)]

theorem ipv6AddressOf_eq_none (missing : ¬ (ipv6.method = .manual ∧ ipv6.address ≠ [] ∧
    ipv6.prefixLength ≠ none)) : ipv6AddressOf ipv6 = none := by
  unfold ipv6AddressOf
  split
  · rename_i both
    cases known : ipv6.prefixLength with
    | none => rfl
    | some length => exact absurd ⟨both.1, both.2, by simp [known]⟩ missing
  · rfl

theorem carriesIpv6_iff (accepted : ipv6.Accepted) :
    CarriesIpv6 (ipv6Settings ipv6) ipv6 ↔ ipv6.Complete := by
  by_cases manual : ipv6.method = .manual
  · by_cases both : ipv6.address ≠ [] ∧ ipv6.prefixLength ≠ none
    · obtain ⟨length, known⟩ := Option.ne_none_iff_exists'.mp both.2
      have found := ipv6AddressOf_eq_some manual both.1 known
        (accepted.prefixLength length known).1
      have settings := ipv6Settings_of_addressed found
      apply iff_of_true
      · refine ⟨method_ipv6Settings ipv6, fun _ _ => ?_, fun _ number same => ?_,
          fun _ some_ => ?_, dns_ipv6Settings ipv6⟩
        · rw [settings]
          rfl
        · rw [settings]
          rw [known] at same
          cases same
          rfl
        · rw [settings, if_neg some_]
      · intro _
        exact ⟨iff_of_false both.1 both.2, fun empty => absurd empty both.1⟩
    · have missing := ipv6AddressOf_eq_none fun all => both all.2
      have settings := ipv6Settings_of_not missing
      constructor
      · intro carries _
        have noAddress : ipv6.address = [] := by
          by_contra some_
          have carried := carries.address manual some_
          simp [settings] at carried
        have noPrefix : ipv6.prefixLength = none := by
          cases known : ipv6.prefixLength with
          | none => rfl
          | some length =>
            have carried := carries.prefixLength manual length known
            simp [settings] at carried
        refine ⟨iff_of_true noAddress noPrefix, fun _ => ?_⟩
        by_contra some_
        have carried := carries.gateway manual some_
        simp [settings] at carried
      · intro complete
        obtain ⟨together, noGateway⟩ := complete manual
        have noAddress : ipv6.address = [] := by
          by_contra some_
          exact both ⟨some_, fun none_ => some_ (together.mpr none_)⟩
        refine ⟨method_ipv6Settings ipv6, fun _ some_ => absurd noAddress some_,
          fun _ length known => ?_, fun _ some_ => absurd (noGateway noAddress) some_,
          dns_ipv6Settings ipv6⟩
        rw [together.mp noAddress] at known
        cases known
  · refine iff_of_true ?_ fun manual' => absurd manual' manual
    exact ⟨method_ipv6Settings ipv6, fun manual' => absurd manual' manual,
      fun manual' => absurd manual' manual, fun manual' => absurd manual' manual,
      dns_ipv6Settings ipv6⟩

end Ipv6Address

section Wireless

variable {settings : Wireless}

def wirelessSettings (settings : Wireless) : SettingWireless :=
  { ssid := settings.ssid
    mode := settings.mode
    band := if settings.band ≠ .auto then some settings.band else none
    channel :=
      if settings.band = .auto ∨ settings.channel.getD 0 = 0 then 0 else settings.channel.getD 0
    bssid := if settings.bssid = [] then none else some settings.bssid }

def wirelessSecurity (settings : Wireless) : Option SettingWirelessSecurity :=
  if settings.authMode = .wpa ∧ settings.passphrase ≠ [] then some ⟨keyMgmt, settings.passphrase⟩
  else none

theorem wireless_made (cleaned : Cleaned) : (made manager uuid cleaned).wireless =
    cleaned.wirelessSettings.map wirelessSettings := by
  cases cleaned <;> rfl

theorem wirelessSecurity_made (cleaned : Cleaned) : (made manager uuid cleaned).wirelessSecurity =
    cleaned.wirelessSettings.bind wirelessSecurity := by
  cases cleaned <;> rfl

theorem channel_wirelessSettings (settings : Wireless) : (wirelessSettings settings).channel =
    if settings.band = .auto then 0 else settings.channel.getD 0 := by
  unfold wirelessSettings
  by_cases auto : settings.band = .auto
  · simp [auto]
  · by_cases zero : settings.channel.getD 0 = 0 <;> simp [auto, zero]

theorem wireless_iff (c : Connection) (security : c.wirelessSecurity = wirelessSecurity settings) :
    CarriesWireless c (wirelessSettings settings) settings ∧
        (settings.authMode = .wpa → c.wirelessSecurity ≠ none) ↔ settings.Complete := by
  constructor
  · rintro ⟨carries, notOpen⟩
    refine ⟨⟨fun wpa empty => ?_, fun some_ => ?_⟩, fun auto => ?_⟩
    · apply notOpen wpa
      rw [security, wirelessSecurity, if_neg fun both => both.2 empty]
    · by_contra other
      have carried := carries.passphrase some_
      rw [security, wirelessSecurity, if_neg fun both => other both.1] at carried
      cases carried
    · cases given : settings.channel with
      | none => rfl
      | some channel =>
        have carried := carries.channel channel given
        rw [channel_wirelessSettings, if_pos auto] at carried
        exact carried.symm
  · rintro ⟨together, inBand⟩
    refine ⟨⟨rfl, rfl, ?_, fun channel given => ?_, ?_, fun some_ => ?_⟩, fun wpa => ?_⟩
    · unfold wirelessSettings
      by_cases auto : settings.band = .auto <;> simp [auto]
    · rw [channel_wirelessSettings]
      rw [given] at inBand
      split
      · rename_i auto
        exact (inBand auto).symm
      · rw [given]
        rfl
    · unfold wirelessSettings
      by_cases empty : settings.bssid = [] <;> simp [empty]
    · rw [security, wirelessSecurity, if_pos ⟨together.mpr some_, some_⟩]
      rfl
    · rw [security, wirelessSecurity, if_pos ⟨wpa, together.mp wpa⟩]
      nofun

end Wireless

theorem carries_made_iff (manager : Manager) (uuid : List Char) {cleaned : Cleaned}
    (accepted : cleaned.Accepted) :
    Carries manager (made manager uuid cleaned) cleaned ∧
        Protected (made manager uuid cleaned) cleaned ↔ cleaned.Complete manager := by
  constructor
  · rintro ⟨carries, protected_⟩
    constructor
    · intro form known
      obtain ⟨settings, there, carried⟩ := carries.ipv4 form known
      rw [ipv4_made, known] at there
      cases there
      obtain ⟨settings, there, carried6⟩ := carries.ipv6 form known
      rw [ipv6_made, known] at there
      cases there
      exact ⟨(carriesIpv4_iff manager form.ipv4).mp carried,
        (carriesIpv6_iff (accepted.ipv6 form known)).mp carried6⟩
    · intro form known
      obtain ⟨settings, there, carried⟩ := carries.wireless form known
      rw [wireless_made, known] at there
      cases there
      have security : (made manager uuid cleaned).wirelessSecurity = wirelessSecurity form := by
        rw [wirelessSecurity_made, known]
        rfl
      exact (wireless_iff _ security).mp ⟨carried, protected_ form known⟩
  · rintro ⟨addressing, wireless⟩
    have each : ∀ form, cleaned.wirelessSettings = some form →
        CarriesWireless (made manager uuid cleaned) (wirelessSettings form) form ∧
          (form.authMode = .wpa → (made manager uuid cleaned).wirelessSecurity ≠ none) := by
      intro form known
      apply (wireless_iff _ _).mpr (wireless form known)
      rw [wirelessSecurity_made, known]
      rfl
    refine ⟨⟨?_, ?_, ?_, fun form known => ?_, fun form known => ?_, ?_, fun form known => ?_⟩,
      fun form known => (each form known).2⟩
    · cases cleaned <;> rfl
    · cases cleaned <;> rfl
    · cases cleaned <;> rfl
    · refine ⟨ipv4Settings manager form.ipv4, ?_, ?_⟩
      · rw [ipv4_made, known]
        rfl
      · exact (carriesIpv4_iff manager form.ipv4).mpr (addressing form known).1
    · refine ⟨ipv6Settings form.ipv6, ?_, ?_⟩
      · rw [ipv6_made, known]
        rfl
      · exact (carriesIpv6_iff (accepted.ipv6 form known)).mpr (addressing form known).2
    · intro form known
      cases cleaned <;> cases known
      rfl
    · refine ⟨wirelessSettings form, ?_, (each form known).1⟩
      rw [wireless_made, known]
      rfl

/-! ## What is shown is read again -/

theorem charField_getD {required : Bool} {valid : List Char → Bool} (value : Option (List Char)) :
    charField required valid (some (value.getD [])) = charField required valid value := by
  rw [charField, charField, Option.getD_some]

def readIpv4 (manager : Manager) (settings : SettingIpConfig Ipv4Method) : Ipv4 :=
  ⟨settings.method, ((firstAddress settings).map IpAddress.address).getD [],
    ((firstAddress settings).map (shownNetmask manager)).getD [], settings.gateway.getD [],
    settings.dns[0]?.getD [], settings.dns[1]?.getD []⟩

def readIpv6 (settings : SettingIpConfig Ipv6Method) : Ipv6 :=
  ⟨settings.method, ((firstAddress settings).map IpAddress.address).getD [],
    (firstAddress settings).map IpAddress.prefixLength, settings.gateway.getD [],
    settings.dns[0]?.getD [], settings.dns[1]?.getD []⟩

theorem ipv4Method_shown (method : Ipv4Method) :
    choiceField ipv4Methods Ipv4Method.text (some method.text) = some method := by
  cases method <;> rfl

theorem ipv6Method_shown (method : Ipv6Method) :
    choiceField ipv6Methods Ipv6Method.text (some method.text) = some method := by
  cases method <;> rfl

theorem cleanIpv4_formData {connection : Connection} {settings : SettingIpConfig Ipv4Method}
    (shown : connection.shownIpv4 = some settings)
    (accepted : (readIpv4 manager settings).Accepted) :
    cleanIpv4 (formData manager connection) = some (readIpv4 manager settings) := by
  have field : ∀ value : Option (List Char), value.getD [] ∈ (readIpv4 manager settings).texts →
      charField false IpAddress.isIpv4 value = some (value.getD []) := by
    intro value member
    rw [← charField_getD]
    exact accepted _ member
  simp only [cleanIpv4, formData, shown, Option.map_some, Option.bind_some, ipv4Method_shown,
    Option.bind_eq_bind]
  rw [field _ (by simp [Ipv4.texts, readIpv4]), Option.bind_some,
    field _ (by simp [Ipv4.texts, readIpv4]), Option.bind_some,
    field _ (by simp [Ipv4.texts, readIpv4]), Option.bind_some,
    field _ (by simp [Ipv4.texts, readIpv4]), Option.bind_some,
    field _ (by simp [Ipv4.texts, readIpv4]), Option.bind_some]
  rfl

theorem cleanIpv6_formData {connection : Connection} {settings : SettingIpConfig Ipv6Method}
    (shown : connection.shownIpv6 = some settings) (accepted : (readIpv6 settings).Accepted) :
    cleanIpv6 site (formData manager connection) = some (readIpv6 settings) := by
  have field : ∀ value : Option (List Char), value.getD [] ∈ (readIpv6 settings).texts →
      charField false IpAddress.isIpv6 value = some (value.getD []) := by
    intro value member
    rw [← charField_getD]
    exact accepted.text _ member
  have number : integerField site.digits 1 128
      ((firstAddress settings).map fun address => Nat.toDigits 10 address.prefixLength) =
        some ((firstAddress settings).map IpAddress.prefixLength) := by
    cases first : firstAddress settings with
    | none => rfl
    | some address =>
      have range := accepted.prefixLength address.prefixLength (by simp [readIpv6, first])
      exact integerField_toDigits site.digits range.1 range.2 (by omega)
  simp only [cleanIpv6, formData, shown, Option.map_some, Option.bind_some, ipv6Method_shown,
    Option.bind_eq_bind]
  rw [field _ (by simp [Ipv6.texts, readIpv6]), Option.bind_some, number, Option.bind_some,
    field _ (by simp [Ipv6.texts, readIpv6]), Option.bind_some,
    field _ (by simp [Ipv6.texts, readIpv6]), Option.bind_some,
    field _ (by simp [Ipv6.texts, readIpv6]), Option.bind_some]
  rfl

/-! ## The same settings again -/

theorem servers_again (dns secondDns : List Char) :
    servers ((servers dns secondDns)[0]?.getD []) ((servers dns secondDns)[1]?.getD []) =
      servers dns secondDns := by
  unfold servers
  by_cases first : dns = []
  · by_cases second : secondDns = [] <;> simp [first, second]
  · by_cases second : secondDns = [] <;> simp [first, second]

theorem mem_servers {dns secondDns server : List Char} (n : Nat)
    (nth : (servers dns secondDns)[n]?.getD [] = server) :
    server = [] ∨ server = dns ∨ server = secondDns := by
  cases found : (servers dns secondDns)[n]? with
  | none =>
    rw [found] at nth
    exact .inl nth.symm
  | some other =>
    rw [found] at nth
    obtain rfl : other = server := nth
    have member := (List.mem_filter.mp (List.mem_of_getElem? found)).1
    simp only [List.mem_cons, List.not_mem_nil, or_false] at member
    exact .inr member

theorem field_unspecified :
    charField false IpAddress.isIpv4 (some ipv4UnspecifiedGateway) = some ipv4UnspecifiedGateway ∧
      charField false IpAddress.isIpv6 (some ipv6UnspecifiedGateway) =
        some ipv6UnspecifiedGateway := by
  constructor <;> decide +kernel

section Again

variable (manager)

theorem ipv4PrefixOf_le (ipv4 : Ipv4) : ipv4PrefixOf manager ipv4 ≤ 32 := by
  unfold ipv4PrefixOf
  split
  · exact manager.defaultPrefix_le _
  · exact manager.netmaskToPrefix_le _

theorem ipv4Settings_again (ipv4 : Ipv4) :
    ipv4Settings manager (readIpv4 manager (ipv4Settings manager ipv4)) =
      ipv4Settings manager ipv4 := by
  by_cases both : ipv4.method.TakesAddress ∧ ipv4.address ≠ []
  · have read : readIpv4 manager (ipv4Settings manager ipv4) =
        ⟨ipv4.method, ipv4.address,
          ipv4IntToString (manager.prefixToNetmask (ipv4PrefixOf manager ipv4)),
          if ipv4.gateway = [] then ipv4UnspecifiedGateway else ipv4.gateway,
          (servers ipv4.dns ipv4.secondDns)[0]?.getD [],
          (servers ipv4.dns ipv4.secondDns)[1]?.getD []⟩ := by
      rw [ipv4Settings_of_addressed manager both]
      rfl
    have small := ipv4PrefixOf_le manager ipv4
    have length : ipv4PrefixOf manager (readIpv4 manager (ipv4Settings manager ipv4)) =
        ipv4PrefixOf manager ipv4 := by
      rw [read, ipv4PrefixOf, if_neg (ipv4IntToString_ne_nil _),
        ipv4StringToInt_ipv4IntToString (manager.word _ small), manager.inverse _ small]
    have gateway : (if ipv4.gateway = [] then ipv4UnspecifiedGateway else ipv4.gateway) ≠ [] := by
      split
      · decide
      · assumption
    have bothRead : (readIpv4 manager (ipv4Settings manager ipv4)).method.TakesAddress ∧
        (readIpv4 manager (ipv4Settings manager ipv4)).address ≠ [] := by
      rw [read]
      exact both
    rw [ipv4Settings_of_addressed manager bothRead, length, read,
      ipv4Settings_of_addressed manager both]
    dsimp only
    rw [if_neg gateway, servers_again]
  · have read : readIpv4 manager (ipv4Settings manager ipv4) =
        ⟨ipv4.method, [], [], [], (servers ipv4.dns ipv4.secondDns)[0]?.getD [],
          (servers ipv4.dns ipv4.secondDns)[1]?.getD []⟩ := by
      rw [ipv4Settings_of_not manager both]
      rfl
    rw [read, ipv4Settings_of_not, ipv4Settings_of_not manager both]
    · dsimp only
      rw [servers_again]
    · rintro ⟨_, some_⟩
      exact some_ rfl

theorem readIpv4_accepted {ipv4 : Ipv4} (accepted : ipv4.Accepted) :
    (readIpv4 manager (ipv4Settings manager ipv4)).Accepted := by
  have server : ∀ n : Nat, charField false IpAddress.isIpv4
      (some ((servers ipv4.dns ipv4.secondDns)[n]?.getD [])) =
        some ((servers ipv4.dns ipv4.secondDns)[n]?.getD []) := by
    intro n
    rcases mem_servers n rfl with empty | same | same
    · rw [empty]
      rfl
    · rw [same]
      exact accepted _ (by simp [Ipv4.texts])
    · rw [same]
      exact accepted _ (by simp [Ipv4.texts])
  intro text member
  by_cases both : ipv4.method.TakesAddress ∧ ipv4.address ≠ []
  · rw [ipv4Settings_of_addressed manager both] at member
    simp only [Ipv4.texts, readIpv4, firstAddress, List.head?_cons, Option.map_some,
      Option.getD_some, List.mem_cons, List.not_mem_nil, or_false] at member
    rcases member with rfl | rfl | rfl | rfl | rfl
    · exact accepted _ (by simp [Ipv4.texts])
    · exact field_ipv4IntToString _
    · split
      · exact field_unspecified.1
      · exact accepted _ (by simp [Ipv4.texts])
    · exact server 0
    · exact server 1
  · rw [ipv4Settings_of_not manager both] at member
    simp only [Ipv4.texts, readIpv4, firstAddress, List.head?_nil, Option.map_none,
      Option.getD_none, List.mem_cons, List.not_mem_nil, or_false] at member
    rcases member with rfl | rfl | rfl | rfl | rfl
    · rfl
    · rfl
    · rfl
    · exact server 0
    · exact server 1

end Again

theorem of_ipv6AddressOf {ipv6 : Ipv6} {address : IpAddress}
    (found : ipv6AddressOf ipv6 = some address) :
    ipv6.method = .manual ∧ ipv6.address ≠ [] ∧ ipv6.prefixLength = some address.prefixLength ∧
      address.prefixLength ≠ 0 ∧ address.address = ipv6.address := by
  unfold ipv6AddressOf at found
  split at found
  · rename_i both
    obtain ⟨length, known, made⟩ := Option.bind_eq_some_iff.mp found
    split at made
    · cases made
    · rename_i positive
      cases made
      exact ⟨both.1, both.2, known, positive, rfl⟩
  · cases found

theorem ipv6Settings_again (ipv6 : Ipv6) :
    ipv6Settings (readIpv6 (ipv6Settings ipv6)) = ipv6Settings ipv6 := by
  cases found : ipv6AddressOf ipv6 with
  | some address =>
    obtain ⟨manual, given, _, positive, same⟩ := of_ipv6AddressOf found
    have read : readIpv6 (ipv6Settings ipv6) =
        ⟨ipv6.method, address.address, some address.prefixLength,
          if ipv6.gateway = [] then ipv6UnspecifiedGateway else ipv6.gateway,
          (servers ipv6.dns ipv6.secondDns)[0]?.getD [],
          (servers ipv6.dns ipv6.secondDns)[1]?.getD []⟩ := by
      rw [ipv6Settings_of_addressed found]
      rfl
    have again : ipv6AddressOf (readIpv6 (ipv6Settings ipv6)) = some address := by
      rw [read]
      exact ipv6AddressOf_eq_some manual (by rw [same]; exact given) rfl (by omega)
    have gateway :
        (if ipv6.gateway = [] then ipv6UnspecifiedGateway else ipv6.gateway) ≠ [] := by
      split
      · decide
      · assumption
    rw [ipv6Settings_of_addressed again, read, ipv6Settings_of_addressed found]
    dsimp only
    rw [if_neg gateway, servers_again]
  | none =>
    have read : readIpv6 (ipv6Settings ipv6) =
        ⟨ipv6.method, [], none, [], (servers ipv6.dns ipv6.secondDns)[0]?.getD [],
          (servers ipv6.dns ipv6.secondDns)[1]?.getD []⟩ := by
      rw [ipv6Settings_of_not found]
      rfl
    have again : ipv6AddressOf (readIpv6 (ipv6Settings ipv6)) = none := by
      rw [read]
      apply ipv6AddressOf_eq_none
      rintro ⟨_, some_, _⟩
      exact some_ rfl
    rw [ipv6Settings_of_not again, read, ipv6Settings_of_not found]
    dsimp only
    rw [servers_again]

theorem readIpv6_accepted {ipv6 : Ipv6} (accepted : ipv6.Accepted) :
    (readIpv6 (ipv6Settings ipv6)).Accepted := by
  have server : ∀ n : Nat, charField false IpAddress.isIpv6
      (some ((servers ipv6.dns ipv6.secondDns)[n]?.getD [])) =
        some ((servers ipv6.dns ipv6.secondDns)[n]?.getD []) := by
    intro n
    rcases mem_servers n rfl with empty | same | same
    · rw [empty]
      rfl
    · rw [same]
      exact accepted.text _ (by simp [Ipv6.texts])
    · rw [same]
      exact accepted.text _ (by simp [Ipv6.texts])
  cases found : ipv6AddressOf ipv6 with
  | some address =>
    obtain ⟨_, _, known, _, same⟩ := of_ipv6AddressOf found
    rw [ipv6Settings_of_addressed found]
    constructor
    · intro text member
      simp only [Ipv6.texts, readIpv6, firstAddress, List.head?_cons, Option.map_some,
        Option.getD_some, List.mem_cons, List.not_mem_nil, or_false] at member
      rcases member with rfl | rfl | rfl | rfl
      · rw [same]
        exact accepted.text _ (by simp [Ipv6.texts])
      · split
        · exact field_unspecified.2
        · exact accepted.text _ (by simp [Ipv6.texts])
      · exact server 0
      · exact server 1
    · rintro length ⟨⟩
      exact accepted.prefixLength _ known
  | none =>
    rw [ipv6Settings_of_not found]
    constructor
    · intro text member
      simp only [Ipv6.texts, readIpv6, firstAddress, List.head?_nil, Option.map_none,
        Option.getD_none, List.mem_cons, List.not_mem_nil, or_false] at member
      rcases member with rfl | rfl | rfl | rfl
      · rfl
      · rfl
      · exact server 0
      · exact server 1
    · nofun

/-! ## Wi-Fi that is shown -/

def readWireless (settings : SettingWireless) (security : Option SettingWirelessSecurity) :
    Wireless :=
  ⟨settings.ssid, settings.mode, settings.band.getD .auto, some settings.channel,
    settings.bssid.getD [], (shownAuthMode security).getD .open_,
    (shownPassphrase security).getD []⟩

theorem wirelessSettings_again (settings : Wireless) :
    wirelessSettings (readWireless (wirelessSettings settings) (wirelessSecurity settings)) =
      wirelessSettings settings := by
  obtain ⟨ssid, mode, band, channel, bssid, authMode, passphrase⟩ := settings
  unfold readWireless wirelessSettings
  by_cases auto : band = .auto
  · by_cases empty : bssid = [] <;> simp [auto, empty]
  · by_cases zero : channel.getD 0 = 0
    · by_cases empty : bssid = [] <;> simp [auto, empty, zero]
    · by_cases empty : bssid = [] <;> simp [auto, empty, zero]

theorem wirelessSecurity_again (settings : Wireless) :
    wirelessSecurity (readWireless (wirelessSettings settings) (wirelessSecurity settings)) =
      wirelessSecurity settings := by
  by_cases both : settings.authMode = .wpa ∧ settings.passphrase ≠ []
  · have security : wirelessSecurity settings = some ⟨keyMgmt, settings.passphrase⟩ := if_pos both
    rw [security]
    exact if_pos ⟨rfl, both.2⟩
  · have security : wirelessSecurity settings = none := if_neg both
    rw [security]
    exact if_neg fun again => again.2 rfl

theorem mode_shown (mode : Mode) : choiceField modes Mode.text (some mode.text) = some mode := by
  cases mode <;> rfl

theorem band_shown (band : Band) : choiceField bands Band.text (some band.text) = some band := by
  cases band <;> rfl

theorem authMode_shown (authMode : AuthMode) :
    choiceField authModes AuthMode.text (some authMode.text) = some authMode := by
  cases authMode <;> rfl

theorem cleanWireless_formData (manager : Manager) (site : Site) {connection : Connection} {settings : Wireless}
    (accepted : settings.Accepted)
    (shown : connection.shownWireless = some (wirelessSettings settings))
    (security : connection.wirelessSecurity = wirelessSecurity settings) :
    cleanWireless site (formData manager connection) =
      some (readWireless (wirelessSettings settings) (wirelessSecurity settings)) := by
  have channel : integerField site.digits 0 255
      (some (Nat.toDigits 10 (wirelessSettings settings).channel)) =
        some (some (wirelessSettings settings).channel) := by
    have small : (wirelessSettings settings).channel ≤ 255 := by
      rw [channel_wirelessSettings]
      split
      · omega
      · cases given : settings.channel with
        | none => exact Nat.zero_le _
        | some number => exact accepted.channel number given
    exact integerField_toDigits site.digits (Nat.zero_le _) small (by omega)
  have bssid : regexField false isBssid (wirelessSettings settings).bssid =
      some ((wirelessSettings settings).bssid.getD []) := by
    unfold wirelessSettings
    dsimp only
    split
    · rfl
    · exact accepted.bssid
  have ssid : charField true anyText (some (wirelessSettings settings).ssid) =
      some (wirelessSettings settings).ssid := accepted.ssid
  have auth : (shownAuthMode (wirelessSecurity settings)).map AuthMode.text =
      some ((shownAuthMode (wirelessSecurity settings)).getD .open_).text := by
    unfold wirelessSecurity
    split <;> rfl
  have passphrase : charField false (fun text => 8 ≤ text.length)
      (shownPassphrase (wirelessSecurity settings)) =
        some ((shownPassphrase (wirelessSecurity settings)).getD []) := by
    unfold wirelessSecurity
    split
    · exact accepted.passphrase
    · rfl
  simp only [cleanWireless, formData, shown, security, Option.map_some, Option.bind_some,
    Option.bind_eq_bind, mode_shown, band_shown]
  rw [ssid, Option.bind_some, channel, Option.bind_some, bssid, Option.bind_some, auth,
    authMode_shown, Option.bind_some, passphrase]
  rfl

/-! ## The page submitted as it is -/

section Page

theorem bind_some {α β : Type} {first : Option α} {rest : α → Option β} {a : α}
    {result : Option β} (found : first = some a) (later : rest a = result) :
    (first >>= rest) = result := by
  rw [found]
  exact later

theorem bind_none {α β : Type} {first : Option α} {rest : α → Option β} (missing : first = none) :
    (first >>= rest) = none := by
  rw [missing]
  rfl

variable (manager : Manager) (site : Site)

def rereadAddressing (form : AddressingForm) : AddressingForm :=
  ⟨if site.isResolvedInstalled = true then form.dnsOverTls else .default,
    readIpv4 manager (ipv4Settings manager form.ipv4), readIpv6 (ipv6Settings form.ipv6)⟩

def reread : Cleaned → Cleaned
  | .generic connection form => .generic connection (rereadAddressing manager site form)
  | .ethernet connection form => .ethernet connection (rereadAddressing manager site form)
  | .pppoe connection form => .pppoe connection form
  | .wireless connection form settings =>
    .wireless connection (rereadAddressing manager site form)
      (readWireless (wirelessSettings settings) (wirelessSecurity settings))

theorem type_reread (cleaned : Cleaned) : (reread manager site cleaned).type = cleaned.type := by
  cases cleaned <;> rfl

theorem zone_shown (zone : Zone) : choiceField zones Zone.text (some zone.text) = some zone := by
  cases zone <;> rfl

theorem dnsOverTls_shown (dnsOverTls : DnsOverTls) :
    choiceField dnsOverTlsChoices DnsOverTls.text (some dnsOverTls.text) = some dnsOverTls := by
  cases dnsOverTls <;> rfl

theorem cleanConnection_formData {form : ConnectionForm} (accepted : form.Accepted)
    {connection : Connection} (deviceType : DeviceType)
    (name : connection.connection.id = some form.name)
    (interface : connection.connection.interfaceName = some form.interface)
    (zone : connection.connection.zone = some form.zone) :
    cleanConnection site (formData manager connection) deviceType =
      if form.interface ∈ getInterfaceChoices site deviceType then some form else none := by
  simp only [cleanConnection, formData, name, interface, zone, Option.map_some, zone_shown,
    accepted.name, Option.bind_eq_bind, Option.bind_some, interfaceField]
  by_cases offered : form.interface ∈ getInterfaceChoices site deviceType
  · rw [if_pos ⟨accepted.interface, offered⟩, if_pos offered]
    rfl
  · rw [if_neg fun both => offered both.2, if_neg offered]
    rfl

theorem cleanAddressing_formData {form : AddressingForm} (ipv4 : form.ipv4.Accepted)
    (ipv6 : form.ipv6.Accepted) {connection : Connection} (other : connection.isPppoe = false)
    (dnsOverTls : connection.connection.dnsOverTls = form.dnsOverTls)
    (shown4 : connection.ipv4 = some (ipv4Settings manager form.ipv4))
    (shown6 : connection.ipv6 = some (ipv6Settings form.ipv6)) :
    cleanAddressing site (formData manager connection) =
      some (rereadAddressing manager site form) := by
  have visible4 : connection.shownIpv4 = some (ipv4Settings manager form.ipv4) := by
    rw [Connection.shownIpv4, other, shown4]
    rfl
  have visible6 : connection.shownIpv6 = some (ipv6Settings form.ipv6) := by
    rw [Connection.shownIpv6, other, shown6]
    rfl
  have dns : dnsOverTlsField site (formData manager connection) =
      some (if site.isResolvedInstalled = true then form.dnsOverTls else .default) := by
    unfold dnsOverTlsField
    split
    · rename_i resolved
      simp only [formData, other, Bool.false_eq_true, if_false, dnsOverTls]
      exact dnsOverTls_shown form.dnsOverTls
    · rfl
  rw [cleanAddressing, dns, cleanIpv4_formData visible4 (readIpv4_accepted manager ipv4)]
  change (cleanIpv6 site (formData manager connection)).bind _ = _
  rw [cleanIpv6_formData visible6 (readIpv6_accepted ipv6)]
  rfl

theorem cleanPppoe_formData {form : Pppoe} (accepted : form.Accepted) {connection : Connection}
    (shown : connection.shownPppoe = some ⟨form.username, form.password⟩) :
    cleanPppoe (formData manager connection) = some form := by
  simp only [cleanPppoe, formData, shown, Option.map_some, accepted.username, accepted.password,
    Option.bind_eq_bind, Option.bind_some]
  rfl

theorem connection_made (uuid : List Char) (cleaned : Cleaned) :
    (made manager uuid cleaned).connection.id = some cleaned.connection.name ∧
      (made manager uuid cleaned).connection.interfaceName = some cleaned.connection.interface ∧
      (made manager uuid cleaned).connection.zone = some cleaned.connection.zone := by
  cases cleaned <;> exact ⟨rfl, rfl, rfl⟩

theorem cleanConnection_made (uuid : List Char) {cleaned : Cleaned} (accepted : cleaned.Accepted)
    (deviceType : DeviceType) :
    cleanConnection site (formData manager (made manager uuid cleaned)) deviceType =
      if cleaned.connection.interface ∈ getInterfaceChoices site deviceType then
        some cleaned.connection
      else none := by
  obtain ⟨name, interface, zone⟩ := connection_made manager uuid cleaned
  exact cleanConnection_formData manager site accepted.connection deviceType name interface zone

theorem cleanAddressing_made (uuid : List Char) {cleaned : Cleaned} (accepted : cleaned.Accepted)
    {form : AddressingForm} (known : cleaned.addressing = some form) :
    cleanAddressing site (formData manager (made manager uuid cleaned)) =
      some (rereadAddressing manager site form) := by
  have other : (made manager uuid cleaned).isPppoe = false := by
    cases cleaned <;> first | rfl | cases known
  have dnsOverTls : (made manager uuid cleaned).connection.dnsOverTls = form.dnsOverTls := by
    cases cleaned <;> cases known <;> rfl
  apply cleanAddressing_formData manager site (accepted.ipv4 form known)
    (accepted.ipv6 form known) other dnsOverTls
  · rw [ipv4_made, known]
    rfl
  · rw [ipv6_made, known]
    rfl

theorem clean_formData (uuid : List Char) {cleaned : Cleaned} (accepted : cleaned.Accepted) :
    clean site (formData manager (made manager uuid cleaned)) cleaned.type =
      if cleaned.connection.interface ∈ getInterfaceChoices site cleaned.deviceType then
        some (reread manager site cleaned)
      else none := by
  have connection := cleanConnection_made manager site uuid accepted cleaned.deviceType
  have addressed := fun form (known : cleaned.addressing = some form) =>
    cleanAddressing_made manager site uuid accepted known
  by_cases offered : cleaned.connection.interface ∈ getInterfaceChoices site cleaned.deviceType
  · rw [if_pos offered] at connection ⊢
    cases cleaned with
    | generic form addressing => exact bind_some connection (bind_some (addressed _ rfl) rfl)
    | ethernet form addressing => exact bind_some connection (bind_some (addressed _ rfl) rfl)
    | pppoe form settings =>
      have logged := cleanPppoe_formData manager (accepted.pppoe settings rfl)
        (show (made manager uuid (.pppoe form settings)).shownPppoe = _ from rfl)
      exact bind_some connection (bind_some logged rfl)
    | wireless form addressing settings =>
      have radio := cleanWireless_formData manager site (accepted.wireless settings rfl)
        (show (made manager uuid (.wireless form addressing settings)).shownWireless = _ from rfl)
        rfl
      exact bind_some connection (bind_some (addressed _ rfl) (bind_some radio rfl))
  · rw [if_neg offered] at connection ⊢
    cases cleaned <;> exact bind_none connection

theorem made_eq (uuid : List Char) (cleaned : Cleaned) : made manager uuid cleaned =
    { connection :=
        { uuid := uuid
          id := some cleaned.connection.name
          type := some cleaned.type
          interfaceName := some cleaned.connection.interface
          zone := some cleaned.connection.zone
          dnsOverTls := (cleaned.addressing.map (·.dnsOverTls)).getD .default }
      ipv4 := cleaned.addressing.map fun form => ipv4Settings manager form.ipv4
      ipv6 := cleaned.addressing.map fun form => ipv6Settings form.ipv6
      pppoe := cleaned.pppoeSettings.map fun form => ⟨form.username, form.password⟩
      ppp := cleaned.pppoeSettings.map fun _ => ⟨5, 30⟩
      wireless := cleaned.wirelessSettings.map wirelessSettings
      wirelessSecurity := cleaned.wirelessSettings.bind wirelessSecurity } := by
  cases cleaned <;> rfl

theorem made_reread_iff (uuid : List Char) (cleaned : Cleaned) :
    made manager uuid (reread manager site cleaned) = made manager uuid cleaned ↔
      ∀ form, cleaned.addressing = some form →
        site.isResolvedInstalled = true ∨ form.dnsOverTls = .default := by
  constructor
  · intro same form known
    have dns := congrArg (fun connection => connection.connection.dnsOverTls) same
    have again : (if site.isResolvedInstalled = true then form.dnsOverTls else .default) =
        form.dnsOverTls := by
      cases cleaned <;> cases known <;> exact dns
    split at again
    · exact .inl ‹_›
    · exact .inr again.symm
  · intro resolved
    have addressing : (reread manager site cleaned).addressing =
        cleaned.addressing.map (rereadAddressing manager site) := by
      cases cleaned <;> rfl
    have pppoe : (reread manager site cleaned).pppoeSettings = cleaned.pppoeSettings := by
      cases cleaned <;> rfl
    have connection : (reread manager site cleaned).connection = cleaned.connection := by
      cases cleaned <;> rfl
    have wireless : (reread manager site cleaned).wirelessSettings =
        cleaned.wirelessSettings.map fun settings =>
          readWireless (wirelessSettings settings) (wirelessSecurity settings) := by
      cases cleaned <;> rfl
    have dns : ∀ form, cleaned.addressing = some form →
        (rereadAddressing manager site form).dnsOverTls = form.dnsOverTls := by
      intro form known
      unfold rereadAddressing
      dsimp only
      split
      · rfl
      · rename_i missing
        exact ((resolved form known).resolve_left missing).symm
    rw [made_eq, made_eq, type_reread, connection, pppoe, addressing, wireless]
    congr 1
    · congr 1
      cases known : cleaned.addressing with
      | none => rfl
      | some form => exact dns form known
    · rw [Option.map_map]
      congr 1
      funext form
      exact ipv4Settings_again manager form.ipv4
    · rw [Option.map_map]
      congr 1
      funext form
      exact ipv6Settings_again form.ipv6
    · rw [Option.map_map]
      congr 1
      funext settings
      exact wirelessSettings_again settings
    · rw [Option.bind_map]
      congr 1
      funext settings
      exact wirelessSecurity_again settings

theorem reopens_made_iff (uuid : List Char) {cleaned : Cleaned} (accepted : cleaned.Accepted) :
    Reopens manager site (made manager uuid cleaned) ↔ Offers site cleaned := by
  have edited : edit manager site (made manager uuid cleaned)
      (formData manager (made manager uuid cleaned)) =
        if cleaned.connection.interface ∈ getInterfaceChoices site cleaned.deviceType then
          some (made manager uuid (reread manager site cleaned))
        else none := by
    have same := editConnection_made manager uuid (type_reread manager site cleaned).symm
    apply bind_some (type_made cleaned)
    rw [clean_formData manager site uuid accepted]
    split
    · exact congrArg some same
    · rfl
  unfold Reopens Offers
  rw [edited]
  split
  · rename_i offered
    rw [Option.some_inj, made_reread_iff]
    exact ⟨fun resolved => ⟨offered, resolved⟩, fun both => both.2⟩
  · rename_i missing
    exact iff_of_false nofun fun both => missing both.1

end Page

/-! ## Whole runs -/

/-- After any submissions, the connection carries what the last one asked for, is not open where
protection was chosen and is shown so that submitting the page changes nothing, exactly when the
last submission was a complete one and the page still offers what it chose. -/
theorem connection_round_trip_iff (manager : Manager) (uuid : List Char) (type : ConnectionType)
    (connection : Connection) (cleaned : Cleaned)
    (run : Run manager uuid type connection cleaned) (site : Site) :
    RoundTrip manager site connection cleaned ↔
      cleaned.Complete manager ∧ Offers site cleaned := by
  obtain ⟨rfl, _, accepted⟩ := run_made run
  have carries := carries_made_iff manager uuid accepted
  have reopens := reopens_made_iff manager site uuid accepted
  constructor
  · intro trip
    exact ⟨carries.mp ⟨trip.carries, trip.protected_⟩, reopens.mp trip.reopens⟩
  · rintro ⟨complete, offers⟩
    obtain ⟨carried, protected_⟩ := carries.mpr complete
    exact ⟨carried, protected_, reopens.mpr offers⟩

/-! ## A network at home -/

def maskOctet (length index : Nat) : Nat :=
  256 - 2 ^ (8 - min 8 (length - 8 * index))

def netmaskOf (length : Nat) : Nat :=
  maskOctet length 0 + 256 * (maskOctet length 1 + 256 * (maskOctet length 2 +
    256 * maskOctet length 3))

def prefixOf (netmask : Nat) : Nat :=
  ((List.range 33).find? fun length => netmaskOf length = netmask).getD 0

def classOf (address : Nat) : Nat :=
  if address % 256 < 128 then 8 else if address % 256 < 192 then 16 else 24

theorem prefixOf_netmaskOf {length : Nat} (small : length ≤ 32) :
    prefixOf (netmaskOf length) = length ∧ netmaskOf length < 2 ^ 32 := by
  have all : ((List.range 33).all fun length =>
      decide (prefixOf (netmaskOf length) = length ∧ netmaskOf length < 2 ^ 32)) = true := by
    decide +kernel
  exact of_decide_eq_true (List.all_eq_true.mp all length (List.mem_range.mpr (by omega)))

theorem prefixOf_le (netmask : Nat) : prefixOf netmask ≤ 32 := by
  unfold prefixOf
  cases found : (List.range 33).find? fun length => netmaskOf length = netmask with
  | none => exact Nat.zero_le _
  | some length =>
    have small := List.mem_range.mp (List.mem_of_find?_eq_some found)
    exact Nat.le_of_lt_succ small

theorem classOf_le (address : Nat) : classOf address ≤ 32 := by
  unfold classOf
  split
  · decide
  · split <;> decide

def homeManager : Manager where
  netmaskToPrefix := prefixOf
  prefixToNetmask := netmaskOf
  defaultPrefix := classOf
  inverse _ small := (prefixOf_netmaskOf small).1
  word _ small := (prefixOf_netmaskOf small).2
  netmaskToPrefix_le := prefixOf_le
  defaultPrefix_le := classOf_le

def homeInterfaces : DeviceType → List (List Char)
  | .wifi => ["wlan0".toList]
  | _ => []

def homeSite : Site :=
  ⟨Integer.asciiDigits, homeInterfaces, true⟩

def homeData (passphrase : List Char) : Data
  | .name => some "home".toList
  | .interface => some "wlan0".toList
  | .zone => some "internal".toList
  | .dnsOverTls => some "opportunistic".toList
  | .ipv4Method => some "manual".toList
  | .ipv4Address => some "192.168.7.1".toList
  | .ipv4Netmask => some "255.255.254.0".toList
  | .ipv4Dns => some "1.1.1.1".toList
  | .ipv6Method => some "ignore".toList
  | .ssid => some "home".toList
  | .mode => some "ap".toList
  | .band => some "bg".toList
  | .channel => some "6".toList
  | .authMode => some "wpa".toList
  | .passphrase => some passphrase
  | _ => none

def homeCleaned (passphrase : List Char) : Cleaned :=
  .wireless ⟨"home".toList, "wlan0".toList, .internal⟩
    ⟨.opportunistic,
      ⟨.manual, "192.168.7.1".toList, "255.255.254.0".toList, [], "1.1.1.1".toList, []⟩,
      ⟨.ignore, [], none, [], [], []⟩⟩
    ⟨"home".toList, .ap, .bg, some 6, [], .wpa, passphrase⟩

def homeUuid : List Char := "c4f0".toList

theorem home_run {passphrase : List Char}
    (accepted : charField false (fun text => 8 ≤ text.length) (some passphrase) =
      some passphrase) : Run homeManager homeUuid .wireless
        (made homeManager homeUuid (homeCleaned passphrase)) (homeCleaned passphrase) := by
  have radio : cleanWireless homeSite (homeData passphrase) =
      some ⟨"home".toList, .ap, .bg, some 6, [], .wpa, passphrase⟩ := by
    have channel : integerField homeSite.digits 0 255 (homeData passphrase .channel) =
        some (some 6) :=
      integerField_toDigits Integer.asciiDigits (Nat.zero_le 6) (by decide) (by decide)
    exact bind_some rfl (bind_some rfl (bind_some rfl (bind_some channel (bind_some rfl
      (bind_some rfl (bind_some accepted rfl))))))
  have cleaned : clean homeSite (homeData passphrase) .wireless =
      some (homeCleaned passphrase) :=
    bind_some rfl (bind_some rfl (bind_some radio rfl))
  exact .add cleaned (bind_some cleaned rfl)

theorem home_netmask : IsNetmask homeManager (ipv4StringToInt "255.255.254.0".toList) := by
  have mask : ipv4StringToInt "255.255.254.0".toList = netmaskOf 23 := by decide +kernel
  have same : prefixOf (netmaskOf 23) = 23 :=
    (prefixOf_netmaskOf (by decide : 23 ≤ 32)).1
  simp only [mask, IsNetmask, homeManager, same]

theorem home_round_trip : RoundTrip homeManager homeSite
    (made homeManager homeUuid (homeCleaned "correct horse".toList))
    (homeCleaned "correct horse".toList) := by
  apply (connection_round_trip_iff homeManager homeUuid .wireless _ _ (home_run rfl) homeSite).mpr
  refine ⟨⟨?_, ?_⟩, by decide, ?_⟩
  · rintro _ ⟨⟩
    exact ⟨fun _ => ⟨nofun, fun _ => home_netmask⟩, nofun⟩
  · rintro _ ⟨⟩
    exact ⟨iff_of_true rfl nofun, nofun⟩
  · rintro _ ⟨⟩
    exact .inl rfl

theorem home_left_open : ∃ connection cleaned,
    Run homeManager homeUuid .wireless connection cleaned ∧
      ¬ RoundTrip homeManager homeSite connection cleaned := by
  have accepted : charField false (fun text => 8 ≤ text.length) (some []) = some [] := rfl
  refine ⟨_, _, home_run accepted, fun trip => ?_⟩
  exact trip.protected_ _ rfl rfl rfl

end Plinth.Networks
