import Plinth.Lib.Forms
import Plinth.Lib.Python.IpAddress

/-!
# Network connections

Lines 312 to 481 and 510 to 565 of `plinth/network.py`, and the forms of
`plinth/modules/networks`: from what is submitted to a connection, and from a connection to what is
shown.
-/

namespace Plinth.Networks

open Python Forms

/-! ## Connections of NetworkManager -/

/-- What `libnm` computes with prefixes and netmasks. -/
structure Manager where
  netmaskToPrefix : Nat → Nat
  prefixToNetmask : Nat → Nat
  defaultPrefix : Nat → Nat
  inverse : ∀ length, length ≤ 32 → netmaskToPrefix (prefixToNetmask length) = length
  word : ∀ length, length ≤ 32 → prefixToNetmask length < 2 ^ 32
  netmaskToPrefix_le : ∀ netmask, netmaskToPrefix netmask ≤ 32
  defaultPrefix_le : ∀ address, defaultPrefix address ≤ 32

inductive ConnectionType
  | ethernet
  | wireless
  | pppoe
  | generic
  deriving DecidableEq

inductive Zone
  | external
  | internal
  deriving DecidableEq

inductive DnsOverTls
  | default
  | yes
  | opportunistic
  | no
  deriving DecidableEq

inductive Ipv4Method
  | auto
  | shared
  | manual
  | disabled
  deriving DecidableEq

inductive Ipv6Method
  | auto
  | dhcp
  | linkLocal
  | manual
  | ignore
  | disabled
  deriving DecidableEq

inductive Mode
  | infrastructure
  | ap
  | adhoc
  deriving DecidableEq

inductive Band
  | auto
  | a
  | bg
  deriving DecidableEq

inductive AuthMode
  | wpa
  | open_
  deriving DecidableEq

structure SettingConnection where
  uuid : List Char
  id : Option (List Char) := none
  type : Option ConnectionType := none
  interfaceName : Option (List Char) := none
  zone : Option Zone := none
  dnsOverTls : DnsOverTls := .default
  autoconnect : Bool := true

structure IpAddress where
  address : List Char
  prefixLength : Nat

structure SettingIpConfig (Method : Type) where
  method : Method
  addresses : List IpAddress := []
  gateway : Option (List Char) := none
  ignoreAutoDns : Bool := false
  dns : List (List Char) := []

structure SettingPppoe where
  username : List Char
  password : List Char

structure SettingPpp where
  lcpEchoFailure : Nat
  lcpEchoInterval : Nat

structure SettingWireless where
  ssid : List Char
  mode : Mode
  band : Option Band
  channel : Nat
  bssid : Option (List Char)

structure SettingWirelessSecurity where
  keyMgmt : List Char
  psk : List Char

structure Connection where
  connection : SettingConnection
  ipv4 : Option (SettingIpConfig Ipv4Method) := none
  ipv6 : Option (SettingIpConfig Ipv6Method) := none
  pppoe : Option SettingPppoe := none
  ppp : Option SettingPpp := none
  wireless : Option SettingWireless := none
  wirelessSecurity : Option SettingWirelessSecurity := none

/-! ## Settings of a form -/

structure Common where
  name : Option (List Char) := none
  type : Option ConnectionType := none
  interface : Option (List Char) := none
  zone : Option Zone := none
  dnsOverTls : Option DnsOverTls := none
  autoconnect : Option Bool := none

structure Ipv4 where
  method : Ipv4Method
  address : List Char
  netmask : List Char
  gateway : List Char
  dns : List Char
  secondDns : List Char

structure Ipv6 where
  method : Ipv6Method
  address : List Char
  prefixLength : Option Nat
  gateway : List Char
  dns : List Char
  secondDns : List Char

structure Pppoe where
  username : List Char
  password : List Char

structure Wireless where
  ssid : List Char
  mode : Mode
  band : Band
  channel : Option Nat
  bssid : List Char
  authMode : AuthMode
  passphrase : List Char

structure Settings where
  common : Common
  ipv4 : Option Ipv4 := none
  ipv6 : Option Ipv6 := none
  pppoe : Option Pppoe := none
  wireless : Option Wireless := none

/-! ## From settings to a connection -/

def octets (address : List Char) : List Nat :=
  (address.splitOn '.').map fun octet => Nat.ofDigitChars 10 octet 0

/-- The octets are the bytes of the number on a machine that stores the low ones first. -/
def ipv4StringToInt (address : List Char) : Nat :=
  (octets address).foldr (fun octet rest => octet + 256 * rest) 0

def octetsOf (address : Nat) : List Nat :=
  [address % 256, address / 256 % 256, address / 256 ^ 2 % 256, address / 256 ^ 3 % 256]

def ipv4IntToString (address : Nat) : List Char :=
  ['.'].intercalate ((octetsOf address).map (Nat.toDigits 10))

def updateCommonSettings (connection : Option Connection) (uuid : List Char) (common : Common) :
    Connection :=
  let connection := connection.getD { connection := { uuid := uuid } }
  { connection with
    connection :=
      { uuid := uuid
        id := common.name.or connection.connection.id
        type := common.type.or connection.connection.type
        interfaceName := common.interface.or connection.connection.interfaceName
        zone := common.zone.or connection.connection.zone
        dnsOverTls := common.dnsOverTls.getD connection.connection.dnsOverTls
        autoconnect := common.autoconnect.getD connection.connection.autoconnect } }

section IpSettings

variable {Method : Type} (settings : SettingIpConfig Method)

def addressed (address : IpAddress) (gateway unspecified : List Char) : SettingIpConfig Method :=
  { settings with
    addresses := settings.addresses ++ [address]
    gateway := some (if gateway = [] then unspecified else gateway) }

def unaddressed (dns secondDns : List Char) : SettingIpConfig Method :=
  if dns ≠ [] ∨ secondDns ≠ [] then { settings with ignoreAutoDns := true } else settings

def addDns (server : List Char) : SettingIpConfig Method :=
  if server = [] then settings else { settings with dns := settings.dns ++ [server] }

end IpSettings

/-- The methods for which `_update_ipv4_settings` looks at an address. -/
def Ipv4Method.TakesAddress (method : Ipv4Method) : Prop :=
  method = .manual ∨ method = .shared

instance : DecidablePred Ipv4Method.TakesAddress :=
  fun _ => inferInstanceAs (Decidable (_ ∨ _))

def ipv4UnspecifiedGateway : List Char := "0.0.0.0".toList

def ipv6UnspecifiedGateway : List Char := "::".toList

section Update

variable (manager : Manager)

def ipv4PrefixOf (ipv4 : Ipv4) : Nat :=
  if ipv4.netmask = [] then manager.defaultPrefix (ipv4StringToInt ipv4.address)
  else manager.netmaskToPrefix (ipv4StringToInt ipv4.netmask)

def updateIpv4Settings (connection : Connection) (ipv4 : Ipv4) : Connection :=
  let settings : SettingIpConfig Ipv4Method := { method := ipv4.method }
  let settings :=
    if ipv4.method.TakesAddress ∧ ipv4.address ≠ [] then
      addressed settings ⟨ipv4.address, ipv4PrefixOf manager ipv4⟩ ipv4.gateway
        ipv4UnspecifiedGateway
    else unaddressed settings ipv4.dns ipv4.secondDns
  { connection with ipv4 := some (addDns (addDns settings ipv4.dns) ipv4.secondDns) }

def ipv6AddressOf (ipv6 : Ipv6) : Option IpAddress :=
  if ipv6.method = .manual ∧ ipv6.address ≠ [] then
    ipv6.prefixLength.bind fun length =>
      if length = 0 then none else some ⟨ipv6.address, length⟩
  else none

def updateIpv6Settings (connection : Connection) (ipv6 : Ipv6) : Connection :=
  let settings : SettingIpConfig Ipv6Method := { method := ipv6.method }
  let settings :=
    match ipv6AddressOf ipv6 with
    | some address => addressed settings address ipv6.gateway ipv6UnspecifiedGateway
    | none => unaddressed settings ipv6.dns ipv6.secondDns
  { connection with ipv6 := some (addDns (addDns settings ipv6.dns) ipv6.secondDns) }

def updatePppoeSettings (connection : Connection) (pppoe : Pppoe) : Connection :=
  { connection with
    pppoe := some ⟨pppoe.username, pppoe.password⟩
    ppp := some ⟨5, 30⟩ }

def keyMgmt : List Char := "wpa-psk".toList

def updateWirelessSettings (connection : Connection) (wireless : Wireless) : Connection :=
  let channel :=
    if wireless.band = .auto ∨ wireless.channel.getD 0 = 0 then 0 else wireless.channel.getD 0
  { connection with
    wireless := some
      { ssid := wireless.ssid
        mode := wireless.mode
        band := if wireless.band ≠ .auto then some wireless.band else none
        channel := channel
        bssid := if wireless.bssid = [] then none else some wireless.bssid }
    wirelessSecurity :=
      if wireless.authMode = .wpa ∧ wireless.passphrase ≠ [] then
        some ⟨keyMgmt, wireless.passphrase⟩
      else none }

def updateWith {α : Type} (update : Connection → α → Connection) (connection : Connection)
    (settings : Option α) : Connection :=
  match settings with
  | some settings => update connection settings
  | none => connection

def updateSettings (connection : Option Connection) (uuid : List Char) (settings : Settings) :
    Connection :=
  let connection := updateCommonSettings connection uuid settings.common
  let connection := updateWith (updateIpv4Settings manager) connection settings.ipv4
  let connection := updateWith updateIpv6Settings connection settings.ipv6
  let connection := updateWith updatePppoeSettings connection settings.pppoe
  updateWith updateWirelessSettings connection settings.wireless

def addConnection (uuid : List Char) (settings : Settings) : Connection :=
  updateSettings manager none uuid settings

def editConnection (connection : Connection) (settings : Settings) : Connection :=
  updateSettings manager (some connection) connection.connection.uuid settings

end Update

/-! ## Forms -/

inductive Field
  | name
  | interface
  | zone
  | dnsOverTls
  | ipv4Method
  | ipv4Address
  | ipv4Netmask
  | ipv4Gateway
  | ipv4Dns
  | ipv4SecondDns
  | ipv6Method
  | ipv6Address
  | ipv6Prefix
  | ipv6Gateway
  | ipv6Dns
  | ipv6SecondDns
  | username
  | password
  | ssid
  | mode
  | band
  | channel
  | bssid
  | authMode
  | passphrase
  deriving DecidableEq

abbrev Data := Field → Option (List Char)

inductive DeviceType
  | ethernet
  | veth
  | wifi
  | generic
  deriving DecidableEq

structure Site where
  digits : Integer.Digits
  interfaceList : DeviceType → List (List Char)
  isResolvedInstalled : Bool

section Choices

def zones : List Zone := [.external, .internal]

def Zone.text : Zone → List Char
  | .external => "external".toList
  | .internal => "internal".toList

def dnsOverTlsChoices : List DnsOverTls := [.default, .yes, .opportunistic, .no]

def DnsOverTls.text : DnsOverTls → List Char
  | .default => "default".toList
  | .yes => "yes".toList
  | .opportunistic => "opportunistic".toList
  | .no => "no".toList

def ipv4Methods : List Ipv4Method := [.auto, .shared, .manual, .disabled]

def Ipv4Method.text : Ipv4Method → List Char
  | .auto => "auto".toList
  | .shared => "shared".toList
  | .manual => "manual".toList
  | .disabled => "disabled".toList

def ipv6Methods : List Ipv6Method := [.auto, .dhcp, .linkLocal, .manual, .ignore, .disabled]

def Ipv6Method.text : Ipv6Method → List Char
  | .auto => "auto".toList
  | .dhcp => "dhcp".toList
  | .linkLocal => "link-local".toList
  | .manual => "manual".toList
  | .ignore => "ignore".toList
  | .disabled => "disabled".toList

def modes : List Mode := [.infrastructure, .ap, .adhoc]

def Mode.text : Mode → List Char
  | .infrastructure => "infrastructure".toList
  | .ap => "ap".toList
  | .adhoc => "adhoc".toList

def bands : List Band := [.auto, .a, .bg]

def Band.text : Band → List Char
  | .auto => "auto".toList
  | .a => "a".toList
  | .bg => "bg".toList

def authModes : List AuthMode := [.wpa, .open_]

def AuthMode.text : AuthMode → List Char
  | .wpa => "wpa".toList
  | .open_ => "open".toList

end Choices

structure ConnectionForm where
  name : List Char
  interface : List Char
  zone : Zone

structure AddressingForm where
  dnsOverTls : DnsOverTls
  ipv4 : Ipv4
  ipv6 : Ipv6

inductive Cleaned
  | generic (connection : ConnectionForm) (addressing : AddressingForm)
  | ethernet (connection : ConnectionForm) (addressing : AddressingForm)
  | pppoe (connection : ConnectionForm) (settings : Pppoe)
  | wireless (connection : ConnectionForm) (addressing : AddressingForm) (settings : Wireless)

namespace Cleaned

def type : Cleaned → ConnectionType
  | generic .. => .generic
  | ethernet .. => .ethernet
  | pppoe .. => .pppoe
  | wireless .. => .wireless

def connection : Cleaned → ConnectionForm
  | generic connection _ => connection
  | ethernet connection _ => connection
  | pppoe connection _ => connection
  | wireless connection _ _ => connection

def addressing : Cleaned → Option AddressingForm
  | generic _ addressing => some addressing
  | ethernet _ addressing => some addressing
  | pppoe .. => none
  | wireless _ addressing _ => some addressing

def pppoeSettings : Cleaned → Option Pppoe
  | pppoe _ settings => some settings
  | _ => none

def wirelessSettings : Cleaned → Option Wireless
  | wireless _ _ settings => some settings
  | _ => none

/-- `get_settings` of each form -/
def getSettings (cleaned : Cleaned) : Settings :=
  let common : Common :=
    { name := some cleaned.connection.name
      type := some cleaned.type
      interface := some cleaned.connection.interface
      zone := some cleaned.connection.zone
      dnsOverTls := cleaned.addressing.map (·.dnsOverTls) }
  { common := common
    ipv4 := cleaned.addressing.map (·.ipv4)
    ipv6 := cleaned.addressing.map (·.ipv6)
    pppoe := cleaned.pppoeSettings
    wireless := cleaned.wirelessSettings }

end Cleaned

section Clean

variable (site : Site) (data : Data)

def anyText (_ : List Char) : Bool :=
  true

/-- `_get_interface_choices`, without what stands for none -/
def getInterfaceChoices (deviceType : DeviceType) : List (List Char) :=
  site.interfaceList deviceType ++
    if deviceType = .ethernet then site.interfaceList .veth else []

def interfaceField (choices : List (List Char)) (value : Option (List Char)) :
    Option (List Char) :=
  value.bind fun chosen => if chosen ≠ [] ∧ chosen ∈ choices then some chosen else none

def cleanConnection (deviceType : DeviceType) : Option ConnectionForm := do
  let name ← charField true anyText (data .name)
  let interface ← interfaceField (getInterfaceChoices site deviceType) (data .interface)
  let zone ← choiceField zones Zone.text (data .zone)
  return ⟨name, interface, zone⟩

def dnsOverTlsField : Option DnsOverTls :=
  if site.isResolvedInstalled = true then
    choiceField dnsOverTlsChoices DnsOverTls.text (data .dnsOverTls)
  else some .default

def cleanIpv4 : Option Ipv4 := do
  let method ← choiceField ipv4Methods Ipv4Method.text (data .ipv4Method)
  let address ← charField false IpAddress.isIpv4 (data .ipv4Address)
  let netmask ← charField false IpAddress.isIpv4 (data .ipv4Netmask)
  let gateway ← charField false IpAddress.isIpv4 (data .ipv4Gateway)
  let dns ← charField false IpAddress.isIpv4 (data .ipv4Dns)
  let secondDns ← charField false IpAddress.isIpv4 (data .ipv4SecondDns)
  return ⟨method, address, netmask, gateway, dns, secondDns⟩

def cleanIpv6 : Option Ipv6 := do
  let method ← choiceField ipv6Methods Ipv6Method.text (data .ipv6Method)
  let address ← charField false IpAddress.isIpv6 (data .ipv6Address)
  let prefixLength ← integerField site.digits 1 128 (data .ipv6Prefix)
  let gateway ← charField false IpAddress.isIpv6 (data .ipv6Gateway)
  let dns ← charField false IpAddress.isIpv6 (data .ipv6Dns)
  let secondDns ← charField false IpAddress.isIpv6 (data .ipv6SecondDns)
  return ⟨method, address, prefixLength, gateway, dns, secondDns⟩

def cleanAddressing : Option AddressingForm := do
  let dnsOverTls ← dnsOverTlsField site data
  let ipv4 ← cleanIpv4 data
  let ipv6 ← cleanIpv6 site data
  return ⟨dnsOverTls, ipv4, ipv6⟩

def cleanPppoe : Option Pppoe := do
  let username ← charField true anyText (data .username)
  let password ← charField true anyText (data .password)
  return ⟨username, password⟩

def isHexPair (part : List Char) : Bool :=
  part.length = 2 && part.all IpAddress.isHexDigit

def isBssid (text : List Char) : Bool :=
  let line := if text.getLast? = some '\n' then text.dropLast else text
  (line.splitOn ':').length = 6 && (line.splitOn ':').all isHexPair

def cleanWireless : Option Wireless := do
  let ssid ← charField true anyText (data .ssid)
  let mode ← choiceField modes Mode.text (data .mode)
  let band ← choiceField bands Band.text (data .band)
  let channel ← integerField site.digits 0 255 (data .channel)
  let bssid ← regexField false isBssid (data .bssid)
  let authMode ← choiceField authModes AuthMode.text (data .authMode)
  let passphrase ← charField false (fun text => 8 ≤ text.length) (data .passphrase)
  return ⟨ssid, mode, band, channel, bssid, authMode, passphrase⟩

/-- `is_valid` and the cleaned data of the form of a type -/
def clean : ConnectionType → Option Cleaned
  | .generic => do
      return .generic (← cleanConnection site data .generic) (← cleanAddressing site data)
  | .ethernet => do
      return .ethernet (← cleanConnection site data .ethernet) (← cleanAddressing site data)
  | .pppoe => do
      return .pppoe (← cleanConnection site data .ethernet) (← cleanPppoe data)
  | .wireless => do
      return .wireless (← cleanConnection site data .wifi) (← cleanAddressing site data)
        (← cleanWireless site data)

end Clean

/-! ## Editing -/

section Edit

variable (manager : Manager)

def firstAddress {Method : Type} (settings : SettingIpConfig Method) : Option IpAddress :=
  settings.addresses.head?

def shownNetmask (address : IpAddress) : List Char :=
  ipv4IntToString (manager.prefixToNetmask address.prefixLength)

def Connection.isPppoe (connection : Connection) : Bool :=
  connection.connection.type = some .pppoe

def Connection.shownIpv4 (connection : Connection) : Option (SettingIpConfig Ipv4Method) :=
  if connection.isPppoe then none else connection.ipv4

def Connection.shownIpv6 (connection : Connection) : Option (SettingIpConfig Ipv6Method) :=
  if connection.isPppoe then none else connection.ipv6

def Connection.shownWireless (connection : Connection) : Option SettingWireless :=
  if connection.connection.type = some .wireless then connection.wireless else none

def Connection.shownPppoe (connection : Connection) : Option SettingPppoe :=
  if connection.isPppoe then connection.pppoe else none

def shownAuthMode (security : Option SettingWirelessSecurity) : Option AuthMode :=
  match security with
  | some security => if security.keyMgmt = keyMgmt then some .wpa else none
  | none => some .open_

def shownPassphrase (security : Option SettingWirelessSecurity) : Option (List Char) :=
  security.bind fun security =>
    if security.keyMgmt = keyMgmt then some security.psk else none

def formData (connection : Connection) : Data
  | .name => connection.connection.id
  | .interface => connection.connection.interfaceName
  | .zone => connection.connection.zone.map Zone.text
  | .dnsOverTls =>
    if connection.isPppoe then none else some connection.connection.dnsOverTls.text
  | .ipv4Method => connection.shownIpv4.map fun settings => settings.method.text
  | .ipv4Address => connection.shownIpv4.bind fun settings =>
    (firstAddress settings).map IpAddress.address
  | .ipv4Netmask => connection.shownIpv4.bind fun settings =>
    (firstAddress settings).map (shownNetmask manager)
  | .ipv4Gateway => connection.shownIpv4.bind (·.gateway)
  | .ipv4Dns => connection.shownIpv4.bind (·.dns[0]?)
  | .ipv4SecondDns => connection.shownIpv4.bind (·.dns[1]?)
  | .ipv6Method => connection.shownIpv6.map fun settings => settings.method.text
  | .ipv6Address => connection.shownIpv6.bind fun settings =>
    (firstAddress settings).map IpAddress.address
  | .ipv6Prefix => connection.shownIpv6.bind fun settings =>
    (firstAddress settings).map fun address => Nat.toDigits 10 address.prefixLength
  | .ipv6Gateway => connection.shownIpv6.bind (·.gateway)
  | .ipv6Dns => connection.shownIpv6.bind (·.dns[0]?)
  | .ipv6SecondDns => connection.shownIpv6.bind (·.dns[1]?)
  | .username => connection.shownPppoe.map SettingPppoe.username
  | .password => connection.shownPppoe.map SettingPppoe.password
  | .ssid => connection.shownWireless.map SettingWireless.ssid
  | .mode => connection.shownWireless.map (·.mode.text)
  | .band => connection.shownWireless.map fun settings => (settings.band.getD .auto).text
  | .channel => connection.shownWireless.map fun settings => Nat.toDigits 10 settings.channel
  | .bssid => connection.shownWireless.bind (·.bssid)
  | .authMode => connection.shownWireless.bind fun _ =>
    (shownAuthMode connection.wirelessSecurity).map AuthMode.text
  | .passphrase => connection.shownWireless.bind fun _ =>
    shownPassphrase connection.wirelessSecurity

/-- The view `edit` for what is submitted: the connection that is committed. -/
def edit (site : Site) (connection : Connection) (data : Data) : Option Connection := do
  let type ← connection.connection.type
  let cleaned ← clean site data type
  return editConnection manager connection cleaned.getSettings

/-- The views `add_generic`, `add_ethernet`, `add_pppoe` and `add_wifi` -/
def add (site : Site) (uuid : List Char) (type : ConnectionType) (data : Data) :
    Option Connection := do
  let cleaned ← clean site data type
  return addConnection manager uuid cleaned.getSettings

end Edit

/-! ## What is asked for -/

section Asked

variable (manager : Manager)

/-- The connection of a type after submissions that were accepted, and what the last one was. -/
inductive Run (uuid : List Char) (type : ConnectionType) : Connection → Cleaned → Prop
  | add {site : Site} {data : Data} {connection : Connection} {cleaned : Cleaned}
      (accepted : clean site data type = some cleaned)
      (added : add manager site uuid type data = some connection) :
      Run uuid type connection cleaned
  | edit {site : Site} {data : Data} {connection connection' : Connection}
      {last cleaned : Cleaned} (run : Run uuid type connection last)
      (accepted : clean site data type = some cleaned)
      (edited : edit manager site connection data = some connection') :
      Run uuid type connection' cleaned

def servers (dns secondDns : List Char) : List (List Char) :=
  [dns, secondDns].filter (· ≠ [])

structure CarriesIpv4 (settings : SettingIpConfig Ipv4Method) (ipv4 : Ipv4) : Prop where
  method : settings.method = ipv4.method
  address : ipv4.method.TakesAddress → ipv4.address ≠ [] →
    settings.addresses.map IpAddress.address = [ipv4.address]
  netmask : ipv4.method.TakesAddress → ipv4.netmask ≠ [] →
    settings.addresses.map (fun address => manager.prefixToNetmask address.prefixLength) =
      [ipv4StringToInt ipv4.netmask]
  gateway : ipv4.method.TakesAddress → ipv4.gateway ≠ [] →
    settings.gateway = some ipv4.gateway
  dns : settings.dns = servers ipv4.dns ipv4.secondDns

structure CarriesIpv6 (settings : SettingIpConfig Ipv6Method) (ipv6 : Ipv6) : Prop where
  method : settings.method = ipv6.method
  address : ipv6.method = .manual → ipv6.address ≠ [] →
    settings.addresses.map IpAddress.address = [ipv6.address]
  prefixLength : ipv6.method = .manual → ∀ length, ipv6.prefixLength = some length →
    settings.addresses.map IpAddress.prefixLength = [length]
  gateway : ipv6.method = .manual → ipv6.gateway ≠ [] → settings.gateway = some ipv6.gateway
  dns : settings.dns = servers ipv6.dns ipv6.secondDns

structure CarriesWireless (connection : Connection) (settings : SettingWireless)
    (wireless : Wireless) : Prop where
  ssid : settings.ssid = wireless.ssid
  mode : settings.mode = wireless.mode
  band : settings.band.getD .auto = wireless.band
  channel : ∀ channel, wireless.channel = some channel → settings.channel = channel
  bssid : settings.bssid.getD [] = wireless.bssid
  passphrase : wireless.passphrase ≠ [] →
    connection.wirelessSecurity.map SettingWirelessSecurity.psk = some wireless.passphrase

structure Carries (connection : Connection) (cleaned : Cleaned) : Prop where
  name : connection.connection.id = some cleaned.connection.name
  interface : connection.connection.interfaceName = some cleaned.connection.interface
  zone : connection.connection.zone = some cleaned.connection.zone
  ipv4 : ∀ form, cleaned.addressing = some form →
    ∃ settings, connection.ipv4 = some settings ∧ CarriesIpv4 manager settings form.ipv4
  ipv6 : ∀ form, cleaned.addressing = some form →
    ∃ settings, connection.ipv6 = some settings ∧ CarriesIpv6 settings form.ipv6
  pppoe : ∀ form, cleaned.pppoeSettings = some form →
    connection.pppoe = some ⟨form.username, form.password⟩
  wireless : ∀ form, cleaned.wirelessSettings = some form →
    ∃ settings, connection.wireless = some settings ∧ CarriesWireless connection settings form

def Protected (connection : Connection) (cleaned : Cleaned) : Prop :=
  ∀ form, cleaned.wirelessSettings = some form → form.authMode = .wpa →
    connection.wirelessSecurity ≠ none

def Reopens (site : Site) (connection : Connection) : Prop :=
  edit manager site connection (formData manager connection) = some connection

structure RoundTrip (site : Site) (connection : Connection) (cleaned : Cleaned) : Prop where
  carries : Carries manager connection cleaned
  protected_ : Protected connection cleaned
  reopens : Reopens manager site connection

/-! ## When it holds -/

def IsNetmask (netmask : Nat) : Prop :=
  manager.prefixToNetmask (manager.netmaskToPrefix netmask) = netmask

def Ipv4.Complete (ipv4 : Ipv4) : Prop :=
  ipv4.method.TakesAddress →
    (ipv4.address = [] → ipv4.netmask = [] ∧ ipv4.gateway = []) ∧
      (ipv4.netmask ≠ [] → IsNetmask manager (ipv4StringToInt ipv4.netmask))

/-- The address and the prefix are given together, and a gateway only with them. -/
def Ipv6.Complete (ipv6 : Ipv6) : Prop :=
  ipv6.method = .manual →
    (ipv6.address = [] ↔ ipv6.prefixLength = none) ∧
      (ipv6.address = [] → ipv6.gateway = [])

/-- A passphrase is given for WPA and for nothing else, a channel only in a band. -/
def Wireless.Complete (wireless : Wireless) : Prop :=
  (wireless.authMode = .wpa ↔ wireless.passphrase ≠ []) ∧
    (wireless.band = .auto → wireless.channel.getD 0 = 0)

def Cleaned.Complete (cleaned : Cleaned) : Prop :=
  (∀ form, cleaned.addressing = some form →
    form.ipv4.Complete manager ∧ form.ipv6.Complete) ∧
  ∀ form, cleaned.wirelessSettings = some form → form.Complete

def Cleaned.deviceType : Cleaned → DeviceType
  | generic .. => .generic
  | ethernet .. => .ethernet
  | pppoe .. => .ethernet
  | wireless .. => .wifi

/-- The interface is still there, and so is the choice of encrypted name resolution. -/
def Offers (site : Site) (cleaned : Cleaned) : Prop :=
  cleaned.connection.interface ∈ getInterfaceChoices site cleaned.deviceType ∧
    ∀ form, cleaned.addressing = some form →
      site.isResolvedInstalled = true ∨ form.dnsOverTls = .default

end Asked

end Plinth.Networks
