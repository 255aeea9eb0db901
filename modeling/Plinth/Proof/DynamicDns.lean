import Plinth.Model.DynamicDns

/-!
# Dynamic DNS

The run ends early exactly when the status of a failure cannot be written: the exception has no
first argument, or the output of the command that failed is not a text.
-/

namespace Plinth.DynamicDns

open Effect Python Exception

variable (env : Environment)

/-! ## Descriptions -/

def Tells (exception : Exception) : Prop :=
  ∃ argument rest text, exception.args = argument :: rest ∧ env.str argument = .ok text

theorem tells_of_message {exception : Exception} {message : String}
    (args : exception.args = [.str message]) : Tells env exception :=
  ⟨.str message, [], message, args, env.str_str message⟩

def isText (output : Option Bytes) : Bool :=
  (output.bind decodeUtf8).isSome

def Describable : Raised → Prop
  | .calledProcessError _ stderr stdout => isText stderr ∧ isText stdout
  | .other exception => Tells env exception

theorem decodeOutput_ok_iff (output : Option Bytes) :
    (∃ text, decodeOutput output = .ok text) ↔ isText output := by
  cases output with
  | none => simp [decodeOutput, isText]
  | some output =>
    rw [decodeOutput, decode, isText, Option.bind_some]
    cases decodeUtf8 output <;> simp

theorem describe_ok_iff (raised : Raised) :
    (∃ description, describe env raised = .ok description) ↔ Describable env raised := by
  cases raised with
  | calledProcessError returncode stderr stdout =>
    rw [Describable, ← decodeOutput_ok_iff, ← decodeOutput_ok_iff, describe]
    constructor
    · rintro ⟨description, ok⟩
      obtain ⟨stderr, readStderr, ok⟩ := ok_of_bind ok
      obtain ⟨stdout, readStdout, ok⟩ := ok_of_bind ok
      exact ⟨⟨stderr, readStderr⟩, stdout, readStdout⟩
    · rintro ⟨⟨stderr, readStderr⟩, stdout, readStdout⟩
      exact ⟨_, bind_of_ok readStderr (bind_of_ok readStdout rfl)⟩
  | other exception =>
    obtain ⟨cls, args⟩ := exception
    cases args with
    | nil => simp [describe, Describable, Tells]
    | cons argument rest =>
      rw [describe, Describable]
      constructor
      · rintro ⟨description, ok⟩
        obtain ⟨text, told, _⟩ := ok_of_bind ok
        exact ⟨argument, rest, text, rfl, told⟩
      · rintro ⟨_, _, text, ⟨⟩, told⟩
        exact ⟨_, bind_of_ok told rfl⟩

/-! ## Attempts -/

def GnudipSurvives (domain : Domain) (ipType : IpType) : Prop :=
  ipType = .ipv4 ∧ ∀ password, domain.password = some password →
    RaisesOnly (Tells env) (env.requestGet (httpServer domain.server) []) ∧
    ∀ saltResponse, env.requestGet (httpServer domain.server) [] = .ok saltResponse →
      (∀ key ∈ saltKeys, (get saltResponse key).isSome) →
        RaisesOnly (Tells env) (env.requestGet (httpServer domain.server)
          (queryParams env (subdomain domain.domain domain.username) domain.username
            (env.md5 password) saltResponse))

theorem checkRequiredKeys_ok_iff (dictionary : List (String × String)) (keys : List String) :
    checkRequiredKeys dictionary keys = .ok () ↔ ∀ key ∈ keys, (get dictionary key).isSome := by
  simp [checkRequiredKeys, Option.isSome_iff_ne_none]

theorem raisesOnly_checkRequiredKeys (dictionary : List (String × String)) (keys : List String) :
    RaisesOnly (Tells env) (checkRequiredKeys dictionary keys) := by
  rw [checkRequiredKeys]
  split
  · exact raisesOnly_ok ()
  · exact (raisesOnly_error_iff _).mpr (tells_of_message env rfl)

theorem raisesOnly_int (text : List Char) :
    RaisesOnly (Tells env) (Integer.int env.digits text) := by
  intro e raises
  rcases Integer.int_error raises with rfl | rfl
  · exact tells_of_message env rfl
  · exact tells_of_message env rfl

theorem raisesOnly_checkRetc (retc : Int) : RaisesOnly (Tells env) (checkRetc retc) := by
  rw [checkRetc]
  split
  · exact raisesOnly_ok ()
  · exact (raisesOnly_error_iff _).mpr (tells_of_message env rfl)

theorem not_tells_of_no_args {exception : Exception} (args : exception.args = []) :
    ¬ Tells env exception := by
  rintro ⟨argument, rest, text, args', _⟩
  rw [args] at args'
  cases args'

theorem raisesOnly_gnudipUpdate_iff (domain : Domain) (ipType : IpType) :
    RaisesOnly (Tells env) (gnudipUpdate env domain.server ipType domain.domain domain.username
      domain.password) ↔ GnudipSurvives env domain ipType := by
  rw [gnudipUpdate, GnudipSurvives]
  cases ipType with
  | ipv6 =>
    constructor
    · intro only
      exact absurd (only NotImplementedError rfl) (not_tells_of_no_args env rfl)
    · rintro ⟨⟨⟩, _⟩
  | ipv4 =>
    cases domain.password with
    | none =>
      constructor
      · exact fun _ => ⟨rfl, nofun⟩
      · rintro _ e ⟨⟩
        exact tells_of_message env rfl
    | some password =>
      show RaisesOnly _ (env.requestGet (httpServer domain.server) [] >>= _) ↔ _
      constructor
      · intro only
        obtain ⟨first, rest⟩ := raisesOnly_bind_iff.mp only
        refine ⟨rfl, fun _ same => ?_⟩
        cases same
        refine ⟨first, fun saltResponse answered keys => ?_⟩
        have checked := (raisesOnly_bind_iff.mp (rest saltResponse answered)).2 ()
          ((checkRequiredKeys_ok_iff ..).mpr keys)
        exact (raisesOnly_bind_iff.mp checked).1
      · rintro ⟨_, survives⟩
        obtain ⟨first, second⟩ := survives password rfl
        refine raisesOnly_bind_iff.mpr ⟨first, fun saltResponse answered => ?_⟩
        refine raisesOnly_bind_iff.mpr ⟨raisesOnly_checkRequiredKeys env _ _, fun _ keys => ?_⟩
        have requested := second saltResponse answered ((checkRequiredKeys_ok_iff ..).mp keys)
        refine raisesOnly_bind_iff.mpr ⟨requested, fun updateResult _ => ?_⟩
        refine raisesOnly_bind_iff.mpr ⟨raisesOnly_checkRequiredKeys env _ _, fun _ _ => ?_⟩
        refine raisesOnly_bind_iff.mpr ⟨raisesOnly_int env _, fun retc _ => ?_⟩
        exact raisesOnly_bind_iff.mpr ⟨raisesOnly_checkRetc env retc, fun _ _ => raisesOnly_ok _⟩

def GenericSurvives (domain : Domain) (ipType : IpType) (externalAddress : Option String) : Prop :=
  ∀ command, (wgetCommand domain ipType externalAddress).mapM id = some command →
    RaisesOnly (Tells env) (env.wget command) ∧
    ∀ process, env.wget command = .ok process → process.returncode ≠ 0 →
      isText (some process.stderr) ∧ isText (some process.stdout)

theorem raisesOnly_genericUpdate_iff (domain : Domain) (ipType : IpType)
    (externalAddress : Option String) :
    RaisesOnly (Describable env) (genericUpdate env domain ipType externalAddress) ↔
      GenericSurvives env domain ipType externalAddress := by
  rw [genericUpdate, GenericSurvives]
  cases (wgetCommand domain ipType externalAddress).mapM id with
  | none => exact iff_of_true ((raisesOnly_error_iff _).mpr (tells_of_message env rfl)) nofun
  | some command =>
    simp only [Option.some.injEq, forall_eq']
    cases env.wget command with
    | error e => simp [raisesOnly_error_iff, Describable]
    | ok process =>
      by_cases failed : process.returncode ≠ 0
      · simp [failed, raisesOnly_error_iff, raisesOnly_ok, Describable]
      · simp [failed, raisesOnly_ok]

def Survives (domain : Domain) (ipType : IpType) : Prop :=
  RaisesOnly (Tells env) (env.host (hostCommand domain.domain ipType)) ∧
  ∀ dnsAddress externalAddress,
    checkUptodateForIpType env domain ipType = .ok (false, dnsAddress, externalAddress) →
      if domain.serviceType = "gnudip" then GnudipSurvives env domain ipType
      else GenericSurvives env domain ipType externalAddress

theorem raisesOnly_queryDnsAddress_iff (domain : String) (ipType : IpType) :
    RaisesOnly (Describable env) (queryDnsAddress env domain ipType) ↔
      RaisesOnly (Tells env) (env.host (hostCommand domain ipType)) := by
  rw [queryDnsAddress]
  cases env.host (hostCommand domain ipType) with
  | error e => simp [raisesOnly_error_iff, Describable]
  | ok process =>
    refine iff_of_true ?_ (raisesOnly_ok process)
    dsimp only
    split
    · exact raisesOnly_ok _
    · rw [decode]
      cases decodeUtf8 process.stdout with
      | none => exact (raisesOnly_error_iff _).mpr ⟨_, _, _, rfl, env.str_str _⟩
      | some output => exact raisesOnly_ok _

theorem raisesOnly_attempt_iff (domain : Domain) (ipType : IpType) :
    RaisesOnly (Describable env) (attempt env domain ipType) ↔ Survives env domain ipType := by
  rw [attempt, raisesOnly_bind_iff, Survives]
  have lookup : RaisesOnly (Describable env) (checkUptodateForIpType env domain ipType) ↔
      RaisesOnly (Describable env) (queryDnsAddress env domain.domain ipType) := by
    rw [checkUptodateForIpType, raisesOnly_bind_iff]
    exact and_iff_left fun dnsAddress _ => raisesOnly_ok _
  rw [lookup, raisesOnly_queryDnsAddress_iff]
  refine and_congr_right fun _ => ?_
  constructor
  · intro only dnsAddress externalAddress outdated
    have update := only _ outdated
    change RaisesOnly _ (updateDnsForDomain env domain ipType externalAddress) at update
    rw [updateDnsForDomain] at update
    split
    · next gnudip =>
      rw [if_pos gnudip, raisesOnly_mapError_iff] at update
      exact (raisesOnly_gnudipUpdate_iff env domain ipType).mp update
    · next generic =>
      rw [if_neg generic] at update
      exact (raisesOnly_genericUpdate_iff env domain ipType externalAddress).mp update
  · rintro survives ⟨uptodate, dnsAddress, externalAddress⟩ found
    cases uptodate with
    | true => exact raisesOnly_ok _
    | false =>
      have update := survives dnsAddress externalAddress found
      show RaisesOnly _ (updateDnsForDomain env domain ipType externalAddress)
      rw [updateDnsForDomain]
      split
      · next gnudip =>
        rw [if_pos gnudip] at update
        exact (raisesOnly_mapError_iff ..).mpr
          ((raisesOnly_gnudipUpdate_iff env domain ipType).mpr update)
      · next generic =>
        rw [if_neg generic] at update
        exact (raisesOnly_genericUpdate_iff env domain ipType externalAddress).mpr update

/-! ## A domain -/

theorem checkIpType_ok_iff (domain : Domain) (outcome : Outcome) (ipType : IpType) :
    (∃ outcome', checkIpType env domain outcome ipType = .ok outcome') ↔
      Survives env domain ipType := by
  rw [← raisesOnly_attempt_iff, checkIpType]
  cases attempt env domain ipType with
  | ok ipAddress => exact iff_of_true ⟨_, rfl⟩ (raisesOnly_ok ipAddress)
  | error raised =>
    rw [raisesOnly_error_iff, ← describe_ok_iff]
    constructor
    · rintro ⟨outcome', ok⟩
      obtain ⟨description, described, _⟩ := ok_of_bind ok
      exact ⟨description, described⟩
    · rintro ⟨description, described⟩
      exact ⟨_, bind_of_ok described rfl⟩

theorem result_checkIpType {domain : Domain} {outcome outcome' : Outcome} {ipType : IpType}
    (ok : checkIpType env domain outcome ipType = .ok outcome') :
    outcome'.result = true ↔
      outcome.result = true ∧ ∃ address, attempt env domain ipType = .ok address := by
  rw [checkIpType] at ok
  cases tried : attempt env domain ipType with
  | ok ipAddress =>
    rw [tried] at ok
    cases ok
    simp
  | error raised =>
    rw [tried] at ok
    obtain ⟨description, _, ok⟩ := ok_of_bind ok
    cases ok
    simp

theorem foldlM_checkIpType_ok_iff (domain : Domain) (ipTypes : List IpType) (outcome : Outcome) :
    (∃ outcome', ipTypes.foldlM (checkIpType env domain) outcome = .ok outcome') ↔
      ∀ ipType ∈ ipTypes, Survives env domain ipType := by
  induction ipTypes generalizing outcome with
  | nil => exact iff_of_true ⟨outcome, rfl⟩ nofun
  | cons ipType ipTypes ih =>
    rw [List.forall_mem_cons, ← checkIpType_ok_iff env domain outcome ipType, List.foldlM_cons]
    constructor
    · rintro ⟨outcome'', ok⟩
      obtain ⟨outcome', first, rest⟩ := ok_of_bind ok
      exact ⟨⟨outcome', first⟩, (ih outcome').mp ⟨outcome'', rest⟩⟩
    · rintro ⟨⟨outcome', first⟩, survive⟩
      obtain ⟨outcome'', rest⟩ := (ih outcome').mpr survive
      exact ⟨outcome'', bind_of_ok first rest⟩

theorem result_foldlM_checkIpType {domain : Domain} {ipTypes : List IpType}
    {outcome outcome' : Outcome}
    (ok : ipTypes.foldlM (checkIpType env domain) outcome = .ok outcome') :
    outcome'.result = true ↔ outcome.result = true ∧
      ∀ ipType ∈ ipTypes, ∃ address, attempt env domain ipType = .ok address := by
  induction ipTypes generalizing outcome with
  | nil =>
    cases ok
    simp
  | cons ipType ipTypes ih =>
    obtain ⟨middle, first, rest⟩ := ok_of_bind ok
    rw [ih rest, result_checkIpType env first, List.forall_mem_cons, and_assoc]

/-! ## All domains -/

structure Recorded (domain : Domain) (status : DomainStatus) : Prop where
  named : status.domain = domain.domain
  timestamp : status.timestamp = env.time domain
  result : status.result = true ↔
    ∀ ipType ∈ domain.ipTypes, ∃ address, attempt env domain ipType = .ok address

theorem exec_check_of_survives {domain : Domain}
    (survives : ∀ ipType ∈ domain.ipTypes, Survives env domain ipType) (s : State) :
    ∃ status, Recorded env domain status ∧ (checkAndUpdateDnsForDomain env domain).exec s =
      (.ok (), { s with status := s.status.set domain.domain status }) := by
  obtain ⟨outcome, ok⟩ := (foldlM_checkIpType_ok_iff env domain _ .initial).mpr survives
  refine ⟨newStatus env domain outcome, ⟨rfl, rfl, ?_⟩, ?_⟩
  · show outcome.result = true ↔ _
    rw [result_foldlM_checkIpType env ok]
    exact and_iff_right rfl
  · rw [checkAndUpdateDnsForDomain, ok]
    rfl

theorem survives_of_exec_check {domain : Domain} {s s' : State}
    (ok : (checkAndUpdateDnsForDomain env domain).exec s = (.ok (), s')) :
    ∀ ipType ∈ domain.ipTypes, Survives env domain ipType := by
  obtain ⟨outcome, s₁, checked, _⟩ := exec_bind_eq_ok_iff.mp ok
  refine (foldlM_checkIpType_ok_iff env domain _ .initial).mp ⟨outcome, ?_⟩
  rw [exec_lift] at checked
  exact (Prod.mk.inj checked).1

theorem exec_forEach_of_survives {domains : List Domain}
    (distinct : (domains.map Domain.domain).Nodup)
    (survive : ∀ domain ∈ domains, ∀ ipType ∈ domain.ipTypes, Survives env domain ipType)
    (s : State) :
    ∃ s', (forEach domains (checkAndUpdateDnsForDomain env)).exec s = (.ok (), s') ∧
      (∀ name, name ∉ domains.map Domain.domain → s'.status.get? name = s.status.get? name) ∧
      ∀ domain ∈ domains, ∃ status, s'.status.get? domain.domain = some status ∧
        Recorded env domain status := by
  induction domains generalizing s with
  | nil => exact ⟨s, rfl, fun _ _ => rfl, nofun⟩
  | cons domain domains ih =>
    obtain ⟨fresh, distinct⟩ := List.nodup_cons.mp distinct
    obtain ⟨here, others⟩ := List.forall_mem_cons.mp survive
    obtain ⟨status, recorded, first⟩ := exec_check_of_survives env here s
    obtain ⟨s', rest, frame, all⟩ := ih distinct others _
    refine ⟨s', (exec_bind_of_ok first).trans rest, ?_, ?_⟩
    · intro name other
      rw [List.map_cons, List.mem_cons, not_or] at other
      rw [frame name other.2]
      exact (OrderedDict.get?_set ..).trans (if_neg other.1)
    · refine List.forall_mem_cons.mpr ⟨⟨status, ?_, recorded⟩, all⟩
      rw [frame _ fresh]
      exact OrderedDict.get?_set_self ..

theorem survives_of_exec_forEach {domains : List Domain} {s s' : State}
    (ok : (forEach domains (checkAndUpdateDnsForDomain env)).exec s = (.ok (), s')) :
    ∀ domain ∈ domains, ∀ ipType ∈ domain.ipTypes, Survives env domain ipType := by
  induction domains generalizing s with
  | nil => exact nofun
  | cons domain domains ih =>
    obtain ⟨_, s₁, first, rest⟩ := exec_bind_eq_ok_iff.mp ok
    exact List.forall_mem_cons.mpr ⟨survives_of_exec_check env first, ih rest⟩

theorem nodup_names (config : Config) :
    ((migrateOldConfig config).domains.values.map Domain.domain).Nodup := by
  have names : (migrateOldConfig config).domains.values.map Domain.domain =
      (config.domains.erase "null").keys := by
    show (((config.domains.erase "null").entries.map fun entry =>
      (entry.1, migrateDomain entry.2)).map Prod.snd).map Domain.domain = _
    rw [List.map_map, List.map_map]
    apply List.map_congr_left
    intro entry member
    obtain ⟨inside, notNull⟩ := List.mem_filter.mp member
    exact (migrateDomain_domain entry.2).trans
      (config.named entry inside (of_decide_eq_true notNull))
  rw [names]
  exact (config.domains.erase "null").nodup

def Isolates (s : State) : Prop :=
  ∃ s', (updateDns env).exec s = (.ok (), s') ∧
    (env.isEnabled = true → ∀ domain ∈ (migrateOldConfig s.config).domains.values,
      ∃ status, s'.status.get? domain.domain = some status ∧ Recorded env domain status)

theorem exec_updateDns (s : State) :
    (updateDns env).exec s =
      (when env.isEnabled (forEach (migrateOldConfig s.config).domains.values
        (checkAndUpdateDnsForDomain env))).exec { s with config := migrateOldConfig s.config } :=
  rfl

theorem isolates_iff (s : State) :
    Isolates env s ↔ env.isEnabled = false ∨
      ∀ domain ∈ (migrateOldConfig s.config).domains.values, ∀ ipType ∈ domain.ipTypes,
        Survives env domain ipType := by
  rw [Isolates, exec_updateDns]
  cases enabled : env.isEnabled with
  | false =>
    rw [when_of_not (by decide)]
    exact iff_of_true ⟨_, rfl, nofun⟩ (.inl rfl)
  | true =>
    rw [when_of (by decide)]
    constructor
    · rintro ⟨s', ran, _⟩
      exact .inr (survives_of_exec_forEach env ran)
    · rintro (⟨⟨⟩⟩ | survive)
      obtain ⟨s', ran, _, recorded⟩ :=
        exec_forEach_of_survives env (nodup_names s.config) survive _
      exact ⟨s', ran, fun _ => recorded⟩

/-! ## Runs that end early -/

def asciiDigits : Integer.Digits where
  value c := if c.isDigit then some (c.toNat - '0'.toNat) else none
  ascii _ digit := if_pos digit

def cutOff : Environment where
  isEnabled := true
  time _ := 0
  digits := asciiDigits
  lower s := s.map Char.toLower
  md5 s := s
  host _ := .ok ⟨1, [], []⟩
  lookupPublicAddress _ := .ok "2001:db8::1"
  wget _ := .ok ⟨4, [0xc3], []⟩
  requestGet _ _ := .error (ConnectionError "unreachable")
  str value := match value with
    | .str s => .ok s
    | _ => .error (TypeError "not a text")
  str_str _ := rfl

def gnudipDomain : Domain where
  domain := "a.example"
  ipSetting := .useIpv6 true
  serviceType := "gnudip"
  server := "example"
  updateUrl := ""
  username := "user"
  password := some "password"
  useHttpBasicAuth := false
  disableSslCertCheck := false

def urlDomain (domain : String) : Domain :=
  { gnudipDomain with
    domain, ipSetting := .ipType .ipv4, serviceType := "other", updateUrl := "https://example/" }

def gnudipFirst : State where
  config :=
    { domains := ⟨[("a.example", gnudipDomain), ("b.example", urlDomain "b.example")], by decide⟩
      named := by decide }
  status := OrderedDict.empty

def urlsOnly : State where
  config :=
    { domains := ⟨[("a.example", urlDomain "a.example"), ("b.example", urlDomain "b.example")],
        by decide⟩
      named := by decide }
  status := OrderedDict.empty

theorem not_isolates_of_raises {s : State}
    (raises : ((updateDns env).exec s).1.isOk = false) : ¬ Isolates env s := by
  rintro ⟨s', ran, _⟩
  rw [ran] at raises
  cases raises

theorem runs_end_early : ¬ Isolates cutOff gnudipFirst ∧ ¬ Isolates cutOff urlsOnly :=
  ⟨not_isolates_of_raises cutOff (by decide +kernel),
    not_isolates_of_raises cutOff (by decide +kernel)⟩

end Plinth.DynamicDns
