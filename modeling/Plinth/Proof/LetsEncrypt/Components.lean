import Plinth.Proof.LetsEncrypt.Certificates

/-! # The status after the setup of certificates -/

namespace Plinth.LetsEncrypt.Certificates

open Python Exception Pathlib FileSystem Effect

theorem Template.text_of_plain {template : Template} (plain : ¬ template.HasDomain)
    (domain : Text) : template.text = template.format domain := by
  refine congrArg List.flatten (List.map_congr_left fun piece member => ?_)
  cases piece with
  | char c => rfl
  | domain => exact absurd member plain

namespace Component

variable {env : Environment} {component : Component}

def setupRequest (destinations : Destinations) (status : Status) (domain : Text) : Request :=
  match certified status domain with
  | some certificate => compareRequest destinations domain certificate.lineage
  | none => ⟨destinations.managingApp, snakeoilKey, snakeoilCertificate,
      destinations.privateKeyPath.format domain, destinations.certificatePath.format domain⟩

theorem exec_copyTo (destinations : Destinations) (domain sourcePrivateKey sourceCertificate : Text)
    {s s' : System}
    (ran : (copyTo env destinations [domain] sourcePrivateKey sourceCertificate).exec s =
      (.ok (), s')) :
    (copyPaths env destinations sourcePrivateKey sourceCertificate
      (destinations.privateKeyPath.format domain)
      (destinations.certificatePath.format domain)).exec s = (.ok (), s') := by
  unfold copyTo at ran
  split at ran
  · obtain ⟨⟨⟩, between, first, later⟩ := returns_of_bind ran
    cases later
    exact first
  · rename_i plain
    rw [not_or] at plain
    rwa [Template.text_of_plain plain.1 domain, Template.text_of_plain plain.2 domain] at ran

theorem copyCertificates_ok {domain sourcePrivateKey sourceCertificate : Text} {s s' : System}
    (ran : (component.copyCertificates env [domain] sourcePrivateKey sourceCertificate).exec s =
      (.ok (), s')) :
    ∃ destinations, component.destinations = some destinations ∧
      (copyCertificate env.toHost ⟨destinations.managingApp, sourcePrivateKey, sourceCertificate,
        destinations.privateKeyPath.format domain, destinations.certificatePath.format domain⟩
        destinations.userOwner destinations.groupOwner).exec s = (.ok (), s') := by
  unfold copyCertificates at ran
  obtain ⟨destinations, between, needed, ran⟩ := returns_of_bind ran
  rw [exec_lift, Prod.mk.injEq] at needed
  obtain ⟨needed, rfl⟩ := needed
  refine ⟨destinations, ?_, exec_copyTo destinations domain _ _ ran⟩
  unfold needDestinations at needed
  split at needed
  · cases needed
    assumption
  · cases needed

theorem setupDomain_ok {status : Status} {domain : Text} {s s' : System}
    (ran : (component.setupDomain env status domain).exec s = (.ok (), s')) :
    ∃ destinations, component.destinations = some destinations ∧
      (copyCertificate env.toHost (setupRequest destinations status domain)
        destinations.userOwner destinations.groupOwner).exec s = (.ok (), s') := by
  unfold setupDomain at ran
  cases found : certified status domain with
  | none =>
    rw [found] at ran
    obtain ⟨destinations, given, ran⟩ := copyCertificates_ok ran
    refine ⟨destinations, given, ?_⟩
    rwa [setupRequest, found]
  | some certificate =>
    rw [found] at ran
    obtain ⟨destinations, given, ran⟩ := copyCertificates_ok ran
    refine ⟨destinations, given, ?_⟩
    rwa [setupRequest, found]

def plan (env : Environment) (fs : FileSystem) (destinations : Destinations) (status : Status)
    (domains : List Text) : Except Exception (List Copy) :=
  domains.mapM fun domain => locate env.toHost fs (setupRequest destinations status domain)

theorem setupDomains_ok {destinations : Destinations}
    (given : component.destinations = some destinations) {status : Status} {domains : List Text}
    {copies : List Copy} {fs : FileSystem} {s s' : System} (before : AfterAll copies fs s.fs)
    (ran : (forEach domains (component.setupDomain env status)).exec s = (.ok (), s')) :
    ∃ more, plan env fs destinations status domains = .ok more ∧
      AfterAll (copies ++ more) fs s'.fs := by
  induction domains generalizing copies s with
  | nil =>
    cases ran
    exact ⟨[], rfl, by rwa [List.append_nil]⟩
  | cons domain domains ih =>
    obtain ⟨⟨⟩, between, first, later⟩ := returns_of_bind ran
    obtain ⟨destinations', given', first⟩ := setupDomain_ok first
    rw [given] at given'
    cases given'
    obtain ⟨copy, located, after⟩ := copyCertificate_spec first
    rw [← locate_congr before.links] at located
    obtain ⟨more, planned, afterAll⟩ := ih (before.snoc after) later
    refine ⟨copy :: more, ?_, by rwa [List.append_cons]⟩
    rw [plan, List.mapM_cons]
    exact bind_of_ok located (bind_of_ok planned rfl)

theorem plan_each {fs : FileSystem} {destinations : Destinations} {status : Status}
    {domains : List Text} {copies : List Copy}
    (planned : plan env fs destinations status domains = .ok copies) {domain : Text}
    (member : domain ∈ domains) :
    ∃ copy ∈ copies, locate env.toHost fs (setupRequest destinations status domain) = .ok copy := by
  obtain ⟨copy, located⟩ := mapM_returns_iff.mp ⟨copies, planned⟩ domain member
  exact ⟨copy, (mem_mapM_iff planned copy).mpr ⟨domain, member, located⟩, located⟩

theorem restartDaemons_fs {s s' : System} {result : Except Exception Unit}
    (ran : (component.restartDaemons env).exec s = (result, s')) : s'.fs = s.fs := by
  have keeps : Keeps (fun s : System => s.fs) (component.restartDaemons env) := by
    unfold restartDaemons
    split
    · exact keeps_throw _
    · apply Keeps.forEach
      intro daemon _ s
      rw [exec_lift]
  have same := keeps s
  rwa [ran] at same

theorem setupCertificates_ok {s s' : System}
    (ran : (component.setupCertificates env none).exec s = (.ok (), s')) :
    ∃ names status, component.names = .ok names ∧ env.status = .ok status ∧
      (component.shouldCopyCertificates = true →
        ∃ destinations copies, component.destinations = some destinations ∧
          plan env s.fs destinations status (handledOf env names) = .ok copies ∧
            AfterAll copies s.fs s'.fs) := by
  unfold setupCertificates at ran
  obtain ⟨names, between, named, ran⟩ := returns_of_bind ran
  rw [exec_lift, Prod.mk.injEq] at named
  obtain ⟨named, rfl⟩ := named
  obtain ⟨status, between, stated, ran⟩ := returns_of_bind ran
  rw [exec_lift, Prod.mk.injEq] at stated
  obtain ⟨stated, rfl⟩ := stated
  obtain ⟨⟨⟩, between', copied, restarted⟩ := returns_of_bind ran
  refine ⟨names, status, named, stated, fun copies => ?_⟩
  obtain ⟨destinations, given⟩ := Option.isSome_iff_exists.mp (component.complete copies)
  rw [when_of copies] at copied
  obtain ⟨more, planned, after⟩ := setupDomains_ok given (.nil _) copied
  refine ⟨destinations, more, given, planned, ?_⟩
  rw [restartDaemons_fs restarted]
  exact after

/-! ## The status -/

abbrev KeepsFiles {α : Type} (action : Action α) : Prop :=
  Keeps (fun s : System => s.fs) action

theorem keepsFiles_stat {host : Host} (text : Text) : KeepsFiles (stat host text) := by
  refine keeps_get.bind fun s => (keeps_lift _).bind fun location => ?_
  refine Keeps.bind (keeps_modify fun _ => rfl) fun _ => ?_
  split
  · exact keeps_pure _
  · exact keeps_throw _

theorem keepsFiles_cmp {host : Host} (first second : Text) : KeepsFiles (cmp host first second) :=
  (keepsFiles_stat first).bind fun _ => (keepsFiles_stat second).bind fun _ => keeps_pure _

theorem keepsFiles_compareCertificate {host : Host} (request : Request) :
    KeepsFiles (compareCertificate host request) := by
  refine (keeps_lift _).bind fun _ => Keeps.tryCatch ?_ fun e => ?_
  · refine (keepsFiles_cmp _ _).bind fun same => ?_
    split
    · exact keepsFiles_cmp _ _
    · exact keeps_pure _
  · unfold catchMissing
    split
    · exact keeps_pure _
    · exact keeps_throw _

variable (env component) in
theorem keepsFiles_domainState (status : Status) (domain : Text) :
    KeepsFiles (component.domainState env status domain) := by
  unfold domainState certificateState
  split
  · split
    · refine Keeps.bind ?_ fun _ => keeps_pure _
      exact (keeps_lift _).bind fun _ => keepsFiles_compareCertificate _
    · exact keeps_pure _
  · exact keeps_pure _

variable (env component) in
def Shows (status : Status) (fs : FileSystem) (domain state : Text) : Prop :=
  ∃ s s', s.fs = fs ∧ (component.domainState env status domain).exec s = (.ok state, s')

theorem states_shows {status : Status} {domains : List Text} {before final : OrderedDict Text Text}
    {s s' : System}
    (ran : (component.states env status domains before).exec s = (.ok final, s')) :
    (∀ domain ∈ domains, ∃ state, final.get? domain = some state ∧
      component.Shows env status s.fs domain state) ∧
        ∀ domain ∉ domains, final.get? domain = before.get? domain := by
  induction domains generalizing before s with
  | nil =>
    cases ran
    exact ⟨by simp, fun _ _ => rfl⟩
  | cons domain domains ih =>
    obtain ⟨state, between, first, later⟩ := returns_of_bind ran
    have kept := keepsFiles_domainState env component status domain s
    rw [first] at kept
    obtain ⟨listed, others⟩ := ih later
    refine ⟨fun other member => ?_, fun other absent => ?_⟩
    · by_cases again : other ∈ domains
      · obtain ⟨state', got, shows⟩ := listed other again
        rw [show between.fs = s.fs from kept] at shows
        exact ⟨state', got, shows⟩
      · have same : other = domain := (List.mem_cons.mp member).resolve_right again
        subst same
        refine ⟨state, ?_, s, between, rfl, first⟩
        rw [others other again, OrderedDict.get?_set_self]
    · rw [List.mem_cons, not_or] at absent
      rw [others other absent.2, OrderedDict.get?_set, if_neg absent.1]

theorem states_of_each {status : Status} {domains : List Text} {value : Text → Text}
    {before : OrderedDict Text Text} {s : System}
    (each : ∀ domain ∈ domains, ∀ s₁ : System, s₁.fs = s.fs →
      ((component.domainState env status domain).exec s₁).1 = .ok (value domain)) :
    ∃ final s', (component.states env status domains before).exec s = (.ok final, s') ∧
      ∀ domain, final.get? domain =
        if domain ∈ domains then some (value domain) else before.get? domain := by
  induction domains generalizing before s with
  | nil => exact ⟨before, s, rfl, fun _ => by simp⟩
  | cons domain domains ih =>
    have shown := each domain List.mem_cons_self s rfl
    have kept := keepsFiles_domainState env component status domain s
    rcases outcome : (component.domainState env status domain).exec s with ⟨result, between⟩
    rw [outcome] at shown kept
    dsimp only at shown kept
    subst shown
    have rest : ∀ other ∈ domains, ∀ s₁ : System, s₁.fs = between.fs →
        ((component.domainState env status other).exec s₁).1 = .ok (value other) :=
      fun other member s₁ same =>
        each other (List.mem_cons_of_mem _ member) s₁ (same.trans kept)
    obtain ⟨final, s', ran, values⟩ : ∃ final s', (component.states env status domains
        (before.set domain (value domain))).exec between = (.ok final, s') ∧
          ∀ other, final.get? other = if other ∈ domains then some (value other)
            else (before.set domain (value domain)).get? other := ih rest
    refine ⟨final, s', (exec_bind_of_ok outcome).trans ran, fun other => ?_⟩
    rw [values, OrderedDict.get?_set]
    by_cases again : other ∈ domains
    · simp [again]
    · by_cases same : other = domain
      · subst same
        simp
      · simp [again, same]

def Compares (host : Host) (fs : FileSystem) (request : Request) : Prop :=
  checkPaths host request = .ok () ∧
    Agree host fs request.sourceCertificate request.certificate ∧
      Agree host fs request.sourcePrivateKey request.privateKey

section Copies

variable {destinations : Destinations} {status : Status}

variable (env) in
theorem domainState_certified (copies : component.shouldCopyCertificates = true)
    (given : component.destinations = some destinations) {domain : Text}
    {certificate : CertificateStatus} (found : certified status domain = some certificate)
    (s : System) : ((component.domainState env status domain).exec s).1 =
      ((compareCertificate env.toHost
        (compareRequest destinations domain certificate.lineage)).exec s).1.map
          fun same => if same = true then certificate.validity else outdatedCopy := by
  rw [domainState, found]
  dsimp only
  rw [certificateState, if_pos copies, result_bind_pure, compare, needDestinations, given]
  rfl

theorem domainState_uncertified {domain : Text} (found : certified status domain = none)
    (s : System) : ((component.domainState env status domain).exec s).1 = .ok selfSigned := by
  rw [domainState, found]
  rfl

theorem shows_current_iff (copies : component.shouldCopyCertificates = true)
    (given : component.destinations = some destinations) (fs : FileSystem) (domain : Text) :
    (∃ state, component.Shows env status fs domain state ∧ state ≠ outdatedCopy) →
      ∀ certificate, certified status domain = some certificate →
        certificate.validity ≠ outdatedCopy ∧
          Compares env.toHost fs (compareRequest destinations domain certificate.lineage) := by
  rintro ⟨state, ⟨s, s', rfl, ran⟩, current⟩ certificate found
  have result := domainState_certified env copies given found s
  rw [ran] at result
  dsimp only at result
  generalize compared : ((compareCertificate env.toHost
    (compareRequest destinations domain certificate.lineage)).exec s).1 = outcome at result
  rcases outcome with e | same
  · cases result
  · cases result
    cases same with
    | false => exact absurd rfl current
    | true => exact ⟨current, compareCertificate_true_iff.mp compared⟩

def shown (status : Status) (domain : Text) : Text :=
  match certified status domain with
  | some certificate => certificate.validity
  | none => selfSigned

theorem domainState_shown (copies : component.shouldCopyCertificates = true)
    (given : component.destinations = some destinations) {domain : Text} {s : System}
    (current : ∀ certificate, certified status domain = some certificate →
      Compares env.toHost s.fs (compareRequest destinations domain certificate.lineage)) :
    ((component.domainState env status domain).exec s).1 = .ok (shown status domain) := by
  cases found : certified status domain with
  | none =>
    rw [domainState_uncertified found, shown, found]
  | some certificate =>
    rw [domainState_certified env copies given found,
      compareCertificate_true_iff.mpr (current certificate found), shown, found]
    rfl

theorem exec_getStatus {names : Names} (named : component.names = .ok names)
    (stated : env.status = .ok status) (s : System) : (component.getStatus env).exec s =
      (component.states env status names.iterate .empty).exec s := by
  rw [getStatus, named, stated]
  rfl

variable (env component) in
def Covered (names : Names) (s : System) : Prop :=
  ∃ final s', (component.getStatus env).exec s = (.ok final, s') ∧
    (∀ domain, domain ∈ final.keys ↔ domain ∈ handledOf env names) ∧
      ∀ domain state, final.get? domain = some state → state ≠ outdatedCopy

theorem covered_iff (copies : component.shouldCopyCertificates = true)
    (given : component.destinations = some destinations) {names : Names}
    (named : component.names = .ok names) (stated : env.status = .ok status) (s : System) :
    component.Covered env names s ↔
      (∀ domain, domain ∈ names.iterate ↔ domain ∈ handledOf env names) ∧
        ∀ domain ∈ handledOf env names, ∀ certificate, certified status domain = some certificate →
          certificate.validity ≠ outdatedCopy ∧
            Compares env.toHost s.fs
              (compareRequest destinations domain certificate.lineage) := by
  rw [Covered]
  constructor
  · rintro ⟨final, s', ran, keys, current⟩
    rw [exec_getStatus named stated] at ran
    obtain ⟨listed, others⟩ := states_shows ran
    have same : ∀ domain, domain ∈ names.iterate ↔ domain ∈ handledOf env names := by
      intro domain
      rw [← keys, OrderedDict.mem_keys_iff]
      constructor
      · intro member
        obtain ⟨state, got, _⟩ := listed domain member
        exact ⟨state, got⟩
      · rintro ⟨state, got⟩
        by_contra absent
        rw [others domain absent] at got
        cases got
    refine ⟨same, fun domain member => ?_⟩
    obtain ⟨state, got, shows⟩ := listed domain ((same domain).mpr member)
    exact shows_current_iff copies given s.fs domain ⟨state, shows, current domain state got⟩
  · rintro ⟨same, current⟩
    have each : ∀ domain ∈ names.iterate, ∀ s₁ : System, s₁.fs = s.fs →
        ((component.domainState env status domain).exec s₁).1 = .ok (shown status domain) := by
      intro domain member s₁ kept
      apply domainState_shown copies given
      intro certificate found
      rw [kept]
      exact (current domain ((same domain).mp member) certificate found).2
    obtain ⟨final, s', ran, values⟩ : ∃ final s',
        (component.states env status names.iterate .empty).exec s = (.ok final, s') ∧
          ∀ domain, final.get? domain = if domain ∈ names.iterate then some (shown status domain)
            else OrderedDict.empty.get? domain := states_of_each each
    refine ⟨final, s', by rw [exec_getStatus named stated, ran], fun domain => ?_, ?_⟩
    · rw [OrderedDict.mem_keys_iff, ← same, values]
      by_cases member : domain ∈ names.iterate <;> simp [member]
    · intro domain state got
      rw [values] at got
      split at got
      · rename_i member
        cases got
        rw [shown]
        split
        · rename_i certificate found
          exact (current domain ((same domain).mp member) certificate found).1
        · decide
      · cases got

end Copies

variable (env component) in
/-- No domain stands for others; and of each domain with a certificate the paths are admitted as
they are written and lead to the files, which hold in the end what the certificate holds. -/
def Current (fs : FileSystem) (names : Names) : Prop :=
  (∀ domain, domain ∈ names.iterate ↔ domain ∈ handledOf env names) ∧
    ∃ status given copies, env.status = .ok status ∧ component.destinations = some given ∧
      plan env fs given status (handledOf env names) = .ok copies ∧
        ∀ domain ∈ handledOf env names, ∀ certificate, certified status domain = some certificate →
          certificate.validity ≠ outdatedCopy ∧
            let request := compareRequest given domain certificate.lineage
            checkPaths env.toHost request = .ok () ∧
              Walks env.toHost (fs.laidOut (Certificates.destinations copies)) request ∧
                ∀ copy, locate env.toHost fs request = .ok copy → Alike copies fs copy

theorem covered_of_setup_iff (env : Environment) (component : Component) {names : Names}
    {s s' : System} (copies : component.shouldCopyCertificates = true)
    (named : component.names = .ok names)
    (ran : (component.setupCertificates env none).exec s = (.ok (), s')) :
    component.Covered env names s' ↔ component.Current env s.fs names := by
  obtain ⟨names', status, named', stated, finish⟩ := setupCertificates_ok ran
  rw [named] at named'
  cases named'
  obtain ⟨given, plans, destined, planned, after⟩ := finish copies
  have compares : ∀ domain ∈ handledOf env names, ∀ certificate,
      certified status domain = some certificate →
        (Compares env.toHost s'.fs (compareRequest given domain certificate.lineage) ↔
          checkPaths env.toHost (compareRequest given domain certificate.lineage) = .ok () ∧
            Walks env.toHost (s.fs.laidOut (Certificates.destinations plans))
              (compareRequest given domain certificate.lineage) ∧
              ∀ copy, locate env.toHost s.fs (compareRequest given domain certificate.lineage) =
                .ok copy → Alike plans s.fs copy) := by
    intro domain member certificate found
    obtain ⟨copy, listed, located⟩ := plan_each planned member
    rw [setupRequest, found] at located
    rw [Compares, ← compareCertificate_true_iff, compare_after after located listed]
    refine and_congr_right fun _ => and_congr_right fun _ => ⟨?_, fun all => all copy located⟩
    intro alike copy' located'
    rw [located] at located'
    cases located'
    exact alike
  rw [covered_iff copies destined named stated, Current]
  refine and_congr_right fun _ => ?_
  constructor
  · intro current
    refine ⟨status, given, plans, stated, destined, planned, fun domain member certificate found => ?_⟩
    obtain ⟨valid, same⟩ := current domain member certificate found
    exact ⟨valid, (compares domain member certificate found).mp same⟩
  · rintro ⟨status', given', plans', stated', destined', planned', current⟩
    rw [stated] at stated'
    rw [destined] at destined'
    cases stated'
    cases destined'
    rw [planned] at planned'
    cases planned'
    intro domain member certificate found
    obtain ⟨valid, same⟩ := current domain member certificate found
    exact ⟨valid, (compares domain member certificate found).mpr same⟩

/-! ## One copy -/

end Component

def Copy.Settles (copy : Copy) (fs : FileSystem) : Prop :=
  if copy.certificate = copy.privateKey then
    content fs copy.sourcePrivateKey = [] ∧
      (copy.sourceCertificate = copy.privateKey ∨ content fs copy.sourceCertificate = [])
  else copy.certificate = copy.sourcePrivateKey → copy.sourceCertificate = copy.privateKey ∨
    content fs copy.sourceCertificate = content fs copy.sourcePrivateKey

theorem bytesOf_origins_single (fs : FileSystem) (copy : Copy) (location : Location) :
    bytesOf fs (origins [copy] location) = copy.written (content fs) location := by
  have single : ∀ location, bytesOf fs [location] = content fs location := by
    intro location
    simp [bytesOf]
  rw [origins, List.foldl_cons, List.foldl_nil, bytesOf_written]
  exact written_congr single location

theorem alike_single_iff {copy : Copy} {fs fs' : FileSystem} (after : After copy fs fs') :
    Alike [copy] fs copy ↔ copy.Settles fs := by
  have keyApart := after.keyApart
  have chainApart := after.chainApart
  simp only [Alike, bytesOf_origins_single, Copy.Settles, Copy.written]
  by_cases combined : copy.certificate = copy.privateKey
  · simp only [combined, keyApart, if_true, if_false]
    by_cases chained : copy.sourceCertificate = copy.privateKey
    · simp [chained]
    · simp [chained]
  · have keyOther : copy.privateKey ≠ copy.certificate := Ne.symm combined
    simp only [combined, chainApart combined, keyApart, keyOther, if_true, if_false]
    by_cases swapped : copy.certificate = copy.sourcePrivateKey
    · by_cases chained : copy.sourceCertificate = copy.privateKey
      · simp [chained]
      · simp [swapped.symm, chained]
    · have swapped' : copy.sourcePrivateKey ≠ copy.certificate := Ne.symm swapped
      by_cases chained : copy.sourceCertificate = copy.privateKey
      · simp [swapped, swapped', chained]
      · simp [swapped, swapped', chained]

/-- The paths are admitted as they are written and lead to the files, which are two files that hold
what their sources hold, or one file that holds nothing. -/
def Comparable (host : Host) (fs : FileSystem) (request : Request) : Prop :=
  checkPaths host request = .ok () ∧ ∃ copy, locate host fs request = .ok copy ∧
    Walks host (fs.laidOut [copy.privateKey, copy.certificate]) request ∧ copy.Settles fs

theorem compares_iff {host : Host} {request : Request} {user group : String} {s s' : System}
    (copied : (copyCertificate host request user group).exec s = (.ok (), s')) :
    ((compareCertificate host request).exec s').1 = .ok true ↔ Comparable host s.fs request := by
  obtain ⟨copy, located, after⟩ := copyCertificate_spec copied
  have all : AfterAll [copy] s.fs s'.fs := (AfterAll.nil s.fs).snoc after
  rw [compare_after all located (List.mem_singleton_self copy), alike_single_iff after, Comparable]
  refine and_congr_right fun _ => ⟨fun ⟨walks, settles⟩ => ⟨copy, located, walks, settles⟩, ?_⟩
  rintro ⟨copy', located', walks, settles⟩
  rw [located] at located'
  cases located'
  exact ⟨walks, settles⟩

def around (before after : Text)
    (plain : (before ++ after).all (fun c => c ≠ '\x7b' ∧ c ≠ '\x7d') = true) : Template where
  pieces := before.map .char ++ .domain :: after.map .char
  noBraces c member := by
    apply of_decide_eq_true (List.all_eq_true.mp plain c _)
    simpa using member

def holding (files : List (Location × Text)) : FileSystem where
  entry location := (files.find? fun file => file.1 = location).map fun file =>
    .node (.file ⟨file.2, "root", "root", 0o600⟩)
  cwd := []
  direct _ _ target link := by
    obtain ⟨file, _, same⟩ := Option.map_eq_some_iff.mp link
    cases same

def ejabberdFile : Template :=
  around "/etc/ejabberd/letsencrypt/".toList "/ejabberd.pem".toList (by decide +kernel)

def ejabberdFiles : Destinations where
  privateKeyPath := ejabberdFile
  certificatePath := ejabberdFile
  userOwner := "ejabberd"
  groupOwner := "ejabberd"
  managingApp := "ejabberd".toList

def ejabberd : Component where
  domains := .star
  daemons := some ["ejabberd"]
  reloadDaemons := false
  shouldCopyCertificates := true
  destinations := some ejabberdFiles
  complete _ := rfl

def oneDomain : Text := "a.example".toList

def liveCertificate : CertificateStatus where
  validity := "valid".toList
  lineage := "/etc/letsencrypt/live/a.example".toList

def ejabberdHost : Host where
  depth := 2
  components _ := .ok [ejabberd]
  umask := 0o22
  writeFault _ := none
  chownFault _ _ := none

def ejabberdEnvironment (status : OrderedDict Text (Option CertificateStatus)) : Environment where
  toHost := ejabberdHost
  listNames := [oneDomain]
  status := .ok status
  restart _ _ := .ok ()

def certificateFiles : List (Location × Text) :=
  [(["etc".toList, "letsencrypt".toList, "live".toList, oneDomain, "privkey.pem".toList],
      "key".toList),
    (["etc".toList, "letsencrypt".toList, "live".toList, oneDomain, "fullchain.pem".toList],
      "chain".toList),
    (["etc".toList, "ssl".toList, "private".toList, "ssl-cert-snakeoil.key".toList], "oil".toList),
    (["etc".toList, "ssl".toList, "certs".toList, "ssl-cert-snakeoil.pem".toList], "snake".toList)]

def freshSystem : System where
  fs := holding certificateFiles
  reads := []
  writes := []
  made := []

def ejabberdRequest : Request :=
  Component.compareRequest ejabberdFiles oneDomain liveCertificate.lineage

theorem exec_of_toOption {m : Action Unit} {s : System} (returns : (m.exec s).1.toOption = some ()) :
    m.exec s = (.ok (), (m.exec s).2) := by
  generalize m.exec s = outcome at returns ⊢
  obtain ⟨e | ⟨⟩, s'⟩ := outcome
  · cases returns
  · rfl

theorem combined_copied : (copyCertificate ejabberdHost ejabberdRequest "ejabberd" "ejabberd").exec
    freshSystem = (.ok (), ((copyCertificate ejabberdHost ejabberdRequest "ejabberd"
      "ejabberd").exec freshSystem).2) :=
  exec_of_toOption (by decide +kernel)

theorem ejabberd_set_up : (ejabberd.setupCertificates (ejabberdEnvironment .empty) none).exec
    freshSystem = (.ok (), ((ejabberd.setupCertificates (ejabberdEnvironment .empty) none).exec
      freshSystem).2) :=
  exec_of_toOption (by decide +kernel)

theorem covered_of_ejabberd_setup_iff :
    ejabberd.Covered (ejabberdEnvironment .empty) .star
        ((ejabberd.setupCertificates (ejabberdEnvironment .empty) none).exec freshSystem).2 ↔
      ejabberd.Current (ejabberdEnvironment .empty) freshSystem.fs .star :=
  Component.covered_of_setup_iff (ejabberdEnvironment .empty) ejabberd rfl rfl ejabberd_set_up

theorem star_not_covered : ¬ ∀ (env : Environment) (component : Component) (names : Names)
    (s s' : System), component.shouldCopyCertificates = true → component.names = .ok names →
      (component.setupCertificates env none).exec s = (.ok (), s') →
        component.Covered env names s' := by
  intro all
  have covered := all (ejabberdEnvironment .empty) ejabberd .star freshSystem _ rfl rfl
    ejabberd_set_up
  obtain ⟨same, _⟩ := (Component.covered_iff rfl rfl rfl rfl _).mp covered
  have star : ['*'] ∈ Component.handledOf (ejabberdEnvironment .empty) .star :=
    (same ['*']).mp (List.mem_singleton_self _)
  revert star
  decide

end Plinth.LetsEncrypt.Certificates
