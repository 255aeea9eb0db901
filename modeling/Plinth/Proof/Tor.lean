import Plinth.Model.Tor

/-! # Configuration of Tor -/

namespace Plinth.Tor

open Effect Python Augeas Runs

/-! ## Bridges -/

def nonBlankLines (text : List Char) : List (List Char) :=
  (((text.splitOn '\n').map Text.words).filter (· ≠ [])).map [' '].intercalate

theorem bridgesOf_eq (text : List Char) : bridgesOf text = nonBlankLines text := by
  have joined : (fun bridge => Text.strip ([' '].intercalate (Text.words bridge))) =
      fun bridge => [' '].intercalate (Text.words bridge) := by
    funext bridge
    exact Text.strip_intercalate_words bridge
  rw [bridgesOf, nonBlankLines, joined]
  induction text.splitOn '\n' with
  | nil => rfl
  | cons line lines ih =>
    simp only [List.map_cons, List.filter_cons]
    by_cases blank : Text.words line = []
    · have stripped : Text.strip line = [] := (Text.strip_eq_nil_iff line).mpr blank
      simp only [blank, stripped, ne_eq, not_true_eq_false, decide_false, Bool.false_eq_true,
        if_false]
      exact ih
    · have stripped : Text.strip line ≠ [] := fun empty =>
        blank ((Text.strip_eq_nil_iff line).mp empty)
      simp only [blank, stripped, ne_eq, not_false_eq_true, decide_true, if_true, List.map_cons,
        Text.words_strip]
      exact congrArg _ ih

/-! ## Options -/

section Options

variable {option other value : String} {index : Index} {aug : Torrc}

theorem values_setAt_of_ne (differ : other ≠ option) :
    (setAt option index value aug).values other = aug.values other :=
  Node.values_set_of_ne differ index aug

theorem head_setAt_first : ((setAt option (.nth 1) value aug).values option).head? =
    some (some value) := by
  rw [setAt, Node.values_set_nth]
  cases aug.values option <;> simp

theorem head_setAt_later (i : Nat) {first : Option String}
    (head : (aug.values option).head? = some first) :
    ((setAt option (.nth (i + 2)) value aug).values option).head? = some first := by
  rw [setAt, Node.values_set_nth]
  cases values : aug.values option with
  | nil =>
    rw [values] at head
    cases head
  | cons v rest =>
    rw [values] at head
    split
    · exact head
    · exact head

theorem mem_setAt {i : Nat} {found : Option String}
    (member : found ∈ (setAt option (.nth (i + 1)) value aug).values option) :
    found = some value ∨ found ∈ aug.values option := by
  rw [setAt, Node.values_set_nth] at member
  split at member
  · exact (List.mem_or_eq_of_mem_set member).symm
  · exact (List.mem_append.mp member).symm.imp_left List.mem_singleton.mp

theorem values_addBridges (bridges : List (List Char)) :
    (bridges.foldl (fun aug bridge => setAt "Bridge" .new (String.ofList bridge) aug) aug).values
      "Bridge" = aug.values "Bridge" ++ bridges.map fun bridge => some (String.ofList bridge) := by
  induction bridges generalizing aug with
  | nil => simp
  | cons bridge bridges ih =>
    rw [List.foldl_cons, ih, setAt, Node.values_set_new]
    simp

theorem values_addBridges_of_ne (differ : other ≠ "Bridge") (bridges : List (List Char)) :
    (bridges.foldl (fun aug bridge => setAt "Bridge" .new (String.ofList bridge) aug) aug).values
      other = aug.values other := by
  induction bridges generalizing aug with
  | nil => rfl
  | cons bridge bridges ih => rw [List.foldl_cons, ih, values_setAt_of_ne differ]

end Options

/-! ## Configurations -/

def valueOf (option : String) (aug : Torrc) : Option String :=
  (aug.values option).head?.join

def usesBridges (aug : Torrc) : Bool :=
  valueOf "UseBridges" aug = some "1"

def relaysBridges (aug : Torrc) : Bool :=
  valueOf "BridgeRelay" aug = some "1"

def singleOptions : List String :=
  ["UseBridges", "ClientTransportPlugin", "BridgeRelay", "ServerTransportPlugin", "ExtORPort",
    "HiddenServiceDir"]

/-- The file can be read and changed: an option that is named without a number occurs at most
once, a bridge has a value, and a port of the hidden service has two words. -/
structure Ready (aug : Torrc) : Prop where
  single : ∀ option ∈ singleOptions, (aug.values option).length ≤ 1
  bridges : ∀ value ∈ aug.values "Bridge", value.isSome = true
  ports : ∀ value ∈ aug.values "HiddenServicePort", ∃ port, hiddenServicePort value = .ok port

def Consistent (aug : Torrc) : Prop :=
  usesBridges aug = true → isRelayEnabled aug = false ∧ relaysBridges aug = false

def directoryOf (aug : Torrc) : String :=
  (valueOf "HiddenServiceDir" aug).getD ""

def offers (read : List Char → Option String) (aug : Torrc) : Bool :=
  directoryOf aug ≠ "" ∧ (read (hostnameFile (directoryOf aug))).isSome

section Reading

variable {aug : Torrc}

theorem get_of_ready (ready : Ready aug) {option : String} (member : option ∈ singleOptions) :
    get option aug = .ok (valueOf option aug) :=
  Node.getOne_of_le (ready.single option member)

theorem set_of_ready (ready : Ready aug) {option : String} (member : option ∈ singleOptions)
    (value : String) : set option value aug = .ok (setAt option (.nth 1) value aug) :=
  Node.setOne_of_le (ready.single option member)

theorem areUpstreamBridgesEnabled_of_ready (ready : Ready aug) :
    areUpstreamBridgesEnabled aug = .ok (usesBridges aug) :=
  bind_of_ok (get_of_ready ready (by decide)) rfl

theorem getHiddenService_of_ready (ready : Ready aug) (read : List Char → Option String) :
    ∃ hiddenService, getHiddenService read aug = .ok hiddenService ∧
      hiddenService.enabled = offers read aug := by
  obtain ⟨ports, collected⟩ := mapM_returns_iff.mpr ready.ports
  have directory : get "HiddenServiceDir" aug = .ok (valueOf "HiddenServiceDir" aug) :=
    get_of_ready ready (by decide)
  rw [offers]
  by_cases configured : directoryOf aug = ""
  · refine ⟨_, bind_of_ok directory (bind_of_ok collected (if_pos configured)), ?_⟩
    simp [configured]
  · cases hostname : read (hostnameFile (directoryOf aug)) with
    | none =>
      refine ⟨⟨false, "Not available (Run Tor at least once)", none, ports⟩,
        bind_of_ok directory (bind_of_ok collected ((if_neg configured).trans ?_)), ?_⟩
      · rw [directoryOf] at hostname
        rw [hostname]
        rfl
      · simp
    | some text =>
      refine ⟨⟨true, "Ok", some (String.ofList (Text.strip text.toList)), ports⟩,
        bind_of_ok directory (bind_of_ok collected ((if_neg configured).trans ?_)), ?_⟩
      · rw [directoryOf] at hostname
        rw [hostname]
        rfl
      · simp [configured]

theorem getUpstreamBridges_of_values {bridges : List String}
    (values : aug.values "Bridge" = bridges.map some) :
    getUpstreamBridges aug = .ok ("\n".intercalate bridges) := by
  rw [getUpstreamBridges, values]
  refine bind_of_ok ?_ rfl
  clear values
  induction bridges with
  | nil => rfl
  | cons bridge bridges ih =>
    rw [List.map_cons, List.mapM_cons]
    exact bind_of_ok rfl (bind_of_ok ih rfl)

theorem bridges_of_ready (ready : Ready aug) :
    ∃ bridges : List String, aug.values "Bridge" = bridges.map some := by
  have present := ready.bridges
  generalize aug.values "Bridge" = values at present
  induction values with
  | nil => exact ⟨[], rfl⟩
  | cons value values ih =>
    rw [List.forall_mem_cons] at present
    obtain ⟨bridge, rfl⟩ := Option.isSome_iff_exists.mp present.1
    obtain ⟨bridges, rfl⟩ := ih present.2
    exact ⟨bridge :: bridges, rfl⟩

theorem getStatus_of_ready (ready : Ready aug) (read : List Char → Option String) :
    ∃ status, getStatus read aug = .ok status ∧
      status.useUpstreamBridges = usesBridges aug ∧
      (∀ bridges : List String, aug.values "Bridge" = bridges.map some →
        status.upstreamBridges = "\n".intercalate bridges) ∧
      status.relayEnabled = isRelayEnabled aug ∧
      status.bridgeRelayEnabled = relaysBridges aug ∧
      status.hiddenService.enabled = offers read aug := by
  obtain ⟨bridges, values⟩ := bridges_of_ready ready
  obtain ⟨hiddenService, found, enabled⟩ := getHiddenService_of_ready ready read
  have relays : isBridgeRelayEnabled aug = .ok (relaysBridges aug) :=
    bind_of_ok (get_of_ready ready (by decide)) rfl
  refine ⟨⟨usesBridges aug, "\n".intercalate bridges, isRelayEnabled aug, relaysBridges aug,
    hiddenService⟩, ?_, rfl, ?_, rfl, rfl, enabled⟩
  · apply bind_of_ok (areUpstreamBridgesEnabled_of_ready ready)
    apply bind_of_ok (getUpstreamBridges_of_values values)
    apply bind_of_ok relays
    exact bind_of_ok found rfl
  · intro bridges' values'
    rw [values] at values'
    rw [(List.map_inj_right fun _ _ => Option.some.inj).mp values']

end Reading

/-! ## The parts of a call as edits -/

abbrev Edit := Torrc → Option Torrc

def useEdit (use : Option Bool) : Edit := fun aug =>
  use.map fun use => setAt "UseBridges" (.nth 1) (if use then "1" else "0") aug

def transportPlugin : String := "obfs3,scramblesuit,obfs4 exec /usr/bin/obfs4proxy"

def bridgesEdit (upstreamBridges : Option String) : Edit := fun aug =>
  if upstreamBridges.getD "" = "" then none
  else some (setAt "ClientTransportPlugin" (.nth 1) transportPlugin
    ((bridgesOf (upstreamBridges.getD "").toList).foldl
      (fun aug bridge => setAt "Bridge" .new (String.ofList bridge) aug) (aug.removeAll "Bridge")))

def bridgeRelayed (bridge : Option Bool) (useUpstreamBridges : Bool) (aug : Torrc) : Torrc :=
  if bridge = some true ∧ useUpstreamBridges = false then
    setAt "ExtORPort" (.nth 1) "auto" (setAt "ServerTransportPlugin" (.nth 1)
      "obfs3,obfs4 exec /usr/bin/obfs4proxy" (setAt "BridgeRelay" (.nth 1) "1" aug))
  else if bridge ≠ none then
    ((aug.removeAll "BridgeRelay").removeAll "ServerTransportPlugin").removeAll "ExtORPort"
  else aug

def relayEdit (relay bridge : Option Bool) : Edit := fun aug =>
  if relay = none ∧ bridge = none then none
  else some (bridgeRelayed bridge (usesBridges aug) (setRelay relay (usesBridges aug) aug))

def withHiddenService (aug : Torrc) : Torrc :=
  setAt "HiddenServicePort" (.nth 3) "443 127.0.0.1:443"
    (setAt "HiddenServicePort" (.nth 2) "80 127.0.0.1:80"
      (setAt "HiddenServicePort" (.nth 1) "22 127.0.0.1:22"
        (setAt "HiddenServiceDir" (.nth 1) hiddenServiceDir aug)))

def withoutHiddenService (aug : Torrc) : Torrc :=
  (aug.removeAll "HiddenServiceDir").removeAll "HiddenServicePort"

def hiddenEdit (read : List Char → Option String) (hiddenService : Option Bool) : Edit := fun aug =>
  match hiddenService with
  | some true => if offers read aug then none else some (withHiddenService aug)
  | some false => if offers read aug then some (withoutHiddenService aug) else none
  | none => none

def Edit.apply (edit : Edit) (aug : Torrc) : Torrc :=
  (edit aug).getD aug

def turnedOff (arguments : Arguments) (relay : Option Bool) : Option Bool :=
  if arguments.useUpstreamBridges = some true then some false else relay

def edits (arguments : Arguments) (read : List Char → Option String) : List Edit :=
  [useEdit arguments.useUpstreamBridges, bridgesEdit arguments.upstreamBridges,
    relayEdit (turnedOff arguments arguments.relay) (turnedOff arguments arguments.bridgeRelay),
    hiddenEdit read arguments.hiddenService]

/-! ## Configurations stay ready -/

theorem Ready.setAt {aug : Torrc} (ready : Ready aug) {option value : String} (i : Nat)
    (single : option ∈ singleOptions → i = 0)
    (port : option = "HiddenServicePort" → ∃ port, hiddenServicePort (some value) = .ok port) :
    Ready (setAt option (.nth (i + 1)) value aug) where
  single := by
    intro other member
    by_cases same : other = option
    · subst same
      rw [single member, Tor.setAt, Node.values_setOne (ready.single other member)]
      exact le_rfl
    · rw [values_setAt_of_ne same]
      exact ready.single other member
  bridges := by
    intro found member
    by_cases same : "Bridge" = option
    · subst same
      obtain rfl | member := mem_setAt member
      · rfl
      · exact ready.bridges found member
    · rw [values_setAt_of_ne same] at member
      exact ready.bridges found member
  ports := by
    intro found member
    by_cases same : "HiddenServicePort" = option
    · subst same
      obtain rfl | member := mem_setAt member
      · exact port rfl
      · exact ready.ports found member
    · rw [values_setAt_of_ne same] at member
      exact ready.ports found member

theorem Ready.removeAll {aug : Torrc} (ready : Ready aug) (option : String) :
    Ready (aug.removeAll option) := by
  have fewer : ∀ other, (aug.removeAll option).values other = [] ∨
      (aug.removeAll option).values other = aug.values other := by
    intro other
    by_cases same : other = option
    · subst same
      exact .inl (Node.values_removeAll other aug)
    · exact .inr (Node.values_removeAll_of_ne same aug)
  refine ⟨fun other member => ?_, fun value member => ?_, fun value member => ?_⟩
  · obtain none | same := fewer other
    · rw [none]
      exact Nat.zero_le 1
    · rw [same]
      exact ready.single other member
  · obtain none | same := fewer "Bridge"
    · rw [none] at member
      cases member
    · rw [same] at member
      exact ready.bridges value member
  · obtain none | same := fewer "HiddenServicePort"
    · rw [none] at member
      cases member
    · rw [same] at member
      exact ready.ports value member

theorem Ready.addBridges {aug : Torrc} (ready : Ready aug) (bridges : List (List Char)) :
    Ready (bridges.foldl
      (fun aug bridge => Tor.setAt "Bridge" .new (String.ofList bridge) aug) aug) where
  single := by
    intro option member
    have differ : option ≠ "Bridge" := by
      rintro rfl
      simp [singleOptions] at member
    rw [values_addBridges_of_ne differ]
    exact ready.single option member
  bridges := by
    intro value member
    rw [values_addBridges] at member
    obtain member | member := List.mem_append.mp member
    · exact ready.bridges value member
    · obtain ⟨bridge, -, rfl⟩ := List.mem_map.mp member
      rfl
  ports := by
    intro value member
    rw [values_addBridges_of_ne (by simp)] at member
    exact ready.ports value member

theorem Ready.setSingle {aug : Torrc} (ready : Ready aug) {option : String}
    (member : option ∈ singleOptions) (value : String) :
    Ready (Tor.setAt option (.nth 1) value aug) := by
  refine ready.setAt 0 (fun _ => rfl) ?_
  rintro rfl
  simp [singleOptions] at member

theorem Ready.setPort {aug : Torrc} (ready : Ready aug) (i : Nat) {value : String}
    {port : String × String} (words : hiddenServicePort (some value) = .ok port) :
    Ready (Tor.setAt "HiddenServicePort" (.nth (i + 1)) value aug) := by
  refine ready.setAt i ?_ fun _ => ⟨port, words⟩
  intro member
  simp [singleOptions] at member

theorem Ready.setRelay {aug : Torrc} (ready : Ready aug) (relay : Option Bool)
    (useUpstreamBridges : Bool) : Ready (setRelay relay useUpstreamBridges aug) := by
  have other {aug : Torrc} (ready : Ready aug) (i : Nat) (value : String) :
      Ready (Tor.setAt "ORPort" (.nth (i + 1)) value aug) :=
    ready.setAt i (by simp [singleOptions]) (by simp)
  unfold Tor.setRelay
  split
  · exact other (other ready 0 _) 1 _
  · split
    · exact ready.removeAll _
    · exact ready

theorem Ready.bridgeRelayed {aug : Torrc} (ready : Ready aug) (bridge : Option Bool)
    (useUpstreamBridges : Bool) : Ready (bridgeRelayed bridge useUpstreamBridges aug) := by
  unfold Tor.bridgeRelayed
  split
  · exact ((ready.setSingle (by decide) _).setSingle (by decide) _).setSingle (by decide) _
  · split
    · exact ((ready.removeAll _).removeAll _).removeAll _
    · exact ready

theorem ready_withHiddenService {aug : Torrc} (ready : Ready aug) :
    Ready (withHiddenService aug) :=
  (((ready.setSingle (by decide) _).setPort 0 rfl).setPort 1 rfl).setPort 2 rfl

theorem ready_withoutHiddenService {aug : Torrc} (ready : Ready aug) :
    Ready (withoutHiddenService aug) :=
  (ready.removeAll _).removeAll _

theorem Ready.apply {aug : Torrc} (ready : Ready aug) {arguments : Arguments}
    {read : List Char → Option String} {edit : Edit} (member : edit ∈ edits arguments read) :
    Ready (edit.apply aug) := by
  have applied (edit : Edit) (all : ∀ edited, edit aug = some edited → Ready edited) :
      Ready (edit.apply aug) := by
    rw [Edit.apply]
    cases edited : edit aug with
    | none => exact ready
    | some edited' => exact all edited' edited
  simp only [edits, List.mem_cons, List.not_mem_nil, or_false] at member
  obtain rfl | rfl | rfl | rfl := member
  · refine applied _ fun edited h => ?_
    obtain ⟨use, -, rfl⟩ := Option.map_eq_some_iff.mp h
    exact ready.setSingle (by decide) _
  · refine applied _ fun edited h => ?_
    unfold bridgesEdit at h
    split at h <;> cases h
    exact ((ready.removeAll _).addBridges _).setSingle (by decide) _
  · refine applied _ fun edited h => ?_
    unfold relayEdit at h
    split at h <;> cases h
    exact (ready.setRelay _ _).bridgeRelayed _ _
  · refine applied _ fun edited h => ?_
    unfold hiddenEdit at h
    split at h
    · split at h <;> cases h
      exact ready_withHiddenService ready
    · split at h <;> cases h
      exact ready_withoutHiddenService ready
    · cases h

def applyAll (edits : List Edit) (aug : Torrc) : Torrc :=
  edits.foldl (fun aug edit => edit.apply aug) aug

/-! ## Calls as edits -/

def commit (edit : Edit) (aug : Torrc) : Call Torrc :=
  match edit aug with
  | none => return aug
  | some edited => do
      save edited
      return edited

def During (environment : Environment) (aug : Torrc) (system : System) : Prop :=
  system.saved = aug ∧ system.environment.read = environment.read ∧
    system.environment.site = environment.site ∧
    system.environment.saves <:+ environment.saves

def NotSaved (environment : Environment) (aug : Torrc) (e : Exception) (system : System) : Prop :=
  e = notSaved ∧ false ∈ environment.saves ∧ system.saved = aug

section Calls

variable {environment : Environment} {aug edited : Torrc}

theorem triple_get {P : System → Prop} {E : Exception → System → Prop} :
    Triple P (MonadState.get : Call System) (fun system s => s = system ∧ P s) E :=
  Triple.get fun _ holds => ⟨rfl, holds⟩

theorem triple_save : Triple (During environment aug) (save edited)
    (fun _ => During environment edited) (NotSaved environment aug) := by
  unfold save
  refine triple_get.bind fun system => ?_
  have later : ∀ s, s = system ∧ During environment aug s →
      system.environment.saves.tail <:+ environment.saves := by
    rintro s ⟨rfl, -, -, -, rest⟩
    exact (List.tail_suffix _).trans rest
  split
  · rename_i fails
    refine Triple.bind (Triple.modify fun s during => ?_) fun _ => Triple.throw fun s during => during
    obtain ⟨rfl, saved, -, -, rest⟩ := during
    exact ⟨rfl, rest.subset (List.mem_of_mem_head? fails), saved⟩
  · refine Triple.modify fun s during => ?_
    have rest := later s during
    obtain ⟨rfl, -, read, site, -⟩ := during
    exact ⟨rfl, read, site, rest⟩

theorem triple_commit (edit : Edit) : Triple (During environment aug) (commit edit aug)
    (fun edited s => edited = edit.apply aug ∧ During environment (edit.apply aug) s)
    (NotSaved environment aug) := by
  unfold commit
  rw [Edit.apply]
  cases edit aug with
  | none => exact Triple.pure fun s during => ⟨rfl, during⟩
  | some edited =>
    exact triple_save.bind fun _ => Triple.pure fun s during => ⟨rfl, during⟩

theorem useUpstreamBridges_eq (ready : Ready aug) (use : Option Bool) :
    useUpstreamBridges use aug = commit (useEdit use) aug := by
  cases use with
  | none => rfl
  | some use =>
    rw [useUpstreamBridges, set_of_ready ready (by decide)]
    rfl

theorem setGivenBridges_eq (ready : Ready aug) (upstreamBridges : Option String) :
    setGivenBridges upstreamBridges aug = commit (bridgesEdit upstreamBridges) aug := by
  unfold setGivenBridges commit bridgesEdit
  by_cases empty : upstreamBridges.getD "" = ""
  · rw [if_neg (not_not.mpr empty), if_pos empty]
  · rw [if_pos empty, if_neg empty]
    cases upstreamBridges with
    | none => exact absurd rfl empty
    | some text =>
      have bridges := (ready.removeAll "Bridge").addBridges (bridgesOf text.toList)
      unfold setUpstreamBridges
      dsimp only
      rw [set_of_ready bridges (by decide)]
      rfl

theorem setBridgeRelay_of_ready (ready : Ready aug) (bridge : Option Bool)
    (useUpstreamBridges : Bool) : setBridgeRelay bridge useUpstreamBridges aug =
      .ok (bridgeRelayed bridge useUpstreamBridges aug) := by
  unfold setBridgeRelay bridgeRelayed
  split
  · have bridged : Ready (setAt "BridgeRelay" (.nth 1) "1" aug) :=
      ready.setSingle (by decide) "1"
    have transported : Ready (setAt "ServerTransportPlugin" (.nth 1)
        "obfs3,obfs4 exec /usr/bin/obfs4proxy" (setAt "BridgeRelay" (.nth 1) "1" aug)) :=
      bridged.setSingle (by decide) _
    apply bind_of_ok (set_of_ready ready (by decide) _)
    apply bind_of_ok (set_of_ready bridged (by decide) _)
    exact set_of_ready transported (by decide) _
  · split <;> rfl

theorem enableRelay_eq (ready : Ready aug) (relay bridge : Option Bool) :
    enableRelay relay bridge aug = commit (relayEdit relay bridge) aug := by
  unfold enableRelay commit relayEdit
  by_cases omitted : relay = none ∧ bridge = none
  · rw [if_pos omitted, if_pos omitted]
  · rw [if_neg omitted, if_neg omitted, areUpstreamBridgesEnabled_of_ready ready]
    have set := setBridgeRelay_of_ready (ready.setRelay relay (usesBridges aug)) bridge
      (usesBridges aug)
    show (lift (setBridgeRelay bridge _ _) >>= _) = _
    rw [set]
    rfl

theorem setHiddenService_of_ready (ready : Ready aug) :
    setHiddenService aug = .ok (withHiddenService aug) :=
  bind_of_ok (set_of_ready ready (by decide) _) rfl

def SiteFailed (environment : Environment) (aug : Torrc) (e : Exception) (system : System) : Prop :=
  environment.site = some e ∧ system.saved = aug

theorem triple_setOnionHeader (hiddenService : Option HiddenService) :
    Triple (During environment aug) (setOnionHeader hiddenService) (fun _ s => s.saved = aug)
      (SiteFailed environment aug) := by
  unfold setOnionHeader
  refine triple_get.bind fun system => ?_
  split
  · rename_i e raised
    refine Triple.throw ?_
    rintro s ⟨rfl, saved, -, site, -⟩
    exact ⟨site ▸ raised, saved⟩
  · refine Triple.modify ?_
    rintro s ⟨rfl, saved, -, -, -⟩
    exact saved

def Raised (environment : Environment) (saved last : Torrc) (e : Exception) (system : System) :
    Prop :=
  NotSaved environment saved e system ∨ SiteFailed environment last e system

theorem triple_saved {rest : Unit → Call Unit} {P : System → Prop}
    (during : ∀ s, P s → During environment aug s)
    (header : Triple (During environment edited) (rest ()) (fun _ s => s.saved = edited)
      (SiteFailed environment edited)) :
    Triple P (save edited >>= rest) (fun _ s => s.saved = edited)
      (Raised environment aug edited) := by
  refine (triple_save.conseq during (fun _ _ => id) fun _ _ => Or.inl).bind fun _ => ?_
  exact header.conseq (fun _ => id) (fun _ _ => id) fun _ _ => Or.inr

theorem triple_enableHs (ready : Ready aug) :
    Triple (During environment aug) (enableHs aug)
      (fun _ s => s.saved = (hiddenEdit environment.read (some true)).apply aug)
      (Raised environment aug ((hiddenEdit environment.read (some true)).apply aug)) := by
  unfold enableHs
  refine triple_get.bind fun system => ?_
  refine Triple.extract (system.environment.read = environment.read) ?_ fun read => ?_
  · rintro s ⟨rfl, -, read, -⟩
    exact read
  · obtain ⟨before, found, enabled⟩ := getHiddenService_of_ready ready environment.read
    obtain ⟨after, found', -⟩ :=
      getHiddenService_of_ready (ready_withHiddenService ready) environment.read
    rw [read]
    refine Triple.bind_lift found (Triple.when ?_ ?_)
    · intro disabled
      have edited : (hiddenEdit environment.read (some true)).apply aug =
          withHiddenService aug := by
        simp [Edit.apply, hiddenEdit, ← enabled, disabled]
      rw [edited]
      refine Triple.bind_lift (setHiddenService_of_ready ready) ?_
      refine triple_saved (fun s during => during.2) ?_
      exact Triple.bind_lift found' (triple_setOnionHeader (some after))
    · intro offered s during
      have edited : (hiddenEdit environment.read (some true)).apply aug = aug := by
        simp [Edit.apply, hiddenEdit, ← enabled, (Bool.not_eq_false _).mp offered]
      rw [edited]
      exact during.2.1

theorem triple_disableHs (ready : Ready aug) :
    Triple (During environment aug) (disableHs aug)
      (fun _ s => s.saved = (hiddenEdit environment.read (some false)).apply aug)
      (Raised environment aug ((hiddenEdit environment.read (some false)).apply aug)) := by
  unfold disableHs
  refine triple_get.bind fun system => ?_
  refine Triple.extract (system.environment.read = environment.read) ?_ fun read => ?_
  · rintro s ⟨rfl, -, read, -⟩
    exact read
  · obtain ⟨before, found, enabled⟩ := getHiddenService_of_ready ready environment.read
    rw [read]
    refine Triple.bind_lift found (Triple.when ?_ ?_)
    · intro offered
      have edited : (hiddenEdit environment.read (some false)).apply aug =
          withoutHiddenService aug := by
        simp [Edit.apply, hiddenEdit, ← enabled, offered]
      rw [edited]
      exact triple_saved (fun s during => during.2) (triple_setOnionHeader none)
    · intro disabled s during
      have edited : (hiddenEdit environment.read (some false)).apply aug = aug := by
        simp [Edit.apply, hiddenEdit, ← enabled, disabled]
      rw [edited]
      exact during.2.1

def Stopped (environment : Environment) (arguments : Arguments) (aug : Torrc) (e : Exception)
    (system : System) : Prop :=
  e = notSaved ∧ false ∈ environment.saves ∧
    ∃ done edit rest, edits arguments environment.read = done ++ edit :: rest ∧
      system.saved = applyAll done aug

theorem configure_spec (ready : Ready aug) (arguments : Arguments) :
    Triple (During environment aug) (configure arguments)
      (fun _ s => s.saved = applyAll (edits arguments environment.read) aug)
      (fun e s => Stopped environment arguments aug e s ∨
        SiteFailed environment (applyAll (edits arguments environment.read) aug) e s) := by
  have stopped {done rest : List Edit} {edit : Edit}
      (parts : edits arguments environment.read = done ++ edit :: rest) (e : Exception)
      (s : System) (failed : NotSaved environment (applyAll done aug) e s) :
      Stopped environment arguments aug e s :=
    ⟨failed.1, failed.2.1, done, edit, rest, parts, failed.2.2⟩
  have part (done next : List Edit) {rest : List Edit} {edit : Edit}
      (parts : edits arguments environment.read = done ++ edit :: rest)
      (extended : done ++ [edit] = next) :
      Triple (During environment (applyAll done aug)) (commit edit (applyAll done aug))
        (fun edited s => edited = applyAll next aug ∧ During environment (applyAll next aug) s)
        (fun e s => Stopped environment arguments aug e s ∨
          SiteFailed environment (applyAll (edits arguments environment.read) aug) e s) := by
    have applied : applyAll next aug = edit.apply (applyAll done aug) := by
      rw [← extended, applyAll, List.foldl_append]
      rfl
    rw [applied]
    exact (triple_commit edit).conseq (fun _ => id) (fun _ _ => id) fun e s failed =>
      .inl (stopped parts e s failed)
  unfold configure
  refine triple_get.bind fun system => ?_
  refine Triple.extract (system.saved = aug) ?_ fun saved => ?_
  · rintro s ⟨rfl, saved, -⟩
    exact saved
  · let use := useEdit arguments.useUpstreamBridges
    let bridges := bridgesEdit arguments.upstreamBridges
    let relay := relayEdit (turnedOff arguments arguments.relay)
      (turnedOff arguments arguments.bridgeRelay)
    let hidden := hiddenEdit environment.read arguments.hiddenService
    have first : use ∈ edits arguments environment.read := .head _
    have second : bridges ∈ edits arguments environment.read := .tail _ (.head _)
    have third : relay ∈ edits arguments environment.read := .tail _ (.tail _ (.head _))
    have used : Ready (applyAll [use] aug) := ready.apply first
    have bridged : Ready (applyAll [use, bridges] aug) := used.apply second
    have relayed : Ready (applyAll [use, bridges, relay] aug) := bridged.apply third
    have parts : edits arguments environment.read = [] ++ use :: [bridges, relay, hidden] := rfl
    rw [saved]
    dsimp only
    rw [useUpstreamBridges_eq ready]
    refine Triple.bind_eq ((part [] [use] parts rfl).strengthen fun s during => during.2) ?_
    have parts : edits arguments environment.read = [use] ++ bridges :: [relay, hidden] := rfl
    rw [setGivenBridges_eq used]
    refine Triple.bind_eq (part [use] [use, bridges] parts rfl) ?_
    have parts : edits arguments environment.read = [use, bridges] ++ relay :: [hidden] := rfl
    rw [enableRelay_eq bridged]
    refine Triple.bind_eq (part [use, bridges] [use, bridges, relay] parts rfl) ?_
    have parts : edits arguments environment.read = [use, bridges, relay] ++ hidden :: [] := rfl
    have last : applyAll (edits arguments environment.read) aug =
        hidden.apply (applyAll [use, bridges, relay] aug) := rfl
    have raised (e : Exception) (s : System)
        (failed : Raised environment (applyAll [use, bridges, relay] aug)
          (hidden.apply (applyAll [use, bridges, relay] aug)) e s) :
        Stopped environment arguments aug e s ∨
          SiteFailed environment (applyAll (edits arguments environment.read) aug) e s :=
      failed.imp_left (stopped parts e s)
    rw [last] at raised ⊢
    cases option : arguments.hiddenService with
    | none =>
      have kept : hidden.apply (applyAll [use, bridges, relay] aug) =
          applyAll [use, bridges, relay] aug := by
        simp [hidden, option, hiddenEdit, Edit.apply]
      rw [kept]
      exact Triple.pure fun s during => during.1
    | some hiddenService =>
      have hiddenIs : hidden = hiddenEdit environment.read (some hiddenService) := by
        rw [← option]
      rw [hiddenIs] at raised ⊢
      cases hiddenService with
      | true => exact (triple_enableHs relayed).conseq (fun _ => id) (fun _ _ => id) raised
      | false => exact (triple_disableHs relayed).conseq (fun _ => id) (fun _ _ => id) raised

end Calls

/-! ## What the edits leave alone -/

section Frames

variable {option : String} (aug : Torrc)

theorem values_useEdit (use : Option Bool) (differ : option ≠ "UseBridges") :
    ((useEdit use).apply aug).values option = aug.values option := by
  cases use with
  | none => rfl
  | some use => exact values_setAt_of_ne differ

theorem values_bridgesEdit (upstreamBridges : Option String) (bridge : option ≠ "Bridge")
    (plugin : option ≠ "ClientTransportPlugin") :
    ((bridgesEdit upstreamBridges).apply aug).values option = aug.values option := by
  rw [Edit.apply, bridgesEdit]
  split
  · rfl
  · rw [Option.getD_some, values_setAt_of_ne plugin, values_addBridges_of_ne bridge,
      Node.values_removeAll_of_ne bridge]

theorem values_setRelay (relay : Option Bool) (useUpstreamBridges : Bool)
    (differ : option ≠ "ORPort") :
    (setRelay relay useUpstreamBridges aug).values option = aug.values option := by
  unfold setRelay
  split
  · rw [values_setAt_of_ne differ, values_setAt_of_ne differ]
  · split
    · exact Node.values_removeAll_of_ne differ aug
    · rfl

theorem values_bridgeRelayed (bridge : Option Bool) (useUpstreamBridges : Bool)
    (relay : option ≠ "BridgeRelay") (plugin : option ≠ "ServerTransportPlugin")
    (port : option ≠ "ExtORPort") :
    (bridgeRelayed bridge useUpstreamBridges aug).values option = aug.values option := by
  unfold bridgeRelayed
  split
  · rw [values_setAt_of_ne port, values_setAt_of_ne plugin, values_setAt_of_ne relay]
  · split
    · rw [Node.values_removeAll_of_ne port, Node.values_removeAll_of_ne plugin,
        Node.values_removeAll_of_ne relay]
    · rfl

theorem values_relayEdit (relay bridge : Option Bool) (orPort : option ≠ "ORPort")
    (bridgeRelay : option ≠ "BridgeRelay") (plugin : option ≠ "ServerTransportPlugin")
    (port : option ≠ "ExtORPort") :
    ((relayEdit relay bridge).apply aug).values option = aug.values option := by
  rw [Edit.apply, relayEdit]
  split
  · rfl
  · rw [Option.getD_some, values_bridgeRelayed _ _ _ bridgeRelay plugin port,
      values_setRelay _ _ _ orPort]

theorem values_hiddenEdit (read : List Char → Option String) (hiddenService : Option Bool)
    (directory : option ≠ "HiddenServiceDir") (port : option ≠ "HiddenServicePort") :
    ((hiddenEdit read hiddenService).apply aug).values option = aug.values option := by
  have added : (withHiddenService aug).values option = aug.values option := by
    rw [withHiddenService, values_setAt_of_ne port, values_setAt_of_ne port,
      values_setAt_of_ne port, values_setAt_of_ne directory]
  have removed : (withoutHiddenService aug).values option = aug.values option := by
    rw [withoutHiddenService, Node.values_removeAll_of_ne port,
      Node.values_removeAll_of_ne directory]
  unfold Edit.apply hiddenEdit
  split
  · split
    · rfl
    · exact added
  · split
    · exact removed
    · rfl
  · rfl

end Frames

/-! ## What the edits do -/

section Edits

variable {aug aug' : Torrc}

theorem valueOf_congr {option : String} (same : aug.values option = aug'.values option) :
    valueOf option aug = valueOf option aug' := by
  rw [valueOf, same, valueOf]

theorem usesBridges_congr (same : aug.values "UseBridges" = aug'.values "UseBridges") :
    usesBridges aug = usesBridges aug' := by
  rw [usesBridges, valueOf_congr same, usesBridges]

theorem relaysBridges_congr (same : aug.values "BridgeRelay" = aug'.values "BridgeRelay") :
    relaysBridges aug = relaysBridges aug' := by
  rw [relaysBridges, valueOf_congr same, relaysBridges]

theorem isRelayEnabled_congr (same : aug.values "ORPort" = aug'.values "ORPort") :
    isRelayEnabled aug = isRelayEnabled aug' := by
  rw [isRelayEnabled, same, isRelayEnabled]

theorem offers_congr {read : List Char → Option String}
    (same : aug.values "HiddenServiceDir" = aug'.values "HiddenServiceDir") :
    offers read aug = offers read aug' := by
  rw [offers, directoryOf, valueOf_congr same, offers, directoryOf]

theorem usesBridges_useEdit (ready : Ready aug) (use : Bool) :
    usesBridges ((useEdit (some use)).apply aug) = use := by
  have values : ((useEdit (some use)).apply aug).values "UseBridges" =
      [some (if use then "1" else "0")] :=
    Node.values_setOne (ready.single _ (by decide))
  rw [usesBridges, valueOf, values]
  cases use <;> rfl

theorem bridges_bridgesEdit {text : String} (nonempty : text ≠ "") :
    ((bridgesEdit (some text)).apply aug).values "Bridge" =
      ((nonBlankLines text.toList).map String.ofList).map some := by
  rw [Edit.apply, bridgesEdit, Option.getD_some, if_neg nonempty, Option.getD_some,
    values_setAt_of_ne (by simp), values_addBridges, Node.values_removeAll, List.nil_append,
    bridgesOf_eq, List.map_map]
  rfl

theorem isRelayEnabled_setRelay (relay useUpstreamBridges : Bool) :
    isRelayEnabled (setRelay (some relay) useUpstreamBridges aug) =
      (relay && !useUpstreamBridges) := by
  unfold setRelay
  by_cases on : some relay = some true ∧ useUpstreamBridges = false
  · obtain ⟨⟨⟩, rfl⟩ := on
    rw [if_pos ⟨rfl, rfl⟩, isRelayEnabled, head_setAt_later 0 head_setAt_first]
    rfl
  · have off : (relay && !useUpstreamBridges) = false := by
      cases relay <;> cases useUpstreamBridges <;> simp_all
    rw [if_neg on, if_pos (by simp), isRelayEnabled, Node.values_removeAll, off]
    rfl

theorem isRelayEnabled_relayEdit (relay bridge : Option Bool) :
    isRelayEnabled ((relayEdit relay bridge).apply aug) =
      (relay.map fun relay => relay && !usesBridges aug).getD (isRelayEnabled aug) := by
  rw [Edit.apply, relayEdit]
  by_cases omitted : relay = none ∧ bridge = none
  · rw [if_pos omitted, omitted.1]
    rfl
  · rw [if_neg omitted, Option.getD_some]
    have kept : isRelayEnabled (bridgeRelayed bridge (usesBridges aug)
        (setRelay relay (usesBridges aug) aug)) =
          isRelayEnabled (setRelay relay (usesBridges aug) aug) :=
      isRelayEnabled_congr (values_bridgeRelayed _ _ _ (by simp) (by simp) (by simp))
    rw [kept]
    cases relay with
    | none => rfl
    | some relay => exact isRelayEnabled_setRelay relay _

theorem relaysBridges_bridgeRelayed (ready : Ready aug) (bridge useUpstreamBridges : Bool) :
    relaysBridges (bridgeRelayed (some bridge) useUpstreamBridges aug) =
      (bridge && !useUpstreamBridges) := by
  unfold bridgeRelayed
  by_cases on : some bridge = some true ∧ useUpstreamBridges = false
  · obtain ⟨⟨⟩, rfl⟩ := on
    have set : (setAt "BridgeRelay" (.nth 1) "1" aug).values "BridgeRelay" = [some "1"] :=
      Node.values_setOne (ready.single _ (by decide))
    rw [if_pos ⟨rfl, rfl⟩, relaysBridges, valueOf, values_setAt_of_ne (by simp),
      values_setAt_of_ne (by simp), set]
    rfl
  · have off : (bridge && !useUpstreamBridges) = false := by
      cases bridge <;> cases useUpstreamBridges <;> simp_all
    rw [if_neg on, if_pos (by simp), relaysBridges, valueOf, Node.values_removeAll_of_ne (by simp),
      Node.values_removeAll_of_ne (by simp), Node.values_removeAll, off]
    rfl

theorem relaysBridges_relayEdit (ready : Ready aug) (relay bridge : Option Bool) :
    relaysBridges ((relayEdit relay bridge).apply aug) =
      (bridge.map fun bridge => bridge && !usesBridges aug).getD (relaysBridges aug) := by
  rw [Edit.apply, relayEdit]
  by_cases omitted : relay = none ∧ bridge = none
  · rw [if_pos omitted, omitted.2]
    rfl
  · rw [if_neg omitted, Option.getD_some]
    cases bridge with
    | none => exact relaysBridges_congr (values_setRelay aug _ _ (by simp))
    | some bridge => exact relaysBridges_bridgeRelayed (ready.setRelay _ _) bridge _

theorem values_relayEdit_of_omitted (bridge : Option Bool) :
    ((relayEdit none bridge).apply aug).values "ORPort" = aug.values "ORPort" := by
  rw [Edit.apply, relayEdit]
  split
  · rfl
  · exact values_bridgeRelayed _ _ _ (by simp) (by simp) (by simp)

theorem values_bridgeRelay_of_omitted {option : String} (relay : Option Bool)
    (differ : option ≠ "ORPort") :
    ((relayEdit relay none).apply aug).values option = aug.values option := by
  rw [Edit.apply, relayEdit]
  split
  · rfl
  · exact values_setRelay aug relay _ differ

theorem directory_withHiddenService (ready : Ready aug) :
    (withHiddenService aug).values "HiddenServiceDir" = [some hiddenServiceDir] := by
  rw [withHiddenService, values_setAt_of_ne (by simp), values_setAt_of_ne (by simp),
    values_setAt_of_ne (by simp)]
  exact Node.values_setOne (ready.single _ (by decide))

theorem values_withoutHiddenService (aug : Torrc) :
    (withoutHiddenService aug).values "HiddenServiceDir" = [] ∧
      (withoutHiddenService aug).values "HiddenServicePort" = [] := by
  refine ⟨?_, Node.values_removeAll _ _⟩
  rw [withoutHiddenService, Node.values_removeAll_of_ne (by simp), Node.values_removeAll]

theorem values_of_valueOf {option value : String} (single : (aug.values option).length ≤ 1)
    (found : valueOf option aug = some value) : aug.values option = [some value] := by
  unfold valueOf at found
  match values : aug.values option with
  | [] =>
    rw [values] at found
    cases found
  | [first] =>
    rw [values] at found
    exact congrArg (fun first => [first]) found
  | _ :: _ :: _ =>
    rw [values] at single
    simp at single

theorem directory_enabled (ready : Ready aug) (read : List Char → Option String) :
    ∃ directory, ((hiddenEdit read (some true)).apply aug).values "HiddenServiceDir" =
      [some directory] ∧ directory ≠ "" := by
  by_cases offered : offers read aug = true
  · have kept : (hiddenEdit read (some true)).apply aug = aug := by
      simp [Edit.apply, hiddenEdit, offered]
    have configured : directoryOf aug ≠ "" := (of_decide_eq_true offered).1
    rw [kept]
    cases found : valueOf "HiddenServiceDir" aug with
    | none => exact absurd (by rw [directoryOf, found]; rfl) configured
    | some directory =>
      rw [directoryOf, found] at configured
      exact ⟨directory, values_of_valueOf (ready.single _ (by decide)) found, configured⟩
  · have edited : (hiddenEdit read (some true)).apply aug = withHiddenService aug := by
      simp [Edit.apply, hiddenEdit, offered]
    rw [edited]
    exact ⟨hiddenServiceDir, directory_withHiddenService ready, by simp [hiddenServiceDir]⟩

end Edits

/-! ## A whole call -/

section Whole

variable {aug : Torrc} {arguments : Arguments} {read : List Char → Option String}

theorem Ready.applyAll (ready : Ready aug) (arguments : Arguments)
    (read : List Char → Option String) : Ready (applyAll (edits arguments read) aug) := by
  have first : useEdit arguments.useUpstreamBridges ∈ edits arguments read := .head _
  have second : bridgesEdit arguments.upstreamBridges ∈ edits arguments read := .tail _ (.head _)
  have third : relayEdit (turnedOff arguments arguments.relay)
      (turnedOff arguments arguments.bridgeRelay) ∈ edits arguments read :=
    .tail _ (.tail _ (.head _))
  have fourth : hiddenEdit read arguments.hiddenService ∈ edits arguments read :=
    .tail _ (.tail _ (.tail _ (.head _)))
  exact (((ready.apply first).apply second).apply third).apply fourth

theorem usesBridges_applyAll : usesBridges (applyAll (edits arguments read) aug) =
    usesBridges ((useEdit arguments.useUpstreamBridges).apply aug) := by
  apply usesBridges_congr
  rw [applyAll, edits, List.foldl_cons, List.foldl_cons, List.foldl_cons, List.foldl_cons,
    List.foldl_nil, values_hiddenEdit _ _ _ (by simp) (by simp),
    values_relayEdit _ _ _ (by simp) (by simp) (by simp) (by simp),
    values_bridgesEdit _ _ (by simp) (by simp)]

theorem usesBridges_of_given (ready : Ready aug) {use : Bool}
    (given : arguments.useUpstreamBridges = some use) :
    usesBridges (applyAll (edits arguments read) aug) = use := by
  rw [usesBridges_applyAll, given]
  exact usesBridges_useEdit ready use

theorem isRelayEnabled_applyAll : isRelayEnabled (applyAll (edits arguments read) aug) =
    ((turnedOff arguments arguments.relay).map fun relay =>
      relay && !usesBridges (applyAll (edits arguments read) aug)).getD (isRelayEnabled aug) := by
  have uses : usesBridges ((bridgesEdit arguments.upstreamBridges).apply
      ((useEdit arguments.useUpstreamBridges).apply aug)) =
        usesBridges (applyAll (edits arguments read) aug) := by
    rw [usesBridges_applyAll]
    exact usesBridges_congr (values_bridgesEdit _ _ (by simp) (by simp))
  have before : isRelayEnabled ((bridgesEdit arguments.upstreamBridges).apply
      ((useEdit arguments.useUpstreamBridges).apply aug)) = isRelayEnabled aug := by
    apply isRelayEnabled_congr
    rw [values_bridgesEdit _ _ (by simp) (by simp), values_useEdit _ _ (by simp)]
  rw [← uses, ← before, ← isRelayEnabled_relayEdit]
  exact isRelayEnabled_congr (values_hiddenEdit _ _ _ (by simp) (by simp))

theorem relaysBridges_applyAll (ready : Ready aug) :
    relaysBridges (applyAll (edits arguments read) aug) =
      ((turnedOff arguments arguments.bridgeRelay).map fun bridge =>
        bridge && !usesBridges (applyAll (edits arguments read) aug)).getD (relaysBridges aug) := by
  have first : useEdit arguments.useUpstreamBridges ∈ edits arguments read := .head _
  have second : bridgesEdit arguments.upstreamBridges ∈ edits arguments read := .tail _ (.head _)
  have uses : usesBridges ((bridgesEdit arguments.upstreamBridges).apply
      ((useEdit arguments.useUpstreamBridges).apply aug)) =
        usesBridges (applyAll (edits arguments read) aug) := by
    rw [usesBridges_applyAll]
    exact usesBridges_congr (values_bridgesEdit _ _ (by simp) (by simp))
  have before : relaysBridges ((bridgesEdit arguments.upstreamBridges).apply
      ((useEdit arguments.useUpstreamBridges).apply aug)) = relaysBridges aug := by
    apply relaysBridges_congr
    rw [values_bridgesEdit _ _ (by simp) (by simp), values_useEdit _ _ (by simp)]
  rw [← uses, ← before, ← relaysBridges_relayEdit ((ready.apply first).apply second)]
  exact relaysBridges_congr (values_hiddenEdit _ _ _ (by simp) (by simp))

theorem turnedOff_given (ready : Ready aug) {given : Option Bool} {relay kept : Bool}
    (some : given = some relay) :
    let enabled := ((turnedOff arguments given).map fun relay =>
      relay && !usesBridges (applyAll (edits arguments read) aug)).getD kept
    enabled = relay ∨
      enabled = false ∧ usesBridges (applyAll (edits arguments read) aug) = true := by
  subst some
  by_cases on : arguments.useUpstreamBridges = some true
  · rw [turnedOff, if_pos on, usesBridges_of_given ready on]
    exact .inr ⟨rfl, rfl⟩
  · rw [turnedOff, if_neg on]
    cases usesBridges (applyAll (edits arguments read) aug) with
    | true => exact .inr ⟨Bool.and_false relay, rfl⟩
    | false => exact .inl (Bool.and_true relay)

theorem turnedOff_of_uses (ready : Ready aug) {given : Option Bool} {kept : Bool}
    (uses : usesBridges (applyAll (edits arguments read) aug) = true)
    (off : usesBridges aug = true → kept = false) :
    ((turnedOff arguments given).map fun relay =>
      relay && !usesBridges (applyAll (edits arguments read) aug)).getD kept = false := by
  rw [uses]
  cases asked : arguments.useUpstreamBridges with
  | none =>
    have before : usesBridges aug = true := by
      rw [usesBridges_applyAll, asked] at uses
      exact uses
    cases given with
    | none =>
      rw [turnedOff, asked]
      exact off before
    | some relay => simp [turnedOff, asked]
  | some use =>
    rw [usesBridges_of_given ready asked] at uses
    subst uses
    simp [turnedOff, asked]

theorem consistent_applyAll (ready : Ready aug) (consistent : Consistent aug) :
    Consistent (applyAll (edits arguments read) aug) := by
  intro uses
  rw [isRelayEnabled_applyAll, relaysBridges_applyAll ready]
  exact ⟨turnedOff_of_uses ready uses fun before => (consistent before).1,
    turnedOff_of_uses ready uses fun before => (consistent before).2⟩

def managed : List String :=
  ["UseBridges", "Bridge", "ClientTransportPlugin", "ORPort", "BridgeRelay",
    "ServerTransportPlugin", "ExtORPort", "HiddenServiceDir", "HiddenServicePort"]

structure Honours (arguments : Arguments) (offered : Bool) (before after : Torrc)
    (read : List Char → Option String) (status : Status) : Prop where
  exclusive : status.useUpstreamBridges = true →
    status.relayEnabled = false ∧ status.bridgeRelayEnabled = false
  use : ∀ use, arguments.useUpstreamBridges = some use → status.useUpstreamBridges = use
  useKept : arguments.useUpstreamBridges = none →
    after.values "UseBridges" = before.values "UseBridges"
  bridges : ∀ text, arguments.upstreamBridges = some text → text ≠ "" →
    after.values "Bridge" = ((nonBlankLines text.toList).map String.ofList).map some ∧
      status.upstreamBridges = "\n".intercalate ((nonBlankLines text.toList).map String.ofList)
  bridgesKept : arguments.upstreamBridges = none → ∀ option ∈ ["Bridge", "ClientTransportPlugin"],
    after.values option = before.values option
  relay : ∀ relay, arguments.relay = some relay → status.relayEnabled = relay ∨
    status.relayEnabled = false ∧ status.useUpstreamBridges = true
  relayKept : arguments.relay = none → arguments.useUpstreamBridges ≠ some true →
    after.values "ORPort" = before.values "ORPort"
  bridgeRelay : ∀ bridgeRelay, arguments.bridgeRelay = some bridgeRelay →
    status.bridgeRelayEnabled = bridgeRelay ∨
      status.bridgeRelayEnabled = false ∧ status.useUpstreamBridges = true
  bridgeRelayKept : arguments.bridgeRelay = none → arguments.useUpstreamBridges ≠ some true →
    ∀ option ∈ ["BridgeRelay", "ServerTransportPlugin", "ExtORPort"],
      after.values option = before.values option
  hidden : arguments.hiddenService = some true → ∃ directory,
    after.values "HiddenServiceDir" = [some directory] ∧ directory ≠ "" ∧
      status.hiddenService.enabled = (read (hostnameFile directory)).isSome
  notHidden : arguments.hiddenService = some false → offered = true →
    after.values "HiddenServiceDir" = [] ∧ after.values "HiddenServicePort" = [] ∧
      status.hiddenService.enabled = false
  hiddenKept : arguments.hiddenService = none →
    ∀ option ∈ ["HiddenServiceDir", "HiddenServicePort"],
      after.values option = before.values option
  others : ∀ option ∉ managed, after.values option = before.values option

theorem applied : applyAll (edits arguments read) aug =
    (hiddenEdit read arguments.hiddenService).apply
      ((relayEdit (turnedOff arguments arguments.relay)
        (turnedOff arguments arguments.bridgeRelay)).apply
          ((bridgesEdit arguments.upstreamBridges).apply
            ((useEdit arguments.useUpstreamBridges).apply aug))) :=
  rfl

theorem values_applyAll {option : String}
    (use : ∀ aug, ((useEdit arguments.useUpstreamBridges).apply aug).values option =
      aug.values option)
    (bridges : ∀ aug, ((bridgesEdit arguments.upstreamBridges).apply aug).values option =
      aug.values option)
    (relay : ∀ aug, ((relayEdit (turnedOff arguments arguments.relay)
      (turnedOff arguments arguments.bridgeRelay)).apply aug).values option = aug.values option)
    (hidden : ∀ aug, ((hiddenEdit read arguments.hiddenService).apply aug).values option =
      aug.values option) :
    (applyAll (edits arguments read) aug).values option = aug.values option := by
  rw [applied, hidden, relay, bridges, use]

theorem offers_before : offers read ((relayEdit (turnedOff arguments arguments.relay)
    (turnedOff arguments arguments.bridgeRelay)).apply
      ((bridgesEdit arguments.upstreamBridges).apply
        ((useEdit arguments.useUpstreamBridges).apply aug))) = offers read aug := by
  apply offers_congr
  rw [values_relayEdit _ _ _ (by simp) (by simp) (by simp) (by simp),
    values_bridgesEdit _ _ (by simp) (by simp), values_useEdit _ _ (by simp)]

theorem offers_of_values {directory : String} (later : List Char → Option String)
    (values : aug.values "HiddenServiceDir" = [some directory]) (nonempty : directory ≠ "") :
    offers later aug = (later (hostnameFile directory)).isSome := by
  have found : directoryOf aug = directory := by
    rw [directoryOf, valueOf, values]
    rfl
  rw [offers, found]
  simp [nonempty]

theorem honours_applyAll (ready : Ready aug) (consistent : Consistent aug)
    (later : List Char → Option String) : ∃ status,
      getStatus later (applyAll (edits arguments read) aug) = .ok status ∧
        Honours arguments (offers read aug) aug (applyAll (edits arguments read) aug) later
          status := by
  obtain ⟨status, reported, uses, bridges, relays, bridgeRelays, enabled⟩ :=
    getStatus_of_ready (ready.applyAll arguments read) later
  have first : useEdit arguments.useUpstreamBridges ∈ edits arguments read := .head _
  have second : bridgesEdit arguments.upstreamBridges ∈ edits arguments read := .tail _ (.head _)
  have third : relayEdit (turnedOff arguments arguments.relay)
      (turnedOff arguments arguments.bridgeRelay) ∈ edits arguments read :=
    .tail _ (.tail _ (.head _))
  refine ⟨status, reported, ?_⟩
  exact {
    exclusive := by
      rw [uses, relays, bridgeRelays]
      exact consistent_applyAll ready consistent
    use := by
      intro use given
      rw [uses]
      exact usesBridges_of_given ready given
    useKept := by
      intro omitted
      rw [applied, values_hiddenEdit _ _ _ (by simp) (by simp),
        values_relayEdit _ _ _ (by simp) (by simp) (by simp) (by simp),
        values_bridgesEdit _ _ (by simp) (by simp), omitted]
      rfl
    bridges := by
      intro text given nonempty
      have values : (applyAll (edits arguments read) aug).values "Bridge" =
          ((nonBlankLines text.toList).map String.ofList).map some := by
        rw [applied, values_hiddenEdit _ _ _ (by simp) (by simp),
          values_relayEdit _ _ _ (by simp) (by simp) (by simp) (by simp), given]
        exact bridges_bridgesEdit nonempty
      exact ⟨values, bridges _ values⟩
    bridgesKept := by
      intro omitted option member
      have bridges (aug : Torrc) : ((bridgesEdit arguments.upstreamBridges).apply aug).values
          option = aug.values option := by
        rw [omitted]
        rfl
      simp only [List.mem_cons, List.not_mem_nil, or_false] at member
      obtain rfl | rfl := member
      · exact values_applyAll (fun _ => values_useEdit _ _ (by simp)) bridges
          (fun _ => values_relayEdit _ _ _ (by simp) (by simp) (by simp) (by simp))
          fun _ => values_hiddenEdit _ _ _ (by simp) (by simp)
      · exact values_applyAll (fun _ => values_useEdit _ _ (by simp)) bridges
          (fun _ => values_relayEdit _ _ _ (by simp) (by simp) (by simp) (by simp))
          fun _ => values_hiddenEdit _ _ _ (by simp) (by simp)
    relay := by
      intro relay given
      rw [relays, uses, isRelayEnabled_applyAll]
      exact turnedOff_given ready given
    relayKept := by
      intro omitted off
      have kept : turnedOff arguments arguments.relay = none := by rw [turnedOff, if_neg off, omitted]
      refine values_applyAll (fun _ => values_useEdit _ _ (by simp))
        (fun _ => values_bridgesEdit _ _ (by simp) (by simp)) (fun aug => ?_)
        fun _ => values_hiddenEdit _ _ _ (by simp) (by simp)
      rw [kept]
      exact values_relayEdit_of_omitted _
    bridgeRelay := by
      intro bridgeRelay given
      rw [bridgeRelays, uses, relaysBridges_applyAll ready]
      exact turnedOff_given ready given
    bridgeRelayKept := by
      intro omitted off option member
      have kept : turnedOff arguments arguments.bridgeRelay = none := by
        rw [turnedOff, if_neg off, omitted]
      have relay (differ : option ≠ "ORPort") (aug : Torrc) :
          ((relayEdit (turnedOff arguments arguments.relay)
            (turnedOff arguments arguments.bridgeRelay)).apply aug).values option =
              aug.values option := by
        rw [kept]
        exact values_bridgeRelay_of_omitted _ differ
      simp only [List.mem_cons, List.not_mem_nil, or_false] at member
      obtain rfl | rfl | rfl := member <;>
      exact values_applyAll (fun _ => values_useEdit _ _ (by simp))
        (fun _ => values_bridgesEdit _ _ (by simp) (by simp)) (relay (by simp))
        fun _ => values_hiddenEdit _ _ _ (by simp) (by simp)
    hidden := by
      intro given
      obtain ⟨directory, values, nonempty⟩ := directory_enabled (((ready.apply first).apply
        second).apply third) read
      rw [← given] at values
      refine ⟨directory, values, nonempty, ?_⟩
      rw [enabled]
      exact offers_of_values later values nonempty
    notHidden := by
      intro given offered
      have removed : applyAll (edits arguments read) aug = withoutHiddenService
          ((relayEdit (turnedOff arguments arguments.relay)
            (turnedOff arguments arguments.bridgeRelay)).apply
              ((bridgesEdit arguments.upstreamBridges).apply
                ((useEdit arguments.useUpstreamBridges).apply aug))) := by
        rw [applied, given]
        unfold Edit.apply hiddenEdit
        dsimp only
        rw [if_pos]
        · rfl
        · exact offers_before.trans offered
      have values := values_withoutHiddenService
        ((relayEdit (turnedOff arguments arguments.relay)
          (turnedOff arguments arguments.bridgeRelay)).apply
            ((bridgesEdit arguments.upstreamBridges).apply
              ((useEdit arguments.useUpstreamBridges).apply aug)))
      rw [← removed] at values
      refine ⟨values.1, values.2, ?_⟩
      rw [enabled, offers, directoryOf, valueOf, values.1]
      rfl
    hiddenKept := by
      intro omitted option member
      have hidden (aug : Torrc) : ((hiddenEdit read arguments.hiddenService).apply aug).values
          option = aug.values option := by
        rw [omitted]
        rfl
      simp only [List.mem_cons, List.not_mem_nil, or_false] at member
      obtain rfl | rfl := member <;>
      exact values_applyAll (fun _ => values_useEdit _ _ (by simp))
        (fun _ => values_bridgesEdit _ _ (by simp) (by simp))
        (fun _ => values_relayEdit _ _ _ (by simp) (by simp) (by simp) (by simp)) hidden
    others := by
      intro option member
      simp only [managed, List.mem_cons, List.not_mem_nil, or_false, not_or] at member
      obtain ⟨use, bridge, plugin, orPort, relay, server, port, directory, hidden⟩ := member
      exact values_applyAll (fun _ => values_useEdit _ _ use)
        (fun _ => values_bridgesEdit _ _ bridge plugin)
        (fun _ => values_relayEdit _ _ _ orPort relay server port)
        fun _ => values_hiddenEdit _ _ _ directory hidden }

end Whole

/-! ## Calls one after the other -/

section Calls

variable {system : System} {arguments : Arguments} {environment : Environment}

theorem exec_configure (ready : Ready system.saved) (arguments : Arguments)
    (environment : Environment) :
    let outcome := (configure arguments).exec (system.under environment)
    (outcome.1 = .ok () →
      outcome.2.saved = applyAll (edits arguments environment.read) system.saved) ∧
    ∀ e, outcome.1 = .error e → Stopped environment arguments system.saved e outcome.2 ∨
      SiteFailed environment (applyAll (edits arguments environment.read) system.saved) e
        outcome.2 := by
  have triple : Triple (During environment system.saved) (configure arguments) _ _ :=
    configure_spec ready arguments
  have spec := triple (system.under environment) ⟨rfl, rfl, rfl, List.suffix_rfl⟩
  generalize (configure arguments).exec (system.under environment) = outcome at spec ⊢
  obtain ⟨e | a, after⟩ := outcome
  · constructor
    · intro returned
      cases returned
    · rintro e' ⟨⟩
      exact spec
  · constructor
    · intro _
      exact spec
    · intro e raised
      cases raised

theorem saved_configure (arguments : Arguments) (ready : Ready system.saved)
    (saves : environment.Saves) :
    let outcome := (configure arguments).exec (system.under environment)
    outcome.2.saved = applyAll (edits arguments environment.read) system.saved ∧
      ∀ e, outcome.1 = .error e → environment.site = some e := by
  have spec := exec_configure ready arguments environment
  generalize (configure arguments).exec (system.under environment) = outcome at spec ⊢
  obtain ⟨e | a, after⟩ := outcome
  · obtain ⟨-, fails, -⟩ | ⟨site, saved⟩ := spec.2 e rfl
    · cases saves false fails
    · refine ⟨saved, ?_⟩
      rintro e' ⟨⟩
      exact site
  · refine ⟨spec.1 rfl, ?_⟩
    rintro e ⟨⟩

def Safe (system : System) : Prop :=
  Ready system.saved ∧ Consistent system.saved

theorem safe_step (system : System) (event : Event) (safe : Safe system)
    (saves : event.environment.Saves) : Safe (step system event) := by
  have saved : (step system event).saved =
      applyAll (edits event.arguments event.environment.read) system.saved :=
    (saved_configure event.arguments safe.1 saves).1
  rw [Safe, saved]
  exact ⟨safe.1.applyAll _ _, consistent_applyAll safe.1 safe.2⟩

theorem safe_run (system : System) (events : List Event) (safe : Safe system)
    (saving : Throughout step (fun _ event => event.environment.Saves) system events) :
    Safe (run step system events) :=
  invariant_run_of_throughout Safe safe_step system events safe saving

/-- After calls that were saved, a call that is saved does what its arguments say, and one that
stops at a save leaves what the parts before it have saved. -/
theorem configure_honours (system : System) (ready : Ready system.saved)
    (consistent : Consistent system.saved) (events : List Event)
    (saving : Throughout step (fun _ event => event.environment.Saves) system events)
    (arguments : Arguments) (environment : Environment) :
    let before := (run step system events).saved
    let outcome := (configure arguments).exec ((run step system events).under environment)
    (environment.Saves → (∀ e, outcome.1 = .error e → environment.site = some e) ∧
      ∀ later, ∃ status, getStatus later outcome.2.saved = .ok status ∧
        Honours arguments (offers environment.read before) before outcome.2.saved later status) ∧
    ∀ e, outcome.1 = .error e → environment.site ≠ some e →
      ∃ done edit rest, edits arguments environment.read = done ++ edit :: rest ∧
        outcome.2.saved = applyAll done before := by
  have safe := safe_run system events ⟨ready, consistent⟩ saving
  dsimp only
  constructor
  · intro saves
    have saved := saved_configure arguments safe.1 saves
    refine ⟨saved.2, fun later => ?_⟩
    rw [saved.1]
    exact honours_applyAll safe.1 safe.2 later
  · intro e raised other
    have spec := exec_configure safe.1 arguments environment
    obtain ⟨-, -, stopped⟩ | ⟨site, -⟩ := spec.2 e raised
    · exact stopped
    · exact absurd site other

/-! ## The first setup -/

theorem Ready.setRelays {aug : Torrc} (ready : Ready aug) (relay bridge : Option Bool) :
    Ready ((relayEdit relay bridge).apply aug) := by
  unfold Edit.apply relayEdit
  split
  · exact ready
  · exact (ready.setRelay _ _).bridgeRelayed _ _

theorem triple_save_any {edited : Torrc} : Triple (fun _ => True) (save edited)
    (fun _ system => system.saved = edited) fun e _ => e = notSaved := by
  intro system _
  have spec : Triple (During system.environment system.saved) (save edited)
      (fun _ system => system.saved = edited) fun e _ => e = notSaved :=
    triple_save.conseq (fun _ => id) (fun _ _ during => during.1) fun _ _ failed => failed.1
  exact spec system ⟨rfl, rfl, rfl, List.suffix_rfl⟩

theorem safe_firstTimeSetup {aug : Torrc}
    (bare : ∀ option ∈ "ControlPort" :: managed, aug.values option = []) :
    Triple (fun _ => True) (firstTimeSetup aug) (fun _ => Safe) fun e _ => e = notSaved := by
  have control : set "ControlPort" "9051" aug = .ok (setAt "ControlPort" (.nth 1) "9051" aug) := by
    apply Node.setOne_of_le
    rw [bare _ List.mem_cons_self]
    exact Nat.zero_le 1
  have ready : Ready aug := by
    refine ⟨fun option member => ?_, fun value member => ?_, fun value member => ?_⟩
    · rw [bare option]
      · exact Nat.zero_le 1
      · simp only [singleOptions, List.mem_cons, List.not_mem_nil, or_false] at member
        simp only [managed, List.mem_cons, List.not_mem_nil, or_false]
        tauto
    · rw [bare _ (by simp [managed])] at member
      cases member
    · rw [bare _ (by simp [managed])] at member
      cases member
  have controlled : Ready (setAt "ControlPort" (.nth 1) "9051" aug) :=
    ready.setAt 0 (fun _ => rfl) (by simp)
  have policy {aug : Torrc} (ready : Ready aug) (i : Nat) (value : String) :
      Ready (setAt "ExitPolicy" (.nth (i + 1)) value aug) :=
    ready.setAt i (by simp [singleOptions]) (by simp)
  have related := policy (policy (controlled.setRelays (some true) (some true)) 0 "reject *:*") 1
    "reject6 *:*"
  unfold firstTimeSetup
  refine Triple.bind_lift control ?_
  rw [enableRelay_eq controlled]
  have relays : Triple (fun _ => True) (commit (relayEdit (some true) (some true))
      (setAt "ControlPort" (.nth 1) "9051" aug))
      (fun edited _ => edited = (relayEdit (some true) (some true)).apply
        (setAt "ControlPort" (.nth 1) "9051" aug) ∧ True) (fun e _ => e = notSaved) :=
    triple_save_any.bind fun _ => Triple.pure fun _ _ => ⟨rfl, trivial⟩
  refine Triple.bind_eq relays ?_
  refine Triple.bind_lift (setHiddenService_of_ready related) ?_
  refine triple_save_any.bind fun _ => Triple.pure fun system saved => ?_
  rw [Safe, saved]
  refine ⟨ready_withHiddenService related, fun uses => ?_⟩
  rw [usesBridges, valueOf, withHiddenService, values_setAt_of_ne (by simp),
    values_setAt_of_ne (by simp), values_setAt_of_ne (by simp), values_setAt_of_ne (by simp),
    values_setAt_of_ne (by simp), values_setAt_of_ne (by simp),
    values_relayEdit _ _ _ (by simp) (by simp) (by simp) (by simp), values_setAt_of_ne (by simp),
    bare _ (by simp [managed])] at uses
  cases uses

end Calls

/-! ## Calls as they were set up -/

def works (hostname : Option String) : Environment :=
  ⟨fun _ => hostname, [], none⟩

def bareFile : Torrc :=
  ⟨"torrc", none, []⟩

def setUp : System :=
  ((firstTimeSetup bareFile).exec ⟨bareFile, none, works none⟩).2

theorem safe_setUp : Safe setUp := by
  have spec : Triple (fun _ => True) (firstTimeSetup bareFile) (fun _ => Safe)
      fun e _ => e = notSaved := safe_firstTimeSetup fun _ _ => rfl
  exact spec ⟨bareFile, none, works none⟩ trivial

def bridged : Arguments :=
  ⟨some true, some " \nobfs4  192.0.2.1:9001\n", none, none, none⟩

def savedBy (arguments : Arguments) (environment : Environment) (system : System) : System :=
  ((configure arguments).exec (system.under environment)).2

def withBridges (upstreamBridges : String) : FormData :=
  ⟨false, false, true, false, upstreamBridges⟩

theorem configure_not_as_claimed :
    (applyChanges (withBridges "192.0.2.1") (withBridges "") =
        some ⟨none, some "", none, none, none⟩ ∧
      ((savedBy ⟨none, some "", none, none, none⟩ (works none)
        (savedBy bridged (works none) setUp)).saved.values "Bridge" =
          [some "obfs4 192.0.2.1:9001"])) ∧
    (savedBy ⟨none, none, none, none, some false⟩ (works none) setUp).saved.values
      "HiddenServiceDir" = [some hiddenServiceDir] ∧
    ((getStatus (fun _ => none) (savedBy ⟨none, none, none, none, some true⟩ (works none)
      setUp).saved).toOption.map fun status => status.hiddenService.enabled) = some false ∧
    (isRelayEnabled setUp.saved = true ∧
      isRelayEnabled (savedBy ⟨some true, none, none, none, none⟩ (works none) setUp).saved =
        false) ∧
    (usesBridges setUp.saved = false ∧
      usesBridges (savedBy ⟨some true, none, none, none, none⟩ ⟨fun _ => none, [true, false], none⟩
        setUp).saved = true ∧
      isRelayEnabled (savedBy ⟨some true, none, none, none, none⟩
        ⟨fun _ => none, [true, false], none⟩ setUp).saved = true) := by
  decide +kernel

theorem configure_honours_setUp : ∃ status,
    getStatus (fun _ => some "name.onion")
      ((configure bridged).exec (setUp.under (works (some "name.onion")))).2.saved = .ok status ∧
        status.useUpstreamBridges = true ∧ status.relayEnabled = false ∧
          status.upstreamBridges = "obfs4 192.0.2.1:9001" := by
  have honoured := (configure_honours setUp safe_setUp.1 safe_setUp.2 [] trivial bridged
    (works (some "name.onion"))).1 (fun works member => by cases member)
  obtain ⟨status, reported, honours⟩ := honoured.2 fun _ => some "name.onion"
  have uses := honours.use true rfl
  refine ⟨status, reported, uses, (honours.exclusive uses).1, ?_⟩
  exact (honours.bridges _ rfl (by decide)).2.trans rfl

end Plinth.Tor
