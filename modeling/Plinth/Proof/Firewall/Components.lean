import Plinth.Proof.Firewall.Zones

/-! # The zones follow the enabled components -/

namespace Plinth.Firewall

open Effect

def required (components : OrderedDict String Firewall) : Set Place :=
  {x | ∃ c ∈ components.values, c.isEnabled = true ∧ x.2.2 ∈ c.ports ∧
    (x.2.1 = .external → c.isExternal = true)}

/-- firewalld runs and the services of its zones are exactly those that the enabled components
require. -/
structure Exact (s : System) : Prop where
  running : s.firewalld.running = true
  runtime : ∀ zone port, port ∈ s.firewalld.runtime zone ↔
    ∃ c ∈ s.allFirewallComponents.values, c.isEnabled = true ∧ port ∈ c.ports ∧
      (zone = .external → c.isExternal = true)
  permanent : ∀ zone port, port ∈ s.firewalld.permanent zone ↔
    ∃ c ∈ s.allFirewallComponents.values, c.isEnabled = true ∧ port ∈ c.ports ∧
      (zone = .external → c.isExternal = true)

theorem exact_iff (s : System) :
    Exact s ↔ s.firewalld.running = true ∧
      s.firewalld.enabled = required s.allFirewallComponents := by
  constructor
  · rintro ⟨running, runtime, permanent⟩
    refine ⟨running, ?_⟩
    ext ⟨config, zone, port⟩
    cases config with
    | runtime => exact runtime zone port
    | permanent => exact permanent zone port
  · rintro ⟨running, enabled⟩
    refine ⟨running, fun zone port => ?_, fun zone port => ?_⟩
    · exact iff_of_eq (congrArg ((Config.runtime, zone, port) ∈ ·) enabled)
    · exact iff_of_eq (congrArg ((Config.permanent, zone, port) ∈ ·) enabled)

structure Ready (low high : Set Place) (s : System) : Prop where
  running : s.firewalld.running = true
  synced : s.firewalld.runtime = s.firewalld.permanent
  low : low ⊆ s.firewalld.enabled
  high : s.firewalld.enabled ⊆ high

def Attempt (components : OrderedDict String Firewall) (low high target : Set Place)
    (ports : List String) (operation : Call Unit) : Prop :=
  ∀ s₀, s₀.allFirewallComponents = components → Ready low high s₀ →
    Triple (· = s₀) operation (fun _ s => Frame s₀ s ∧ s.firewalld.enabled = target)
      (Refused s₀ low high ports)

variable {components : OrderedDict String Firewall} {low high target : Set Place}

theorem mem_enabled_of_synced {f : Firewalld} (synced : f.runtime = f.permanent) (config : Config)
    (zone : Zone) (port : String) :
    (config, zone, port) ∈ f.enabled ↔ port ∈ f.runtime zone := by
  cases config with
  | runtime => exact Iff.rfl
  | permanent =>
    rw [synced]
    exact Iff.rfl

def Uniform (places : Set Place) : Prop :=
  ∀ config config' x, (config, x) ∈ places → (config', x) ∈ places

theorem uniform_required : Uniform (required components) :=
  fun _ _ _ member => member

theorem ready_reload (uniformLow : Uniform low) (uniformHigh : Uniform high) {s₀ s : System}
    (between : Between s₀ low high s) :
    Ready low high { s with firewalld := s.firewalld.reload } where
  running := between.frame.running
  synced := rfl
  low := by
    rintro ⟨config, zone, port⟩ member
    exact (mem_enabled_of_synced rfl config zone port).mpr
      (between.low (uniformLow config .permanent _ member))
  high := by
    rintro ⟨config, zone, port⟩ member
    exact uniformHigh .permanent config _
      (between.high ((mem_enabled_of_synced rfl config zone port).mp member))

theorem reload_spec (uniformLow : Uniform low) (uniformHigh : Uniform high) {s₀ : System}
    {E : Error → System → Prop} :
    Triple (Between s₀ low high) reload
      (fun _ s => s.allFirewallComponents = s₀.allFirewallComponents ∧ Ready low high s ∧
        s.firewalld.loaded = s₀.firewalld.installed ∧
        s.firewalld.installed = s₀.firewalld.installed) E := by
  refine ignoreDbusError_spec ?_
  refine (proxy_spec fun s between => between.frame.running).bind fun _ => Triple.modify ?_
  rintro s ⟨between, -⟩
  exact ⟨between.frame.components, ready_reload uniformLow uniformHigh between,
    between.frame.installed, between.frame.installed⟩

theorem tryWithReload_spec {ports : List String} {operation : Call Unit}
    (attempt : Attempt components low high target ports operation) (uniformLow : Uniform low)
    (uniformHigh : Uniform high) {s₀ : System} (same : s₀.allFirewallComponents = components)
    (ready : Ready low high s₀) :
    Triple (· = s₀) (tryWithReload operation)
      (fun _ s => s.allFirewallComponents = components ∧ s.firewalld.running = true ∧
        s.firewalld.installed = s₀.firewalld.installed ∧ s.firewalld.enabled = target)
      (fun _ _ => ∃ port ∈ ports, port ∉ s₀.firewalld.installed) := by
  have first : Triple (· = s₀) operation
      (fun _ s => s.allFirewallComponents = components ∧ s.firewalld.running = true ∧
        s.firewalld.installed = s₀.firewalld.installed ∧ s.firewalld.enabled = target)
      (Refused s₀ low high ports) := by
    refine (attempt s₀ same ready).conseq (fun _ => id) ?_ fun _ _ => id
    rintro _ s ⟨frame, exact⟩
    exact ⟨frame.components.trans same, frame.running, frame.installed, exact⟩
  refine first.tryCatch fun e => Triple.ite (fun other => Triple.throw ?_) fun _ => ?_
  · rintro s ⟨code, -⟩
    exact absurd code other
  · refine ((reload_spec uniformLow uniformHigh).strengthen fun s refused => refused.2.1).bind
      fun _ => ?_
    rintro s ⟨components', ready', loaded, installed⟩
    have again := attempt s (components'.trans same) ready' s rfl
    generalize operation.exec s = outcome at again ⊢
    obtain ⟨e' | _, s'⟩ := outcome
    · obtain ⟨-, -, port, member, unknown⟩ := again
      refine ⟨port, member, ?_⟩
      rw [Unknown, loaded, installed, or_self] at unknown
      exact unknown
    · obtain ⟨frame, exact⟩ := again
      exact ⟨frame.components.trans (components'.trans same), frame.running,
        frame.installed.trans installed, exact⟩

/-! ## The attempts -/

def owned (self : Firewall) (ports : List String) : Set Place :=
  {x | x.2.2 ∈ ports ∧ (x.2.1 = .external → self.isExternal = true)}

theorem both_subset_owned (self : Firewall) {ports : List String} {zone : Zone} {port : String}
    (member : port ∈ ports) (wanted : zone = .external → self.isExternal = true) :
    both zone port ⊆ self.owned ports := by
  rintro ⟨config, z, p⟩ here
  obtain ⟨rfl, rfl⟩ := Prod.mk.inj ((mem_both ..).mp here)
  exact ⟨member, wanted⟩

theorem mem_owned_append (self : Firewall) {done : List String} {port : String} {x : Place}
    (member : x ∈ self.owned (done ++ [port])) :
    x ∈ self.owned done ∨ x ∈ both .internal port ∨
      x ∈ both .external port ∧ self.isExternal = true := by
  obtain ⟨config, zone, p⟩ := x
  obtain ⟨listed, wanted⟩ := member
  obtain listed | rfl := (List.mem_append.mp listed).imp_right List.mem_singleton.mp
  · exact .inl ⟨listed, wanted⟩
  · cases zone with
    | internal => exact .inr (.inl ((mem_both ..).mpr rfl))
    | external => exact .inr (.inr ⟨(mem_both ..).mpr rfl, wanted rfl⟩)

theorem both_subset_enabled {f : Firewalld} (synced : f.runtime = f.permanent) {zone : Zone}
    {port : String} (member : port ∈ f.runtime zone) : both zone port ⊆ f.enabled := by
  rintro ⟨config, z, p⟩ same
  obtain ⟨rfl, rfl⟩ := Prod.mk.inj ((mem_both ..).mp same)
  exact (mem_enabled_of_synced synced config z p).mpr member

theorem openPort_spec {s₀ : System} {done : Set Place} {ports : List String} {zone : Zone}
    {port : String} {test wanted : Prop} [Decidable test] {snapshot : Finset String}
    (ready : Ready low high s₀) (tests : test ↔ wanted ∧ port ∉ snapshot) (member : port ∈ ports)
    (taken : snapshot = s₀.firewalld.runtime zone) (allowed : wanted → both zone port ⊆ high) :
    Triple (Between s₀ (s₀.firewalld.enabled ∪ done) high)
      (when test do addService port zone)
      (fun _ => Between s₀ (s₀.firewalld.enabled ∪ (done ∪ {x | x ∈ both zone port ∧ wanted})) high)
      (Refused s₀ low high ports) := by
  refine Triple.when (fun closed => ?_) fun other s between => ?_
  · have want := (tests.mp closed).1
    refine (addService_spec (allowed want)).conseq (fun _ => id)
      (fun _ s between => between.mono ?_ Set.Subset.rfl) fun e s refused =>
        refused.mono (ready.low.trans Set.subset_union_left) Set.Subset.rfl (by simpa using member)
    simp [want, Set.union_assoc]
  · refine between.mono ?_ Set.Subset.rfl
    rintro x (old | old | ⟨here, want⟩)
    · exact .inl old
    · exact .inr old
    · have already : port ∈ snapshot := by simpa [tests, want] using other
      exact .inl (both_subset_enabled ready.synced (taken ▸ already) here)

theorem openPorts_attempt (self : Firewall) :
    Attempt components low (low ∪ self.owned self.ports) (low ∪ self.owned self.ports) self.ports
      self.openPorts := by
  intro s₀ same ready
  have running : ∀ s, s = s₀ → s.firewalld.running = true := by
    rintro s rfl
    exact ready.running
  refine (getEnabledServices_spec running).bind fun internal => ?_
  refine (getEnabledServices_spec fun s h => running s h.1).bind fun external => ?_
  refine Triple.extract (internal = s₀.firewalld.runtime .internal ∧
    external = s₀.firewalld.runtime .external) ?_ fun ⟨takenInternal, takenExternal⟩ => ?_
  · rintro s ⟨⟨rfl, h⟩, h'⟩
    exact ⟨h, h'⟩
  refine Triple.forEach (fun done => Between s₀ (s₀.firewalld.enabled ∪ self.owned done)
    (low ∪ self.owned self.ports)) ?_ (fun done port member => ?_) ?_
  · rintro s ⟨⟨rfl, -⟩, -⟩
    refine ⟨⟨rfl, ready.running, rfl, rfl⟩, by simp [owned], ready.high⟩
  · have inside : both .internal port ⊆ self.owned self.ports := both_subset_owned self member nofun
    refine (openPort_spec ready (iff_of_eq (true_and _).symm) member takenInternal
      fun _ => inside.trans Set.subset_union_right).bind fun _ => ?_
    · refine (openPort_spec ready Iff.rfl member takenExternal fun want => ?_).conseq (fun _ => id)
        (fun _ s between => between.mono ?_ Set.Subset.rfl) (fun _ _ => id)
      · exact (both_subset_owned self member fun _ => want).trans Set.subset_union_right
      · rintro x (old | new)
        · exact .inl old
        · obtain earlier | here | here := mem_owned_append self new
          · exact .inr (.inl (.inl earlier))
          · exact .inr (.inl (.inr ⟨here, trivial⟩))
          · exact .inr (.inr here)
  · rintro s between
    refine ⟨between.frame, Set.Subset.antisymm between.high ?_⟩
    exact (Set.union_subset_union_left _ ready.low).trans between.low

theorem closePort_spec {s₀ : System} {done : Set Place} {ports : List String} {zone : Zone}
    {port : String} {needed : System → Bool} {snapshot : Finset String}
    (ready : Ready low high s₀) (member : port ∈ ports)
    (taken : snapshot = s₀.firewalld.runtime zone)
    (needs : ∀ s, s.allFirewallComponents = s₀.allFirewallComponents →
      if needed s then both zone port ⊆ low else Disjoint (both zone port) low) :
    Triple (Between s₀ low (s₀.firewalld.enabled \ done))
      (when (port ∈ snapshot) do
        let s ← get
        when (!needed s) do removeService port zone)
      (fun _ => Between s₀ low (s₀.firewalld.enabled \ (done ∪ {x | x ∈ both zone port ∧ x ∉ low})))
      (Refused s₀ low high ports) := by
  refine Triple.when (fun _ => ?_) fun closed s between => between.mono Set.Subset.rfl ?_
  · have current : Triple (Between s₀ low (s₀.firewalld.enabled \ done)) (get : Call System)
        (fun s' s => Between s₀ low (s₀.firewalld.enabled \ done) s ∧
          s'.allFirewallComponents = s₀.allFirewallComponents) (Refused s₀ low high ports) :=
      Triple.get fun s between => ⟨between, between.frame.components⟩
    refine current.bind fun s' => ?_
    refine Triple.extract _ (fun s h => h.2) fun same => ?_
    have need := needs s' same
    refine Triple.when (fun unneeded => ?_) fun needed s between => between.1.mono Set.Subset.rfl ?_
    · simp only [Bool.not_eq_true'] at unneeded
      simp only [unneeded, Bool.false_eq_true, if_false] at need
      refine (removeService_spec need).conseq (fun s h => h.1)
        (fun _ s between => between.mono Set.Subset.rfl ?_) fun e s refused =>
          refused.mono Set.Subset.rfl (Set.sdiff_subset.trans ready.high) (by simpa using member)
      rintro x ⟨⟨open_, left⟩, other⟩
      exact ⟨open_, fun h => h.elim left fun h => other h.1⟩
    · simp only [Bool.not_eq_true', Bool.not_eq_false] at needed
      rw [if_pos needed] at need
      rintro x ⟨open_, left⟩
      exact ⟨open_, fun h => h.elim left fun h => h.2 (need h.1)⟩
  · rintro ⟨config, z, p⟩ ⟨open_, left⟩
    refine ⟨open_, fun h => h.elim left ?_⟩
    rintro ⟨here, -⟩
    obtain ⟨rfl, rfl⟩ := Prod.mk.inj ((mem_both ..).mp here)
    exact closed (taken ▸ (mem_enabled_of_synced ready.synced config z p).mp open_)

theorem both_required {needed : Bool} {zone : Zone} {port : String}
    (tests : needed = true ↔ ∃ c ∈ components.values, c.isEnabled = true ∧ port ∈ c.ports ∧
      (zone = .external → c.isExternal = true)) :
    if needed then both zone port ⊆ required components
    else Disjoint (both zone port) (required components) := by
  split
  · rintro ⟨config, z, p⟩ here
    obtain ⟨rfl, rfl⟩ := Prod.mk.inj ((mem_both ..).mp here)
    exact tests.mp ‹_›
  · rw [Set.disjoint_left]
    rintro ⟨config, z, p⟩ here member
    obtain ⟨rfl, rfl⟩ := Prod.mk.inj ((mem_both ..).mp here)
    exact absurd (tests.mpr member) ‹_›

theorem closePorts_attempt (self : Firewall)
    (off : ∀ c ∈ components.values, c.componentId = self.componentId → c.isEnabled = false)
    (covered : high ⊆ required components ∪ self.owned self.ports) :
    Attempt components (required components) high (required components) self.ports
      self.closePorts := by
  intro s₀ same ready
  have running : ∀ s, s = s₀ → s.firewalld.running = true := by
    rintro s rfl
    exact ready.running
  refine (getEnabledServices_spec running).bind fun internal => ?_
  refine (getEnabledServices_spec fun s h => running s h.1).bind fun external => ?_
  refine Triple.extract (internal = s₀.firewalld.runtime .internal ∧
    external = s₀.firewalld.runtime .external) ?_ fun ⟨takenInternal, takenExternal⟩ => ?_
  · rintro s ⟨⟨rfl, h⟩, h'⟩
    exact ⟨h, h'⟩
  -- The component itself is off, so excluding it makes no difference.
  have other : ∀ c ∈ components.values, c.isEnabled = true → self.componentId ≠ c.componentId := by
    intro c member enabled same
    rw [off c member same.symm] at enabled
    cases enabled
  refine Triple.forEach (fun done => Between s₀ (required components)
    (s₀.firewalld.enabled \ {x | x.2.2 ∈ done ∧ x ∉ required components})) ?_
    (fun done port member => ?_) ?_
  · rintro s ⟨⟨rfl, -⟩, -⟩
    exact ⟨⟨rfl, ready.running, rfl, rfl⟩, ready.low, by simp⟩
  · refine (closePort_spec ready member takenInternal ?_).bind fun _ => ?_
    · intro s same'
      refine both_required ?_
      simp only [same', same, List.any_eq_true, List.mem_map, List.mem_filter, id_eq,
        decide_eq_true_eq, exists_exists_and_eq_and, reduceCtorEq, false_imp_iff, and_true]
      constructor
      · rintro ⟨c, ⟨member', listed, -⟩, enabled⟩
        exact ⟨c, member', enabled, listed⟩
      · rintro ⟨c, member', enabled, listed⟩
        exact ⟨c, ⟨member', listed, other c member' enabled⟩, enabled⟩
    · refine (closePort_spec ready member takenExternal ?_).conseq (fun _ => id)
        (fun _ s between => between.mono Set.Subset.rfl ?_) fun _ _ => id
      · intro s same'
        refine both_required ?_
        simp only [same', same, List.any_eq_true, List.mem_map, List.mem_filter, id_eq,
          decide_eq_true_eq, exists_exists_and_eq_and, true_imp_iff]
        constructor
        · rintro ⟨c, ⟨member', listed, -, isExternal⟩, enabled⟩
          exact ⟨c, member', enabled, listed, isExternal⟩
        · rintro ⟨c, member', enabled, listed, isExternal⟩
          exact ⟨c, ⟨member', listed, other c member' enabled, isExternal⟩, enabled⟩
      · rintro ⟨config, zone, p⟩ ⟨open_, left⟩
        refine ⟨open_, ?_⟩
        rintro ⟨listed, unneeded⟩
        obtain earlier | rfl := (List.mem_append.mp listed).imp_right List.mem_singleton.mp
        · exact left (.inl (.inl ⟨earlier, unneeded⟩))
        · cases zone with
          | internal => exact left (.inl (.inr ⟨(mem_both ..).mpr rfl, unneeded⟩))
          | external => exact left (.inr ⟨(mem_both ..).mpr rfl, unneeded⟩)
  · rintro s between
    refine ⟨between.frame, Set.Subset.antisymm ?_ between.low⟩
    intro x open_
    obtain ⟨before, left⟩ := between.high open_
    by_contra unneeded
    exact left ⟨((covered (ready.high before)).resolve_left unneeded).1, unneeded⟩

/-! ## Runs -/

theorem mem_required (x : Place) :
    x ∈ required components ↔ ∃ k c, components.get? k = some c ∧ c.isEnabled = true ∧
      x ∈ c.owned c.ports := by
  rw [required, Set.mem_ofPred_eq]
  simp only [OrderedDict.mem_values_iff]
  exact ⟨fun ⟨c, ⟨k, found⟩, enabled, here⟩ => ⟨k, c, found, enabled, here⟩,
    fun ⟨k, c, found, enabled, here⟩ => ⟨c, ⟨k, found⟩, enabled, here⟩⟩

variable {self : Firewall} {k : String}

theorem required_enabled (found : components.get? k = some self) :
    required (components.set k { self with isEnabled := true }) =
      required components ∪ self.owned self.ports := by
  ext x
  rw [Set.mem_union, mem_required, mem_required]
  constructor
  · rintro ⟨k', c, found', enabled, here⟩
    rw [OrderedDict.get?_set] at found'
    split at found'
    · obtain rfl := Option.some.inj found'
      exact .inr here
    · exact .inl ⟨k', c, found', enabled, here⟩
  · rintro (⟨k', c, found', enabled, here⟩ | here)
    · by_cases same : k' = k
      · subst same
        obtain rfl := Option.some.inj (found.symm.trans found')
        exact ⟨k', _, OrderedDict.get?_set_self .., rfl, here⟩
      · exact ⟨k', c, by rw [OrderedDict.get?_set, if_neg same, found'], enabled, here⟩
    · exact ⟨k, _, OrderedDict.get?_set_self .., rfl, here⟩

theorem required_disabled (found : components.get? k = some self) :
    required (components.set k { self with isEnabled := false }) ⊆ required components ∧
      required components ⊆ required (components.set k { self with isEnabled := false }) ∪
        self.owned self.ports := by
  constructor
  · intro x
    rw [mem_required, mem_required]
    rintro ⟨k', c, found', enabled, here⟩
    rw [OrderedDict.get?_set] at found'
    split at found'
    · obtain rfl := Option.some.inj found'
      cases enabled
    · exact ⟨k', c, found', enabled, here⟩
  · intro x
    rw [Set.mem_union, mem_required, mem_required]
    rintro ⟨k', c, found', enabled, here⟩
    by_cases same : k' = k
    · subst same
      obtain rfl := Option.some.inj (found.symm.trans found')
      exact .inr here
    · exact .inl ⟨k', c, by rw [OrderedDict.get?_set, if_neg same, found'], enabled, here⟩

theorem setIsEnabled_of_found {s : System} (found : s.allFirewallComponents.get? k = some self)
    (isEnabled : Bool) :
    (s.setIsEnabled k isEnabled).allFirewallComponents =
        s.allFirewallComponents.set k { self with isEnabled := isEnabled } ∧
      (s.setIsEnabled k isEnabled).firewalld = s.firewalld := by
  unfold System.setIsEnabled
  split
  · simp [found] at *
  · rename_i c found'
    obtain rfl := Option.some.inj (found.symm.trans found')
    exact ⟨rfl, rfl⟩

theorem synced_of_exact {s : System} (exact : Exact s) :
    s.firewalld.runtime = s.firewalld.permanent := by
  funext zone
  ext port
  rw [exact.runtime, exact.permanent]

structure Kept (s₀ s : System) : Prop where
  exact : Exact s
  installed : s.firewalld.installed = s₀.firewalld.installed
  ports : ∀ k, (s.allFirewallComponents.get? k).map ports =
    (s₀.allFirewallComponents.get? k).map ports

theorem Kept.trans {s s' s'' : System} (first : Kept s s') (second : Kept s' s'') :
    Kept s s'' :=
  ⟨second.exact, second.installed.trans first.installed,
    fun k => (second.ports k).trans (first.ports k)⟩

theorem ports_set (found : components.get? k = some self) (isEnabled : Bool) (k' : String) :
    ((components.set k { self with isEnabled := isEnabled }).get? k').map ports =
      (components.get? k').map ports := by
  rw [OrderedDict.get?_set]
  split
  · simp [*]
  · rfl

theorem enable_spec {s₀ : System} (exact : Exact s₀)
    (found : s₀.allFirewallComponents.get? self.componentId = some self) :
    Triple (· = s₀) self.enable (fun _ => Kept s₀)
      (fun _ _ => ∃ port ∈ self.ports, port ∉ s₀.firewalld.installed) := by
  obtain ⟨set, firewalld⟩ := setIsEnabled_of_found found true
  have enabled := ((exact_iff s₀).mp exact).2
  have ready : Ready (required s₀.allFirewallComponents)
      (required s₀.allFirewallComponents ∪ self.owned self.ports)
      (s₀.setIsEnabled self.componentId true) := by
    refine ⟨firewalld ▸ exact.running, firewalld ▸ synced_of_exact exact, ?_, ?_⟩
    · rw [firewalld, enabled]
    · rw [firewalld, enabled]
      exact Set.subset_union_left
  have attempted := tryWithReload_spec (openPorts_attempt self) uniform_required
    (required_enabled found ▸ uniform_required) set ready
  rw [firewalld] at attempted
  have first : Triple (· = s₀) (modify (·.setIsEnabled self.componentId true) : Call Unit)
      (fun _ s => s = s₀.setIsEnabled self.componentId true)
      (fun _ _ => ∃ port ∈ self.ports, port ∉ s₀.firewalld.installed) :=
    Triple.modify fun s same => congrArg (System.setIsEnabled · self.componentId true) same
  refine first.bind fun _ => attempted.conseq (fun _ => id) ?_ fun _ _ => id
  rintro _ s ⟨components, running, installed, reached⟩
  refine ⟨(exact_iff s).mpr ⟨running, ?_⟩, installed, fun k => ?_⟩
  · rw [reached, components, required_enabled found]
  · rw [components, ports_set found]

theorem disable_spec {s₀ : System} (exact : Exact s₀)
    (found : s₀.allFirewallComponents.get? self.componentId = some self) :
    Triple (· = s₀) self.disable (fun _ => Kept s₀)
      (fun _ _ => ∃ port ∈ self.ports, port ∉ s₀.firewalld.installed) := by
  obtain ⟨set, firewalld⟩ := setIsEnabled_of_found found false
  obtain ⟨less, covered⟩ := required_disabled found
  have enabled := ((exact_iff s₀).mp exact).2
  have ready : Ready (required (s₀.allFirewallComponents.set self.componentId
      { self with isEnabled := false })) (required s₀.allFirewallComponents)
      (s₀.setIsEnabled self.componentId false) := by
    refine ⟨firewalld ▸ exact.running, firewalld ▸ synced_of_exact exact, ?_, ?_⟩
    · rwa [firewalld, enabled]
    · rw [firewalld, enabled]
  have off : ∀ c ∈ (s₀.allFirewallComponents.set self.componentId
      { self with isEnabled := false }).values, c.componentId = self.componentId →
      c.isEnabled = false := by
    intro c member same
    obtain ⟨k, found'⟩ := (OrderedDict.mem_values_iff ..).mp member
    rw [OrderedDict.get?_set] at found'
    split at found'
    · obtain rfl := Option.some.inj found'
      rfl
    · rename_i other
      exact absurd ((s₀.keyed k c found').symm.trans same) other
  have attempted := tryWithReload_spec (closePorts_attempt self off covered) uniform_required
    uniform_required set ready
  rw [firewalld] at attempted
  have first : Triple (· = s₀) (modify (·.setIsEnabled self.componentId false) : Call Unit)
      (fun _ s => s = s₀.setIsEnabled self.componentId false)
      (fun _ _ => ∃ port ∈ self.ports, port ∉ s₀.firewalld.installed) :=
    Triple.modify fun s same => congrArg (System.setIsEnabled · self.componentId false) same
  refine first.bind fun _ => attempted.conseq (fun _ => id) ?_ fun _ _ => id
  rintro _ s ⟨components, running, installed, reached⟩
  refine ⟨(exact_iff s).mpr ⟨running, ?_⟩, installed, fun k => ?_⟩
  · rw [reached, components]
  · rw [components, ports_set found]

theorem call_spec (r : Request) {s₀ : System} (exact : Exact s₀) :
    Triple (· = s₀) r.call (fun _ => Kept s₀)
      (fun _ _ => ∃ self, s₀.allFirewallComponents.get? r.componentId = some self ∧
        ∃ port ∈ self.ports, port ∉ s₀.firewalld.installed) := by
  have current : Triple (· = s₀) (get : Call System) (fun s s' => s' = s₀ ∧ s = s₀)
      (fun _ _ => ∃ self, s₀.allFirewallComponents.get? r.componentId = some self ∧
        ∃ port ∈ self.ports, port ∉ s₀.firewalld.installed) :=
    Triple.get fun s same => ⟨same, same⟩
  refine current.bind fun s => Triple.extract _ (fun s' h => h.2) ?_
  rintro rfl
  split
  · rintro s' ⟨rfl, -⟩
    exact ⟨exact, rfl, fun _ => rfl⟩
  · rename_i self found
    have keyed := s.keyed r.componentId self found
    have found' : s.allFirewallComponents.get? self.componentId = some self := keyed ▸ found
    refine Triple.ite (fun _ => ?_) fun _ => ?_
    · exact (enable_spec exact found').conseq (fun _ h => h.1) (fun _ _ => id)
        fun _ _ failed => ⟨self, found, failed⟩
    · exact (disable_spec exact found').conseq (fun _ h => h.1) (fun _ _ => id)
        fun _ _ failed => ⟨self, found, failed⟩

theorem callAll_spec (requests : List Request) {s₀ : System} (exact : Exact s₀) :
    Triple (· = s₀) (callAll requests) (fun _ => Kept s₀)
      (fun _ _ => ∃ r ∈ requests, ∃ self,
        s₀.allFirewallComponents.get? r.componentId = some self ∧
          ∃ port ∈ self.ports, port ∉ s₀.firewalld.installed) := by
  refine Triple.forEach (fun _ => Kept s₀) ?_ (fun _ r member => ?_) fun _ => id
  · rintro s rfl
    exact ⟨exact, rfl, fun _ => rfl⟩
  · intro s kept
    have step := call_spec r kept.exact s rfl
    generalize r.call.exec s = outcome at step ⊢
    obtain ⟨e | _, s'⟩ := outcome
    · obtain ⟨self, found, port, listed, unknown⟩ := step
      have same := kept.ports r.componentId
      rw [found, Option.map_some, eq_comm, Option.map_eq_some_iff] at same
      obtain ⟨self', found', ports⟩ := same
      exact ⟨r, member, self', found', port, ports ▸ listed, kept.installed ▸ unknown⟩
    · exact kept.trans step

/-- Whatever calls of `enable` and `disable` are made, the zones stay exact as long as the calls
return, and they do return when the ports of the components that are called are services that
firewalld knows once it is reloaded. -/
theorem zones_follow_components (s : System) (exact : Exact s) (requests : List Request) :
    (∀ s', (callAll requests).exec s = (.ok (), s') → Exact s') ∧
      ((∀ r ∈ requests, ∀ self, s.allFirewallComponents.get? r.componentId = some self →
          ∀ port ∈ self.ports, port ∈ s.firewalld.installed) →
        ∃ s', (callAll requests).exec s = (.ok (), s') ∧ Exact s') := by
  have spec := callAll_spec requests exact s rfl
  generalize (callAll requests).exec s = outcome at spec ⊢
  obtain ⟨e | _, s''⟩ := outcome
  · refine ⟨by simp, fun known => ?_⟩
    obtain ⟨r, member, self, found, port, listed, unknown⟩ := spec
    exact absurd (known r member self found port listed) unknown
  · exact ⟨fun s' h => by cases h; exact spec.exact, fun _ => ⟨s'', rfl, spec.exact⟩⟩

def sharedPort : System where
  allFirewallComponents := .ofValues componentId [⟨"firewall-a", ["http", "http"], true, false⟩,
    ⟨"firewall-b", ["http", "ssh"], false, false⟩]
  keyed := by
    intro k c found
    rw [OrderedDict.get?_eq_some_iff] at found
    simp [OrderedDict.ofValues, OrderedDict.ofEntries, OrderedDict.set, OrderedDict.empty,
      OrderedDict.setEntry] at found
    obtain ⟨rfl, rfl⟩ | ⟨rfl, rfl⟩ := found
    · rfl
    · rfl
  firewalld :=
    { running := true, runtime := fun _ => ∅, permanent := fun _ => ∅, loaded := {"http"},
      installed := {"http", "ssh"}, known := by simp }

theorem sharedPort_exact : Exact sharedPort := by
  have off : ∀ c ∈ sharedPort.allFirewallComponents.values, c.isEnabled = false := by decide
  refine ⟨rfl, fun zone port => ?_, fun zone port => ?_⟩ <;>
  · refine ⟨fun h => absurd h (Finset.notMem_empty port), ?_⟩
    rintro ⟨c, member, enabled, -⟩
    rw [off c member] at enabled
    cases enabled

theorem zones_follow_components_sharedPort :
    ∃ s', (callAll [⟨"firewall-a", true⟩, ⟨"firewall-b", true⟩, ⟨"firewall-a", false⟩]).exec
      sharedPort = (.ok (), s') ∧ Exact s' :=
  (zones_follow_components sharedPort sharedPort_exact _).2 (by decide)

end Plinth.Firewall

/-! ## When the diagnosis agrees with the components -/

namespace Plinth.Firewall

open Effect

variable {portDetails : PortDetails} {s : System} {self : Firewall}

def DiagnosisPasses (portDetails : PortDetails) (s : System) : Prop :=
  ∀ self ∈ s.allFirewallComponents.values, self.isEnabled = true →
    ∃ checks, (self.diagnose portDetails).exec s = (.ok checks, s) ∧
      ∀ check ∈ checks, check.result = .passed

def NotShared (components : OrderedDict String Firewall) : Prop :=
  ∀ self ∈ components.values, self.isEnabled = true → self.isExternal = false →
    ∀ port ∈ self.ports, ∀ other ∈ components.values, other.isEnabled = true →
      other.isExternal = true → port ∉ other.ports

theorem exec_getEnabledServices (running : s.firewalld.running = true) (zone : Zone) :
    (getEnabledServices zone).exec s = (.ok (s.firewalld.runtime zone), s) := by
  have found : proxy.exec s = (.ok s.firewalld, s) := by
    rw [proxy, exec_bind, exec_get]
    dsimp only
    rw [if_pos running]
    rfl
  rw [getEnabledServices, exec_tryCatch, exec_bind_of_ok found]
  rfl

theorem exec_diagnose (running : s.firewalld.running = true) (self : Firewall) :
    (self.diagnose portDetails).exec s = (.ok (self.ports.flatMap fun port =>
      [internalCheck portDetails self (s.firewalld.runtime .internal) port,
        externalCheck portDetails self (s.firewalld.runtime .external) port]), s) := by
  rw [diagnose, exec_bind_of_ok (exec_getEnabledServices running .internal),
    exec_bind_of_ok (exec_getEnabledServices running .external)]
  rfl

theorem resultOf_passed_iff (passed : Bool) : resultOf passed = .passed ↔ passed = true := by
  cases passed <;> simp [resultOf]

theorem internalCheck_passed_iff (internalPorts : Finset String) (port : String) :
    (internalCheck portDetails self internalPorts port).result = .passed ↔
      port ∈ internalPorts :=
  (resultOf_passed_iff _).trans decide_eq_true_iff

theorem externalCheck_passed_iff (externalPorts : Finset String) (port : String) :
    (externalCheck portDetails self externalPorts port).result = .passed ↔
      (port ∈ externalPorts ↔ self.isExternal = true) := by
  unfold externalCheck
  cases self.isExternal with
  | true => simp [resultOf_passed_iff]
  | false => simp [resultOf_passed_iff]

variable (portDetails) in
theorem checks_passed_iff (exact : Exact s) (member : self ∈ s.allFirewallComponents.values)
    (enabled : self.isEnabled = true) {port : String} (listed : port ∈ self.ports) :
    ((internalCheck portDetails self (s.firewalld.runtime .internal) port).result = .passed ∧
      (externalCheck portDetails self (s.firewalld.runtime .external) port).result = .passed) ↔
      (self.isExternal = false → ∀ other ∈ s.allFirewallComponents.values,
        other.isEnabled = true → other.isExternal = true → port ∉ other.ports) := by
  have internal : port ∈ s.firewalld.runtime .internal := by
    rw [exact.runtime]
    exact ⟨self, member, enabled, listed, by simp⟩
  rw [internalCheck_passed_iff, externalCheck_passed_iff, and_iff_right internal, exact.runtime]
  cases external : self.isExternal with
  | true =>
    refine iff_of_true (iff_of_true ?_ rfl) (by simp)
    exact ⟨self, member, enabled, listed, fun _ => external⟩
  | false =>
    constructor
    · intro shut _ other member' enabled' external' shared
      exact absurd (shut.mp ⟨other, member', enabled', shared, fun _ => external'⟩) (by simp)
    · intro alone
      refine iff_of_false ?_ (by simp)
      rintro ⟨other, member', enabled', shared, external'⟩
      exact alone rfl other member' enabled' (external' rfl) shared

theorem diagnosisPasses_iff (exact : Exact s) :
    DiagnosisPasses portDetails s ↔ NotShared s.allFirewallComponents := by
  constructor
  · intro passes self member enabled external port listed
    obtain ⟨checks, ran, passed⟩ := passes self member enabled
    rw [exec_diagnose exact.running] at ran
    cases ran
    have both := checks_passed_iff portDetails exact member enabled listed
    refine both.mp ⟨?_, ?_⟩ external
    · exact passed _ (List.mem_flatMap.mpr ⟨port, listed, List.mem_cons_self⟩)
    · exact passed _ (List.mem_flatMap.mpr ⟨port, listed, by simp⟩)
  · intro alone self member enabled
    refine ⟨_, exec_diagnose exact.running self, ?_⟩
    intro check made
    obtain ⟨port, listed, here⟩ := List.mem_flatMap.mp made
    obtain ⟨internal, external⟩ := (checks_passed_iff portDetails exact member enabled
      listed).mpr fun external => alone self member enabled external port listed
    rcases List.mem_pair.mp here with rfl | rfl
    · exact internal
    · exact external

/-- Whatever calls of `enable` and `disable` are made, every enabled component passes afterwards
exactly when none shares a port with an external one that it does not open itself. The calls return
when firewalld knows the ports. -/
theorem diagnosis_after_calls (portDetails : PortDetails) (s : System) (exact : Exact s)
    (requests : List Request) :
    (∀ s', (callAll requests).exec s = (.ok (), s') →
      (DiagnosisPasses portDetails s' ↔ NotShared s'.allFirewallComponents)) ∧
    ((∀ r ∈ requests, ∀ self, s.allFirewallComponents.get? r.componentId = some self →
        ∀ port ∈ self.ports, port ∈ s.firewalld.installed) →
      ∃ s', (callAll requests).exec s = (.ok (), s')) := by
  have spec := callAll_spec requests exact s rfl
  generalize (callAll requests).exec s = outcome at spec ⊢
  obtain ⟨e | ⟨⟩, s''⟩ := outcome
  · refine ⟨by simp, fun known => ?_⟩
    obtain ⟨r, member, self, found, port, listed, unknown⟩ := spec
    exact absurd (known r member self found port listed) unknown
  · refine ⟨?_, fun _ => ⟨s'', rfl⟩⟩
    intro s' returned
    cases returned
    exact diagnosisPasses_iff spec.exact

theorem diagnosis_after_calls_sharedPort :
    ∃ s', (callAll [⟨"firewall-a", true⟩, ⟨"firewall-b", true⟩]).exec sharedPort = (.ok (), s') :=
  (diagnosis_after_calls (fun _ => []) sharedPort sharedPort_exact _).2 (by decide)

theorem shared_port_fails :
    ∃ s', (callAll [⟨"firewall-a", true⟩, ⟨"firewall-b", true⟩]).exec sharedPort = (.ok (), s') ∧
      ¬ DiagnosisPasses (fun _ => []) s' := by
  have spec := callAll_spec [⟨"firewall-a", true⟩, ⟨"firewall-b", true⟩] sharedPort_exact _ rfl
  have returned : ((callAll [⟨"firewall-a", true⟩, ⟨"firewall-b", true⟩]).exec sharedPort).1 =
      .ok () := by decide +kernel
  have components : ((callAll [⟨"firewall-a", true⟩, ⟨"firewall-b", true⟩]).exec
      sharedPort).2.allFirewallComponents.values = [⟨"firewall-a", ["http", "http"], true, true⟩,
        ⟨"firewall-b", ["http", "ssh"], false, true⟩] := by decide +kernel
  generalize (callAll [⟨"firewall-a", true⟩, ⟨"firewall-b", true⟩]).exec sharedPort = outcome
    at spec returned components ⊢
  obtain ⟨result, s'⟩ := outcome
  cases returned
  refine ⟨s', rfl, ?_⟩
  rw [diagnosisPasses_iff spec.exact]
  intro alone
  dsimp only at components
  rw [NotShared, components] at alone
  exact alone ⟨"firewall-b", ["http", "ssh"], false, true⟩ (by simp) rfl rfl "http" (by simp)
    ⟨"firewall-a", ["http", "http"], true, true⟩ (by simp) rfl rfl (by simp)

end Plinth.Firewall
