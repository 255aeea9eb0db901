import Mathlib.Data.Set.Lattice
import Mathlib.Order.CompletePartialOrder
import Plinth.Model.Firewall

/-!
# The services of the zones

What firewalld has enabled, now and permanently, as one set of places, and what each call of
the module does to bounds of that set.
-/

namespace Plinth.Firewall

open Effect

inductive Config
  | runtime
  | permanent
  deriving DecidableEq

abbrev Place := Config × Zone × String

def Firewalld.services (f : Firewalld) : Config → Zone → Finset String
  | .runtime => f.runtime
  | .permanent => f.permanent

def Firewalld.enabled (f : Firewalld) : Set Place :=
  {x | x.2.2 ∈ f.services x.1 x.2.1}

@[simp] theorem mem_enabled (f : Firewalld) (config : Config) (zone : Zone) (port : String) :
    (config, zone, port) ∈ f.enabled ↔ port ∈ f.services config zone := Iff.rfl

theorem mem_update_insert (services : Zone → Finset String) (zone z : Zone) (port p : String) :
    p ∈ Function.update services zone (insert port (services zone)) z ↔
      (z = zone ∧ p = port) ∨ p ∈ services z := by
  obtain rfl | other := eq_or_ne z zone
  · simp
  · simp [other]

theorem mem_update_erase (services : Zone → Finset String) (zone z : Zone) (port p : String) :
    p ∈ Function.update services zone ((services zone).erase port) z ↔
      p ∈ services z ∧ ¬ (z = zone ∧ p = port) := by
  obtain rfl | other := eq_or_ne z zone
  · simp [and_comm]
  · simp [other]

theorem enabled_addRuntime (f : Firewalld) (zone : Zone) (port : String) :
    (f.addRuntime zone port).enabled = insert (.runtime, zone, port) f.enabled := by
  ext ⟨config, z, p⟩
  cases config with
  | runtime => simpa [Firewalld.services, Firewalld.addRuntime] using mem_update_insert ..
  | permanent => simp [Firewalld.services, Firewalld.addRuntime]

theorem enabled_addPermanent (f : Firewalld) (zone : Zone) (port : String)
    (installed : port ∈ f.installed) :
    (f.addPermanent zone port installed).enabled = insert (.permanent, zone, port) f.enabled := by
  ext ⟨config, z, p⟩
  cases config with
  | runtime => simp [Firewalld.services, Firewalld.addPermanent]
  | permanent => simpa [Firewalld.services, Firewalld.addPermanent] using mem_update_insert ..

theorem enabled_removeRuntime (f : Firewalld) (zone : Zone) (port : String) :
    (f.removeRuntime zone port).enabled = f.enabled \ {(.runtime, zone, port)} := by
  ext ⟨config, z, p⟩
  cases config with
  | runtime => simpa [Firewalld.services, Firewalld.removeRuntime] using mem_update_erase ..
  | permanent => simp [Firewalld.services, Firewalld.removeRuntime]

theorem enabled_removePermanent (f : Firewalld) (zone : Zone) (port : String) :
    (f.removePermanent zone port).enabled = f.enabled \ {(.permanent, zone, port)} := by
  ext ⟨config, z, p⟩
  cases config with
  | runtime => simp [Firewalld.services, Firewalld.removePermanent]
  | permanent => simpa [Firewalld.services, Firewalld.removePermanent] using mem_update_erase ..

structure Frame (s₀ s : System) : Prop where
  components : s.allFirewallComponents = s₀.allFirewallComponents
  running : s.firewalld.running = true
  loaded : s.firewalld.loaded = s₀.firewalld.loaded
  installed : s.firewalld.installed = s₀.firewalld.installed

structure Between (s₀ : System) (low high : Set Place) (s : System) : Prop where
  frame : Frame s₀ s
  low : low ⊆ s.firewalld.enabled
  high : s.firewalld.enabled ⊆ high

def Unknown (s : System) (port : String) : Prop :=
  port ∉ s.firewalld.loaded ∨ port ∉ s.firewalld.installed

def Refused (s₀ : System) (low high : Set Place) (ports : List String) (e : Error) (s : System) :
    Prop :=
  e = .firewalld "INVALID_SERVICE" ∧ Between s₀ low high s ∧ ∃ port ∈ ports, Unknown s₀ port

variable {s₀ : System} {low high : Set Place}

theorem Between.mono {low' high' : Set Place} {s : System} (between : Between s₀ low high s)
    (lower : low' ⊆ low) (higher : high ⊆ high') : Between s₀ low' high' s :=
  ⟨between.frame, lower.trans between.low, between.high.trans higher⟩

theorem proxy_spec {P : System → Prop} {E : Error → System → Prop}
    (running : ∀ s, P s → s.firewalld.running = true) :
    Triple P proxy (fun f s => P s ∧ f = s.firewalld) E := by
  have current : Triple P (get : Call System) (fun f s => P s ∧ f = s) E :=
    Triple.get fun s h => ⟨h, rfl⟩
  refine current.bind fun f => ?_
  refine Triple.ite (fun _ => Triple.pure fun s h => ?_) fun stopped => Triple.throw fun s h => ?_
  · exact ⟨h.1, h.2 ▸ rfl⟩
  · obtain ⟨holds, rfl⟩ := h
    exact absurd (running f holds) stopped

theorem ignoreDbusError_spec {dbusError serviceError : Option String} {body : Call Unit}
    {P : System → Prop} {Q : Unit → System → Prop} {E : Error → System → Prop}
    (spec : Triple P body Q fun e s =>
      if isIgnored dbusError serviceError e then Q () s else E e s) :
    Triple P (ignoreDbusError dbusError serviceError body) Q E := by
  refine Triple.tryCatch spec fun e => ?_
  refine Triple.ite (fun ignored => Triple.pure ?_) fun other => Triple.throw ?_
  · intro s h
    simpa [ignored] using h
  · intro s h
    simpa [other] using h

theorem proxyAddService_spec {zone : Zone} {port : String}
    (allowed : (.runtime, zone, port) ∈ high) :
    Triple (Between s₀ low high) (proxyAddService zone port)
      (fun _ => Between s₀ (insert (.runtime, zone, port) low) high)
      fun e s => e = .firewalld "ALREADY_ENABLED" ∧
          Between s₀ (insert (.runtime, zone, port) low) high s ∨
        Refused s₀ low high [port] e s := by
  refine (proxy_spec fun s between => between.frame.running).bind fun f => ?_
  refine Triple.ite (fun unknown => Triple.throw ?_) fun _ =>
    Triple.ite (fun already => Triple.throw ?_) fun _ => Triple.modify ?_
  · rintro s ⟨between, rfl⟩
    exact .inr ⟨rfl, between, port, by simp, .inl (between.frame.loaded ▸ unknown)⟩
  · rintro s ⟨between, rfl⟩
    exact .inl ⟨rfl, between.frame, Set.insert_subset already between.low, between.high⟩
  · rintro s ⟨between, rfl⟩
    refine ⟨⟨between.frame.1, between.frame.2, between.frame.3, between.frame.4⟩, ?_, ?_⟩
    · rw [enabled_addRuntime]
      exact Set.insert_subset_insert between.low
    · rw [enabled_addRuntime]
      exact Set.insert_subset allowed between.high

theorem configAddService_spec {zone : Zone} {port : String}
    (allowed : (.permanent, zone, port) ∈ high) :
    Triple (Between s₀ low high) (configAddService zone port)
      (fun _ => Between s₀ (insert (.permanent, zone, port) low) high)
      fun e s => e = .firewalld "ALREADY_ENABLED" ∧
          Between s₀ (insert (.permanent, zone, port) low) high s ∨
        Refused s₀ low high [port] e s := by
  refine (proxy_spec fun s between => between.frame.running).bind fun f => ?_
  refine Triple.ite (fun already => Triple.throw ?_) fun _ => ?_
  · rintro s ⟨between, rfl⟩
    exact .inl ⟨rfl, between.frame, Set.insert_subset already between.low, between.high⟩
  · split
    · refine Triple.modify ?_
      rintro s ⟨between, rfl⟩
      refine ⟨⟨between.frame.1, between.frame.2, between.frame.3, between.frame.4⟩, ?_, ?_⟩
      · rw [enabled_addPermanent]
        exact Set.insert_subset_insert between.low
      · rw [enabled_addPermanent]
        exact Set.insert_subset allowed between.high
    · refine Triple.throw ?_
      rintro s ⟨between, rfl⟩
      rename_i unknown
      exact .inr ⟨rfl, between, port, by simp, .inr (between.frame.installed ▸ unknown)⟩

theorem proxyRemoveService_spec {zone : Zone} {port : String}
    (unneeded : (.runtime, zone, port) ∉ low) :
    Triple (Between s₀ low high) (proxyRemoveService zone port)
      (fun _ => Between s₀ low (high \ {(.runtime, zone, port)}))
      fun e s => e = .firewalld "NOT_ENABLED" ∧
          Between s₀ low (high \ {(.runtime, zone, port)}) s ∨
        Refused s₀ low high [port] e s := by
  refine (proxy_spec fun s between => between.frame.running).bind fun f => ?_
  refine Triple.ite (fun unknown => Triple.throw ?_) fun _ =>
    Triple.ite (fun already => Triple.throw ?_) fun _ => Triple.modify ?_
  · rintro s ⟨between, rfl⟩
    exact .inr ⟨rfl, between, port, by simp, .inl (between.frame.loaded ▸ unknown)⟩
  · rintro s ⟨between, rfl⟩
    exact .inl ⟨rfl, between.frame, between.low, Set.subset_sdiff_singleton between.high already⟩
  · rintro s ⟨between, rfl⟩
    refine ⟨⟨between.frame.1, between.frame.2, between.frame.3, between.frame.4⟩, ?_, ?_⟩
    · rw [enabled_removeRuntime]
      exact Set.subset_sdiff_singleton between.low unneeded
    · rw [enabled_removeRuntime]
      exact Set.sdiff_subset_sdiff_left between.high

theorem configRemoveService_spec {zone : Zone} {port : String}
    (unneeded : (.permanent, zone, port) ∉ low) :
    Triple (Between s₀ low high) (configRemoveService zone port)
      (fun _ => Between s₀ low (high \ {(.permanent, zone, port)}))
      fun e s => e = .firewalld "NOT_ENABLED" ∧
          Between s₀ low (high \ {(.permanent, zone, port)}) s ∨
        Refused s₀ low high [port] e s := by
  refine (proxy_spec fun s between => between.frame.running).bind fun f => ?_
  refine Triple.ite (fun already => Triple.throw ?_) fun _ => Triple.modify ?_
  · rintro s ⟨between, rfl⟩
    exact .inl ⟨rfl, between.frame, between.low, Set.subset_sdiff_singleton between.high already⟩
  · rintro s ⟨between, rfl⟩
    refine ⟨⟨between.frame.1, between.frame.2, between.frame.3, between.frame.4⟩, ?_, ?_⟩
    · rw [enabled_removePermanent]
      exact Set.subset_sdiff_singleton between.low unneeded
    · rw [enabled_removePermanent]
      exact Set.sdiff_subset_sdiff_left between.high

theorem ignoreStopped_spec {body : Call Unit} {P : System → Prop} {Q : Unit → System → Prop}
    {ports : List String} (spec : Triple P body Q (Refused s₀ low high ports)) :
    Triple P (ignoreDbusError (some "ServiceUnknown") none body) Q
      (Refused s₀ low high ports) := by
  refine ignoreDbusError_spec (spec.conseq (fun _ => id) (fun _ _ => id) ?_)
  rintro e s ⟨rfl, refused⟩
  simpa [isIgnored] using ⟨rfl, refused⟩

theorem ignoreCode_spec {code : String} {body : Call Unit} {P : System → Prop}
    {Q : Unit → System → Prop} {ports : List String} (other : code ≠ "INVALID_SERVICE")
    (spec : Triple P body Q fun e s => e = .firewalld code ∧ Q () s ∨
      Refused s₀ low high ports e s) :
    Triple P (ignoreDbusError none (some code) body) Q (Refused s₀ low high ports) := by
  refine ignoreDbusError_spec (spec.conseq (fun _ => id) (fun _ _ => id) ?_)
  rintro e s (⟨rfl, done⟩ | ⟨rfl, refused⟩)
  · simpa [isIgnored] using done
  · simpa [isIgnored, other] using ⟨rfl, refused⟩

theorem Refused.mono {low' high' : Set Place} {ports ports' : List String} {e : Error}
    {s : System} (refused : Refused s₀ low high ports e s) (lower : low' ⊆ low)
    (higher : high ⊆ high') (sub : ∀ port ∈ ports, port ∈ ports') :
    Refused s₀ low' high' ports' e s := by
  obtain ⟨code, between, port, member, unknown⟩ := refused
  exact ⟨code, between.mono lower higher, port, sub port member, unknown⟩

def both (zone : Zone) (port : String) : Set Place :=
  {(.runtime, zone, port), (.permanent, zone, port)}

theorem mem_both (zone : Zone) (port : String) (x : Place) :
    x ∈ both zone port ↔ x.2 = (zone, port) := by
  obtain ⟨_ | _, z, p⟩ := x <;> simp [both]

theorem addService_spec {zone : Zone} {port : String} (allowed : both zone port ⊆ high) :
    Triple (Between s₀ low high) (addService port zone)
      (fun _ => Between s₀ (low ∪ both zone port) high) (Refused s₀ low high [port]) := by
  have runtime : (.runtime, zone, port) ∈ high := allowed ((mem_both ..).mpr rfl)
  have permanent : (.permanent, zone, port) ∈ high := allowed ((mem_both ..).mpr rfl)
  refine ignoreStopped_spec (Triple.bind
    (ignoreCode_spec (by decide) (proxyAddService_spec runtime)) fun _ => ?_)
  refine (ignoreCode_spec (by decide) (configAddService_spec permanent)).conseq
    (fun _ => id) (fun _ s between => between.mono ?_ Set.Subset.rfl)
    fun e s refused => refused.mono (Set.subset_insert _ _) Set.Subset.rfl fun _ => id
  intro x member
  simp only [both, Set.mem_union, Set.mem_insert_iff, Set.mem_singleton_iff] at member ⊢
  tauto

theorem removeService_spec {zone : Zone} {port : String}
    (unneeded : Disjoint (both zone port) low) :
    Triple (Between s₀ low high) (removeService port zone)
      (fun _ => Between s₀ low (high \ both zone port)) (Refused s₀ low high [port]) := by
  have runtime : (.runtime, zone, port) ∉ low :=
    Set.disjoint_left.mp unneeded ((mem_both ..).mpr rfl)
  have permanent : (.permanent, zone, port) ∉ low :=
    Set.disjoint_left.mp unneeded ((mem_both ..).mpr rfl)
  refine ignoreStopped_spec (Triple.bind
    (ignoreCode_spec (by decide) (proxyRemoveService_spec runtime)) fun _ => ?_)
  refine (ignoreCode_spec (by decide) (configRemoveService_spec permanent)).conseq
    (fun _ => id) (fun _ s between => between.mono Set.Subset.rfl ?_)
    fun e s refused => refused.mono Set.Subset.rfl Set.sdiff_subset fun _ => id
  rintro x ⟨⟨member, other⟩, other'⟩
  exact ⟨member, by simpa [both] using ⟨other, other'⟩⟩

theorem getEnabledServices_spec {zone : Zone} {P : System → Prop} {E : Error → System → Prop}
    (running : ∀ s, P s → s.firewalld.running = true) :
    Triple P (getEnabledServices zone)
      (fun services s => P s ∧ services = s.firewalld.runtime zone) E := by
  have body : Triple P (do return (← proxy).runtime zone : Call (Finset String))
      (fun services s => P s ∧ services = s.firewalld.runtime zone) (fun _ _ => False) := by
    refine (proxy_spec running).bind fun f => Triple.pure ?_
    rintro s ⟨holds, rfl⟩
    exact ⟨holds, rfl⟩
  exact body.tryCatch fun e s raised => raised.elim

end Plinth.Firewall
