import Mathlib.Data.List.Nodup
import Mathlib.Data.List.Perm.Subperm
import Plinth.Model.Wireguard

/-! # The interface of a new connection -/

namespace Plinth.Wireguard

theorem interfaceName_injective : Function.Injective interfaceName :=
  Python.Text.numbered_injective "wg"

/-! ## The search -/

def FirstUnused (interfaces : List String) (first interfaceNum : Nat) : Prop :=
  first ≤ interfaceNum ∧ interfaceName interfaceNum ∉ interfaces ∧
    ∀ lower, first ≤ lower → lower < interfaceNum → interfaceName lower ∈ interfaces

theorem firstUnused_of_found {interfaces : List String} {first fuel : Nat} {name : String}
    (found : findInterface interfaces first fuel = some name) :
    ∃ interfaceNum, name = interfaceName interfaceNum ∧
      FirstUnused interfaces first interfaceNum := by
  induction fuel generalizing first with
  | zero => cases found
  | succ fuel ih =>
    unfold findInterface at found
    split at found
    · rename_i used
      obtain ⟨interfaceNum, rfl, later, unused, lower⟩ := ih found
      refine ⟨interfaceNum, rfl, by omega, unused, ?_⟩
      intro other atLeast below
      rcases Nat.eq_or_lt_of_le atLeast with rfl | after
      · exact used
      · exact lower other after below
    · rename_i unused
      cases found
      exact ⟨first, rfl, Nat.le_refl _, unused, fun other atLeast below => by omega⟩

theorem all_used_of_not_found {interfaces : List String} {first fuel : Nat}
    (missing : findInterface interfaces first fuel = none) :
    (List.range' first fuel).map interfaceName ⊆ interfaces := by
  induction fuel generalizing first with
  | zero => simp
  | succ fuel ih =>
    unfold findInterface at missing
    split at missing
    · rename_i used
      rw [List.range'_succ, List.map_cons]
      exact List.cons_subset.mpr ⟨used, ih missing⟩
    · cases missing

theorem findNextInterface_returns (n : Network) : ∃ interfaceNum,
    findNextInterface n = some (interfaceName interfaceNum) ∧
      FirstUnused (showInterfaces n) 1 interfaceNum := by
  cases result : findNextInterface n with
  | some name =>
    obtain ⟨interfaceNum, rfl, unused⟩ := firstUnused_of_found result
    exact ⟨interfaceNum, rfl, unused⟩
  | none =>
    have used := all_used_of_not_found result
    have distinct : ((List.range' 1 ((showInterfaces n).length + 1)).map interfaceName).Nodup :=
      (List.nodup_range' 1).map interfaceName_injective
    have enough := (List.subperm_of_subset distinct used).length_le
    rw [List.length_map, List.length_range'] at enough
    omega

/-! ## The name of a new connection -/

def IsConfigured (n : Network) (interface : String) : Prop :=
  ∃ connection ∈ n.connections, connection.interface = interface

def NoneDownInTheWay (n : Network) : Prop :=
  ∀ interfaceNum, 1 ≤ interfaceNum → IsConfigured n (interfaceName interfaceNum) →
    interfaceName interfaceNum ∉ showInterfaces n →
      ∃ lower, 1 ≤ lower ∧ lower < interfaceNum ∧ interfaceName lower ∉ showInterfaces n ∧
        ¬ IsConfigured n (interfaceName lower)

theorem not_configured_iff {n : Network} {interfaceNum : Nat}
    (first : FirstUnused (showInterfaces n) 1 interfaceNum) :
    ¬ IsConfigured n (interfaceName interfaceNum) ↔ NoneDownInTheWay n := by
  obtain ⟨positive, unused, lower⟩ := first
  constructor
  · intro free other otherPositive configured down
    refine ⟨interfaceNum, positive, ?_, unused, free⟩
    rcases Nat.lt_trichotomy interfaceNum other with less | rfl | more
    · exact less
    · exact absurd configured free
    · exact absurd (lower other otherPositive more) down
  · intro clear configured
    obtain ⟨other, otherPositive, less, down, -⟩ :=
      clear interfaceNum positive configured unused
    exact down (lower other otherPositive less)

def GetsNewInterface (n : Network) : NetworkEvent → Prop
  | .addServer uuid privateKey generatedKey =>
    ∃ created, newConnection n uuid privateKey generatedKey = some created ∧
      ∀ connection ∈ n.connections, connection.interface ≠ created.interface
  | _ => True

def AddsUnobstructed (n : Network) : NetworkEvent → Prop
  | .addServer _ _ _ => NoneDownInTheWay n
  | _ => True

theorem getsNewInterface_iff (n : Network) (event : NetworkEvent) :
    GetsNewInterface n event ↔ AddsUnobstructed n event := by
  cases event with
  | addServer uuid privateKey generatedKey =>
    obtain ⟨interfaceNum, found, first⟩ := findNextInterface_returns n
    unfold GetsNewInterface AddsUnobstructed newConnection
    rw [← not_configured_iff first, found]
    constructor
    · rintro ⟨created, same, apart⟩ ⟨connection, member, taken⟩
      cases same
      exact apart connection member taken
    · intro free
      exact ⟨_, rfl, fun connection member taken => free ⟨connection, member, taken⟩⟩
  | activate uuid => exact Iff.rfl
  | deactivate uuid => exact Iff.rfl
  | delete uuid => exact Iff.rfl
  | setEnabled enable => exact Iff.rfl

/-- Each server added in a run gets a new interface exactly when, each time, no connection that is
down is in the way. -/
theorem new_interfaces_iff (n : Network) (events : List NetworkEvent) :
    Runs.Throughout networkStep GetsNewInterface n events ↔
      Runs.Throughout networkStep AddsUnobstructed n events := by
  rw [Runs.throughout_iff, Runs.throughout_iff]
  exact forall₃_congr fun before event after => imp_congr_right fun _ =>
    getsNewInterface_iff _ event

def twoServers : Network where
  connections := [⟨0, "WireGuard-Client-wg1", "wg1", true, "key", true⟩]
  unmanaged := []
  appEnabled := true

theorem both_get_wg1 : ¬ Runs.Throughout networkStep GetsNewInterface twoServers
    [.deactivate 0, .addServer 1 "" "key"] := by
  rintro ⟨-, ⟨created, same, apart⟩, -⟩
  have taken : created.interface = "wg1" := by
    have found : findNextInterface (networkStep twoServers (.deactivate 0)) = some "wg1" := by
      decide
    rw [newConnection, found] at same
    cases same
    rfl
  exact apart ⟨0, "WireGuard-Client-wg1", "wg1", true, "key", false⟩ (by decide) taken.symm

/-! ## All interfaces -/

def interfaces (n : Network) : List String :=
  n.connections.map NmConnection.interface

theorem interfaces_map {n : Network} {change : NmConnection → NmConnection}
    (keeps : ∀ connection, (change connection).interface = connection.interface) :
    (n.connections.map change).map NmConnection.interface = interfaces n := by
  rw [List.map_map]
  exact List.map_congr_left fun connection _ => keeps connection

theorem interfaces_activate (n : Network) (uuid : Nat) :
    interfaces (activateConnection n uuid) = interfaces n := by
  unfold activateConnection
  split
  · rfl
  · apply interfaces_map
    intro connection
    split
    · rfl
    · split <;> rfl

theorem interfaces_deactivate (n : Network) (uuid : Nat) :
    interfaces (deactivateConnection n uuid) = interfaces n := by
  apply interfaces_map
  intro connection
  split <;> rfl

theorem interfaces_setEnabled (n : Network) (enable : Bool) :
    interfaces (setEnabled n enable) = interfaces n :=
  interfaces_map fun _ => rfl

theorem interfaces_addServer {n : Network} {uuid : Nat} {privateKey generatedKey : String}
    {created : NmConnection}
    (same : newConnection n uuid privateKey generatedKey = some created) :
    interfaces (addServer n uuid privateKey generatedKey) = interfaces n ++ [created.interface] := by
  unfold interfaces addServer
  rw [same, List.map_append]
  rfl

theorem nodup_interfaces_step {n : Network} {event : NetworkEvent} (distinct : (interfaces n).Nodup)
    (new : GetsNewInterface n event) : (interfaces (networkStep n event)).Nodup := by
  cases event with
  | addServer uuid privateKey generatedKey =>
    obtain ⟨created, same, apart⟩ := new
    have added := interfaces_addServer same
    have absent : created.interface ∉ interfaces n := by
      intro listed
      obtain ⟨connection, member, taken⟩ := List.mem_map.mp listed
      exact apart connection member taken
    rw [networkStep, added, List.nodup_append_comm]
    exact List.nodup_cons.mpr ⟨absent, distinct⟩
  | activate uuid => exact (interfaces_activate n uuid).symm ▸ distinct
  | deactivate uuid => exact (interfaces_deactivate n uuid).symm ▸ distinct
  | delete uuid => exact distinct.sublist (List.filter_sublist.map _)
  | setEnabled enable => exact (interfaces_setEnabled n enable).symm ▸ distinct

theorem nodup_interfaces (n : Network) (distinct : (interfaces n).Nodup)
    (events : List NetworkEvent)
    (unobstructed : Runs.Throughout networkStep AddsUnobstructed n events) :
    (interfaces (Runs.run networkStep n events)).Nodup := by
  apply Runs.invariant_run_of_throughout (fun n => (interfaces n).Nodup) _ n events distinct
    unobstructed
  intro n event distinct clear
  exact nodup_interfaces_step distinct ((getsNewInterface_iff n event).mpr clear)

theorem nodup_interfaces_added :
    (interfaces (Runs.run networkStep twoServers [.addServer 1 "" "key"])).Nodup := by
  refine nodup_interfaces twoServers (by decide) _ ⟨?_, trivial⟩
  rintro interfaceNum _ ⟨connection, member, same⟩ down
  cases List.mem_singleton.mp member
  rw [← same] at down
  exact absurd (by decide) down

end Plinth.Wireguard
