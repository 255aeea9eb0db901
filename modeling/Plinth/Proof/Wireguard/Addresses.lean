import Mathlib.Data.List.Flatten
import Mathlib.Data.List.Nodup
import Plinth.Proof.Wireguard

/-! # The addresses of the clients -/

namespace Plinth.Wireguard

theorem ipTemplate_injective : Function.Injective ipTemplate :=
  Python.Text.numbered_injective "10.84.0."

def IsClientAddress (ip : String) : Prop :=
  ∃ index, 2 ≤ index ∧ index ≤ 253 ∧ ip = ipTemplate index

theorem IsClientAddress.ne_reserved {ip : String} (client : IsClientAddress ip) :
    ip ≠ ipTemplate 0 ∧ ip ≠ ipTemplate 1 ∧ ip ≠ ipTemplate 255 := by
  obtain ⟨index, low, high, rfl⟩ := client
  refine ⟨?_, ?_, ?_⟩ <;> intro same <;> have := ipTemplate_injective same <;> omega

theorem FirstFree.isClientAddress {peers : List Peer} {ip : String} (free : FirstFree peers ip) :
    IsClientAddress ip := by
  obtain ⟨index, low, high, rfl, -⟩ := free
  exact ⟨index, low, Nat.le_of_lt_succ high, rfl⟩

theorem next_eq_none_iff (peers : List Peer) : getNextAvailableIpAddress peers = none ↔
    ∀ ip, IsClientAddress ip → ip ∈ allocatedIps peers := by
  unfold getNextAvailableIpAddress IsClientAddress
  rw [List.find?_eq_none, List.forall_mem_map]
  simp only [List.mem_range'_1, decide_eq_true_eq, not_not]
  constructor
  · rintro all - ⟨index, low, high, rfl⟩
    exact all index ⟨low, by omega⟩
  · rintro all index ⟨low, high⟩
    exact all _ ⟨index, low, by omega, rfl⟩

theorem next_of_firstFree {peers : List Peer} {ip : String} (free : FirstFree peers ip) :
    getNextAvailableIpAddress peers = some ip := by
  cases next : getNextAvailableIpAddress peers with
  | none =>
    have taken := (next_eq_none_iff peers).mp next ip free.isClientAddress
    obtain ⟨-, -, -, -, untaken, -⟩ := free
    exact absurd taken untaken
  | some other => rw [(firstFree_of_next next).unique free]

/-! ## Peers -/

structure Allocated (peers : List Peer) : Prop where
  keys : (peers.map Peer.publicKey).Nodup
  distinct : (allocatedIps peers).Nodup
  addresses : ∀ ip ∈ allocatedIps peers, IsClientAddress ip

theorem allocated_nil : Allocated [] where
  keys := List.nodup_nil
  distinct := List.nodup_nil
  addresses := by simp [allocatedIps]

theorem Allocated.append {peers : List Peer} (allocated : Allocated peers) {publicKey ip : String}
    (absent : ∀ other ∈ peers, other.publicKey ≠ publicKey) (free : FirstFree peers ip) :
    Allocated (peers ++ [⟨publicKey, [ip], 25⟩]) := by
  have ips : allocatedIps (peers ++ [⟨publicKey, [ip], 25⟩]) = allocatedIps peers ++ [ip] := by
    simp [allocatedIps]
  have untaken : ip ∉ allocatedIps peers := by
    obtain ⟨-, -, -, -, untaken, -⟩ := free
    exact untaken
  refine ⟨?_, ?_, ?_⟩
  · rw [List.map_append, List.map_singleton, List.nodup_append_comm]
    refine List.nodup_cons.mpr ⟨fun listed => ?_, allocated.keys⟩
    obtain ⟨other, member, same⟩ := List.mem_map.mp listed
    exact absent other member same
  · rw [ips, List.nodup_append_comm]
    exact List.nodup_cons.mpr ⟨by simpa using untaken, allocated.distinct⟩
  · rw [ips]
    intro other member
    rcases List.mem_append.mp member with old | new
    · exact allocated.addresses other old
    · rw [List.mem_singleton.mp new]
      exact free.isClientAddress

theorem Allocated.sublist {peers fewer : List Peer} (allocated : Allocated peers)
    (sublist : fewer.Sublist peers) : Allocated fewer where
  keys := allocated.keys.sublist (sublist.map _)
  distinct := allocated.distinct.sublist (sublist.flatMap _)
  addresses ip member := allocated.addresses ip ((sublist.flatMap _).subset member)

theorem Allocated.freed {peers : List Peer} (allocated : Allocated peers) {peer : Peer}
    (member : peer ∈ peers) {ip : String} (listed : ip ∈ peer.allowedIps) :
    ip ∉ allocatedIps (peers.eraseP fun other => other.publicKey = peer.publicKey) := by
  induction peers with
  | nil => cases member
  | cons first rest ih =>
    have later := allocated.sublist (List.sublist_cons_self first rest)
    have keys := allocated.keys
    have distinct := allocated.distinct
    rw [List.map_cons, List.nodup_cons] at keys
    rw [allocatedIps, List.flatMap_cons, List.nodup_append'] at distinct
    rcases List.mem_cons.mp member with rfl | other
    · rw [List.eraseP_cons_of_pos (by simp)]
      exact fun still => distinct.2.2 listed still
    · have apart : first.publicKey ≠ peer.publicKey :=
        fun same => keys.1 (same ▸ List.mem_map_of_mem other)
      rw [List.eraseP_cons_of_neg (by simpa using apart), allocatedIps, List.flatMap_cons,
        List.mem_append]
      rintro (here | there)
      · exact distinct.2.2 here (List.mem_flatMap.mpr ⟨peer, other, listed⟩)
      · exact ih later other there

/-! ## Runs -/

theorem peers_show (s : System) (session : Nat) (privateKey publicKey : String) :
    (showAutoAddClient s session privateKey publicKey).peers = s.peers := by
  unfold showAutoAddClient
  split
  · exact peers_serverConnection s
  · rfl
  · split <;> rfl

theorem peers_download (s : System) (session : Nat) : (download s session).peers = s.peers := by
  unfold download
  split <;> rfl

theorem Allocated.addClient {s : System} (allocated : Allocated s.peers) (publicKey : String) :
    Allocated (addClient s publicKey).peers := by
  rcases peers_addClient s publicKey with same | ⟨absent, ip, free, added⟩
  · rwa [same]
  · rw [added]
    exact allocated.append absent free

theorem Allocated.step {s : System} (allocated : Allocated s.peers) (event : Event) :
    Allocated (step s event).peers := by
  cases event with
  | «show» session privateKey publicKey =>
    unfold Wireguard.step
    rwa [peers_show]
  | submit session =>
    have given : ∀ value publicKey,
        Allocated (Wireguard.addClient (setSession s session value) publicKey).peers := by
      intro value publicKey
      apply Allocated.addClient
      rwa [peers_setSession]
    rw [Wireguard.step, submitAutoAddClient]
    split
    · exact allocated
    · exact given _ _
  | download session =>
    unfold Wireguard.step
    rwa [peers_download]
  | addClient publicKey => exact allocated.addClient publicKey
  | removeClient publicKey =>
    unfold Wireguard.step
    rw [peers_removeClient]
    exact allocated.sublist List.eraseP_sublist

structure Freed (peers : List Peer) (ip : String) : Prop where
  untaken : ip ∉ allocatedIps peers
  available : getNextAvailableIpAddress peers ≠ none
  next : ∀ index, ip = ipTemplate index →
    (∀ lower, 2 ≤ lower → lower < index → ipTemplate lower ∈ allocatedIps peers) →
      getNextAvailableIpAddress peers = some ip

theorem freed_of_untaken {peers : List Peer} {ip : String} (client : IsClientAddress ip)
    (untaken : ip ∉ allocatedIps peers) : Freed peers ip where
  untaken := untaken
  available none := untaken ((next_eq_none_iff peers).mp none ip client)
  next index same lower := by
    obtain ⟨index', low, high, rfl⟩ := client
    rw [← ipTemplate_injective same] at lower
    exact next_of_firstFree ⟨index', low, Nat.lt_succ_of_le high, rfl, untaken, lower⟩

theorem addPeer_eq_indexError_iff (connection : Connection) (publicKey : String) :
    addPeer connection publicKey = .error .indexError ↔
      (∀ peer ∈ connection.peers, peer.publicKey ≠ publicKey) ∧
        ∀ ip, IsClientAddress ip → ip ∈ allocatedIps connection.peers := by
  rw [← next_eq_none_iff]
  unfold addPeer
  by_cases taken : connection.peers.any fun peer => peer.publicKey = publicKey
  · rw [if_pos taken]
    simp only [List.any_eq_true, decide_eq_true_eq] at taken
    obtain ⟨peer, member, same⟩ := taken
    refine iff_of_false (by simp) ?_
    rintro ⟨absent, -⟩
    exact absent peer member same
  · rw [if_neg taken]
    simp only [List.any_eq_true, decide_eq_true_eq, not_exists, not_and] at taken
    rw [and_iff_right taken]
    cases getNextAvailableIpAddress connection.peers <;> simp

/-- Whatever clients are added and removed, each has an address of its own, and all that are not in
use can be had. -/
theorem clients_have_own_addresses (s : System) (empty : s.peers = []) (events : List Event) :
    let s' := Runs.run step s events
    (allocatedIps s'.peers).Nodup ∧
      (∀ ip ∈ allocatedIps s'.peers, IsClientAddress ip ∧
        ip ≠ ipTemplate 0 ∧ ip ≠ ipTemplate 1 ∧ ip ≠ ipTemplate 255) ∧
      (∀ publicKey, addPeer (serverConnection s') publicKey = .error .indexError →
        ∀ ip, IsClientAddress ip → ip ∈ allocatedIps s'.peers) ∧
      ∀ peer ∈ s'.peers, ∀ ip ∈ peer.allowedIps,
        Freed (removeClient s' peer.publicKey).peers ip := by
  intro s'
  have allocated : Allocated s'.peers := by
    apply Runs.invariant_run (fun s => Allocated s.peers) _ s events (empty ▸ allocated_nil)
    intro s event allocated
    exact allocated.step event
  refine ⟨allocated.distinct, ?_, ?_, ?_⟩
  · intro ip member
    have client := allocated.addresses ip member
    exact ⟨client, client.ne_reserved⟩
  · intro publicKey full
    have taken := ((addPeer_eq_indexError_iff _ publicKey).mp full).2
    have same : (serverConnection s').peers = s'.peers := peers_serverConnection s'
    rwa [same] at taken
  · intro peer member ip listed
    have client := allocated.addresses ip (List.mem_flatMap.mpr ⟨peer, member, listed⟩)
    apply freed_of_untaken client
    rw [peers_removeClient]
    exact allocated.freed member listed

theorem emptyServer_has_own_addresses :
    let s' := Runs.run step emptyServer
      [.addClient "one", .addClient "two", .removeClient "one", .addClient "three"]
    (allocatedIps s'.peers).Nodup ∧
      s'.peers.map (fun peer => (peer.publicKey, peer.allowedIps)) =
        [("two", ["10.84.0.3"]), ("three", ["10.84.0.2"])] := by
  refine ⟨?_, by decide⟩
  exact (clients_have_own_addresses emptyServer rfl _).1

end Plinth.Wireguard

/-! ## Editing a client -/

namespace Plinth.Wireguard

variable {s : System} {oldPublicKey publicKey : String}

def HasClient (peers : List Peer) (publicKey : String) : Prop :=
  ∃ peer ∈ peers, peer.publicKey = publicKey

instance decidableHasClient (peers : List Peer) (publicKey : String) :
    Decidable (HasClient peers publicKey) :=
  inferInstanceAs (Decidable (∃ peer ∈ peers, _))

structure IsReplaced (before after : List Peer) (oldPublicKey publicKey : String) : Prop where
  listed : HasClient before oldPublicKey
  absent : ¬ HasClient before publicKey
  replaced : ∃ ip, ip ∉ allocatedIps before ∧ IsClientAddress ip ∧
    after.Perm (before.eraseP (fun peer => peer.publicKey = oldPublicKey) ++
      [⟨publicKey, [ip], 25⟩])

def AllOrNothing (s s' : System) (oldPublicKey publicKey : String) : Prop :=
  s'.peers = s.peers ∨ IsReplaced s.peers s'.peers oldPublicKey publicKey

/-! ## What an edit does -/

theorem peers_addClient_of_error {e : AddError}
    (failed : addPeer (serverConnection s) publicKey = .error e) :
    (addClient s publicKey).peers = s.peers := by
  unfold addClient
  rw [failed]
  exact peers_serverConnection s

theorem addPeer_eq_valueError_iff (connection : Connection) :
    addPeer connection publicKey = .error .valueError ↔ HasClient connection.peers publicKey := by
  unfold addPeer HasClient
  by_cases taken : connection.peers.any fun peer => peer.publicKey = publicKey
  · rw [if_pos taken]
    simpa using taken
  · rw [if_neg taken]
    refine iff_of_false ?_ (by simpa using taken)
    cases getNextAvailableIpAddress connection.peers <;> simp

theorem peers_removeClient_eq_self_iff :
    (removeClient s publicKey).peers = s.peers ↔ ¬ HasClient s.peers publicKey := by
  rw [peers_removeClient, List.eraseP_eq_self_iff]
  simp [HasClient]

theorem peers_editClient_of_taken (differ : oldPublicKey ≠ publicKey)
    (taken : HasClient s.peers publicKey) : (editClient s oldPublicKey publicKey).peers =
      s.peers.eraseP fun peer => peer.publicKey = oldPublicKey := by
  rw [← peers_serverConnection] at taken
  have failed := (addPeer_eq_valueError_iff (serverConnection s)).mpr taken
  unfold editClient
  rw [if_neg differ, failed]
  dsimp only
  rw [peers_removeClient, peers_addClient_of_error failed]

theorem peers_editClient_of_full (differ : oldPublicKey ≠ publicKey)
    (failed : addPeer (serverConnection s) publicKey = .error .indexError) :
    (editClient s oldPublicKey publicKey).peers = s.peers := by
  unfold editClient
  rw [if_neg differ, failed]
  exact peers_addClient_of_error failed

theorem peers_of_addPeer_eq_ok {connection added : Connection}
    (ok : addPeer connection publicKey = .ok added) : ¬ HasClient connection.peers publicKey ∧
      ∃ ip, FirstFree connection.peers ip ∧
        added.peers = connection.peers ++ [⟨publicKey, [ip], 25⟩] := by
  have absent : ¬ HasClient connection.peers publicKey := by
    rw [← addPeer_eq_valueError_iff, ok]
    simp
  refine ⟨absent, ?_⟩
  unfold addPeer at ok
  rw [if_neg (by simpa [HasClient] using absent)] at ok
  cases next : getNextAvailableIpAddress connection.peers with
  | none => simp [next] at ok
  | some ip =>
    rw [next] at ok
    cases ok
    exact ⟨ip, firstFree_of_next next, rfl⟩

theorem peers_editClient_of_added (differ : oldPublicKey ≠ publicKey) {connection : Connection}
    (added : addPeer (serverConnection s) publicKey = .ok connection) :
    ¬ HasClient s.peers publicKey ∧ ∃ ip, FirstFree s.peers ip ∧
      (editClient s oldPublicKey publicKey).peers =
        (s.peers ++ [(⟨publicKey, [ip], 25⟩ : Peer)]).eraseP fun peer => peer.publicKey = oldPublicKey := by
  obtain ⟨absent, ip, free, peers⟩ := peers_of_addPeer_eq_ok added
  rw [peers_serverConnection] at absent free peers
  refine ⟨absent, ip, free, ?_⟩
  unfold editClient addClient
  rw [if_neg differ, added]
  dsimp only
  rw [peers_removeClient, ← peers]
  rfl

/-! ## When it is all or nothing -/

/-- An edit is all or nothing exactly when the key stays, when there is no address for a new client,
or when just one of the two keys is a client's. -/
theorem editClient_all_or_nothing_iff (s : System) (oldPublicKey publicKey : String) :
    AllOrNothing s (editClient s oldPublicKey publicKey) oldPublicKey publicKey ↔
      oldPublicKey = publicKey ∨
      (¬ HasClient s.peers publicKey ∧ getNextAvailableIpAddress s.peers = none) ∨
      (HasClient s.peers oldPublicKey ↔ ¬ HasClient s.peers publicKey) := by
  by_cases differ : oldPublicKey = publicKey
  · exact iff_of_true (.inl (by rw [editClient, if_pos differ])) (.inl differ)
  · rw [or_iff_right differ, AllOrNothing]
    cases added : addPeer (serverConnection s) publicKey with
    | error e =>
      cases e with
      | valueError =>
        have taken := (addPeer_eq_valueError_iff _).mp added
        rw [peers_serverConnection] at taken
        have notReplaced : ¬ IsReplaced s.peers (editClient s oldPublicKey publicKey).peers
            oldPublicKey publicKey := fun replaced => replaced.absent taken
        rw [or_iff_left notReplaced, peers_editClient_of_taken differ taken,
          ← peers_removeClient, peers_removeClient_eq_self_iff]
        simp [taken]
      | indexError =>
        have full := (addPeer_eq_indexError_iff _ publicKey).mp added
        rw [peers_serverConnection, ← next_eq_none_iff] at full
        have absent : ¬ HasClient s.peers publicKey := fun ⟨peer, member, same⟩ =>
          full.1 peer member same
        exact iff_of_true (.inl (peers_editClient_of_full differ added)) (.inl ⟨absent, full.2⟩)
    | ok connection =>
      obtain ⟨absent, ip, free, peers⟩ := peers_editClient_of_added differ added
      have available : getNextAvailableIpAddress s.peers ≠ none := by
        simp [next_of_firstFree free]
      have right : (¬ HasClient s.peers publicKey ∧ getNextAvailableIpAddress s.peers = none) ∨
          (HasClient s.peers oldPublicKey ↔ ¬ HasClient s.peers publicKey) ↔
            HasClient s.peers oldPublicKey := by
        simp [available, absent]
      rw [right, peers]
      constructor
      · rintro (same | replaced)
        · by_contra unlisted
          rw [List.eraseP_of_forall_not, List.append_right_eq_self] at same
          · cases same
          · intro peer member found
            have key := of_decide_eq_true found
            rcases List.mem_append.mp member with old | new
            · exact unlisted ⟨peer, old, key⟩
            · rw [List.mem_singleton.mp new] at key
              exact differ key.symm
        · exact replaced.listed
      · intro listed
        obtain ⟨peer, member, key⟩ := id listed
        obtain ⟨_, _, _, _, untaken, _⟩ := id free
        refine .inr ⟨listed, absent, ip, untaken, free.isClientAddress, ?_⟩
        let isOld := fun other : Peer => decide (other.publicKey = oldPublicKey)
        have first : isOld peer = true := decide_eq_true key
        exact .of_eq (List.eraseP_append_left (p := isOld) first _ member)

theorem edited_client_is_lost :
    let s := Runs.run step emptyServer [.addClient "one", .addClient "two"]
    ¬ AllOrNothing s (editClient s "two" "one") "two" "one" := by
  intro s allOrNothing
  have before : s.peers.length = 2 := by decide
  have after : (editClient s "two" "one").peers.length = 1 := by decide
  rcases allOrNothing with same | replaced
  · rw [same, before] at after
    cases after
  · exact replaced.absent (by decide)

end Plinth.Wireguard
