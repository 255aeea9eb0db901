import Plinth.Model.Wireguard

/-! # The address that a client is given -/

namespace Plinth.Wireguard

/-! ## The next available address -/

def FirstFree (peers : List Peer) (ip : String) : Prop :=
  ∃ index, 2 ≤ index ∧ index < 254 ∧ ip = ipTemplate index ∧ ip ∉ allocatedIps peers ∧
    ∀ lower, 2 ≤ lower → lower < index → ipTemplate lower ∈ allocatedIps peers

theorem firstFree_of_next {peers : List Peer} {ip : String}
    (next : getNextAvailableIpAddress peers = some ip) : FirstFree peers ip := by
  unfold getNextAvailableIpAddress at next
  rw [List.find?_map, Option.map_eq_some_iff] at next
  obtain ⟨index, found, rfl⟩ := next
  obtain ⟨free, start, rest, split, earlier⟩ := List.find?_eq_some_iff_append.mp found
  have member : index ∈ List.range' 2 252 := by
    rw [split]
    simp
  rw [List.mem_range'_1] at member
  refine ⟨index, member.1, by omega, rfl, by simpa using free, ?_⟩
  intro lower le lt
  have inRange : lower ∈ List.range' 2 252 := by
    rw [List.mem_range'_1]
    omega
  rw [split, List.mem_append, List.mem_cons] at inRange
  have sorted : (start ++ index :: rest).Pairwise (· < ·) := by
    rw [← split]
    exact List.pairwise_lt_range'
  rcases inRange with before | rfl | after
  · simpa using earlier lower before
  · omega
  · have := (List.pairwise_cons.mp (List.pairwise_append.mp sorted).2.1).1 lower after
    omega

theorem FirstFree.unique {peers : List Peer} {ip other : String} (first : FirstFree peers ip)
    (second : FirstFree peers other) : ip = other := by
  obtain ⟨index, le, _, rfl, free, lower⟩ := first
  obtain ⟨index', le', _, rfl, free', lower'⟩ := second
  rcases Nat.lt_trichotomy index index' with lt | rfl | gt
  · exact absurd (lower' index le lt) free
  · rfl
  · exact absurd (lower index' le' gt) free'

/-! ## Addresses that clients have been shown -/

def System.peers (s : System) : List Peer :=
  match s.server with
  | none => []
  | some server => server.peers

def Pending (s : System) (session : Nat) (publicKey ip : String) : Prop :=
  (s.sessions session).clientPubkey = some publicKey ∧ (s.sessions session).nextIp = some ip

def HandedOut (s : System) (publicKey ip : String) : Prop :=
  ∃ configuration ∈ s.handedOut,
    configuration.clientPubkey = publicKey ∧ configuration.clientIp = ip

def Promised (s : System) (publicKey ip : String) : Prop :=
  HandedOut s publicKey ip ∨ ∃ session, Pending s session publicKey ip

structure Invariant (s : System) : Prop where
  functional : ∀ publicKey ip other, Promised s publicKey ip → Promised s publicKey other → ip = other
  injective : ∀ publicKey other ip, Promised s publicKey ip → Promised s other ip →
    publicKey = other
  session : ∀ publicKey one two, (s.sessions one).clientPubkey = some publicKey →
    (s.sessions two).clientPubkey = some publicKey → one = two
  served : ∀ publicKey ip, Promised s publicKey ip → ∀ peer ∈ s.peers,
    peer.publicKey = publicKey → peer.allowedIps = [ip]
  text : ∀ configuration ∈ s.handedOut, ∃ before after,
    configuration.text = before ++ "\nAddress = " ++ configuration.clientIp ++ "/32\n" ++ after

def GeneratesNew (s : System) : Event → Prop
  | .show _ _ publicKey =>
    (∀ session, (s.sessions session).clientPubkey ≠ some publicKey) ∧
      (∀ ip, ¬ HandedOut s publicKey ip) ∧ ∀ peer ∈ s.peers, peer.publicKey ≠ publicKey
  | _ => True

/-- A page is shown when its address is not promised to another client, and a client that has
been promised an address is added when that one is the first that is free. -/
def AddressReserved (s : System) : Event → Prop
  | .show session _ _ => ∀ ip, FirstFree s.peers ip → ∀ publicKey,
      ¬ HandedOut s publicKey ip ∧ ∀ other ≠ session, ¬ Pending s other publicKey ip
  | .submit session => ∀ publicKey, (s.sessions session).clientPubkey = some publicKey →
      (∀ peer ∈ s.peers, peer.publicKey ≠ publicKey) → ∀ ip, HandedOut s publicKey ip →
        FirstFree s.peers ip
  | .addClient publicKey => (∀ peer ∈ s.peers, peer.publicKey ≠ publicKey) →
      ∀ ip, Promised s publicKey ip → FirstFree s.peers ip
  | _ => True

/-! ## Steps -/

@[simp] theorem peers_setSession (s : System) (session : Nat) (value : Session) :
    (setSession s session value).peers = s.peers := rfl

theorem peers_serverConnection (s : System) : (serverConnection s).peers = s.peers := by
  unfold serverConnection System.peers
  cases s.server <;> rfl

theorem sessions_addClient (s : System) (publicKey : String) :
    (addClient s publicKey).sessions = s.sessions := by
  unfold addClient
  split <;> rfl

theorem handedOut_addClient (s : System) (publicKey : String) :
    (addClient s publicKey).handedOut = s.handedOut := by
  unfold addClient
  split <;> rfl

theorem peers_addClient (s : System) (publicKey : String) :
    (addClient s publicKey).peers = s.peers ∨
      ((∀ other ∈ s.peers, other.publicKey ≠ publicKey) ∧ ∃ ip, FirstFree s.peers ip ∧
        (addClient s publicKey).peers = s.peers ++ [⟨publicKey, [ip], 25⟩]) := by
  unfold addClient addPeer
  rw [peers_serverConnection]
  by_cases taken : s.peers.any fun peer => peer.publicKey = publicKey
  · rw [if_pos taken]
    exact .inl (peers_serverConnection s)
  · rw [if_neg taken]
    cases next : getNextAvailableIpAddress s.peers with
    | none => exact .inl (peers_serverConnection s)
    | some ip =>
      refine .inr ⟨?_, ip, firstFree_of_next next, rfl⟩
      intro other member same
      exact taken (List.any_eq_true.mpr ⟨other, member, decide_eq_true same⟩)

theorem mem_peers_addClient {s : System} {publicKey : String} {peer : Peer}
    (member : peer ∈ (addClient s publicKey).peers) :
    peer ∈ s.peers ∨ ((∀ other ∈ s.peers, other.publicKey ≠ publicKey) ∧
      peer.publicKey = publicKey ∧ ∃ ip, FirstFree s.peers ip ∧ peer.allowedIps = [ip]) := by
  rcases peers_addClient s publicKey with same | ⟨absent, ip, free, added⟩
  · exact .inl (same ▸ member)
  · rw [added, List.mem_append, List.mem_singleton] at member
    rcases member with old | rfl
    · exact .inl old
    · exact .inr ⟨absent, rfl, ip, free, rfl⟩

theorem peers_removeClient (s : System) (publicKey : String) :
    (removeClient s publicKey).peers = s.peers.eraseP fun peer => peer.publicKey = publicKey := by
  rw [← peers_serverConnection s]
  rfl

theorem mem_peers_removeClient {s : System} {publicKey : String} {peer : Peer}
    (member : peer ∈ (removeClient s publicKey).peers) : peer ∈ s.peers := by
  rw [← peers_serverConnection]
  exact List.mem_of_mem_eraseP member

theorem Invariant.of_fewer {s t : System} (inv : Invariant s)
    (sessions : ∀ session publicKey, (t.sessions session).clientPubkey = some publicKey →
      t.sessions session = s.sessions session)
    (handedOut : t.handedOut = s.handedOut)
    (served : ∀ publicKey ip, Promised t publicKey ip → ∀ peer ∈ t.peers,
      peer.publicKey = publicKey → peer.allowedIps = [ip]) : Invariant t := by
  have promised {publicKey ip : String} (now : Promised t publicKey ip) :
      Promised s publicKey ip := by
    rcases now with handed | ⟨session, pending⟩
    · unfold HandedOut at handed
      rw [handedOut] at handed
      exact .inl handed
    · unfold Pending at pending
      rw [sessions session publicKey pending.1] at pending
      exact .inr ⟨session, pending⟩
  constructor
  · intro publicKey ip other first second
    exact inv.functional publicKey ip other (promised first) (promised second)
  · intro publicKey other ip first second
    exact inv.injective publicKey other ip (promised first) (promised second)
  · intro publicKey one two first second
    apply inv.session publicKey
    · rw [← sessions one publicKey first]
      exact first
    · rw [← sessions two publicKey second]
      exact second
  · exact served
  · rw [handedOut]
    exact inv.text

theorem Invariant.addClient {s : System} (inv : Invariant s) (publicKey : String)
    (reserved : (∀ peer ∈ s.peers, peer.publicKey ≠ publicKey) →
      ∀ ip, Promised s publicKey ip → FirstFree s.peers ip) :
    Invariant (addClient s publicKey) := by
  have promised {key ip : String} (now : Promised (Wireguard.addClient s publicKey) key ip) :
      Promised s key ip := by
    unfold Promised HandedOut Pending at now ⊢
    rw [sessions_addClient, handedOut_addClient] at now
    exact now
  apply inv.of_fewer
  · intro session key _
    rw [sessions_addClient]
  · exact handedOut_addClient s publicKey
  · intro key ip now peer member same
    rcases mem_peers_addClient member with old | ⟨absent, named, free, firstFree, held⟩
    · exact inv.served key ip (promised now) peer old same
    · rw [held]
      have first := reserved absent ip (by rw [← named, same]; exact promised now)
      rw [first.unique firstFree]

theorem Invariant.submit {s : System} (inv : Invariant s) (session : Nat)
    (reserved : AddressReserved s (.submit session)) : Invariant (step s (.submit session)) := by
  show Invariant (submitAutoAddClient s session)
  unfold submitAutoAddClient
  split
  · exact inv
  · rename_i publicKey submitted
    have popped : Invariant (setSession s session
        { s.sessions session with clientPubkey := none }) := by
      apply inv.of_fewer
      · intro other key pending
        by_cases here : other = session
        · rw [here] at pending
          simp [setSession] at pending
        · simp [setSession, here]
      · rfl
      · intro key ip now peer member same
        apply inv.served key ip _ peer member same
        rcases now with handed | ⟨other, pending⟩
        · exact .inl handed
        · by_cases here : other = session
          · rw [here] at pending
            simp [Pending, setSession] at pending
          · refine .inr ⟨other, ?_⟩
            simpa [Pending, setSession, here] using pending
    apply popped.addClient
    intro absent ip now
    apply reserved publicKey submitted absent ip
    rcases now with handed | ⟨other, pending⟩
    · exact handed
    · by_cases here : other = session
      · rw [here] at pending
        simp [Pending, setSession] at pending
      · have still : (s.sessions other).clientPubkey = some publicKey := by
          simpa [setSession, here] using pending.1
        exact absurd (inv.session publicKey other session still submitted) here

theorem Invariant.download {s : System} (inv : Invariant s) (session : Nat) :
    Invariant (step s (.download session)) := by
  show Invariant (Wireguard.download s session)
  unfold Wireguard.download
  split
  · exact inv
  · rename_i configuration built
    have parts : Pending s session configuration.clientPubkey configuration.clientIp ∧
        ∃ privateKey serverKey endpoint, configuration.text =
          buildClientConfig configuration.clientIp privateKey serverKey endpoint := by
      unfold getClientConfig at built
      simp only [Option.bind_eq_bind, Option.bind_eq_some_iff, Option.pure_def,
        Option.some.injEq] at built
      obtain ⟨ip, isIp, privateKey, _, publicKey, isKey, endpoint, _, server, _, rfl⟩ := built
      exact ⟨⟨isKey, isIp⟩, privateKey, server.publicKey, endpoint, rfl⟩
    obtain ⟨pending, privateKey, serverKey, endpoint, text⟩ := parts
    have promised {publicKey ip : String}
        (now : Promised { s with handedOut := configuration :: s.handedOut } publicKey ip) :
        Promised s publicKey ip := by
      rcases now with ⟨other, member, rfl, rfl⟩ | still
      · rcases List.mem_cons.mp member with rfl | old
        · exact .inr ⟨session, pending⟩
        · exact .inl ⟨other, old, rfl, rfl⟩
      · exact .inr still
    constructor
    · intro publicKey ip other first second
      exact inv.functional publicKey ip other (promised first) (promised second)
    · intro publicKey other ip first second
      exact inv.injective publicKey other ip (promised first) (promised second)
    · exact inv.session
    · intro publicKey ip now
      exact inv.served publicKey ip (promised now)
    · intro other member
      rcases List.mem_cons.mp member with rfl | old
      · rw [text]
        refine ⟨"[Interface]\nPrivateKey = " ++ privateKey, "DNS = 10.84.0.1\n\n[Peer]\n" ++
          ("PublicKey = " ++ serverKey ++ "\nAllowedIPs = 0.0.0.0/0\nEndpoint = " ++ endpoint ++
            "\nPersistentKeepalive = 25"), ?_⟩
        unfold buildClientConfig
        apply String.toList_injective
        simp
      · exact inv.text other old

theorem Invariant.removeClient {s : System} (inv : Invariant s) (publicKey : String) :
    Invariant (step s (.removeClient publicKey)) := by
  apply inv.of_fewer
  · intro session key _
    rfl
  · rfl
  · intro key ip now peer member same
    exact inv.served key ip now peer (mem_peers_removeClient member) same

theorem promised_of_shown {s : System} {session : Nat} {value : Session} {publicKey ip : String}
    (now : Promised (setSession s session value) publicKey ip) :
    (value.clientPubkey = some publicKey ∧ value.nextIp = some ip) ∨
      (Promised s publicKey ip ∧
        (HandedOut s publicKey ip ∨ ∃ other ≠ session, Pending s other publicKey ip)) := by
  rcases now with handed | ⟨other, pending⟩
  · exact .inr ⟨.inl handed, .inl handed⟩
  · by_cases here : other = session
    · rw [here] at pending
      left
      simpa [Pending, setSession] using pending
    · have still : Pending s other publicKey ip := by
        simpa [Pending, setSession, here] using pending
      exact .inr ⟨.inr ⟨other, still⟩, .inr ⟨other, here, still⟩⟩

theorem Invariant.show {s : System} (inv : Invariant s) (session : Nat)
    (privateKey publicKey : String) (new : GeneratesNew s (.show session privateKey publicKey))
    (reserved : AddressReserved s (.show session privateKey publicKey)) :
    Invariant (step s (.show session privateKey publicKey)) := by
  show Invariant (showAutoAddClient s session privateKey publicKey)
  unfold showAutoAddClient
  split
  · rename_i none
    apply inv.of_fewer
    · intro other key _
      rfl
    · rfl
    · intro key ip now peer member
      have empty : (serverConnection s).peers = [] := by
        unfold serverConnection
        rw [none]
        rfl
      have : peer ∈ (serverConnection s).peers := member
      rw [empty] at this
      cases this
  · exact inv
  · rename_i server domain _ isServer _
    split
    · exact inv
    · rename_i nextIp next
      have peers : s.peers = server.peers := by
        unfold System.peers
        rw [isServer]
      have free := firstFree_of_next next
      rw [← peers] at free
      obtain ⟨unused, notHanded, absent⟩ := new
      -- an old promise is about another client and another address
      have apart {key ip : String} (old : HandedOut s key ip ∨
          ∃ other ≠ session, Pending s other key ip) : key ≠ publicKey ∧ ip ≠ nextIp := by
        constructor
        · rintro rfl
          rcases old with handed | ⟨other, _, pending⟩
          · exact notHanded ip handed
          · exact unused other pending.1
        · rintro rfl
          rcases old with handed | ⟨other, different, pending⟩
          · exact (reserved ip free key).1 handed
          · exact (reserved ip free key).2 other different pending
      constructor
      · intro key ip other first second
        rcases promised_of_shown first with ⟨isKey, isIp⟩ | ⟨first, old⟩
        · rcases promised_of_shown second with ⟨_, isOther⟩ | ⟨_, old⟩
          · exact Option.some.inj (isIp.symm.trans isOther)
          · exact absurd (Option.some.inj isKey).symm (apart old).1
        · rcases promised_of_shown second with ⟨isKey, _⟩ | ⟨second, _⟩
          · exact absurd (Option.some.inj isKey).symm (apart old).1
          · exact inv.functional key ip other first second
      · intro key other ip first second
        rcases promised_of_shown first with ⟨isKey, isIp⟩ | ⟨first, old⟩
        · rcases promised_of_shown second with ⟨isOther, _⟩ | ⟨_, old⟩
          · exact Option.some.inj (isKey.symm.trans isOther)
          · exact absurd (Option.some.inj isIp).symm (apart old).2
        · rcases promised_of_shown second with ⟨_, isIp⟩ | ⟨second, _⟩
          · exact absurd (Option.some.inj isIp).symm (apart old).2
          · exact inv.injective key other ip first second
      · intro key one two first second
        have of_other {other : Nat} (here : other ≠ session)
            (pending : ((setSession s session ⟨some nextIp, some publicKey, some privateKey,
              some (domain ++ ":" ++ toString server.listenPort)⟩).sessions
                other).clientPubkey = some key) :
            (s.sessions other).clientPubkey = some key := by
          simpa [setSession, here] using pending
        have of_session
            (pending : ((setSession s session ⟨some nextIp, some publicKey, some privateKey,
              some (domain ++ ":" ++ toString server.listenPort)⟩).sessions
                session).clientPubkey = some key) : publicKey = key := by
          simpa [setSession] using pending
        by_cases isOne : one = session
        · by_cases isTwo : two = session
          · rw [isOne, isTwo]
          · rw [isOne] at first
            have := of_other isTwo second
            rw [← of_session first] at this
            exact absurd this (unused two)
        · by_cases isTwo : two = session
          · rw [isTwo] at second
            have := of_other isOne first
            rw [← of_session second] at this
            exact absurd this (unused one)
          · exact inv.session key one two (of_other isOne first) (of_other isTwo second)
      · intro key ip now peer member same
        rcases promised_of_shown now with ⟨isKey, _⟩ | ⟨old, _⟩
        · rw [← Option.some.inj isKey] at same
          exact absurd same (absent peer member)
        · exact inv.served key ip old peer member same
      · exact inv.text

theorem Invariant.step {s : System} (inv : Invariant s) (event : Event)
    (new : GeneratesNew s event) (reserved : AddressReserved s event) :
    Invariant (step s event) := by
  cases event with
  | «show» session privateKey publicKey =>
    exact inv.show session privateKey publicKey new reserved
  | submit session => exact inv.submit session reserved
  | download session => exact inv.download session
  | addClient publicKey => exact inv.addClient publicKey reserved
  | removeClient publicKey => exact inv.removeClient publicKey

/-! ## Runs -/

structure MatchesServer (s : System) : Prop where
  served : ∀ configuration ∈ s.handedOut, ∀ peer ∈ s.peers,
    peer.publicKey = configuration.clientPubkey → peer.allowedIps = [configuration.clientIp]
  distinct : ∀ configuration ∈ s.handedOut, ∀ other ∈ s.handedOut,
    configuration.clientPubkey ≠ other.clientPubkey → configuration.clientIp ≠ other.clientIp
  text : ∀ configuration ∈ s.handedOut, ∃ before after,
    configuration.text = before ++ "\nAddress = " ++ configuration.clientIp ++ "/32\n" ++ after

theorem Invariant.matchesServer {s : System} (inv : Invariant s) : MatchesServer s := by
  constructor
  · intro configuration member
    exact inv.served _ _ (.inl ⟨configuration, member, rfl, rfl⟩)
  · intro configuration member other otherMember different same
    apply different
    apply inv.injective _ _ configuration.clientIp
    · exact .inl ⟨configuration, member, rfl, rfl⟩
    · exact .inl ⟨other, otherMember, rfl, same.symm⟩
  · exact inv.text

def Fresh (s : System) : Prop :=
  (∀ session, (s.sessions session).clientPubkey = none) ∧ s.handedOut = []

theorem Fresh.invariant {s : System} (fresh : Fresh s) : Invariant s := by
  have nothing {publicKey ip : String} : ¬ Promised s publicKey ip := by
    rintro (⟨configuration, member, _⟩ | ⟨session, pending, _⟩)
    · rw [fresh.2] at member
      cases member
    · rw [fresh.1 session] at pending
      cases pending
  constructor
  · intro publicKey ip other first
    exact absurd first nothing
  · intro publicKey other ip first
    exact absurd first nothing
  · intro publicKey one two first
    rw [fresh.1 one] at first
    cases first
  · intro publicKey ip now
    exact absurd now nothing
  · intro configuration member
    rw [fresh.2] at member
    cases member

/-- Addresses match in every state of a run in which each page and each new client finds the
address that has been promised still reserved. -/
theorem configurations_match_server (s : System) (fresh : Fresh s) (events : List Event)
    (new : Runs.Throughout Wireguard.step GeneratesNew s events)
    (reserved : Runs.Throughout Wireguard.step AddressReserved s events) :
    MatchesServer (Runs.run Wireguard.step s events) := by
  apply Invariant.matchesServer
  have both : Runs.Throughout Wireguard.step
      (fun s event => GeneratesNew s event ∧ AddressReserved s event) s events := by
    rw [Runs.throughout_iff] at new reserved ⊢
    intro before event after split
    exact ⟨new before event after split, reserved before event after split⟩
  apply Runs.invariant_run_of_throughout Invariant _ s events fresh.invariant both
  intro s event inv both
  exact inv.step event both.1 both.2

/-! ## Two pages -/

def emptyServer : System where
  server := some ⟨"server", 51820, []⟩
  newServerKey := "server"
  domains := ["freedombox.example"]
  sessions := fun _ => ⟨none, none, none, none⟩
  handedOut := []

theorem configuration_matches_server :
    MatchesServer (Runs.run Wireguard.step emptyServer
      [.show 0 "private" "public", .download 0, .submit 0]) := by
  apply configurations_match_server emptyServer ⟨fun _ => rfl, rfl⟩
  · refine ⟨⟨fun _ => nofun, ?_, ?_⟩, trivial, trivial, trivial⟩
    · rintro ip ⟨configuration, member, _⟩
      cases member
    · intro peer member
      cases member
  · refine ⟨?_, trivial, ?_, trivial⟩
    · intro ip _ publicKey
      constructor
      · rintro ⟨configuration, member, _⟩
        cases member
      · rintro other _ ⟨pending, _⟩
        cases pending
    · rintro publicKey _ _ ip ⟨configuration, member, _, rfl⟩
      have same : configuration.clientIp = ipTemplate 2 := by
        cases member with
        | head => rfl
        | tail _ member => cases member
      rw [same]
      exact ⟨2, by decide, by decide, rfl, by decide, fun lower le lt => by omega⟩

theorem two_clients_same_address :
    let s := Runs.run Wireguard.step emptyServer
      [.show 0 "private1" "public1", .show 1 "private2" "public2", .download 0, .download 1,
        .submit 0, .submit 1]
    s.handedOut.map (fun configuration => (configuration.clientPubkey, configuration.clientIp)) =
        [("public2", "10.84.0.2"), ("public1", "10.84.0.2")] ∧
      s.peers.map (fun peer => (peer.publicKey, peer.allowedIps)) =
        [("public1", ["10.84.0.2"]), ("public2", ["10.84.0.3"])] := by
  decide

end Plinth.Wireguard
