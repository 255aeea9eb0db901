import Plinth.Model.Ejabberd.Turn

/-! # What is shown of the STUN and TURN servers -/

namespace Plinth.Ejabberd

open Effect Python Python.Regex Exception Distinct

/-! ## URIs -/

structure Parts where
  typ : List Char
  host : List Char
  port : List Char
  transport : List Char

namespace Parts

def query (p : Parts) : List Char :=
  if p.typ = stun then [] else transportQuery ++ p.transport

def text (p : Parts) : List Char :=
  p.typ ++ ':' :: (p.host ++ ':' :: (p.port ++ p.query))

structure WellFormed (p : Parts) : Prop where
  host : ∀ c ∈ p.host, notNewline c = true
  length : p.port.length = 4
  digits : ∀ c ∈ p.port, c.isDigit = true
  transport : (p.typ = stun ∧ p.transport = udp) ∨
    (p.typ = turn ∧ (p.transport = tcp ∨ p.transport = udp))

end Parts

theorem mem_port {found s rest : List Char} : (found, rest) ∈ port s ↔
    s = found ++ rest ∧ found.length = 4 ∧ ∀ c ∈ found, c.isDigit = true := by
  rw [port]
  simp only [mem_bind, mem_pure, mem_char]
  constructor
  · rintro ⟨a, _, ⟨rfl, ha⟩, b, _, ⟨rfl, hb⟩, c, _, ⟨rfl, hc⟩, d, _, ⟨rfl, hd⟩, rfl, rfl⟩
    refine ⟨rfl, rfl, ?_⟩
    intro e member
    simp only [List.mem_cons, List.not_mem_nil, or_false] at member
    rcases member with rfl | rfl | rfl | rfl <;> assumption
  · rintro ⟨rfl, length, all⟩
    match found, length with
    | [a, b, c, d], _ =>
      simp only [List.forall_mem_cons] at all
      exact ⟨a, _, ⟨rfl, all.1⟩, b, _, ⟨rfl, all.2.1⟩, c, _, ⟨rfl, all.2.2.1⟩, d, _,
        ⟨rfl, all.2.2.2.1⟩, rfl, rfl⟩

theorem port_append {digits : List Char} (length : digits.length = 4)
    (all : ∀ c ∈ digits, c.isDigit = true) (rest : List Char) :
    port (digits ++ rest) = [(digits, rest)] := by
  match digits, length with
  | [a, b, c, d], _ =>
    simp only [List.forall_mem_cons] at all
    rw [port, List.cons_append, bind_of_single (char_cons all.1 _), List.cons_append,
      bind_of_single (char_cons all.2.1 _), List.cons_append,
      bind_of_single (char_cons all.2.2.1 _), List.cons_append,
      bind_of_single (char_cons all.2.2.2.1 _)]
    rfl

theorem fullmatch_turnUri_iff {uri : List Char} :
    fullmatch turnUri uri = true ↔ ∃ p : Parts, p.WellFormed ∧ uri = p.text := by
  rw [fullmatch_iff, turnUri]
  simp only [mem_choice, List.mem_cons, List.not_mem_nil, or_false, exists_eq_or_imp,
    exists_eq_left, mem_bind, mem_pure, mem_literal, mem_many, mem_port]
  constructor
  · rintro ⟨_, ⟨_, s, ⟨-, rfl⟩, host, _, ⟨rfl, plain⟩, _, _, ⟨-, rfl⟩, digits, _,
        ⟨rfl, length, all⟩, -, rfl⟩ | ⟨_, s, ⟨-, rfl⟩, host, _, ⟨rfl, plain⟩, _, _, ⟨-, rfl⟩,
        digits, _, ⟨rfl, length, all⟩, _, _, ⟨-, rfl⟩, transport, _, known, -, rfl⟩⟩
    · refine ⟨⟨stun, host, digits, udp⟩, ⟨plain, length, all, .inl ⟨rfl, rfl⟩⟩, ?_⟩
      simp [Parts.text, Parts.query]
    · have other : turn ≠ stun := by decide
      rcases known with ⟨rfl, rfl⟩ | ⟨rfl, rfl⟩
      · refine ⟨⟨turn, host, digits, tcp⟩, ⟨plain, length, all, .inr ⟨rfl, .inl rfl⟩⟩, ?_⟩
        simp [Parts.text, Parts.query, other]
      · refine ⟨⟨turn, host, digits, udp⟩, ⟨plain, length, all, .inr ⟨rfl, .inr rfl⟩⟩, ?_⟩
        simp [Parts.text, Parts.query, other]
  · rintro ⟨⟨typ, host, digits, transport⟩, ⟨plain, length, all, known⟩, rfl⟩
    refine ⟨(), ?_⟩
    have other : turn ≠ stun := by decide
    rcases known with ⟨rfl, rfl⟩ | ⟨rfl, known⟩
    · refine .inl ⟨_, host ++ ':' :: digits, ⟨rfl, ?_⟩, host, _, ⟨rfl, plain⟩, _, digits,
        ⟨rfl, rfl⟩, digits, [], ⟨by simp, length, all⟩, trivial, rfl⟩
      simp [Parts.text, Parts.query]
    · refine .inr ⟨_, host ++ ':' :: (digits ++ (transportQuery ++ transport)), ⟨rfl, ?_⟩, host, _,
        ⟨rfl, plain⟩, _, digits ++ (transportQuery ++ transport), ⟨rfl, rfl⟩, digits, _,
        ⟨rfl, length, all⟩, _, transport, ⟨rfl, rfl⟩, transport, [], ?_, trivial, rfl⟩
      · simp [Parts.text, Parts.query, other]
      · rcases known with rfl | rfl
        · exact .inl ⟨rfl, by simp⟩
        · exact .inr ⟨rfl, by simp⟩

/-! ## What a URI is taken apart into -/

namespace Parts

variable {p : Parts}

theorem noColon_of_digits {digits : List Char} (all : ∀ c ∈ digits, c.isDigit = true) :
    ':' ∉ digits := by
  intro member
  exact absurd rfl (Integer.isDigit_ne (all _ member) (by decide))

theorem WellFormed.noColon (wf : p.WellFormed) : ':' ∉ p.port ++ p.query := by
  rw [List.mem_append, not_or]
  refine ⟨noColon_of_digits wf.digits, ?_⟩
  rw [query]
  rcases wf.transport with ⟨same, -⟩ | ⟨same, known⟩
  · rw [if_pos same]
    exact List.not_mem_nil
  · rw [same, if_neg (by decide)]
    rcases known with rfl' | rfl'
    · rw [rfl']
      decide
    · rw [rfl']
      decide

theorem WellFormed.transport_query (wf : p.WellFormed) : ((choice [do
      let _ ← literal transportQuery
      choice [literal tcp, literal udp],
    pure udp]) p.query).head? = some (p.transport, []) := by
  rw [query]
  rcases wf.transport with ⟨same, rfl'⟩ | ⟨same, rfl' | rfl'⟩
  · rw [if_pos same, rfl']
    decide
  · rw [same, rfl']
    decide
  · rw [same, rfl']
    decide

theorem WellFormed.match?_serviceUri (wf : p.WellFormed) :
    match? serviceUri p.text = some (p.typ, p.host, p.port, p.transport) := by
  have typ : (choice [literal stun, literal turn]) p.text =
      [(p.typ, ':' :: (p.host ++ ':' :: (p.port ++ p.query)))] := by
    rw [text]
    rcases wf.transport with ⟨same, -⟩ | ⟨same, -⟩
    · rw [same]
      rfl
    · rw [same]
      rfl
  have colon (s : List Char) : literal [':'] (':' :: s) = [([':'], s)] := literal_append [':'] s
  have rest : ((do
      let _ ← literal [':']
      let digits ← Ejabberd.port
      let transport ← choice [do
          let _ ← literal transportQuery
          choice [literal tcp, literal udp],
        pure udp]
      return (p.typ, p.host, digits, transport) : Pattern _)
      (':' :: (p.port ++ p.query))).head? = some ((p.typ, p.host, p.port, p.transport), []) := by
    rw [bind_of_single (colon _), bind_of_single (port_append wf.length wf.digits _)]
    obtain ⟨others, order⟩ := List.head?_eq_some_iff.mp wf.transport_query
    rw [← List.nil_append (_ :: others)] at order
    exact head?_bind_of_failing order (by simp) rfl
  rw [match?, List.head?_map, serviceUri, bind_of_single typ, bind_of_single (colon _),
    head?_many_bind wf.host _ rest]
  · rfl
  · intro taken c more rest split
    rw [List.cons_append, List.cons.injEq] at split
    have absent : ':' ∉ rest := fun member =>
      wf.noColon (by rw [split.2]; exact List.mem_append_right _ member)
    exact bind_of_nil (literal_of_not_mem absent)

def service (p : Parts) : Service :=
  ⟨p.host, (Integer.decimal p.port : Int), p.typ, p.transport⟩

theorem WellFormed.generateService (wf : p.WellFormed) (digits : Integer.Digits) :
    Ejabberd.generateService digits p.text = .ok p.service := by
  have nonempty : p.port ≠ [] := by
    intro empty
    have length := wf.length
    rw [empty] at length
    cases length
  have short : ¬ Integer.maxDigits < p.port.length := by
    rw [wf.length]
    decide
  rw [Ejabberd.generateService, wf.match?_serviceUri]
  dsimp only
  rw [Integer.int_of_ascii nonempty wf.digits, if_neg short]
  rfl

def shown (p : Parts) : Parts :=
  { p with port := Nat.toDigits 10 (Integer.decimal p.port) }

theorem intText_natCast (n : Nat) : intText (n : Int) = Nat.toDigits 10 n := by
  change (Nat.repr n).toList = _
  exact String.toList_ofList

theorem serviceText_service (p : Parts) : serviceText p.service = p.shown.text := by
  rw [serviceText, service, intText_natCast, text, shown, query]
  by_cases same : p.typ = stun
  · simp [same]
  · simp [same]

theorem WellFormed.shown_eq (wf : p.WellFormed) (head : p.port.head? ≠ some '0') :
    p.shown = p := by
  have nonempty : p.port ≠ [] := by
    intro empty
    have length := wf.length
    rw [empty] at length
    cases length
  rw [shown, Integer.toDigits_decimal nonempty wf.digits head]

/-! ## The text after the last colon -/

theorem rtakeWhile_text (noColon : ':' ∉ p.port ++ p.query) :
    p.text.rtakeWhile (· ≠ ':') = p.port ++ p.query := by
  have free : ∀ c ∈ (p.port ++ p.query).reverse, decide (c ≠ ':') = true := by
    intro c member
    rw [decide_eq_true_eq]
    rintro rfl
    exact noColon (List.mem_reverse.mp member)
  have split : p.text.reverse =
      (p.port ++ p.query).reverse ++ ':' :: (p.typ ++ ':' :: p.host).reverse := by
    simp [text]
  rw [List.rtakeWhile, split, List.takeWhile_append_of_pos free]
  simp

theorem WellFormed.noColon_shown (wf : p.WellFormed) : ':' ∉ p.shown.port ++ p.shown.query := by
  have noColon := wf.noColon
  rw [List.mem_append, not_or] at noColon ⊢
  refine ⟨noColon_of_digits ?_, noColon.2⟩
  intro c member
  exact Nat.isDigit_of_mem_toDigits (by decide) (by decide) member

theorem WellFormed.shown_ne (wf : p.WellFormed) (head : p.port.head? = some '0') {q : Parts}
    (wf' : q.WellFormed) : q.shown.text ≠ p.text := by
  intro same
  have ends := congrArg (List.rtakeWhile (· ≠ ':')) same
  rw [rtakeWhile_text wf'.noColon_shown, rtakeWhile_text wf.noColon] at ends
  have some : q.shown.port ≠ [] := Nat.toDigits_ne_nil
  have first := congrArg List.head? ends
  match digits : p.port, wf.length with
  | [a, b, c, d], _ =>
    rw [digits] at head first ends
    rw [List.head?_append_of_ne_nil _ some] at first
    have zero : q.shown.port = ['0'] := Integer.leading_zero (first.trans head)
    have query : q.shown.query = b :: c :: d :: p.query := by
      rw [zero] at ends
      exact (List.cons.inj ends).2
    have digit : b.isDigit = true := wf.digits b (by rw [digits]; simp)
    rw [shown, Parts.query] at query
    by_cases isStun : q.typ = stun
    · rw [if_pos isStun] at query
      cases query
    · rw [if_neg isStun] at query
      have sign : '?' = b := (List.cons.inj query).1
      rw [← sign] at digit
      cases digit

end Parts

/-! ## Lists of URIs -/

variable {digits : Integer.Digits} {uris : List (List Char)}

theorem validateTurnUris_iff : validateTurnUris uris = true ↔
    ∃ ps : List Parts, (∀ p ∈ ps, p.WellFormed) ∧ uris = ps.map Parts.text := by
  rw [validateTurnUris, List.all_eq_true]
  constructor
  · intro valid
    induction uris with
    | nil => exact ⟨[], by simp, rfl⟩
    | cons uri uris ih =>
      rw [List.forall_mem_cons] at valid
      obtain ⟨p, wf, rfl⟩ := fullmatch_turnUri_iff.mp valid.1
      obtain ⟨ps, all, rfl⟩ := ih valid.2
      exact ⟨p :: ps, List.forall_mem_cons.mpr ⟨wf, all⟩, rfl⟩
  · rintro ⟨ps, all, rfl⟩
    rw [List.forall_mem_map]
    intro p member
    exact fullmatch_turnUri_iff.mpr ⟨p, all p member, rfl⟩

theorem mapM_generateService (digits : Integer.Digits) {ps : List Parts}
    (all : ∀ p ∈ ps, p.WellFormed) :
    (ps.map Parts.text).mapM (generateService digits) = .ok (ps.map Parts.service) := by
  induction ps with
  | nil => rfl
  | cons p ps ih =>
    rw [List.forall_mem_cons] at all
    rw [List.map_cons, List.mapM_cons]
    exact bind_of_ok (all.1.generateService digits) (bind_of_ok (ih all.2) rfl)

theorem generateUris_map (ps : List Parts) :
    generateUris (ps.map Parts.service) = distinct (ps.map fun p => p.shown.text) := by
  have texts : (ps.map Parts.service).map serviceText = ps.map fun p => p.shown.text := by
    rw [List.map_map]
    exact List.map_congr_left fun p _ => p.serviceText_service
  rw [← texts, generateUris, distinct, ← List.nil_append (distinctFrom _ _), ← foldl_append_new,
    List.foldl_map, List.foldl_map, List.foldl_map]
  congr!

/-! ## The round trip -/

variable {needsSetup force managed : Bool} {config : TurnConfiguration} {s : System} {c : Char}
  {secret : List Char}

def kept (secret : List Char) (ps : List Parts) (managed : Bool) : System :=
  ⟨some (some ⟨"1000d".toList, secret, ps.map Parts.service⟩), managed⟩

theorem exec_update {ps : List Parts} (runs : force = true ∨ needsSetup = false)
    (all : ∀ p ∈ ps, p.WellFormed) (some : ps ≠ [])
    (same : config.uris = ps.map Parts.text)
    (sharedSecret : config.sharedSecret = .some (c :: secret)) (s : System) :
    (updateTurnConfiguration digits needsSetup config managed force).exec s =
      (.ok (), kept (c :: secret) ps managed) := by
  have goes : (!force && needsSetup) = false := by
    rcases runs with rfl | rfl
    · rfl
    · exact Bool.and_false _
  have found : stunDisco digits config =
      .ok (.some ⟨"1000d".toList, c :: secret, ps.map Parts.service⟩) := by
    rw [stunDisco, same, sharedSecret]
    cases ps with
    | nil => exact absurd rfl some
    | cons p ps =>
      rw [List.map_cons]
      dsimp only
      rw [← List.map_cons]
      exact bind_of_ok (mapM_generateService _ all) rfl
  rw [updateTurnConfiguration, goes, configureTurn, found]
  rfl

theorem exec_update_nil (runs : force = true ∨ needsSetup = false) (none : config.uris = [])
    (s : System) : (updateTurnConfiguration digits needsSetup config managed force).exec s =
      (.ok (), ⟨some .none, managed⟩) := by
  have goes : (!force && needsSetup) = false := by
    rcases runs with rfl | rfl
    · rfl
    · exact Bool.and_false _
  have found : stunDisco digits config = .ok .none := by
    rw [stunDisco, none]
  rw [updateTurnConfiguration, goes, configureTurn, found]
  rfl

theorem exec_get (secret : List Char) (ps : List Parts) (managed : Bool) :
    getTurnConfiguration.exec (kept secret ps managed) =
      (.ok (⟨some [], distinct (ps.map fun p => p.shown.text), some secret⟩, managed),
        kept secret ps managed) := by
  rw [← generateUris_map]
  change (Except.ok (TurnConfiguration.new (some []) (generateUris (ps.map Parts.service))
    (some secret), managed), kept secret ps managed) = _
  cases generateUris (ps.map Parts.service) <;> rfl

theorem shown_texts {ps : List Parts} (all : ∀ p ∈ ps, p.WellFormed)
    (heads : ∀ p ∈ ps, p.port.head? ≠ some '0') :
    ps.map (fun p => p.shown.text) = ps.map Parts.text := by
  apply List.map_congr_left
  intro p member
  rw [(all p member).shown_eq (heads p member)]

theorem head_rtakeWhile {p : Parts} (wf : p.WellFormed) :
    (p.text.rtakeWhile (· ≠ ':')).head? = p.port.head? := by
  have some : p.port ≠ [] := by
    intro empty
    have length := wf.length
    rw [empty] at length
    cases length
  rw [Parts.rtakeWhile_text wf.noColon, List.head?_append_of_ne_nil _ some]

theorem exists_distinct_parts {ps : List Parts} (all : ∀ p ∈ ps, p.WellFormed) (some : ps ≠ []) :
    ∃ qs : List Parts, (∀ q ∈ qs, q.WellFormed) ∧ qs ≠ [] ∧
      distinct (ps.map Parts.text) = qs.map Parts.text := by
  have valid : validateTurnUris (distinct (ps.map Parts.text)) = true := by
    rw [validateTurnUris, List.all_eq_true]
    intro uri member
    obtain ⟨p, listed, rfl⟩ := List.mem_map.mp (mem_distinct.mp member)
    exact fullmatch_turnUri_iff.mpr ⟨p, all p listed, rfl⟩
  obtain ⟨qs, all', once⟩ := validateTurnUris_iff.mp valid
  refine ⟨qs, all', ?_, once⟩
  rintro rfl
  obtain ⟨p, ps, rfl⟩ := List.exists_cons_of_ne_nil some
  have member : p.text ∈ distinct ((p :: ps).map Parts.text) := mem_distinct.mpr List.mem_cons_self
  rw [once] at member
  cases member

theorem roundTrips_of {ps : List Parts} (runs : force = true ∨ needsSetup = false)
    (all : ∀ p ∈ ps, p.WellFormed) (some : ps ≠ []) (same : config.uris = ps.map Parts.text)
    (sharedSecret : config.sharedSecret = .some (c :: secret))
    (heads : ∀ p ∈ ps, p.port.head? ≠ .some '0') :
    RoundTrips digits needsSetup force config managed s := by
  obtain ⟨qs, all', some', once⟩ := exists_distinct_parts all some
  have shown := exec_get (c :: secret) ps managed
  rw [shown_texts all heads, once] at shown
  have heads' : ∀ q ∈ qs, q.port.head? ≠ .some '0' := by
    intro q member
    have inDistinct : q.text ∈ distinct (ps.map Parts.text) := by
      rw [once]
      exact List.mem_map_of_mem member
    obtain ⟨p, listed, sameText⟩ := List.mem_map.mp (mem_distinct.mp inDistinct)
    rw [← head_rtakeWhile (all' q member), ← sameText, head_rtakeWhile (all p listed)]
    exact heads p listed
  have again := exec_get (c :: secret) qs managed
  have nodup : (qs.map Parts.text).Nodup := by
    rw [← once]
    exact nodup_distinct _
  rw [shown_texts all' heads', distinct_eq_self nodup] at again
  refine ⟨_, _, exec_update runs all some same sharedSecret s, shown, ?_, sharedSecret.symm, ?_, _,
    exec_update runs all' some' rfl rfl _, again⟩
  · rw [same, once]
  · exact validateTurnUris_iff.mpr ⟨qs, all', rfl⟩

theorem roundTrips_iff (ps : List Parts) (runs : force = true ∨ needsSetup = false)
    (all : ∀ p ∈ ps, p.WellFormed) (same : config.uris = ps.map Parts.text)
    (sharedSecret : config.sharedSecret = .some (c :: secret)) :
    RoundTrips digits needsSetup force config managed s ↔
      ps ≠ [] ∧ ∀ p ∈ ps, p.port.head? ≠ .some '0' := by
  constructor
  · rintro ⟨s', shown, update, get, sameUris, sameSecret, -, -⟩
    have some : ps ≠ [] := by
      rintro rfl
      rw [exec_update_nil runs same] at update
      cases update
      cases get
      rw [sharedSecret] at sameSecret
      cases sameSecret
    refine ⟨some, ?_⟩
    rw [exec_update runs all some same sharedSecret] at update
    cases update
    rw [exec_get] at get
    cases get
    intro p member head
    have kept : p.text ∈ distinct (ps.map fun p => p.shown.text) := by
      rw [show distinct (ps.map fun p => p.shown.text) = distinct config.uris from sameUris, same,
        mem_distinct]
      exact List.mem_map_of_mem member
    obtain ⟨q, listed, shownText⟩ := List.mem_map.mp (mem_distinct.mp kept)
    exact (all p member).shown_ne head (all q listed) shownText
  · rintro ⟨some, heads⟩
    exact roundTrips_of runs all some same sharedSecret heads

/-- A configuration is shown as it has been submitted unless it has no URIs or a port with a leading
zero, and is then kept as it is on a second submission unless it has repetitions. -/
theorem turn_configuration_iff (digits : Integer.Digits) (needsSetup force managed : Bool)
    (config : TurnConfiguration) (s : System) (c : Char) (secret : List Char)
    (valid : validateTurnUris config.uris = true)
    (sharedSecret : config.sharedSecret = some (c :: secret))
    (runs : force = true ∨ needsSetup = false) :
    (RoundTrips digits needsSetup force config managed s ↔ config.uris ≠ [] ∧
      ∀ uri ∈ config.uris, (uri.rtakeWhile (· ≠ ':')).head? ≠ some '0') ∧
    (∀ s' shown, (updateTurnConfiguration digits needsSetup config managed force).exec s =
        (.ok (), s') → getTurnConfiguration.exec s' = (.ok (shown, managed), s') →
      RoundTrips digits needsSetup force config managed s →
      ((updateTurnConfiguration digits needsSetup shown managed force).exec s' = (.ok (), s') ↔
        config.uris.Nodup)) := by
  obtain ⟨ps, all, same⟩ := validateTurnUris_iff.mp valid
  have condition : (config.uris ≠ [] ∧
      ∀ uri ∈ config.uris, (uri.rtakeWhile (· ≠ ':')).head? ≠ some '0') ↔
      ps ≠ [] ∧ ∀ p ∈ ps, p.port.head? ≠ some '0' := by
    rw [same, List.forall_mem_map, Ne, List.map_eq_nil_iff]
    refine and_congr_right fun _ => forall₂_congr fun p member => ?_
    rw [head_rtakeWhile (all p member)]
  rw [condition]
  refine ⟨roundTrips_iff _ runs all same sharedSecret, ?_⟩
  intro s' shown update get trips
  obtain ⟨some, heads⟩ := (roundTrips_iff _ runs all same sharedSecret).mp trips
  rw [exec_update runs all some same sharedSecret] at update
  cases update
  rw [exec_get, shown_texts all heads] at get
  cases get
  obtain ⟨qs, all', some', once⟩ := exists_distinct_parts all some
  rw [exec_update runs all' some' once rfl, same, ← distinct_eq_self_iff]
  constructor
  · intro unchanged
    have services : qs.map Parts.service = ps.map Parts.service := by
      simpa [kept] using unchanged
    have lengths := congrArg List.length services
    rw [List.length_map, List.length_map] at lengths
    apply (distinctFrom_sublist [] _).eq_of_length
    rw [← distinct, once, List.length_map, List.length_map, lengths]
  · intro unrepeated
    have read : (Except.ok (ps.map Parts.service) : Except Exception _) =
        .ok (qs.map Parts.service) := by
      rw [← mapM_generateService digits all, ← unrepeated, once,
        mapM_generateService digits all']
    rw [kept, kept, Except.ok.inj read]

def exampleUri : Parts :=
  ⟨stun, "example.org".toList, "0080".toList, udp⟩

theorem leading_zeros_lost :
    ¬ RoundTrips Integer.asciiDigits false false
      ⟨none, ["stun:example.org:0080".toList], some "secret".toList⟩ true ⟨some none, false⟩ ∧
    ¬ RoundTrips Integer.asciiDigits false false ⟨none, [], some "secret".toList⟩ true
      ⟨some none, false⟩ := by
  have plain : exampleUri.host.all notNewline = true := by decide +kernel
  have digits : exampleUri.port.all Char.isDigit = true := by decide +kernel
  have wf : exampleUri.WellFormed :=
    ⟨List.all_eq_true.mp plain, rfl, List.all_eq_true.mp digits, .inl ⟨rfl, rfl⟩⟩
  constructor
  · intro trips
    have fine := (roundTrips_iff [exampleUri] (.inr rfl) (by simpa using wf)
      (by decide +kernel) rfl).mp trips
    exact fine.2 exampleUri (List.mem_singleton_self _) (by decide +kernel)
  · intro trips
    have fine := (roundTrips_iff [] (.inr rfl) (by simp) rfl rfl).mp trips
    exact fine.1 rfl

theorem turn_configuration_kept : RoundTrips Integer.asciiDigits false false
    ⟨none, ["turn:example.org:3478?transport=tcp".toList, "stun:example.org:3478".toList],
      some "secret".toList⟩ true ⟨some none, false⟩ := by
  apply (turn_configuration_iff Integer.asciiDigits false false true _ ⟨some none, false⟩ 's'
    "ecret".toList (by decide +kernel) rfl (.inr rfl)).1.mpr
  refine ⟨by decide, ?_⟩
  have checked : ["turn:example.org:3478?transport=tcp".toList, "stun:example.org:3478".toList].all
      (fun uri => (uri.rtakeWhile (· ≠ ':')).head? ≠ some '0') = true := by
    decide +kernel
  intro uri member
  exact of_decide_eq_true (List.all_eq_true.mp checked uri member)

end Plinth.Ejabberd
