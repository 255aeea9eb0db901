import Plinth.Model.Ejabberd.Listeners

/-! # The listeners that are left -/

namespace Plinth.Ejabberd

open Effect Python Exception

variable {x y z : Listener} {key : String} {listen rest final done : List Listener}

/-! ## One listener -/

theorem isIn_iff : isIn key x = true ↔ key ∈ x.keys := by
  rw [isIn, Option.isSome_iff_exists, x.mem_keys_iff]

theorem isIn_congr (same : x.keys = y.keys) (key : String) : isIn key x = isIn key y := by
  rw [Bool.eq_iff_iff, isIn_iff, isIn_iff, same]

theorem keys_disableTls (x : Listener) : (disableTls x).keys = x.keys := by
  rw [disableTls]
  split
  · rename_i present
    exact x.keys_set_of_mem (isIn_iff.mp present) _
  · rfl

theorem get?_disableTls (other : key ≠ "tls") (x : Listener) :
    (disableTls x).get? key = x.get? key := by
  rw [disableTls]
  split
  · rw [x.get?_set, if_neg other]
  · rfl

theorem tls_disableTls (present : isIn "tls" x = true) :
    (disableTls x).get? "tls" = some (.flag false) := by
  rw [disableTls, if_pos present, x.get?_set_self]

theorem portOf_eq_ok_iff {port : Field} : portOf x = .ok port ↔ x.get? "port" = some port := by
  rw [portOf]
  cases x.get? "port" <;> simp

theorem isPort_iff {port : Int} {field : Field} : isPort port field = true ↔ field = .number port := by
  cases field <;> simp [isPort]

def Usable (x : Listener) : Prop :=
  isIn "port" x = true ∧ (OnPort 5443 x → ∃ handlers, x.get? "request_handlers" = some (.mapping handlers))

def Finishes (x y : Listener) : Prop :=
  enableUpload (disableTls x) = .ok y

theorem finishes_cases (finishes : Finishes x y) :
    (¬ OnPort 5443 x ∧ isIn "port" x = true ∧ y = disableTls x) ∨
    (OnPort 5443 x ∧ ∃ handlers, x.get? "request_handlers" = some (.mapping handlers) ∧
      y = (disableTls x).set "request_handlers"
        (.mapping (handlers.set "/upload" "mod_http_upload"))) := by
  have portOther : "port" ≠ "tls" := by decide
  obtain ⟨port, found, finishes⟩ := ok_of_bind finishes
  rw [portOf_eq_ok_iff, get?_disableTls portOther] at found
  have present : isIn "port" x = true := by rw [isIn, found]; rfl
  split at finishes
  · rename_i on
    rw [isPort_iff] at on
    rw [on] at found
    rw [addUpload, get?_disableTls (by decide)] at finishes
    split at finishes
    · rename_i handlers mapping
      cases finishes
      exact .inr ⟨found, handlers, mapping, rfl⟩
    · cases finishes
    · cases finishes
  · rename_i off
    cases finishes
    refine .inl ⟨?_, present, rfl⟩
    intro on
    rw [OnPort, found] at on
    cases on
    exact off rfl

theorem exists_finishes_iff : (∃ y, Finishes x y) ↔ Usable x := by
  constructor
  · rintro ⟨y, finishes⟩
    rcases finishes_cases finishes with ⟨off, present, -⟩ | ⟨on, handlers, mapping, -⟩
    · exact ⟨present, fun on => absurd on off⟩
    · refine ⟨?_, fun _ => ⟨handlers, mapping⟩⟩
      rw [isIn, on]
      rfl
  · rintro ⟨present, usable⟩
    obtain ⟨port, found⟩ := Option.isSome_iff_exists.mp present
    have read : portOf (disableTls x) = .ok port := by
      rw [portOf_eq_ok_iff, get?_disableTls (by decide), found]
    by_cases on : isPort 5443 port = true
    · have onPort : OnPort 5443 x := by rw [OnPort, found, isPort_iff.mp on]
      obtain ⟨handlers, mapping⟩ := usable onPort
      refine ⟨(disableTls x).set "request_handlers"
        (.mapping (handlers.set "/upload" "mod_http_upload")), bind_of_ok read ?_⟩
      rw [if_pos on, addUpload, get?_disableTls (by decide), mapping]
    · refine ⟨disableTls x, bind_of_ok read ?_⟩
      rw [if_neg on]
      rfl

namespace Finishes

variable (finishes : Finishes x y)
include finishes

theorem keys_eq : y.keys = x.keys := by
  rcases finishes_cases finishes with ⟨-, -, rfl⟩ | ⟨-, handlers, mapping, rfl⟩
  · exact keys_disableTls x
  · rw [OrderedDict.keys_set_of_mem, keys_disableTls]
    rw [keys_disableTls, x.mem_keys_iff]
    exact ⟨_, mapping⟩

theorem isIn_eq (key : String) : isIn key y = isIn key x :=
  isIn_congr finishes.keys_eq key

theorem get?_eq (notTls : key ≠ "tls") (notHandlers : key ≠ "request_handlers") :
    y.get? key = x.get? key := by
  rcases finishes_cases finishes with ⟨-, -, rfl⟩ | ⟨-, handlers, mapping, rfl⟩
  · exact get?_disableTls notTls x
  · rw [OrderedDict.get?_set, if_neg notHandlers, get?_disableTls notTls]

theorem tls (present : isIn "tls" y = true) : y.get? "tls" = some (.flag false) := by
  rw [finishes.isIn_eq] at present
  rcases finishes_cases finishes with ⟨-, -, rfl⟩ | ⟨-, handlers, mapping, rfl⟩
  · exact tls_disableTls present
  · rw [OrderedDict.get?_set, if_neg (by decide), tls_disableTls present]

theorem onPort_iff (port : Int) : OnPort port y ↔ OnPort port x := by
  rw [OnPort, OnPort, finishes.get?_eq (by decide) (by decide)]

theorem upload (on : OnPort 5443 y) : handlesUpload y := by
  rw [finishes.onPort_iff] at on
  rcases finishes_cases finishes with ⟨off, -, -⟩ | ⟨-, handlers, mapping, rfl⟩
  · exact absurd on off
  · exact ⟨_, OrderedDict.get?_set_self _ _ _, OrderedDict.get?_set_self _ _ _⟩

theorem handlers : y.get? "request_handlers" = x.get? "request_handlers" ∨
    ∃ handlers, x.get? "request_handlers" = some (.mapping handlers) ∧
      y.get? "request_handlers" =
        some (.mapping (handlers.set "/upload" "mod_http_upload")) := by
  rcases finishes_cases finishes with ⟨-, -, rfl⟩ | ⟨-, handlers, mapping, rfl⟩
  · exact .inl (get?_disableTls (by decide) x)
  · exact .inr ⟨handlers, mapping, OrderedDict.get?_set_self _ _ _⟩

end Finishes

structure Settled (x : Listener) : Prop where
  turn : isIn "use_turn" x = false
  tls : isIn "tls" x = true → x.get? "tls" = some (.flag false)
  upload : OnPort 5443 x → handlesUpload x

theorem Settled.finishes (settled : Settled x) (present : isIn "port" x = true) : Finishes x x := by
  have disabled : disableTls x = x := by
    rw [disableTls]
    split
    · rename_i tls
      exact OrderedDict.set_eq_self (settled.tls tls)
    · rfl
  obtain ⟨port, found⟩ := Option.isSome_iff_exists.mp present
  rw [Finishes, disabled]
  apply bind_of_ok (portOf_eq_ok_iff.mpr found)
  split
  · rename_i on
    have onPort : OnPort 5443 x := by rw [OnPort, found, isPort_iff.mp on]
    obtain ⟨handlers, mapping, upload⟩ := settled.upload onPort
    rw [addUpload, mapping]
    dsimp only
    rw [OrderedDict.set_eq_self upload, OrderedDict.set_eq_self mapping]
  · rfl

theorem Settled.usable (settled : Settled x) (present : isIn "port" x = true) : Usable x :=
  exists_finishes_iff.mp ⟨x, settled.finishes present⟩

/-! ## Equal listeners -/

theorem sameItems_self (a : OrderedDict String String) : sameItems a a = true := by
  rw [sameItems, Bool.and_eq_true, List.all_eq_true]
  refine ⟨by simp, fun item member => ?_⟩
  exact decide_eq_true ((a.get?_eq_some_iff item.1 item.2).mpr member)

theorem Field.same_self (field : Field) : field.same field = true := by
  cases field with
  | mapping a => exact sameItems_self a
  | _ => simp [Field.same]

theorem sameListener_self (x : Listener) : sameListener x x = true := by
  rw [sameListener, Bool.and_eq_true, List.all_eq_true]
  refine ⟨by simp, fun item member => ?_⟩
  rw [(x.get?_eq_some_iff item.1 item.2).mpr member]
  exact item.2.same_self

theorem isIn_of_sameListener (same : sameListener x y = true) (present : isIn key x = true) :
    isIn key y = true := by
  rw [sameListener, Bool.and_eq_true, List.all_eq_true] at same
  obtain ⟨value, found⟩ := Option.isSome_iff_exists.mp present
  have member := (x.get?_eq_some_iff key value).mp found
  have shared := same.2 _ member
  dsimp only at shared
  rw [isIn]
  cases other : y.get? key with
  | none =>
    rw [other] at shared
    cases shared
  | some value' => rfl

/-! ## The loop -/

def turns (listen : List Listener) : Nat :=
  listen.countP (isIn "use_turn")

theorem turns_eq_zero_iff : turns listen = 0 ↔ ∀ x ∈ listen, isIn "use_turn" x = false := by
  rw [turns, List.countP_eq_zero]
  simp only [Bool.not_eq_true]

theorem set_append_cons (done rest : List Listener) (x y : Listener) :
    (done ++ x :: rest).set done.length y = done ++ y :: rest := by
  rw [List.set_append_right _ _ (Nat.le_refl _), Nat.sub_self]
  rfl

theorem findIdx_le (done rest : List Listener) (x : Listener) :
    (done ++ x :: rest).findIdx (sameListener x) ≤ done.length := by
  rw [List.findIdx_append]
  split
  · rename_i before
    exact Nat.le_of_lt before
  · rw [List.findIdx_cons, sameListener_self]
    simp

theorem findIdx_eq (free : ∀ z ∈ done, sameListener x z = false) (rest : List Listener) :
    (done ++ x :: rest).findIdx (sameListener x) = done.length := by
  have absent : done.findIdx (sameListener x) = done.length := by
    rw [List.findIdx_eq_length]
    exact free
  rw [List.findIdx_append, if_neg (by omega), List.findIdx_cons, sameListener_self]
  simp

theorem visit_eq (done rest : List Listener) (finishes : Finishes x y) :
    visit (done ++ x :: rest) done.length x = .ok
      (if isIn "use_turn" x then (done ++ y :: rest).eraseIdx
        ((done ++ disableTls x :: rest).findIdx (sameListener (disableTls x)))
      else done ++ y :: rest) := by
  rw [visit]
  dsimp only
  rw [set_append_cons]
  refine bind_of_ok finishes ?_
  rw [set_append_cons, isIn_congr (keys_disableTls x)]
  split <;> rfl

theorem visit_error (done rest : List Listener) (raises : ∀ y, ¬ Finishes x y)
    (outcome : visit (done ++ x :: rest) done.length x = .ok final) : False := by
  rw [visit] at outcome
  obtain ⟨y, finishes, -⟩ := ok_of_bind outcome
  exact raises y finishes

theorem countP_le_eraseIdx {α : Type} (p : α → Bool) (l : List α) (i : Nat) :
    l.countP p ≤ (l.eraseIdx i).countP p + 1 := by
  induction l generalizing i with
  | nil => exact Nat.zero_le _
  | cons a l ih =>
    cases i with
    | zero =>
      rw [List.eraseIdx_cons_zero, List.countP_cons]
      split <;> omega
    | succ i =>
      rw [List.eraseIdx_cons_succ, List.countP_cons, List.countP_cons]
      have rest := ih i
      omega

theorem visit_turn (done rest : List Listener) (finishes : Finishes x y)
    (turn : isIn "use_turn" x = true) :
    ∃ left, visit (done ++ x :: rest) done.length x = .ok (left ++ rest) ∧
      left.length = done.length ∧ turns done ≤ turns left ∧ (turns done = 0 → left = done) := by
  have bound := findIdx_le done rest (disableTls x)
  have place (free : ∀ z ∈ done, sameListener (disableTls x) z = false) := findIdx_eq free rest
  have visited := visit_eq done rest finishes
  rw [if_pos turn] at visited
  generalize (done ++ disableTls x :: rest).findIdx (sameListener (disableTls x)) = first at *
  have inside : first < (done ++ [y]).length := by
    rw [List.length_append, List.length_singleton]
    exact Nat.lt_succ_of_le bound
  refine ⟨(done ++ [y]).eraseIdx first, ?_, ?_, ?_, ?_⟩
  · rw [visited, ← List.singleton_append, ← List.append_assoc,
      List.eraseIdx_append_of_lt_length inside]
  · rw [List.length_eraseIdx_of_lt inside]
    simp
  · have removed := countP_le_eraseIdx (isIn "use_turn") (done ++ [y]) first
    have turn' : isIn "use_turn" y = true := by rw [finishes.isIn_eq, turn]
    rw [List.countP_append, List.countP_singleton, if_pos turn'] at removed
    exact Nat.le_of_succ_le_succ removed
  · intro none
    have free : ∀ z ∈ done, sameListener (disableTls x) z = false := by
      intro z member
      by_contra same
      have here : isIn "use_turn" (disableTls x) = true := by
        rw [isIn_congr (keys_disableTls x), turn]
      have there := isIn_of_sameListener (eq_true_of_ne_false same) here
      rw [turns_eq_zero_iff.mp none z member] at there
      cases there
    rw [place free, List.eraseIdx_append_of_length_le (Nat.le_refl _), Nat.sub_self]
    simp

theorem visitFrom_end (fuel : Nat) {i : Nat} (ends : listen.length ≤ i) :
    visitFrom fuel i listen = .ok listen := by
  cases fuel with
  | zero => rfl
  | succ fuel => rw [visitFrom, List.getElem?_eq_none ends]

theorem visitFrom_cons (fuel : Nat) (done rest : List Listener) (x : Listener) :
    visitFrom (fuel + 1) done.length (done ++ x :: rest) =
      visit (done ++ x :: rest) done.length x >>= visitFrom fuel (done.length + 1) := by
  have here : (done ++ x :: rest)[done.length]? = some x := by
    rw [List.getElem?_append_right (Nat.le_refl _), Nat.sub_self]
    rfl
  rw [visitFrom, here]

theorem visitFrom_removed (fuel : Nat) {left : List Listener} (length : left.length = done.length)
    (rest : List Listener) : visitFrom fuel (done.length + 1) (left ++ rest) =
      match rest with
      | [] => .ok left
      | z :: rest => visitFrom fuel (left ++ [z]).length (left ++ [z] ++ rest) := by
  cases rest with
  | nil =>
    rw [List.append_nil]
    exact visitFrom_end fuel (by omega)
  | cons z rest =>
    dsimp only
    rw [← length, List.length_append, List.append_assoc]
    rfl

theorem turns_le (fuel : Nat) (done rest : List Listener)
    (outcome : visitFrom fuel done.length (done ++ rest) = .ok final) :
    turns done ≤ turns final := by
  induction fuel generalizing done rest with
  | zero =>
    cases outcome
    rw [turns, turns, List.countP_append]
    exact Nat.le_add_right _ _
  | succ fuel ih =>
    cases rest with
    | nil =>
      rw [visitFrom_end _ (by simp)] at outcome
      cases outcome
      rw [List.append_nil]
    | cons x rest =>
      rw [visitFrom_cons] at outcome
      obtain ⟨next, visited, outcome⟩ := ok_of_bind outcome
      by_cases usable : ∃ y, Finishes x y
      · obtain ⟨y, finishes⟩ := usable
        by_cases turn : isIn "use_turn" x = true
        · obtain ⟨left, visited', length, fewer, -⟩ := visit_turn done rest finishes turn
          rw [visited'] at visited
          cases visited
          rw [visitFrom_removed fuel length] at outcome
          cases rest with
          | nil =>
            cases outcome
            exact fewer
          | cons z rest =>
            have later := ih _ _ outcome
            rw [turns, List.countP_append] at later
            exact fewer.trans (Nat.le_trans (Nat.le_add_right _ _) later)
        · rw [visit_eq done rest finishes, if_neg turn] at visited
          cases visited
          have split : done ++ y :: rest = done ++ [y] ++ rest := by simp
          rw [split, show done.length + 1 = (done ++ [y]).length by simp] at outcome
          have later := ih _ _ outcome
          rw [turns, List.countP_append] at later
          exact Nat.le_trans (Nat.le_add_right _ _) later
      · exact (visit_error done rest (not_exists.mp usable) visited).elim

inductive Passes : List Listener → List Listener → Prop
  | nil : Passes [] []
  | keep {x y : Listener} {rest out : List Listener} (turn : isIn "use_turn" x = false)
      (finishes : Finishes x y) (later : Passes rest out) : Passes (x :: rest) (y :: out)
  | last {x : Listener} (turn : isIn "use_turn" x = true) (usable : Usable x) : Passes [x] []
  | skip {x z : Listener} {rest out : List Listener} (turn : isIn "use_turn" x = true)
      (usable : Usable x) (next : isIn "use_turn" z = false) (later : Passes rest out) :
      Passes (x :: z :: rest) (z :: out)

theorem Passes.turns (passes : Passes rest final) : turns final = 0 := by
  rw [turns_eq_zero_iff]
  induction passes with
  | nil => simp
  | keep turn finishes later ih =>
    rw [List.forall_mem_cons]
    exact ⟨by rw [finishes.isIn_eq, turn], ih⟩
  | last turn usable => simp
  | skip turn usable next later ih => exact List.forall_mem_cons.mpr ⟨next, ih⟩

theorem exists_less {fuel : Nat} (enough : (x :: rest).length ≤ fuel) : ∃ less, fuel = less + 1 :=
  Nat.exists_eq_succ_of_ne_zero (Nat.ne_of_gt (Nat.lt_of_lt_of_le (Nat.succ_pos _) enough))

theorem visitFrom_of_passes (passes : Passes rest final) (fuel : Nat)
    (enough : rest.length ≤ fuel) (done : List Listener) (free : turns done = 0) :
    visitFrom fuel done.length (done ++ rest) = .ok (done ++ final) := by
  induction passes generalizing fuel done with
  | nil => exact visitFrom_end fuel (by simp)
  | @keep x y rest out turn finishes later ih =>
    obtain ⟨fuel, rfl⟩ := exists_less enough
    have step := visit_eq done rest finishes
    rw [turn, if_neg Bool.false_ne_true] at step
    have free' : turns (done ++ [y]) = 0 := by
      rw [turns, List.countP_append, List.countP_singleton, finishes.isIn_eq, turn]
      exact free
    have rest' := ih fuel (Nat.le_of_succ_le_succ enough) (done ++ [y]) free'
    rw [List.length_append, List.append_assoc, List.append_assoc] at rest'
    rw [visitFrom_cons]
    exact bind_of_ok step rest'
  | @last x turn usable =>
    obtain ⟨fuel, rfl⟩ := exists_less enough
    obtain ⟨y, finishes⟩ := exists_finishes_iff.mpr usable
    obtain ⟨left, visited, length, -, same⟩ := visit_turn done [] finishes turn
    rw [visitFrom_cons]
    apply bind_of_ok visited
    rw [visitFrom_removed fuel length, same free, List.append_nil]
  | @skip x z rest out turn usable next later ih =>
    obtain ⟨fuel, rfl⟩ := exists_less enough
    obtain ⟨y, finishes⟩ := exists_finishes_iff.mpr usable
    obtain ⟨left, visited, length, -, same⟩ := visit_turn done (z :: rest) finishes turn
    have free' : turns (done ++ [z]) = 0 := by
      rw [turns, List.countP_append, List.countP_singleton, next]
      exact free
    have short : rest.length ≤ fuel := by
      rw [List.length_cons, List.length_cons] at enough
      omega
    have rest' := ih fuel short (done ++ [z]) free'
    rw [visitFrom_cons]
    apply bind_of_ok visited
    rw [visitFrom_removed fuel length, same free]
    dsimp only
    rw [rest', List.append_assoc]
    rfl

theorem passes_of_visitFrom (done : List Listener) (fuel : Nat) (enough : rest.length ≤ fuel)
    (free : turns done = 0) (outcome : visitFrom fuel done.length (done ++ rest) = .ok final) (none : turns final = 0) :
    ∃ out, Passes rest out ∧ final = done ++ out := by
  induction fuel using Nat.strong_induction_on generalizing done rest with
  | h fuel ih =>
    cases rest with
    | nil =>
      rw [visitFrom_end fuel (by simp)] at outcome
      cases outcome
      exact ⟨[], .nil, rfl⟩
    | cons x rest =>
      obtain ⟨fuel, rfl⟩ := exists_less enough
      have enough' := Nat.le_of_succ_le_succ enough
      rw [visitFrom_cons] at outcome
      obtain ⟨next, visited, outcome⟩ := ok_of_bind outcome
      by_cases usable : ∃ y, Finishes x y
      · obtain ⟨y, finishes⟩ := usable
        by_cases turn : isIn "use_turn" x = true
        · obtain ⟨left, visited', length, -, same⟩ := visit_turn done rest finishes turn
          rw [visited'] at visited
          cases visited
          rw [visitFrom_removed fuel length, same free] at outcome
          cases rest with
          | nil =>
            cases outcome
            exact ⟨[], .last turn (exists_finishes_iff.mp ⟨y, finishes⟩), (List.append_nil _).symm⟩
          | cons z rest =>
            have fewer := turns_le fuel (done ++ [z]) rest outcome
            have free' : turns (done ++ [z]) = 0 := by omega
            have passed : isIn "use_turn" z = false :=
              turns_eq_zero_iff.mp free' z (List.mem_append_right _ (List.mem_singleton_self z))
            obtain ⟨out, passes, rfl⟩ := ih fuel (Nat.lt_succ_self _) _
              (by rw [List.length_cons] at enough'; omega) free' outcome
            exact ⟨z :: out, .skip turn (exists_finishes_iff.mp ⟨y, finishes⟩) passed passes,
              by simp⟩
        · have turn' := eq_false_of_ne_true turn
          rw [visit_eq done rest finishes, if_neg turn] at visited
          cases visited
          have split : done ++ y :: rest = done ++ [y] ++ rest := by simp
          rw [split, show done.length + 1 = (done ++ [y]).length by simp] at outcome
          have free' : turns (done ++ [y]) = 0 := by
            rw [turns, List.countP_append, List.countP_singleton, finishes.isIn_eq, turn']
            exact free
          obtain ⟨out, passes, rfl⟩ := ih fuel (Nat.lt_succ_self _) _ enough' free' outcome
          exact ⟨y :: out, .keep turn' finishes passes, by simp⟩
      · exact (visit_error done rest (not_exists.mp usable) visited).elim

theorem rewriteListeners_iff :
    (rewriteListeners listen = .ok final ∧ turns final = 0) ↔ Passes listen final := by
  constructor
  · rintro ⟨outcome, none⟩
    obtain ⟨out, passes, same⟩ :=
      passes_of_visitFrom [] listen.length (Nat.le_refl _) rfl outcome none
    rw [same]
    exact passes
  · intro passes
    exact ⟨visitFrom_of_passes passes listen.length (Nat.le_refl _) [] rfl, passes.turns⟩

/-! ## What is passed over -/

def AfterTurn (listen : List Listener) : Prop :=
  listen.IsChain fun x z => isIn "use_turn" x = true → Settled z

theorem AfterTurn.tail (after : AfterTurn (x :: rest)) : AfterTurn rest := by
  cases rest with
  | nil => exact .nil
  | cons z rest => exact (List.isChain_cons_cons.mp after).2

theorem exists_passes (usable : ∀ x ∈ listen, Usable x) (after : AfterTurn listen) :
    ∃ out, Passes listen out ∧ List.Forall₂ Finishes (withoutTurn listen) out := by
  induction listen using List.twoStepInduction with
  | nil => exact ⟨[], .nil, .nil⟩
  | singleton x =>
    have here := usable x (List.mem_singleton_self x)
    by_cases turn : isIn "use_turn" x = true
    · refine ⟨[], .last turn here, ?_⟩
      simp [withoutTurn, turn]
    · obtain ⟨y, finishes⟩ := exists_finishes_iff.mpr here
      refine ⟨[y], .keep (eq_false_of_ne_true turn) finishes .nil, ?_⟩
      simpa [withoutTurn, turn] using finishes
  | cons_cons x z rest ih₁ ih₂ =>
    obtain ⟨first, later⟩ := List.isChain_cons_cons.mp after
    rw [List.forall_mem_cons] at usable
    by_cases turn : isIn "use_turn" x = true
    · have settled := first turn
      rw [List.forall_mem_cons] at usable
      obtain ⟨out, passes, finish⟩ := ih₁ usable.2.2 (AfterTurn.tail later)
      refine ⟨z :: out, .skip turn usable.1 settled.turn passes, ?_⟩
      have same : withoutTurn (x :: z :: rest) = z :: withoutTurn rest := by
        simp [withoutTurn, turn, settled.turn]
      rw [same]
      exact .cons (settled.finishes usable.2.1.1) finish
    · obtain ⟨y, finishes⟩ := exists_finishes_iff.mpr usable.1
      obtain ⟨out, passes, finish⟩ := ih₂ z usable.2 later
      refine ⟨y :: out, .keep (eq_false_of_ne_true turn) finishes passes, ?_⟩
      have same : withoutTurn (x :: z :: rest) = x :: withoutTurn (z :: rest) := by
        simp [withoutTurn, turn]
      rw [same]
      exact .cons finishes finish

theorem Passes.afterTurn (passes : Passes listen final)
    (settled : ∀ z ∈ final, isIn "port" z = true ∧ Settled z) :
    (∀ x ∈ listen, Usable x) ∧ AfterTurn listen := by
  induction passes with
  | nil => exact ⟨by simp, .nil⟩
  | @keep x y rest out turn finishes later ih =>
    obtain ⟨usable, after⟩ := ih (List.forall_mem_cons.mp settled).2
    refine ⟨List.forall_mem_cons.mpr ⟨exists_finishes_iff.mp ⟨y, finishes⟩, usable⟩, ?_⟩
    cases rest with
    | nil => exact .singleton x
    | cons z rest =>
      refine List.isChain_cons_cons.mpr ⟨fun turn' => ?_, after⟩
      rw [turn] at turn'
      cases turn'
  | @last x turn usable => exact ⟨by simpa using usable, .singleton x⟩
  | @skip x z rest out turn usable next later ih =>
    obtain ⟨⟨present, settledZ⟩, others⟩ := List.forall_mem_cons.mp settled
    obtain ⟨usable', after⟩ := ih others
    refine ⟨?_, ?_⟩
    · rw [List.forall_mem_cons, List.forall_mem_cons]
      exact ⟨usable, settledZ.usable present, usable'⟩
    · refine List.isChain_cons_cons.mpr ⟨fun _ => settledZ, ?_⟩
      cases rest with
      | nil => exact .singleton z
      | cons next' rest =>
        refine List.isChain_cons_cons.mpr ⟨fun turn' => ?_, after⟩
        rw [next] at turn'
        cases turn'

theorem passes_self (settled : ∀ z ∈ listen, isIn "port" z = true ∧ Settled z) :
    Passes listen listen := by
  induction listen with
  | nil => exact .nil
  | cons z rest ih =>
    obtain ⟨⟨present, settledZ⟩, others⟩ := List.forall_mem_cons.mp settled
    exact .keep settledZ.turn (settledZ.finishes present) (ih others)

theorem Passes.ports (passes : Passes listen final)
    (free : ∀ z ∈ listen, isIn "use_turn" z = false) : ∀ z ∈ listen, isIn "port" z = true := by
  induction passes with
  | nil => simp
  | @keep x y rest out turn finishes later ih =>
    rw [List.forall_mem_cons] at free ⊢
    exact ⟨(exists_finishes_iff.mp ⟨y, finishes⟩).1, ih free.2⟩
  | @last x turn usable => simpa using usable.1
  | @skip x z rest out turn usable next later ih =>
    rw [free x List.mem_cons_self] at turn
    cases turn

/-! ## The ports -/

def moved (x : Listener) : Listener :=
  match x.get? "port" with
  | some port => if isPort 5280 port then x.set "port" (.number 5443) else x
  | none => x

theorem moved_of_onPort (on : OnPort 5280 x) : moved x = x.set "port" (.number 5443) := by
  rw [moved, on]
  rfl

theorem moved_of_not_onPort (off : ¬ OnPort 5280 x) : moved x = x := by
  rw [moved]
  split
  · rename_i port found
    rw [if_neg]
    intro on
    rw [isPort_iff] at on
    exact off (by rw [OnPort, found, on])
  · rfl

theorem movePort_eq_ok_iff : movePort x = .ok y ↔ isIn "port" x = true ∧ y = moved x := by
  constructor
  · intro moves
    obtain ⟨port, found, moves⟩ := ok_of_bind moves
    rw [portOf_eq_ok_iff] at found
    refine ⟨by rw [isIn, found]; rfl, ?_⟩
    rw [moved, found]
    split at moves
    · rename_i on
      cases moves
      exact (if_pos on).symm
    · rename_i off
      cases moves
      exact (if_neg off).symm
  · rintro ⟨present, rfl⟩
    obtain ⟨port, found⟩ := Option.isSome_iff_exists.mp present
    apply bind_of_ok (portOf_eq_ok_iff.mpr found)
    rw [moved, found]
    dsimp only
    split <;> rfl

theorem mapM_movePort : listen.mapM movePort = .ok final ↔
    (∀ x ∈ listen, isIn "port" x = true) ∧ final = listen.map moved := by
  induction listen generalizing final with
  | nil =>
    constructor
    · intro h
      cases h
      exact ⟨by simp, rfl⟩
    · rintro ⟨-, rfl⟩
      rfl
  | cons x rest ih =>
    rw [List.mapM_cons, List.forall_mem_cons]
    constructor
    · intro h
      obtain ⟨y, first, h⟩ := ok_of_bind h
      obtain ⟨out, later, h⟩ := ok_of_bind h
      cases h
      obtain ⟨present, rfl⟩ := movePort_eq_ok_iff.mp first
      obtain ⟨all, rfl⟩ := ih.mp later
      exact ⟨⟨present, all⟩, rfl⟩
    · rintro ⟨⟨present, all⟩, rfl⟩
      exact bind_of_ok (movePort_eq_ok_iff.mpr ⟨present, rfl⟩)
        (bind_of_ok (ih.mpr ⟨all, rfl⟩) rfl)

theorem anyOnPort_ok {port : Int} {found : Bool} (looked : anyOnPort port listen = .ok found) :
    found = true ↔ ∃ x ∈ listen, OnPort port x := by
  induction listen with
  | nil =>
    cases looked
    simp
  | cons x rest ih =>
    obtain ⟨field, read, looked⟩ := ok_of_bind looked
    rw [portOf_eq_ok_iff] at read
    split at looked
    · rename_i on
      cases looked
      rw [isPort_iff] at on
      rw [on] at read
      simp only [true_iff]
      exact ⟨x, List.mem_cons_self, read⟩
    · rename_i off
      have other : ¬ OnPort port x := by
        intro on
        rw [OnPort, read] at on
        cases on
        exact off (isPort_iff.mpr rfl)
      rw [ih looked]
      simp [other]

theorem exists_anyOnPort (port : Int) (present : ∀ x ∈ listen, isIn "port" x = true) :
    ∃ found, anyOnPort port listen = .ok found := by
  induction listen with
  | nil => exact ⟨false, rfl⟩
  | cons x rest ih =>
    rw [List.forall_mem_cons] at present
    obtain ⟨field, read⟩ := Option.isSome_iff_exists.mp present.1
    obtain ⟨found, later⟩ := ih present.2
    by_cases on : isPort port field = true
    · refine ⟨true, bind_of_ok (portOf_eq_ok_iff.mpr read) ?_⟩
      rw [if_pos on]
      rfl
    · refine ⟨found, bind_of_ok (portOf_eq_ok_iff.mpr read) ?_⟩
      rw [if_neg on]
      exact later

theorem keys_moved (x : Listener) : (moved x).keys = x.keys := by
  by_cases on : OnPort 5280 x
  · rw [moved_of_onPort on]
    exact x.keys_set_of_mem ((x.mem_keys_iff _).mpr ⟨_, on⟩) _
  · rw [moved_of_not_onPort on]

theorem get?_moved (other : key ≠ "port") (x : Listener) : (moved x).get? key = x.get? key := by
  by_cases on : OnPort 5280 x
  · rw [moved_of_onPort on, x.get?_set, if_neg other]
  · rw [moved_of_not_onPort on]

theorem isIn_moved (key : String) (x : Listener) : isIn key (moved x) = isIn key x :=
  isIn_congr (keys_moved x) key

theorem handlesUpload_moved (x : Listener) : handlesUpload (moved x) ↔ handlesUpload x := by
  rw [handlesUpload, handlesUpload, get?_moved (by decide)]

theorem onPort_moved (x : Listener) : OnPort 5443 (moved x) ↔ OnPort 5443 x ∨ OnPort 5280 x := by
  by_cases on : OnPort 5280 x
  · rw [moved_of_onPort on, OnPort, x.get?_set_self]
    simp [on]
  · rw [moved_of_not_onPort on]
    simp [on]

theorem not_onPort_moved (x : Listener) : ¬ OnPort 5280 (moved x) := by
  by_cases on : OnPort 5280 x
  · rw [moved_of_onPort on, OnPort, x.get?_set_self]
    simp
  · rwa [moved_of_not_onPort on]

theorem upgradeListeners_cases (upgraded : upgradeListeners listen = .ok final) :
    ((∃ x ∈ listen, OnPort 5443 x) ∧ final = listen) ∨
    ((∀ x ∈ listen, ¬ OnPort 5443 x) ∧ (∀ x ∈ listen, isIn "port" x = true) ∧
      final = listen.map moved) := by
  obtain ⟨boshPort, looked, upgraded⟩ := ok_of_bind upgraded
  have found := anyOnPort_ok looked
  cases boshPort with
  | true =>
    cases upgraded
    exact .inl ⟨found.mp rfl, rfl⟩
  | false =>
    obtain ⟨present, same⟩ := mapM_movePort.mp upgraded
    refine .inr ⟨fun x member on => ?_, present, same⟩
    exact absurd (found.mpr ⟨x, member, on⟩) Bool.false_ne_true

theorem exists_upgradeListeners (present : ∀ x ∈ listen, isIn "port" x = true) :
    ∃ final, upgradeListeners listen = .ok final := by
  obtain ⟨boshPort, looked⟩ := exists_anyOnPort 5443 present
  cases boshPort with
  | true => exact ⟨listen, bind_of_ok looked rfl⟩
  | false => exact ⟨listen.map moved, bind_of_ok looked (mapM_movePort.mpr ⟨present, rfl⟩)⟩

theorem turns_upgradeListeners (upgraded : upgradeListeners listen = .ok final) :
    turns final = turns listen := by
  rcases upgradeListeners_cases upgraded with ⟨-, rfl⟩ | ⟨-, -, rfl⟩
  · rfl
  · rw [turns, List.countP_map, turns]
    exact List.countP_congr fun x _ => by rw [Function.comp_apply, isIn_moved]

theorem moved_moved (x : Listener) : moved (moved x) = moved x :=
  moved_of_not_onPort (not_onPort_moved x)

theorem upgradeListeners_self (upgraded : upgradeListeners listen = .ok final) :
    upgradeListeners final = .ok final := by
  rcases upgradeListeners_cases upgraded with ⟨-, rfl⟩ | ⟨-, present, rfl⟩
  · exact upgraded
  · have present' : ∀ x ∈ listen.map moved, isIn "port" x = true := by
      rw [List.forall_mem_map]
      intro x member
      rw [isIn_moved, present x member]
    have same : (listen.map moved).map moved = listen.map moved := by
      rw [List.map_map]
      exact List.map_congr_left fun x _ => moved_moved x
    obtain ⟨boshPort, looked⟩ := exists_anyOnPort 5443 present'
    cases boshPort with
    | true => exact bind_of_ok looked rfl
    | false => exact bind_of_ok looked (mapM_movePort.mpr ⟨present', same.symm⟩)

def AllSettled (listen : List Listener) : Prop :=
  ∀ z ∈ listen, isIn "port" z = true ∧ Settled z

def MovesSettled (listen : List Listener) : Prop :=
  (∀ z ∈ listen, ¬ OnPort 5443 z) → ∀ z ∈ listen, OnPort 5280 z → handlesUpload z

theorem settled_moved_iff (off : ¬ OnPort 5443 z) : Settled (moved z) ↔
    Settled z ∧ (OnPort 5280 z → handlesUpload z) := by
  constructor
  · intro settled
    refine ⟨⟨?_, ?_, fun on => absurd on off⟩, fun on => ?_⟩
    · rw [← isIn_moved, settled.turn]
    · intro present
      rw [← get?_moved (by decide)]
      exact settled.tls (by rw [isIn_moved, present])
    · rw [← handlesUpload_moved]
      exact settled.upload ((onPort_moved z).mpr (.inr on))
  · rintro ⟨settled, moves⟩
    refine ⟨by rw [isIn_moved, settled.turn], ?_, ?_⟩
    · rw [isIn_moved, get?_moved (by decide)]
      exact settled.tls
    · rw [onPort_moved, handlesUpload_moved]
      rintro (on | on)
      · exact absurd on off
      · exact moves on

theorem allSettled_iff (upgraded : upgradeListeners listen = .ok final) :
    AllSettled final ↔ AllSettled listen ∧ MovesSettled listen := by
  rcases upgradeListeners_cases upgraded with ⟨⟨x, member, on⟩, rfl⟩ | ⟨none, present, rfl⟩
  · exact (and_iff_left fun none => absurd on (none x member)).symm
  · rw [AllSettled, List.forall_mem_map]
    constructor
    · intro settled
      refine ⟨fun z member => ⟨present z member, ?_⟩, fun _ z member => ?_⟩
      · exact ((settled_moved_iff (none z member)).mp (settled z member).2).1
      · exact ((settled_moved_iff (none z member)).mp (settled z member).2).2
    · rintro ⟨settled, moves⟩ z member
      refine ⟨by rw [isIn_moved, present z member], ?_⟩
      exact (settled_moved_iff (none z member)).mpr ⟨(settled z member).2, moves none z member⟩

/-! ## The listeners of the file -/

def Passed (listen final : List Listener) : Prop :=
  ∃ out, rewriteListeners listen = .ok out ∧ upgradeListeners out = .ok final

structure FitListeners (listen : List Listener) : Prop where
  usable : ∀ x ∈ listen, Usable x
  after : AfterTurn listen
  moves : MovesSettled (withoutTurn listen)

theorem Finishes.handlesUpload_iff (finishes : Finishes x y) (off : ¬ OnPort 5443 x) :
    handlesUpload y ↔ handlesUpload x := by
  rcases finishes_cases finishes with ⟨-, -, rfl⟩ | ⟨on, -⟩
  · rw [handlesUpload, handlesUpload, get?_disableTls (by decide)]
  · exact absurd on off

theorem movesSettled_iff (finish : List.Forall₂ Finishes listen final) :
    MovesSettled listen ↔ MovesSettled final := by
  have ports (port : Int) : (∀ z ∈ listen, ¬ OnPort port z) ↔ ∀ z ∈ final, ¬ OnPort port z := by
    induction finish with
    | nil => simp
    | cons first later ih =>
      rw [List.forall_mem_cons, List.forall_mem_cons, ih, first.onPort_iff]
  rw [MovesSettled, MovesSettled, ports]
  refine imp_congr_right fun none => ?_
  rw [← ports] at none
  clear ports
  induction finish with
  | nil => simp
  | cons first later ih =>
    rw [List.forall_mem_cons] at none
    rw [List.forall_mem_cons, List.forall_mem_cons, ih none.2, first.onPort_iff,
      first.handlesUpload_iff none.1]

theorem Finishes.kept (finishes : Finishes x y) : Kept x y where
  keys := finishes.keys_eq
  other := fun _ notTls _ notHandlers => finishes.get?_eq notTls notHandlers
  port := .inl (finishes.get?_eq (by decide) (by decide))
  handlers := finishes.handlers

theorem Kept.moved (kept : Kept x y) (same : y.get? "port" = x.get? "port") :
    Kept x (Ejabberd.moved y) where
  keys := by rw [keys_moved, kept.keys]
  other := fun key notTls notPort notHandlers => by
    rw [get?_moved notPort, kept.other key notTls notPort notHandlers]
  port := by
    by_cases on : OnPort 5280 y
    · exact .inr ⟨by rw [OnPort, ← same]; exact on, (onPort_moved y).mpr (.inr on)⟩
    · rw [moved_of_not_onPort on]
      exact .inl same
  handlers := by
    rw [get?_moved (by decide)]
    exact kept.handlers

theorem forall₂_kept {out : List Listener} (finish : List.Forall₂ Finishes listen out)
    (upgraded : upgradeListeners out = .ok final) : List.Forall₂ Kept listen final := by
  rcases upgradeListeners_cases upgraded with ⟨-, rfl⟩ | ⟨-, -, rfl⟩
  · exact finish.imp fun _ _ finishes => finishes.kept
  · rw [List.forall₂_map_right_iff]
    exact finish.imp fun _ _ finishes =>
      finishes.kept.moved (finishes.get?_eq (by decide) (by decide))

theorem Passes.unique {out out' : List Listener} (passes : Passes listen out)
    (passes' : Passes listen out') : out = out' := by
  have first := (rewriteListeners_iff.mpr passes).1
  rw [(rewriteListeners_iff.mpr passes').1] at first
  cases first
  rfl

theorem forall_right {R : Listener → Listener → Prop} {P Q : Listener → Prop}
    (related : List.Forall₂ R listen final) (step : ∀ x y, R x y → P x → Q y)
    (all : ∀ x ∈ listen, P x) : ∀ y ∈ final, Q y := by
  induction related with
  | nil => simp
  | cons first later ih =>
    rw [List.forall_mem_cons] at all ⊢
    exact ⟨step _ _ first all.1, ih all.2⟩

theorem passed_iff : (∃ final, Passed listen final ∧ AllSettled final) ↔ FitListeners listen := by
  constructor
  · rintro ⟨final, ⟨out, rewritten, upgraded⟩, settled⟩
    obtain ⟨settledOut, moves⟩ := (allSettled_iff upgraded).mp settled
    have none : turns out = 0 := turns_eq_zero_iff.mpr fun z member => (settledOut z member).2.turn
    have passes := rewriteListeners_iff.mp ⟨rewritten, none⟩
    obtain ⟨usable, after⟩ := passes.afterTurn settledOut
    obtain ⟨out', passes', finish⟩ := exists_passes usable after
    obtain rfl := passes.unique passes'
    exact ⟨usable, after, (movesSettled_iff finish).mpr moves⟩
  · rintro ⟨usable, after, moves⟩
    obtain ⟨out, passes, finish⟩ := exists_passes usable after
    have settled : AllSettled out := by
      refine forall_right finish (P := fun x => Usable x ∧ isIn "use_turn" x = false) ?_ ?_
      · rintro x z finishes ⟨ready, turn⟩
        exact ⟨by rw [finishes.isIn_eq, ready.1],
          ⟨by rw [finishes.isIn_eq, turn], finishes.tls, finishes.upload⟩⟩
      · intro x member
        obtain ⟨listed, turn⟩ := List.mem_filter.mp member
        rw [Bool.not_eq_true'] at turn
        exact ⟨usable x listed, turn⟩
    obtain ⟨final, upgraded⟩ := exists_upgradeListeners fun z member => (settled z member).1
    exact ⟨final, ⟨out, (rewriteListeners_iff.mpr passes).1, upgraded⟩,
      (allSettled_iff upgraded).mpr ⟨settled, (movesSettled_iff finish).mp moves⟩⟩

theorem Passed.kept (passed : Passed listen final) (settled : AllSettled final) :
    List.Forall₂ Kept (withoutTurn listen) final := by
  obtain ⟨out, rewritten, upgraded⟩ := passed
  obtain ⟨settledOut, -⟩ := (allSettled_iff upgraded).mp settled
  have none : turns out = 0 := turns_eq_zero_iff.mpr fun z member => (settledOut z member).2.turn
  have passes := rewriteListeners_iff.mp ⟨rewritten, none⟩
  obtain ⟨usable, after⟩ := passes.afterTurn settledOut
  obtain ⟨out', passes', finish⟩ := exists_passes usable after
  obtain rfl := passes.unique passes'
  exact forall₂_kept finish upgraded

theorem Passed.self (passed : Passed listen final) (settled : AllSettled final) :
    Passed final final := by
  obtain ⟨out, -, upgraded⟩ := passed
  exact ⟨final, (rewriteListeners_iff.mpr (passes_self settled)).1, upgradeListeners_self upgraded⟩

theorem Passed.ports (passed : Passed final final)
    (free : ∀ z ∈ final, isIn "use_turn" z = false) : ∀ z ∈ final, isIn "port" z = true := by
  obtain ⟨out, rewritten, upgraded⟩ := passed
  have none : turns out = 0 := by
    rw [← turns_upgradeListeners upgraded, turns_eq_zero_iff]
    exact free
  exact (rewriteListeners_iff.mp ⟨rewritten, none⟩).ports free

/-! ## The whole file -/

variable {conf changed : Conf} {order order' : SetOrder} {version : Version}

def rewritten (order : SetOrder) (conf : Conf) (out : List Listener) : Conf where
  listen := out
  modules := conf.modules.set "mod_http_upload" modHttpUpload
  certfiles := order.list (conf.certfiles ++ [letsencryptCertfiles])
  settings := conf.settings.update ldapSettings

def upgraded (order : SetOrder) (version : Version) (conf : Conf) (final : List Listener) : Conf where
  listen := final
  modules := upgradeModules version (conf.modules.set "mod_http_upload" modHttpUpload)
  certfiles := order.list (conf.certfiles ++ [letsencryptCertfiles])
  settings := (conf.settings.update ldapSettings).erase "s2s_certfile"

theorem exec_setup (order : SetOrder) (version : Version) (conf : Conf) :
    (setup order version).exec conf = match rewriteListeners conf.listen with
      | .error e => (.error e, conf)
      | .ok out => match upgradeListeners out with
        | .error e => (.error e, rewritten order conf out)
        | .ok final => (.ok (), upgraded order version conf final) := by
  rw [setup, exec_bind_of_ok (exec_get conf)]
  cases first : rewriteListeners conf.listen with
  | error e =>
    have failed : rewrite order conf = .error e := bind_of_error first
    rw [failed]
    rfl
  | ok out =>
    have read : rewrite order conf = .ok (rewritten order conf out) := bind_of_ok first rfl
    rw [read]
    change ((do
      let conf ← lift (upgradeConfig version (← get))
      set conf : Effect Conf Exception Unit)).exec (rewritten order conf out) = _
    rw [exec_bind_of_ok (exec_get _)]
    cases second : upgradeListeners out with
    | error e =>
      have failed : upgradeConfig version (rewritten order conf out) = .error e :=
        bind_of_error second
      rw [failed]
      dsimp only
      rw [second]
      rfl
    | ok final =>
      have read' : upgradeConfig version (rewritten order conf out) =
          .ok (upgraded order version conf final) := bind_of_ok second rfl
      rw [read']
      dsimp only
      rw [second]
      rfl

theorem setup_ok_iff : (setup order version).exec conf = (.ok (), changed) ↔
    ∃ final, Passed conf.listen final ∧ changed = upgraded order version conf final := by
  rw [exec_setup]
  constructor
  · intro outcome
    split at outcome
    · cases outcome
    · rename_i out first
      split at outcome
      · cases outcome
      · rename_i final second
        cases outcome
        exact ⟨final, ⟨out, first, second⟩, rfl⟩
  · rintro ⟨final, ⟨out, first, second⟩, rfl⟩
    rw [first]
    dsimp only
    rw [second]

def withoutIqdisc (version : Version) (modules : OrderedDict String Module) :
    OrderedDict String Module :=
  match version.afterIqdisc, modules.get? "mod_mam" with
  | true, some modMam => modules.set "mod_mam" (modMam.erase "iqdisc")
  | _, _ => modules

theorem upgradeModules_eq (modules : OrderedDict String Module) :
    upgradeModules version modules = if version.afterIrc then
      (withoutIqdisc version modules).erase "mod_irc" else withoutIqdisc version modules :=
  rfl

theorem upgradeModules_get? {key : String} (notMam : key ≠ "mod_mam") (notIrc : key ≠ "mod_irc")
    (modules : OrderedDict String Module) :
    (upgradeModules version modules).get? key = modules.get? key := by
  have mam : (withoutIqdisc version modules).get? key = modules.get? key := by
    rw [withoutIqdisc]
    split
    · rw [OrderedDict.get?_set, if_neg notMam]
    · rfl
  rw [upgradeModules_eq]
  split
  · rw [OrderedDict.get?_erase, if_neg notIrc]
    exact mam
  · exact mam

theorem upgradeModules_self {modules : OrderedDict String Module}
    (mam : ∀ modMam, version.afterIqdisc = true → modules.get? "mod_mam" = some modMam →
      modMam.erase "iqdisc" = modMam)
    (irc : version.afterIrc = true → modules.get? "mod_irc" = none) :
    upgradeModules version modules = modules := by
  have kept : withoutIqdisc version modules = modules := by
    rw [withoutIqdisc]
    split
    · rename_i modMam after found
      rw [mam modMam after found, OrderedDict.set_eq_self found]
    · rfl
  rw [upgradeModules_eq, kept]
  split
  · rename_i after
    exact OrderedDict.erase_eq_self (irc after)
  · rfl

theorem upgradeModules_mam {modules : OrderedDict String Module} {modMam : Module}
    (after : version.afterIqdisc = true)
    (found : (upgradeModules version modules).get? "mod_mam" = some modMam) :
    modMam.erase "iqdisc" = modMam := by
  have mam : (withoutIqdisc version modules).get? "mod_mam" = some modMam := by
    rw [upgradeModules_eq] at found
    split at found
    · rwa [OrderedDict.get?_erase, if_neg (by decide)] at found
    · exact found
  rw [withoutIqdisc] at mam
  split at mam
  · rw [OrderedDict.get?_set_self] at mam
    cases mam
    rw [OrderedDict.erase_erase]
  · rename_i other
    exact absurd mam (other modMam after)

theorem upgradeModules_again (modules : OrderedDict String Module) :
    upgradeModules version (upgradeModules version modules) = upgradeModules version modules := by
  apply upgradeModules_self
  · exact fun modMam after found => upgradeModules_mam after found
  · intro after
    rw [upgradeModules, if_pos after, OrderedDict.get?_erase, if_pos rfl]

theorem modules_again (modules : OrderedDict String Module) :
    upgradeModules version ((upgradeModules version
      (modules.set "mod_http_upload" modHttpUpload)).set "mod_http_upload" modHttpUpload) =
    upgradeModules version (modules.set "mod_http_upload" modHttpUpload) := by
  have found : (upgradeModules version (modules.set "mod_http_upload" modHttpUpload)).get?
      "mod_http_upload" = some modHttpUpload := by
    rw [upgradeModules_get? (by decide) (by decide), OrderedDict.get?_set_self]
  rw [OrderedDict.set_eq_self found, upgradeModules_again]

theorem settings_again (settings : OrderedDict String Field) :
    (((settings.update ldapSettings).erase "s2s_certfile").update ldapSettings).erase
      "s2s_certfile" = (settings.update ldapSettings).erase "s2s_certfile" := by
  have found : ∀ setting ∈ ldapSettings,
      ((settings.update ldapSettings).erase "s2s_certfile").get? setting.1 = some setting.2 := by
    intro setting member
    have other : setting.1 ≠ "s2s_certfile" := by
      have names : (ldapSettings.map Prod.fst).all (fun name => name ≠ "s2s_certfile") = true := by
        decide +kernel
      exact of_decide_eq_true (List.all_eq_true.mp names _ (List.mem_map_of_mem member))
    rw [OrderedDict.get?_erase, if_neg other]
    exact OrderedDict.get?_update_of_mem (by decide +kernel) member settings
  rw [OrderedDict.update_eq_self found, OrderedDict.erase_erase]

theorem fit_of_setsUp (sets : SetsUp order version order' conf) : FitListeners conf.listen ∧
    order'.list (order.list (conf.certfiles ++ [letsencryptCertfiles]) ++
      [letsencryptCertfiles]) = order.list (conf.certfiles ++ [letsencryptCertfiles]) := by
  obtain ⟨changed, first, done, second⟩ := sets
  obtain ⟨final, passed, rfl⟩ := setup_ok_iff.mp first
  obtain ⟨final', again, same⟩ := setup_ok_iff.mp second
  obtain rfl : final = final' := congrArg Conf.listen same
  have ports := again.ports done.turn
  have settled : AllSettled final := fun z member =>
    ⟨ports z member, done.turn z member, done.tls z member, done.upload z member⟩
  exact ⟨passed_iff.mp ⟨final, passed, settled⟩, (congrArg Conf.certfiles same).symm⟩

/-- The setup does its work if what comes after a listener that is removed needs no change, nothing
is missing in the listeners, and the certificate files are listed in the same order again. -/
theorem setup_iff (order order' : SetOrder) (version : Version) (conf : Conf) :
    SetsUp order version order' conf ↔ FitListeners conf.listen ∧
      order'.list (order.list (conf.certfiles ++ [letsencryptCertfiles]) ++
        [letsencryptCertfiles]) = order.list (conf.certfiles ++ [letsencryptCertfiles]) := by
  refine ⟨fit_of_setsUp, ?_⟩
  rintro ⟨fit, ordered⟩
  obtain ⟨final, passed, settled⟩ := passed_iff.mpr fit
  have same : upgraded order version conf final =
      upgraded order' version (upgraded order version conf final) final := by
    rw [upgraded, upgraded, modules_again, settings_again, ordered]
  refine ⟨_, setup_ok_iff.mpr ⟨final, passed, rfl⟩, ⟨?_, ?_, ?_, passed.kept settled⟩,
    setup_ok_iff.mpr ⟨final, passed.self settled, same⟩⟩
  · exact fun z member => (settled z member).2.turn
  · exact fun z member => (settled z member).2.tls
  · exact fun z member => (settled z member).2.upload

def firstOrder : SetOrder where
  list := Distinct.distinct
  perm := fun _ => .refl _

def turnListener (transport : String) : Listener :=
  OrderedDict.ofEntries [("port", .number 3478), ("transport", .text transport),
    ("module", .text "ejabberd_stun"), ("use_turn", .flag true)]

theorem turn_listener_stays : ¬ SetsUp firstOrder ⟨true, true⟩ firstOrder
    ⟨[turnListener "udp", turnListener "tcp"], OrderedDict.empty, [], OrderedDict.empty⟩ := by
  intro sets
  have after := (fit_of_setsUp sets).1.after
  have settled := (List.isChain_cons_cons.mp after).1 (by decide +kernel)
  have turn := settled.turn
  revert turn
  decide +kernel

end Plinth.Ejabberd
