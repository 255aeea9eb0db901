/-!
# Programs with state and exceptions

A program that raises keeps the changes it has made. A triple says what holds of the state in
which the program returns, and of the state in which it raises.
-/

abbrev Effect (σ ε α : Type) := ExceptT ε (StateM σ) α

namespace Effect

variable {σ ε α β : Type}

def exec (m : Effect σ ε α) (s : σ) : Except ε α × σ := m.run.run s

/-- From a state in `P`, the program returns in `Q` or raises in `E`. -/
def Triple (P : σ → Prop) (m : Effect σ ε α) (Q : α → σ → Prop) (E : ε → σ → Prop) : Prop :=
  ∀ s, P s → match m.exec s with
    | (.ok a, s') => Q a s'
    | (.error e, s') => E e s'

def lift (result : Except ε α) : Effect σ ε α :=
  match result with
  | .ok a => pure a
  | .error e => throw e

def when (c : Prop) [Decidable c] (m : Effect σ ε Unit) : Effect σ ε Unit :=
  if c then m else pure ()

theorem when_of {c : Prop} [Decidable c] (h : c) (m : Effect σ ε Unit) : when c m = m :=
  if_pos h

theorem when_of_not {c : Prop} [Decidable c] (h : ¬ c) (m : Effect σ ε Unit) :
    when c m = pure () :=
  if_neg h

def forEach (l : List α) (f : α → Effect σ ε Unit) : Effect σ ε Unit :=
  match l with
  | [] => pure ()
  | a :: rest => do
      f a
      forEach rest f

/-! ## Results in sequence -/

theorem bind_of_ok {first : Except ε α} {a : α} {rest : α → Except ε β} {result : Except ε β}
    (found : first = .ok a) (continued : rest a = result) : (first >>= rest) = result := by
  rw [found]
  exact continued

theorem bind_of_error {first : Except ε α} {e : ε} {rest : α → Except ε β}
    (failed : first = .error e) : (first >>= rest) = .error e := by
  rw [failed]
  rfl

theorem ok_of_bind {first : Except ε α} {rest : α → Except ε β} {b : β}
    (h : (first >>= rest) = .ok b) : ∃ a, first = .ok a ∧ rest a = .ok b := by
  cases first with
  | error e => cases h
  | ok a => exact ⟨a, rfl, h⟩

theorem error_of_bind {first : Except ε α} {rest : α → Except ε β} {e : ε}
    (h : (first >>= rest) = .error e) :
    first = .error e ∨ ∃ a, first = .ok a ∧ rest a = .error e := by
  cases first with
  | error e' =>
    cases h
    exact .inl rfl
  | ok a => exact .inr ⟨a, rfl, h⟩

def RaisesOnly (E : ε → Prop) (result : Except ε α) : Prop :=
  ∀ e, result = .error e → E e

variable {E : ε → Prop}

theorem raisesOnly_ok (a : α) : RaisesOnly E (.ok a : Except ε α) := by
  rintro e ⟨⟩

theorem raisesOnly_error_iff (e : ε) : RaisesOnly E (.error e : Except ε α) ↔ E e := by
  constructor
  · exact fun only => only e rfl
  · rintro holds e' ⟨⟩
    exact holds

theorem raisesOnly_bind_iff {first : Except ε α} {rest : α → Except ε β} :
    RaisesOnly E (first >>= rest) ↔
      RaisesOnly E first ∧ ∀ a, first = .ok a → RaisesOnly E (rest a) := by
  cases first with
  | error e =>
    constructor
    · exact fun only => ⟨fun e' raises => only e' (by cases raises; rfl), nofun⟩
    · rintro ⟨only, _⟩ e' raises
      cases raises
      exact only e rfl
  | ok a =>
    constructor
    · refine fun only => ⟨raisesOnly_ok a, ?_⟩
      rintro a' ⟨⟩
      exact only
    · exact fun ⟨_, only⟩ => only a rfl

theorem raisesOnly_mapError_iff {ε' : Type} {E : ε' → Prop} (f : ε → ε') (result : Except ε α) :
    RaisesOnly E (result.mapError f) ↔ RaisesOnly (fun e => E (f e)) result := by
  cases result with
  | error e =>
    constructor
    · rintro only e' ⟨⟩
      exact only (f e) rfl
    · rintro only e' ⟨⟩
      exact only e rfl
  | ok a => exact iff_of_true (raisesOnly_ok a) (raisesOnly_ok a)

theorem returns_bind_iff {first : Except ε α} {rest : α → Except ε β}
    (total : ∀ a, first = .ok a → ∃ b, rest a = .ok b) :
    (∃ b, (first >>= rest) = .ok b) ↔ ∃ a, first = .ok a := by
  constructor
  · rintro ⟨b, h⟩
    obtain ⟨a, found, _⟩ := ok_of_bind h
    exact ⟨a, found⟩
  · rintro ⟨a, found⟩
    obtain ⟨b, h⟩ := total a found
    exact ⟨b, bind_of_ok found h⟩

theorem returns_map_iff {first : Except ε α} {f : α → β} :
    (∃ b, (first >>= fun a => pure (f a)) = .ok b) ↔ ∃ a, first = .ok a :=
  returns_bind_iff fun a _ => ⟨f a, rfl⟩

theorem mapM_returns_iff {f : α → Except ε β} {l : List α} :
    (∃ results, l.mapM f = .ok results) ↔ ∀ a ∈ l, ∃ b, f a = .ok b := by
  induction l with
  | nil => simp [pure, Except.pure]
  | cons a l ih =>
    rw [List.mapM_cons, List.forall_mem_cons, ← ih]
    constructor
    · rintro ⟨results, h⟩
      obtain ⟨b, first, h⟩ := ok_of_bind h
      obtain ⟨rest, later, _⟩ := ok_of_bind h
      exact ⟨⟨b, first⟩, rest, later⟩
    · rintro ⟨⟨b, first⟩, rest, later⟩
      refine ⟨b :: rest, ?_⟩
      apply bind_of_ok first
      exact bind_of_ok later rfl

theorem mem_mapM_iff {f : α → Except ε β} {l : List α} {results : List β}
    (h : l.mapM f = .ok results) (b : β) : b ∈ results ↔ ∃ a ∈ l, f a = .ok b := by
  induction l generalizing results with
  | nil =>
    cases h
    simp
  | cons a l ih =>
    rw [List.mapM_cons] at h
    obtain ⟨first, found, h⟩ := ok_of_bind h
    obtain ⟨rest, later, h⟩ := ok_of_bind h
    cases h
    rw [List.mem_cons, ih later]
    simp [found, eq_comm]

theorem mapM_of_ok {f : α → Except ε β} {g : α → β} {l : List α}
    (each : ∀ a ∈ l, f a = .ok (g a)) : l.mapM f = .ok (l.map g) := by
  induction l with
  | nil => rfl
  | cons a l ih =>
    obtain ⟨first, later⟩ := List.forall_mem_cons.mp each
    rw [List.mapM_cons]
    exact bind_of_ok first (bind_of_ok (ih later) rfl)

theorem mapM_eq_map_iff {f : α → Except ε β} {g : α → β} {l : List α} :
    l.mapM f = .ok (l.map g) ↔ ∀ a ∈ l, f a = .ok (g a) := by
  refine ⟨fun all => ?_, mapM_of_ok⟩
  induction l with
  | nil => simp
  | cons a l ih =>
    rw [List.mapM_cons] at all
    obtain ⟨b, first, all⟩ := ok_of_bind all
    obtain ⟨rest, later, all⟩ := ok_of_bind all
    rw [List.map_cons] at all
    obtain ⟨rfl, rfl⟩ := List.cons.inj (Except.ok.inj all)
    exact List.forall_mem_cons.mpr ⟨first, ih later⟩

theorem mapM_map {γ : Type} (f : β → Except ε γ) (g : α → β) (l : List α) :
    (l.map g).mapM f = l.mapM fun a => f (g a) := by
  induction l with
  | nil => rfl
  | cons a l ih => rw [List.map_cons, List.mapM_cons, List.mapM_cons, ih]

theorem forM_ok_iff {l : List α} {f : α → Except ε Unit} :
    l.forM f = .ok () ↔ ∀ a ∈ l, f a = .ok () := by
  induction l with
  | nil => exact iff_of_true rfl (by simp)
  | cons a l ih =>
    rw [List.forM, List.forall_mem_cons, ← ih]
    constructor
    · intro h
      obtain ⟨⟨⟩, first, later⟩ := ok_of_bind h
      exact ⟨first, later⟩
    · intro ⟨first, later⟩
      exact bind_of_ok first later

theorem forM_error_iff {l : List α} {f : α → Except ε Unit} {e : ε} : l.forM f = .error e ↔
    ∃ before a after, l = before ++ a :: after ∧ (∀ b ∈ before, f b = .ok ()) ∧
      f a = .error e := by
  induction l with
  | nil => exact iff_of_false (fun h => by cases h) (by simp)
  | cons a l ih =>
    rw [List.forM]
    constructor
    · intro h
      rcases error_of_bind h with first | ⟨⟨⟩, first, later⟩
      · exact ⟨[], a, l, rfl, by simp, first⟩
      · obtain ⟨before, b, after, split, passed, raised⟩ := ih.mp later
        refine ⟨a :: before, b, after, by rw [split]; rfl, ?_, raised⟩
        exact List.forall_mem_cons.mpr ⟨first, passed⟩
    · intro ⟨before, b, after, split, passed, raised⟩
      cases before with
      | nil =>
        cases split
        exact bind_of_error raised
      | cons first before =>
        cases split
        obtain ⟨head, passed⟩ := List.forall_mem_cons.mp passed
        exact bind_of_ok head (ih.mpr ⟨before, b, after, rfl, passed, raised⟩)

theorem forM_error {l : List α} {f : α → Except ε Unit} {e : ε} (h : l.forM f = .error e) :
    ∃ a ∈ l, f a = .error e := by
  obtain ⟨before, a, after, rfl, _, raised⟩ := forM_error_iff.mp h
  exact ⟨a, by simp, raised⟩

section Exec

@[simp] theorem exec_pure (a : α) (s : σ) : (pure a : Effect σ ε α).exec s = (.ok a, s) := rfl

@[simp] theorem exec_throw (e : ε) (s : σ) : (throw e : Effect σ ε α).exec s = (.error e, s) := rfl

@[simp] theorem exec_get (s : σ) : (get : Effect σ ε σ).exec s = (.ok s, s) := rfl

@[simp] theorem exec_modify (f : σ → σ) (s : σ) :
    (modify f : Effect σ ε Unit).exec s = (.ok (), f s) := rfl

@[simp] theorem exec_lift (result : Except ε α) (s : σ) :
    (lift result : Effect σ ε α).exec s = (result, s) := by
  cases result <;> rfl

theorem exec_bind (m : Effect σ ε α) (f : α → Effect σ ε β) (s : σ) :
    (m >>= f).exec s = match m.exec s with
      | (.ok a, s') => (f a).exec s'
      | (.error e, s') => (.error e, s') := by
  simp only [exec, bind, ExceptT.bind, ExceptT.run, ExceptT.mk, StateT.bind, StateT.run]
  obtain ⟨a | e, s'⟩ := m s <;> rfl

theorem returns_of_bind {m : Effect σ ε α} {f : α → Effect σ ε β} {s s'' : σ} {b : β}
    (ran : (m >>= f).exec s = (.ok b, s'')) :
    ∃ a s', m.exec s = (.ok a, s') ∧ (f a).exec s' = (.ok b, s'') := by
  rw [exec_bind] at ran
  generalize m.exec s = outcome at ran
  obtain ⟨e | a, s'⟩ := outcome
  · cases ran
  · exact ⟨a, s', rfl, ran⟩

theorem exec_bind_of_ok {m : Effect σ ε α} {f : α → Effect σ ε β} {s s' : σ} {a : α}
    (ran : m.exec s = (.ok a, s')) : (m >>= f).exec s = (f a).exec s' := by
  rw [exec_bind, ran]

theorem exec_bind_of_error {m : Effect σ ε α} {f : α → Effect σ ε β} {s s' : σ} {e : ε}
    (raised : m.exec s = (.error e, s')) : (m >>= f).exec s = (.error e, s') := by
  rw [exec_bind, raised]

theorem exec_bind_eq_ok_iff {m : Effect σ ε α} {f : α → Effect σ ε β} {s s'' : σ} {b : β} :
    (m >>= f).exec s = (.ok b, s'') ↔
      ∃ a s', m.exec s = (.ok a, s') ∧ (f a).exec s' = (.ok b, s'') := by
  refine ⟨returns_of_bind, ?_⟩
  rintro ⟨a, s', first, later⟩
  rw [exec_bind, first]
  exact later

theorem result_bind_pure (m : Effect σ ε α) (f : α → β) (s : σ) :
    ((m >>= fun a => pure (f a)).exec s).1 = (m.exec s).1.map f := by
  rw [exec_bind]
  obtain ⟨e | a, s'⟩ := m.exec s <;> rfl

theorem exec_tryCatch (m : Effect σ ε α) (handle : ε → Effect σ ε α) (s : σ) :
    (tryCatch m handle).exec s = match m.exec s with
      | (.ok a, s') => (.ok a, s')
      | (.error e, s') => (handle e).exec s' := by
  simp only [exec, tryCatch, tryCatchThe, MonadExceptOf.tryCatch, ExceptT.tryCatch, ExceptT.run,
    ExceptT.mk, bind, StateT.bind, StateT.run]
  obtain ⟨a | e, s'⟩ := m s <;> rfl

theorem exec_tryFinally (m : Effect σ ε α) (cleanup : Effect σ ε Unit) (s : σ) :
    (tryFinally m cleanup).exec s = match m.exec s with
      | (result, s') => match cleanup.exec s' with
        | (.ok _, s'') => (result, s'')
        | (.error e, s'') => (.error e, s'') := by
  simp only [exec, tryFinally, tryFinally', Functor.map, ExceptT.map, ExceptT.run,
    ExceptT.mk, StateT.bind, StateT.run, bind, pure]
  rcases m s with ⟨a | e, s'⟩ <;> rcases cleaned : cleanup s' with ⟨b | e', s''⟩ <;>
    simp [cleaned] <;> rfl

theorem exec_mapM {f : α → Effect σ ε β} {g : α → Except ε β} {s : σ} {l : List α}
    (each : ∀ a ∈ l, (f a).exec s = (g a, s)) : (l.mapM f).exec s = (l.mapM g, s) := by
  induction l with
  | nil => rfl
  | cons a l ih =>
    obtain ⟨first, later⟩ := List.forall_mem_cons.mp each
    rw [List.mapM_cons, List.mapM_cons, exec_bind, first]
    cases g a with
    | error e => rfl
    | ok b =>
      have rest := ih later
      simp only [exec_bind, rest]
      cases l.mapM g <;> rfl

theorem exec_forEach_of_unchanged {f : α → Effect σ ε Unit} {s : σ} {l : List α}
    (each : ∀ a ∈ l, (f a).exec s = (.ok (), s)) : (forEach l f).exec s = (.ok (), s) := by
  induction l with
  | nil => rfl
  | cons a l ih =>
    obtain ⟨first, later⟩ := List.forall_mem_cons.mp each
    exact (exec_bind_of_ok first).trans (ih later)

end Exec

/-! ## What a program keeps -/

def Keeps {γ : Type} (f : σ → γ) (m : Effect σ ε α) : Prop :=
  ∀ s, f (m.exec s).2 = f s

section Keeps

variable {γ : Type} {f : σ → γ}

theorem keeps_pure (a : α) : Keeps f (pure a : Effect σ ε α) := fun _ => rfl

theorem keeps_throw (e : ε) : Keeps f (throw e : Effect σ ε α) := fun _ => rfl

theorem keeps_get : Keeps f (get : Effect σ ε σ) := fun _ => rfl

theorem keeps_modify {change : σ → σ} (same : ∀ s, f (change s) = f s) :
    Keeps f (modify change : Effect σ ε Unit) := same

theorem Keeps.bind {m : Effect σ ε α} {rest : α → Effect σ ε β} (first : Keeps f m)
    (later : ∀ a, Keeps f (rest a)) : Keeps f (m >>= rest) := by
  intro s
  have h := first s
  rw [exec_bind]
  generalize m.exec s = outcome at h ⊢
  obtain ⟨e | a, s'⟩ := outcome
  · exact h
  · exact (later a s').trans h

theorem keeps_lift (result : Except ε α) : Keeps f (lift result : Effect σ ε α) := by
  intro s
  rw [exec_lift]

theorem Keeps.tryCatch {m : Effect σ ε α} {handle : ε → Effect σ ε α} (body : Keeps f m)
    (handler : ∀ e, Keeps f (handle e)) : Keeps f (tryCatch m handle) := by
  intro s
  have h := body s
  rw [exec_tryCatch]
  generalize m.exec s = outcome at h ⊢
  obtain ⟨e | a, s'⟩ := outcome
  · exact (handler e s').trans h
  · exact h

theorem state_tryFinally (m : Effect σ ε α) (cleanup : Effect σ ε Unit) (s : σ) :
    ((tryFinally m cleanup).exec s).2 = (cleanup.exec (m.exec s).2).2 := by
  rw [exec_tryFinally]
  obtain ⟨result, s'⟩ := m.exec s
  dsimp only
  rcases cleanup.exec s' with ⟨e | u, s''⟩ <;> rfl

theorem Keeps.tryFinally {m : Effect σ ε α} {cleanup : Effect σ ε Unit} (body : Keeps f m)
    (undo : Keeps f cleanup) : Keeps f (tryFinally m cleanup) := by
  intro s
  rw [state_tryFinally, undo, body]

theorem Keeps.when {c : Prop} [Decidable c] {m : Effect σ ε Unit} (keeps : Keeps f m) :
    Keeps f (when c m) := by
  rw [Effect.when]
  split
  · exact keeps
  · exact keeps_pure ()

theorem Keeps.forEach {l : List β} {body : β → Effect σ ε Unit} (each : ∀ b ∈ l, Keeps f (body b)) :
    Keeps f (forEach l body) := by
  induction l with
  | nil => exact keeps_pure ()
  | cons b l ih =>
    apply (each b List.mem_cons_self).bind
    intro _
    exact ih fun b' member => each b' (List.mem_cons_of_mem _ member)

theorem state_bind_of_keeps {m : Effect σ ε α} {rest : α → Effect σ ε β}
    (later : ∀ a, Keeps id (rest a)) (s : σ) : ((m >>= rest).exec s).2 = (m.exec s).2 := by
  rw [exec_bind]
  obtain ⟨e | a, s'⟩ := m.exec s
  · rfl
  · exact later a s'

end Keeps

namespace Triple

variable {P P' : σ → Prop} {Q Q' : α → σ → Prop} {E E' : ε → σ → Prop} {m : Effect σ ε α}

theorem pure {a : α} (h : ∀ s, P s → Q a s) : Triple P (pure a : Effect σ ε α) Q E :=
  fun s holds => h s holds

theorem throw {e : ε} (h : ∀ s, P s → E e s) : Triple P (throw e : Effect σ ε α) Q E :=
  fun s holds => h s holds

theorem get {Q : σ → σ → Prop} (h : ∀ s, P s → Q s s) : Triple P (get : Effect σ ε σ) Q E :=
  fun s holds => h s holds

theorem modify {f : σ → σ} {Q : Unit → σ → Prop} (h : ∀ s, P s → Q () (f s)) :
    Triple P (modify f : Effect σ ε Unit) Q E :=
  fun s holds => h s holds

theorem set {s' : σ} {Q : PUnit → σ → Prop} (h : ∀ s, P s → Q () s') :
    Triple P (set s' : Effect σ ε PUnit) Q E :=
  fun s holds => h s holds

theorem conseq (triple : Triple P' m Q' E') (pre : ∀ s, P s → P' s)
    (returns : ∀ a s, Q' a s → Q a s) (raises : ∀ e s, E' e s → E e s) : Triple P m Q E := by
  intro s holds
  have h := triple s (pre s holds)
  generalize m.exec s = outcome at h ⊢
  obtain ⟨e | a, s'⟩ := outcome
  · exact raises _ _ h
  · exact returns _ _ h

theorem strengthen (triple : Triple P' m Q E) (pre : ∀ s, P s → P' s) : Triple P m Q E :=
  triple.conseq pre (fun _ _ => id) fun _ _ => id

theorem final {R : σ → Prop} (triple : Triple P m (fun _ => R) fun _ => R) {s : σ} (holds : P s) :
    R (m.exec s).2 := by
  have h := triple s holds
  generalize m.exec s = outcome at h ⊢
  obtain ⟨e | a, s'⟩ := outcome <;> exact h

theorem returned (triple : Triple P m Q E) {s s' : σ} {a : α} (holds : P s)
    (ran : m.exec s = (.ok a, s')) : Q a s' := by
  have h := triple s holds
  rwa [ran] at h

theorem raised (triple : Triple P m Q E) {s s' : σ} {e : ε} (holds : P s)
    (ran : m.exec s = (.error e, s')) : E e s' := by
  have h := triple s holds
  rwa [ran] at h

theorem bind {R : β → σ → Prop} {f : α → Effect σ ε β} (first : Triple P m Q E)
    (rest : ∀ a, Triple (Q a) (f a) R E) : Triple P (m >>= f) R E := by
  intro s holds
  have h := first s holds
  rw [exec_bind]
  generalize m.exec s = outcome at h ⊢
  obtain ⟨e | a, s'⟩ := outcome
  · exact h
  · exact rest _ s' h

theorem bind_eq {R : β → σ → Prop} {f : α → Effect σ ε β} {a : α}
    (first : Triple P m (fun a' s => a' = a ∧ P' s) E) (rest : Triple P' (f a) R E) :
    Triple P (m >>= f) R E := by
  refine first.bind ?_
  rintro a' s ⟨rfl, holds⟩
  exact rest s holds

theorem bind_lift {R : α → σ → Prop} {found : Except ε β} {b : β} {f : β → Effect σ ε α}
    (ok : found = .ok b) (rest : Triple P (f b) R E) : Triple P (lift found >>= f) R E := by
  rw [ok]
  exact rest

theorem tryCatch {handle : ε → Effect σ ε α} (body : Triple P m Q E')
    (handler : ∀ e, Triple (E' e) (handle e) Q E) : Triple P (tryCatch m handle) Q E := by
  intro s holds
  have h := body s holds
  rw [exec_tryCatch]
  generalize m.exec s = outcome at h ⊢
  obtain ⟨e | a, s'⟩ := outcome
  · exact handler _ s' h
  · exact h

theorem tryFinally {cleanup : Effect σ ε Unit} (body : Triple P m Q' E')
    (returned : ∀ a, Triple (Q' a) cleanup (fun _ => Q a) E)
    (raised : ∀ e, Triple (E' e) cleanup (fun _ => E e) E) :
    Triple P (tryFinally m cleanup) Q E := by
  intro s holds
  have h := body s holds
  rw [exec_tryFinally]
  generalize m.exec s = outcome at h ⊢
  obtain ⟨e | a, s'⟩ := outcome
  · have h' := raised _ s' h
    dsimp only
    generalize cleanup.exec s' = cleaned at h' ⊢
    obtain ⟨e' | b, s''⟩ := cleaned <;> exact h'
  · have h' := returned _ s' h
    dsimp only
    generalize cleanup.exec s' = cleaned at h' ⊢
    obtain ⟨e' | b, s''⟩ := cleaned <;> exact h'

theorem ite {c : Prop} [Decidable c] {m' : Effect σ ε α}
    (yes : c → Triple P m Q E) (no : ¬ c → Triple P m' Q E) :
    Triple P (if c then m else m') Q E := by
  split
  · exact yes ‹c›
  · exact no ‹¬ c›

theorem when {c : Prop} [Decidable c] {m : Effect σ ε Unit} {Q : Unit → σ → Prop}
    (yes : c → Triple P m Q E) (no : ¬ c → ∀ s, P s → Q () s) : Triple P (when c m) Q E :=
  ite yes fun h => pure (no h)

theorem extract (p : Prop) (holds : ∀ s, P s → p) (triple : p → Triple P m Q E) :
    Triple P m Q E :=
  fun s h => triple (holds s h) s h

theorem forEach {l : List β} {f : β → Effect σ ε Unit} {Q : Unit → σ → Prop}
    (Inv : List β → σ → Prop) (start : ∀ s, P s → Inv [] s)
    (body : ∀ done b, b ∈ l → Triple (Inv done) (f b) (fun _ => Inv (done ++ [b])) E)
    (finish : ∀ s, Inv l s → Q () s) : Triple P (forEach l f) Q E := by
  suffices all : ∀ done rest, (∀ b ∈ rest, b ∈ l) →
      Triple (Inv done) (Effect.forEach rest f) (fun _ => Inv (done ++ rest)) E by
    refine (all [] l fun _ => id).conseq start (fun _ s holds => finish s ?_) fun _ _ => id
    simpa using holds
  intro done rest sub
  induction rest generalizing done with
  | nil => exact pure fun s holds => by simpa using holds
  | cons b rest ih =>
    refine (body done b (sub b List.mem_cons_self)).bind fun _ => ?_
    simpa using ih (done ++ [b]) fun b' member => sub b' (List.mem_cons_of_mem _ member)

end Triple

/-! ## What holds whatever happens -/

def Safe (P : σ → Prop) (m : Effect σ ε α) : Prop :=
  Triple P m (fun _ => P) fun _ => P

section Safe

variable {P : σ → Prop}

theorem safe_pure (a : α) : Safe P (pure a : Effect σ ε α) :=
  Triple.pure fun _ h => h

theorem safe_throw (e : ε) : Safe P (throw e : Effect σ ε α) :=
  Triple.throw fun _ h => h

theorem safe_get : Safe P (get : Effect σ ε σ) :=
  Triple.get fun _ h => h

theorem Safe.bind {m : Effect σ ε α} {rest : α → Effect σ ε β} (first : Safe P m)
    (later : ∀ a, Safe P (rest a)) : Safe P (m >>= rest) :=
  Triple.bind first later

theorem safe_forEach {l : List α} {body : α → Effect σ ε Unit} (each : ∀ a ∈ l, Safe P (body a)) :
    Safe P (forEach l body) :=
  Triple.forEach (fun _ => P) (fun _ h => h) (fun _ a member => each a member) fun _ h => h

theorem safe_when {c : Prop} [Decidable c] {m : Effect σ ε Unit} (yes : c → Safe P m) :
    Safe P (when c m) :=
  Triple.when yes fun _ _ h => h

end Safe

end Effect
