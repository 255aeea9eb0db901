import Mathlib.Data.Bool.Basic
import Mathlib.Data.List.Induction
import Mathlib.Data.List.Nodup
import Mathlib.Order.Basic
import Plinth.Lib.Runs
import Plinth.Model.Daemon

/-! # When a shared unit runs -/

namespace Plinth.Daemon

open Backups (endsWith getServiceUnit)

/-! ## What is turned on and off -/

def turned (flags : String → Bool) (names : List String) (on : Bool) : String → Bool :=
  fun name => if name ∈ names then on else flags name

@[simp] theorem turned_nil (flags : String → Bool) (on : Bool) : turned flags [] on = flags := by
  funext name
  simp [turned]

theorem turned_append (flags : String → Bool) (names others : List String) (on : Bool) :
    turned flags (names ++ others) on = turned (turned flags names on) others on := by
  funext name
  unfold turned
  by_cases first : name ∈ names <;> by_cases second : name ∈ others <;> simp [first, second]

theorem turned_singleton (flags : String → Bool) (name : String) (on : Bool) :
    turned flags [name] on = Function.update flags name on := by
  funext other
  simp [turned, Function.update_apply]

theorem turned_cons (flags : String → Bool) (name : String) (names : List String) (on : Bool) :
    turned flags (name :: names) on = turned (Function.update flags name on) names on := by
  rw [← turned_singleton, ← turned_append]
  rfl

theorem turned_of_mem {flags : String → Bool} {names : List String} {name : String} (on : Bool)
    (member : name ∈ names) : turned flags names on name = on :=
  if_pos member

theorem turned_of_not_mem {flags : String → Bool} {names : List String} {name : String} (on : Bool)
    (other : name ∉ names) : turned flags names on name = flags name :=
  if_neg other

theorem le_turned (flags : String → Bool) (names : List String) :
    flags ≤ turned flags names true := by
  intro name
  unfold turned
  split
  · exact Bool.le_true _
  · exact le_rfl

theorem turned_le (flags : String → Bool) (names : List String) :
    turned flags names false ≤ flags := by
  intro name
  unfold turned
  split
  · exact Bool.false_le _
  · exact le_rfl

instance : Preorder System where
  le s t := s.enabled ≤ t.enabled ∧ s.running ≤ t.running ∧ s.switches ≤ t.switches
  le_refl s := ⟨le_rfl, le_rfl, le_rfl⟩
  le_trans s t u first second :=
    ⟨first.1.trans second.1, first.2.1.trans second.2.1, first.2.2.trans second.2.2⟩

section

variable (unitOf : String → String)

/-! ## Components -/

def Component.names : Component → List String
  | .daemon unit aliasName => Daemon.names unit aliasName
  | .sharedDaemon unit aliasName => Daemon.names unit aliasName
  | .switch _ _ => []

def Component.units (c : Component) : List String :=
  c.names.map unitOf

def Component.stoppedUnits (c : Component) : List String :=
  (c.names.flatMap stopped).map unitOf

def Component.switched : Component → List String
  | .switch name _ => [name]
  | _ => []

theorem foldl_serviceEnable (names : List String) (s : System) :
    names.foldl (fun s name => serviceEnable unitOf name s) s =
      { s with
        enabled := turned s.enabled (names.map unitOf) true
        running := turned s.running (names.map unitOf) true } := by
  induction names generalizing s with
  | nil => simp
  | cons name rest ih =>
    rw [List.foldl_cons, ih, List.map_cons, turned_cons, turned_cons]
    rfl

theorem foldl_stop (names : List String) (s : System) :
    names.foldl
        (fun s name => { s with running := Function.update s.running (unitOf name) false }) s =
      { s with running := turned s.running (names.map unitOf) false } := by
  induction names generalizing s with
  | nil => simp
  | cons name rest ih =>
    rw [List.foldl_cons, ih, List.map_cons, turned_cons]

theorem serviceDisable_eq (name : String) (s : System) :
    serviceDisable unitOf name s =
      { s with
        enabled := Function.update s.enabled (unitOf name) false
        running := turned s.running ((stopped name).map unitOf) false } := by
  unfold serviceDisable serviceStop
  rw [foldl_stop]

theorem foldl_serviceDisable (names : List String) (s : System) :
    names.foldl (fun s name => serviceDisable unitOf name s) s =
      { s with
        enabled := turned s.enabled (names.map unitOf) false
        running := turned s.running ((names.flatMap stopped).map unitOf) false } := by
  induction names generalizing s with
  | nil => simp
  | cons name rest ih =>
    rw [List.foldl_cons, ih, serviceDisable_eq, List.map_cons, turned_cons, List.flatMap_cons,
      List.map_append, turned_append]

theorem Component.enable_eq (s : System) (c : Component) :
    c.enable unitOf s =
      ⟨turned s.enabled (c.units unitOf) true, turned s.running (c.units unitOf) true,
        turned s.switches c.switched true⟩ := by
  cases c with
  | daemon unit aliasName =>
    show daemonEnable unitOf unit aliasName s = _
    unfold daemonEnable
    rw [foldl_serviceEnable]
    simp [units, names, switched]
  | sharedDaemon unit aliasName =>
    show daemonEnable unitOf unit aliasName s = _
    unfold daemonEnable
    rw [foldl_serviceEnable]
    simp [units, names, switched]
  | switch name leader =>
    show setSwitch name true s = _
    simp [setSwitch, units, names, switched, turned_singleton]

def Component.turnOff (s : System) (c : Component) : System :=
  ⟨turned s.enabled (c.units unitOf) false, turned s.running (c.stoppedUnits unitOf) false,
    turned s.switches c.switched false⟩

theorem daemonDisable_eq (c : Component) (unit : String) (aliasName : Option String) (s : System)
    (names : c.names = Daemon.names unit aliasName) (switched : c.switched = []) :
    daemonDisable unitOf unit aliasName s = c.turnOff unitOf s := by
  unfold daemonDisable Component.turnOff Component.units Component.stoppedUnits
  rw [foldl_serviceDisable, names, switched, turned_nil]

/-- The apps other than `app` that hold the unit of a shared daemon of it. -/
def Component.Kept (apps : List App) (appId : String) (s : System) : Component → Prop
  | .sharedDaemon unit _ => otherAppsEnabled unitOf apps appId unit s = true
  | _ => False

theorem Component.disable_of_kept {apps : List App} {appId : String} {s : System} {c : Component}
    (kept : c.Kept unitOf apps appId s) : c.disable unitOf apps appId s = s := by
  cases c with
  | daemon unit aliasName => exact kept.elim
  | sharedDaemon unit aliasName => exact if_pos kept
  | switch name leader => exact kept.elim

theorem Component.disable_of_not_kept {apps : List App} {appId : String} {s : System}
    {c : Component} (last : ¬ c.Kept unitOf apps appId s) :
    c.disable unitOf apps appId s = c.turnOff unitOf s := by
  cases c with
  | daemon unit aliasName =>
    apply daemonDisable_eq unitOf (.daemon unit aliasName) unit aliasName s rfl rfl
  | sharedDaemon unit aliasName =>
    have := daemonDisable_eq unitOf (.sharedDaemon unit aliasName) unit aliasName s rfl rfl
    rw [← this]
    exact if_neg last
  | switch name leader =>
    show setSwitch name false s = _
    simp [setSwitch, turnOff, units, stoppedUnits, names, switched, turned_singleton]

theorem Component.isEnabled_iff (s : System) (c : Component) :
    c.isEnabled unitOf s = true ↔
      (∃ unit ∈ c.units unitOf, s.enabled unit = true) ∨
        ∃ name ∈ c.switched, s.switches name = true := by
  cases c <;> simp [isEnabled, daemonIsEnabled, units, names, switched]

theorem Component.units_or_switched (c : Component) :
    (∃ unit, unit ∈ c.units unitOf) ∨ ∃ name, name ∈ c.switched := by
  cases c with
  | daemon unit aliasName => exact .inl ⟨unitOf unit, List.mem_cons_self⟩
  | sharedDaemon unit aliasName => exact .inl ⟨unitOf unit, List.mem_cons_self⟩
  | switch name leader => exact .inr ⟨name, List.mem_cons_self⟩

theorem Component.isEnabled_mono {s t : System} (le : s ≤ t) (c : Component)
    (enabled : c.isEnabled unitOf s = true) : c.isEnabled unitOf t = true := by
  rw [isEnabled_iff] at enabled ⊢
  rcases enabled with ⟨unit, member, enabled⟩ | ⟨name, member, enabled⟩
  · exact .inl ⟨unit, member, le.1 unit enabled⟩
  · exact .inr ⟨name, member, le.2.2 name enabled⟩

theorem Component.le_enable (s : System) (c : Component) : s ≤ c.enable unitOf s := by
  rw [enable_eq]
  exact ⟨le_turned _ _, le_turned _ _, le_turned _ _⟩

theorem Component.turnOff_le (s : System) (c : Component) : c.turnOff unitOf s ≤ s :=
  ⟨turned_le _ _, turned_le _ _, turned_le _ _⟩

theorem Component.disable_le (apps : List App) (appId : String) (s : System) (c : Component) :
    c.disable unitOf apps appId s ≤ s := by
  by_cases kept : c.Kept unitOf apps appId s
  · rw [disable_of_kept unitOf kept]
  · rw [disable_of_not_kept unitOf kept]
    exact c.turnOff_le unitOf s

theorem Component.isEnabled_enable (s : System) (c : Component) :
    c.isEnabled unitOf (c.enable unitOf s) = true := by
  rw [isEnabled_iff, enable_eq]
  rcases c.units_or_switched unitOf with ⟨unit, member⟩ | ⟨name, member⟩
  · exact .inl ⟨unit, member, turned_of_mem true member⟩
  · exact .inr ⟨name, member, turned_of_mem true member⟩

theorem Component.isEnabled_turnOff (s : System) (c : Component) :
    c.isEnabled unitOf (c.turnOff unitOf s) = false := by
  rw [Bool.eq_false_iff]
  intro enabled
  rw [isEnabled_iff] at enabled
  rcases enabled with ⟨unit, member, enabled⟩ | ⟨name, member, enabled⟩
  · cases enabled.symm.trans (turned_of_mem false member)
  · cases enabled.symm.trans (turned_of_mem false member)

def Component.Unrelated (c d : Component) : Prop :=
  (c.units unitOf).Disjoint (d.units unitOf) ∧ c.switched.Disjoint d.switched

instance (c d : Component) : Decidable (c.Unrelated unitOf d) :=
  inferInstanceAs (Decidable
    ((∀ unit ∈ c.units unitOf, unit ∉ d.units unitOf) ∧ ∀ name ∈ c.switched, name ∉ d.switched))

theorem Component.isEnabled_congr {s t : System} (c : Component)
    (units : ∀ unit ∈ c.units unitOf, s.enabled unit = t.enabled unit)
    (switches : ∀ name ∈ c.switched, s.switches name = t.switches name) :
    c.isEnabled unitOf s = c.isEnabled unitOf t := by
  rw [Bool.eq_iff_iff, isEnabled_iff, isEnabled_iff]
  apply or_congr
  · apply exists_congr
    intro unit
    apply and_congr_right
    intro member
    rw [units unit member]
  · apply exists_congr
    intro name
    apply and_congr_right
    intro member
    rw [switches name member]

theorem Component.isEnabled_disable_of_unrelated {c d : Component} (apps : List App)
    (appId : String) (s : System) (unrelated : d.Unrelated unitOf c) :
    c.isEnabled unitOf (d.disable unitOf apps appId s) = c.isEnabled unitOf s := by
  by_cases kept : d.Kept unitOf apps appId s
  · rw [disable_of_kept unitOf kept]
  · rw [disable_of_not_kept unitOf kept]
    apply isEnabled_congr
    · intro unit member
      apply turned_of_not_mem
      exact fun other => unrelated.1 other member
    · intro name member
      apply turned_of_not_mem
      exact fun other => unrelated.2 other member

/-! ## Apps -/

theorem foldl_le {α : Type} {f : System → α → System} (le : ∀ s a, f s a ≤ s) (l : List α)
    (s : System) : l.foldl f s ≤ s := by
  induction l generalizing s with
  | nil => exact le_rfl
  | cons a l ih => exact (ih (f s a)).trans (le s a)

theorem le_foldl {α : Type} {f : System → α → System} (le : ∀ s a, s ≤ f s a) (l : List α)
    (s : System) : s ≤ l.foldl f s := by
  induction l generalizing s with
  | nil => exact le_rfl
  | cons a l ih => exact (le s a).trans (ih (f s a))

theorem App.isEnabled_iff (s : System) (app : App) :
    app.isEnabled unitOf s = true ↔
      ∀ c ∈ app.components, c.isLeader = true → c.isEnabled unitOf s = true := by
  simp only [isEnabled, List.all_eq_true, List.mem_filter, and_imp]

theorem App.isEnabled_enable (s : System) (app : App) :
    app.isEnabled unitOf (app.enable unitOf s) = true := by
  rw [isEnabled_iff]
  intro c member _
  obtain ⟨before, after, split⟩ := List.append_of_mem member
  unfold enable
  rw [split, List.foldl_append, List.foldl_cons]
  exact c.isEnabled_mono unitOf (le_foldl (Component.le_enable unitOf) after _)
    (c.isEnabled_enable unitOf _)

theorem App.isEnabled_disable (apps : List App) (s : System) (app : App)
    (leader : ∃ c ∈ app.components, c.isLeader = true) :
    app.isEnabled unitOf (app.disable unitOf apps s) = false := by
  rw [Bool.eq_false_iff]
  intro enabled
  obtain ⟨c, member, isLeader⟩ := leader
  have stays := (isEnabled_iff unitOf _ app).mp enabled c member isLeader
  obtain ⟨before, after, split⟩ := List.append_of_mem (List.mem_reverse.mpr member)
  unfold disable at stays
  rw [split, List.foldl_append, List.foldl_cons] at stays
  have here := c.isEnabled_mono unitOf
    (foldl_le (Component.disable_le unitOf apps app.appId) after _) stays
  have not_kept : ∀ t, ¬ c.Kept unitOf apps app.appId t := by
    intro t
    cases c with
    | daemon unit aliasName => exact id
    | sharedDaemon unit aliasName => cases isLeader
    | switch name leader => exact id
  rw [Component.disable_of_not_kept unitOf (not_kept _), Component.isEnabled_turnOff] at here
  cases here

/-! ## Apps that share a unit -/

/-- The apps that hold a shared daemon under the name `unit`. All of their leader components, of
which each has one, are their own, and nothing else of these apps has to do with the unit. -/
structure SharedBy (apps : List App) (unit : String) : Prop where
  registered : (apps.map App.appId).Nodup
  leads : ∀ app ∈ apps, app.shares unit = true → ∃ c ∈ app.components, c.isLeader = true
  own : ∀ app ∈ apps, app.shares unit = true → ∀ other ∈ apps, other.shares unit = true →
    other ≠ app → ∀ c ∈ app.components, c.isLeader = true →
      ∀ d ∈ other.components, d.Unrelated unitOf c
  only : ∀ app ∈ apps, app.shares unit = true → ∀ c ∈ app.components,
    unitOf unit ∈ c.stoppedUnits unitOf → ∃ aliasName, c = .sharedDaemon unit aliasName

def InUse (apps : List App) (unit : String) (s : System) : Prop :=
  ∃ app ∈ apps, app.shares unit = true ∧ app.isEnabled unitOf s = true

def System.On (s : System) (unit : String) : Prop :=
  s.enabled unit = true ∧ s.running unit = true

def System.Off (s : System) (unit : String) : Prop :=
  s.enabled unit = false ∧ s.running unit = false

variable {unitOf}

theorem not_on_of_off {s : System} {unit : String} (off : s.Off unit) : ¬ s.On unit := by
  intro on
  cases on.1.symm.trans off.1

theorem System.On.mono {s t : System} {unit : String} (le : s ≤ t) (on : s.On unit) : t.On unit :=
  ⟨le.1 unit on.1, le.2.1 unit on.2⟩

theorem System.Off.mono {s t : System} {unit : String} (le : t ≤ s) (off : s.Off unit) :
    t.Off unit := by
  constructor
  · exact Bool.eq_false_of_le_false (off.1 ▸ le.1 unit)
  · exact Bool.eq_false_of_le_false (off.2 ▸ le.2.1 unit)

theorem App.exists_of_shares {unit : String} {app : App} (shares : app.shares unit = true) :
    ∃ aliasName, Component.sharedDaemon unit aliasName ∈ app.components := by
  obtain ⟨c, member, same⟩ := List.any_eq_true.mp shares
  cases c with
  | daemon other aliasName => cases same
  | sharedDaemon other aliasName => exact ⟨aliasName, of_decide_eq_true same ▸ member⟩
  | switch name leader => cases same

theorem mem_units_of_named (unit : String) (aliasName : Option String) :
    unitOf unit ∈ (Component.sharedDaemon unit aliasName).units unitOf :=
  List.mem_cons_self

theorem mem_stoppedUnits {c : Component} {unit : String} (member : unit ∈ c.units unitOf) :
    unit ∈ c.stoppedUnits unitOf := by
  obtain ⟨name, named, rfl⟩ := List.mem_map.mp member
  apply List.mem_map_of_mem
  apply List.mem_flatMap.mpr
  refine ⟨name, named, ?_⟩
  unfold stopped
  split <;> exact List.mem_cons_self

theorem App.on_enable {unit : String} {app : App} (shares : app.shares unit = true) (s : System) :
    (app.enable unitOf s).On (unitOf unit) := by
  obtain ⟨aliasName, member⟩ := exists_of_shares shares
  obtain ⟨before, after, split⟩ := List.append_of_mem member
  unfold enable
  rw [split, List.foldl_append, List.foldl_cons]
  apply System.On.mono (le_foldl (Component.le_enable unitOf) after _)
  rw [Component.enable_eq]
  constructor
  · exact turned_of_mem true (mem_units_of_named unit aliasName)
  · exact turned_of_mem true (mem_units_of_named unit aliasName)

section

variable {apps : List App} {unit : String}

theorem SharedBy.isEnabled_foldl (shared : SharedBy unitOf apps unit) {app other : App}
    (member : app ∈ apps) (shares : app.shares unit = true) (otherMember : other ∈ apps)
    (otherShares : other.shares unit = true) (different : app ≠ other)
    {f : System → Component → System}
    (frame : ∀ s c d, Component.Unrelated unitOf d c →
      c.isEnabled unitOf (f s d) = c.isEnabled unitOf s)
    {l : List Component} (part : ∀ d ∈ l, d ∈ app.components) (s : System) :
    other.isEnabled unitOf (l.foldl f s) = other.isEnabled unitOf s := by
  induction l generalizing s with
  | nil => rfl
  | cons d l ih =>
    rw [List.foldl_cons, ih fun d' later => part d' (List.mem_cons_of_mem _ later)]
    rw [Bool.eq_iff_iff, App.isEnabled_iff, App.isEnabled_iff]
    apply forall_congr'
    intro c
    apply forall_congr'
    intro leads
    apply forall_congr'
    intro isLeader
    rw [frame s c d (shared.own other otherMember otherShares app member shares different c leads
      isLeader d (part d List.mem_cons_self))]

theorem SharedBy.otherAppsEnabled_iff (shared : SharedBy unitOf apps unit) {app : App}
    (member : app ∈ apps) (s : System) :
    otherAppsEnabled unitOf apps app.appId unit s = true ↔
      ∃ other ∈ apps, other ≠ app ∧ other.shares unit = true ∧ other.isEnabled unitOf s = true := by
  unfold otherAppsEnabled
  rw [List.any_eq_true]
  apply exists_congr
  intro other
  apply and_congr_right
  intro otherMember
  have same : other.appId = app.appId ↔ other = app := by
    constructor
    · intro sameId
      exact List.inj_on_of_nodup_map shared.registered otherMember member sameId
    · rintro rfl
      rfl
  simp [same, and_assoc]

theorem SharedBy.otherAppsEnabled_foldl (shared : SharedBy unitOf apps unit) {app : App}
    (member : app ∈ apps) (shares : app.shares unit = true) {l : List Component}
    (part : ∀ d ∈ l, d ∈ app.components) (s : System) :
    otherAppsEnabled unitOf apps app.appId unit
        (l.foldl (Component.disable unitOf apps app.appId) s) =
      otherAppsEnabled unitOf apps app.appId unit s := by
  rw [Bool.eq_iff_iff, shared.otherAppsEnabled_iff member, shared.otherAppsEnabled_iff member]
  apply exists_congr
  intro other
  apply and_congr_right
  intro otherMember
  apply and_congr_right
  intro different
  apply and_congr_right
  intro otherShares
  rw [shared.isEnabled_foldl member shares otherMember otherShares different.symm
    (fun s c d unrelated => c.isEnabled_disable_of_unrelated unitOf apps app.appId s unrelated)
    part s]

theorem SharedBy.disable_keeps (shared : SharedBy unitOf apps unit) {app : App}
    (member : app ∈ apps) (shares : app.shares unit = true) {d : Component}
    (part : d ∈ app.components) {s : System}
    (needed : otherAppsEnabled unitOf apps app.appId unit s = true)
    (on : s.On (unitOf unit)) : (d.disable unitOf apps app.appId s).On (unitOf unit) := by
  by_cases kept : d.Kept unitOf apps app.appId s
  · rw [Component.disable_of_kept unitOf kept]
    exact on
  · have other : unitOf unit ∉ d.stoppedUnits unitOf := by
      intro stops
      obtain ⟨aliasName, rfl⟩ := shared.only app member shares d part stops
      exact kept needed
    rw [Component.disable_of_not_kept unitOf kept]
    constructor
    · show turned s.enabled (d.units unitOf) false (unitOf unit) = true
      rw [turned_of_not_mem false fun named => other (mem_stoppedUnits named)]
      exact on.1
    · show turned s.running (d.stoppedUnits unitOf) false (unitOf unit) = true
      rw [turned_of_not_mem false other]
      exact on.2

theorem SharedBy.on_disable (shared : SharedBy unitOf apps unit) {app : App}
    (member : app ∈ apps) (shares : app.shares unit = true) {s : System}
    (needed : otherAppsEnabled unitOf apps app.appId unit s = true)
    (on : s.On (unitOf unit)) : (app.disable unitOf apps s).On (unitOf unit) := by
  have (l : List Component) (part : ∀ d ∈ l, d ∈ app.components) :
      (l.foldl (Component.disable unitOf apps app.appId) s).On (unitOf unit) := by
    induction l using List.reverseRecOn with
    | nil => exact on
    | append_singleton l d ih =>
      have before : ∀ d ∈ l, d ∈ app.components :=
        fun d earlier => part d (List.mem_append_left _ earlier)
      rw [List.foldl_append]
      apply shared.disable_keeps member shares (part d (by simp)) _ (ih before)
      rw [shared.otherAppsEnabled_foldl member shares before]
      exact needed
  exact this app.components.reverse fun d here => List.mem_reverse.mp here

theorem SharedBy.off_disable (shared : SharedBy unitOf apps unit) {app : App}
    (member : app ∈ apps) (shares : app.shares unit = true) {s : System}
    (last : otherAppsEnabled unitOf apps app.appId unit s = false) :
    (app.disable unitOf apps s).Off (unitOf unit) := by
  obtain ⟨aliasName, here⟩ := App.exists_of_shares shares
  obtain ⟨before, after, split⟩ := List.append_of_mem (List.mem_reverse.mpr here)
  have part : ∀ d ∈ before, d ∈ app.components := by
    intro d earlier
    rw [← List.mem_reverse, split]
    exact List.mem_append_left _ earlier
  unfold App.disable
  rw [split, List.foldl_append, List.foldl_cons]
  apply System.Off.mono (foldl_le (Component.disable_le unitOf apps app.appId) after _)
  rw [Component.disable_of_not_kept unitOf]
  · constructor
    · exact turned_of_mem false (mem_units_of_named unit aliasName)
    · exact turned_of_mem false (mem_stoppedUnits (mem_units_of_named unit aliasName))
  · show ¬ otherAppsEnabled unitOf apps app.appId unit _ = true
    rw [shared.otherAppsEnabled_foldl member shares part, last]
    exact Bool.false_ne_true

/-! ## Calls -/

theorem inUse_enable {app : App} (member : app ∈ apps) (shares : app.shares unit = true)
    (s : System) :
    InUse unitOf apps unit (app.enable unitOf s) :=
  ⟨app, member, shares, app.isEnabled_enable unitOf s⟩

theorem SharedBy.inUse_disable_iff (shared : SharedBy unitOf apps unit) {app : App}
    (member : app ∈ apps) (shares : app.shares unit = true) (s : System) :
    InUse unitOf apps unit (app.disable unitOf apps s) ↔
      otherAppsEnabled unitOf apps app.appId unit s = true := by
  have enabled_iff {other : App} (otherMember : other ∈ apps)
      (otherShares : other.shares unit = true) (different : other ≠ app) :
      other.isEnabled unitOf (app.disable unitOf apps s) = other.isEnabled unitOf s :=
    shared.isEnabled_foldl member shares otherMember otherShares different.symm
      (fun s c d unrelated => c.isEnabled_disable_of_unrelated unitOf apps app.appId s unrelated)
      (fun d here => List.mem_reverse.mp here) s
  rw [shared.otherAppsEnabled_iff member]
  constructor
  · rintro ⟨other, otherMember, otherShares, enabled⟩
    have different : other ≠ app := by
      rintro rfl
      rw [App.isEnabled_disable unitOf apps s other (shared.leads other member shares)] at enabled
      cases enabled
    rw [enabled_iff otherMember otherShares different] at enabled
    exact ⟨other, otherMember, different, otherShares, enabled⟩
  · rintro ⟨other, otherMember, different, otherShares, enabled⟩
    rw [← enabled_iff otherMember otherShares different] at enabled
    exact ⟨other, otherMember, otherShares, enabled⟩

theorem SharedBy.call_cases (shared : SharedBy unitOf apps unit) {c : Call}
    (member : c.app ∈ apps) (shares : c.app.shares unit = true) {s : System}
    (on : InUse unitOf apps unit s → s.On (unitOf unit)) :
    (InUse unitOf apps unit (call unitOf apps s c) ∧ (call unitOf apps s c).On (unitOf unit)) ∨
      (¬ InUse unitOf apps unit (call unitOf apps s c) ∧
        (call unitOf apps s c).Off (unitOf unit)) := by
  cases c with
  | enable app => exact .inl ⟨inUse_enable member shares s, App.on_enable shares s⟩
  | disable app =>
    cases needed : otherAppsEnabled unitOf apps app.appId unit s with
    | true =>
      obtain ⟨other, otherMember, _, otherShares, enabled⟩ :=
        (shared.otherAppsEnabled_iff member s).mp needed
      exact .inl ⟨(shared.inUse_disable_iff member shares s).mpr needed,
        shared.on_disable member shares needed
          (on ⟨other, otherMember, otherShares, enabled⟩)⟩
    | false =>
      refine .inr ⟨?_, shared.off_disable member shares needed⟩
      intro used
      have := (shared.inUse_disable_iff member shares s).mp used
      cases needed.symm.trans this

theorem SharedBy.on_of_inUse (shared : SharedBy unitOf apps unit) (s : System)
    (initial : InUse unitOf apps unit s → s.On (unitOf unit)) (calls : List Call)
    (valid : ∀ c ∈ calls, c.app ∈ apps ∧ c.app.shares unit = true)
    (used : InUse unitOf apps unit (Runs.run (call unitOf apps) s calls)) :
    (Runs.run (call unitOf apps) s calls).On (unitOf unit) := by
  induction calls generalizing s with
  | nil => exact initial used
  | cons c calls ih =>
    obtain ⟨member, shares⟩ := valid c List.mem_cons_self
    apply ih (call unitOf apps s c) _ (fun c' later => valid c' (List.mem_cons_of_mem _ later))
      used
    intro usedThen
    rcases shared.call_cases member shares initial with ⟨_, on⟩ | ⟨unused, _⟩
    · exact on
    · exact absurd usedThen unused

end

variable (unitOf) in
/-- After every call on the apps that share a unit it is enabled and runs if and only if one of
them is enabled, it has not been stopped while another of them is enabled, and disabling the last
one stops it. -/
theorem shared_unit_follows_apps (apps : List App) (unit : String)
    (shared : SharedBy unitOf apps unit) (s : System)
    (initial : InUse unitOf apps unit s → s.On (unitOf unit)) (calls : List Call) (c : Call)
    (valid : ∀ c' ∈ calls ++ [c], c'.app ∈ apps ∧ c'.app.shares unit = true) :
    let before := Runs.run (call unitOf apps) s calls
    let after := call unitOf apps before c
    (after.On (unitOf unit) ↔ InUse unitOf apps unit after) ∧
      (∀ app, c = .disable app →
        ((∃ other ∈ apps, other ≠ app ∧ other.shares unit = true ∧
            other.isEnabled unitOf before = true) → after.On (unitOf unit)) ∧
        ((∀ other ∈ apps, other ≠ app → other.shares unit = true →
            other.isEnabled unitOf before = false) → after.Off (unitOf unit))) := by
  intro before after
  obtain ⟨member, shares⟩ := valid c (by simp)
  have on : InUse unitOf apps unit before → before.On (unitOf unit) :=
    shared.on_of_inUse s initial calls fun c' earlier => valid c' (List.mem_append_left _ earlier)
  constructor
  · rcases shared.call_cases member shares on with ⟨used, on⟩ | ⟨unused, off⟩
    · exact ⟨fun _ => used, fun _ => on⟩
    · exact ⟨fun on => absurd on (not_on_of_off off), fun used => absurd used unused⟩
  · rintro app rfl
    constructor
    · rintro ⟨other, otherMember, different, otherShares, enabled⟩
      apply shared.on_disable member shares
      · exact (shared.otherAppsEnabled_iff member before).mpr
          ⟨other, otherMember, different, otherShares, enabled⟩
      · exact on ⟨other, otherMember, otherShares, enabled⟩
    · intro disabled
      apply shared.off_disable member shares
      rw [Bool.eq_false_iff]
      intro needed
      obtain ⟨other, otherMember, different, otherShares, enabled⟩ :=
        (shared.otherAppsEnabled_iff member before).mp needed
      cases enabled.symm.trans (disabled other otherMember different otherShares)

/-! ## Two apps -/

def database (appId own : String) (other : Option String) : App :=
  ⟨appId, .switch own true :: other.toList.map (Component.switch · true) ++
    [.sharedDaemon "mysql" none]⟩

def allOff : System :=
  ⟨fun _ => false, fun _ => false, fun _ => false⟩

def wordpressAndZoph (other : Option String) : List App :=
  [database "wordpress" "wordpress-site" other, database "zoph" "zoph-site" other]

theorem wordpressAndZoph_shared : SharedBy id (wordpressAndZoph none) "mysql" where
  registered := by decide
  leads := by decide
  own := by decide
  only := by
    intro app member shares c part stops
    have : c = .sharedDaemon "mysql" none := by
      revert app c
      decide
    exact ⟨none, this⟩

theorem not_inUse_of_all {apps : List App} {unit : String} {s : System}
    (disabled : ∀ app ∈ apps, app.isEnabled unitOf s = false) : ¬ InUse unitOf apps unit s := by
  rintro ⟨app, member, _, enabled⟩
  cases enabled.symm.trans (disabled app member)

theorem shared_unit_follows_two_apps :
    SharedBy id (wordpressAndZoph none) "mysql" ∧
      (call id (wordpressAndZoph none)
          (Runs.run (call id (wordpressAndZoph none)) allOff
            [.enable (database "wordpress" "wordpress-site" none)])
          (.disable (database "wordpress" "wordpress-site" none))).Off "mysql" := by
  have unused : ¬ InUse id (wordpressAndZoph none) "mysql" allOff := not_inUse_of_all (by decide)
  have after := shared_unit_follows_apps id (wordpressAndZoph none) "mysql"
    wordpressAndZoph_shared allOff (fun used => absurd used unused)
    [.enable (database "wordpress" "wordpress-site" none)]
    (.disable (database "wordpress" "wordpress-site" none)) (by decide)
  exact ⟨wordpressAndZoph_shared, (after.2 _ rfl).2 (by decide)⟩

theorem shared_unit_outlives_apps :
    let apps := wordpressAndZoph (some "php")
    let after := Runs.run (call id apps) allOff
      [.enable (database "wordpress" "wordpress-site" (some "php")),
        .enable (database "zoph" "zoph-site" (some "php")),
        .disable (database "wordpress" "wordpress-site" (some "php"))]
    (∀ app ∈ apps, app.shares "mysql" = true ∧ ∃ c ∈ app.components, c.isLeader = true ∧
        ∀ other ∈ apps, other ≠ app → ∀ d ∈ other.components, d.Unrelated id c) ∧
      after.On "mysql" ∧ ¬ InUse id apps "mysql" after := by
  refine ⟨by decide, ⟨by decide, by decide⟩, not_inUse_of_all (by decide)⟩

end

end Plinth.Daemon
