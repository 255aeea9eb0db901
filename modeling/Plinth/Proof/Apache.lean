import Plinth.Lib.Runs
import Plinth.Model.Apache

/-!
# Links and the components that they refer to

The links are kept by domain and the selected domains by component. A component that is disabled
removes the link of its domain, whichever component has installed it, and one that is uninstalled
leaves its link behind.
-/

namespace Plinth.Apache

open Effect Python Runs

variable {webName : String → String}

/-! ## What each call does -/

def Plain (name : String) : Prop :=
  '/' ∉ name.toList

instance (name : String) : Decidable (Plain name) :=
  inferInstanceAs (Decidable (¬ _))

theorem state_linkRoot (domain name : String) (s : System) :
    ((linkRoot domain name).exec s).2 =
      if Plain domain ∧ Plain name then s.setInclude domain (some (.symlink (name ++ ".conf")))
      else s := by
  rw [linkRoot]
  by_cases plain : Plain domain ∧ Plain name
  · rw [if_neg (not_or.mpr plain), if_pos plain]
    rfl
  · have slash : '/' ∈ domain.toList ∨ '/' ∈ name.toList := by
      rw [or_iff_not_and_not]
      exact plain
    rw [if_pos slash, if_neg plain]
    rfl

theorem exec_unlinkRoot (domain : String) (s : System) :
    (Plain domain ∧ (unlinkRoot domain).exec s =
      (.ok (), match s.includes domain with
        | some (.symlink _) => s.setInclude domain none
        | _ => s)) ∨
    ¬ Plain domain ∧ ∃ e, (unlinkRoot domain).exec s = (.error e, s) := by
  rw [unlinkRoot]
  by_cases plain : Plain domain
  · rw [if_neg plain]
    exact .inl ⟨plain, rfl⟩
  · rw [if_pos (not_not.mp plain)]
    exact .inr ⟨plain, _, rfl⟩

def IsLink (file : Option IncludeFile) : Prop :=
  ∃ target, file = some (.symlink target)

def Selects (s : System) (component domain : String) : Prop :=
  domainGet component s = some domain ∧ Plain domain

structure Disabled (component : String) (s s' : System) : Prop where
  kvstore : s'.kvstore = s.kvstore
  enabled : s'.enabled = Function.update s.enabled component false
  removed : ∀ domain, Selects s component domain → ¬ IsLink (s'.includes domain)
  others : ∀ domain, ¬ Selects s component domain → s'.includes domain = s.includes domain

theorem disable_spec (component : String) (s : System) :
    Disabled component s ((disable component).exec s).2 ∧
      ((∃ e, ((disable component).exec s).1 = .error e) ↔
        ∃ domain, domainGet component s = some domain ∧ ¬ Plain domain) := by
  have same : domainGet component (s.setEnabled component false) = domainGet component s := rfl
  simp only [disable, exec_bind, exec_modify, exec_get, same]
  cases found : domainGet component s with
  | none =>
    refine ⟨⟨rfl, rfl, ?_, fun _ _ => rfl⟩, by simp⟩
    rintro domain ⟨selected, _⟩
    rw [found] at selected
    cases selected
  | some selected =>
    have only : ∀ domain, Selects s component domain ↔ domain = selected ∧ Plain selected := by
      intro domain
      rw [Selects, found, Option.some.injEq]
      constructor
      · rintro ⟨rfl, plain⟩
        exact ⟨rfl, plain⟩
      · rintro ⟨rfl, plain⟩
        exact ⟨rfl, plain⟩
    dsimp only
    rcases exec_unlinkRoot selected (s.setEnabled component false) with
      ⟨plain, result⟩ | ⟨slash, e, result⟩
    · rw [result]
      refine ⟨?_, by simp [plain]⟩
      cases file : (s.setEnabled component false).includes selected with
      | none =>
        refine ⟨rfl, rfl, ?_, fun _ _ => rfl⟩
        intro domain selects
        rw [((only domain).mp selects).1]
        rintro ⟨target, link⟩
        cases file.symm.trans link
      | some content =>
        cases content with
        | file =>
          refine ⟨rfl, rfl, ?_, fun _ _ => rfl⟩
          intro domain selects
          rw [((only domain).mp selects).1]
          rintro ⟨target, link⟩
          cases file.symm.trans link
        | symlink target =>
          refine ⟨rfl, rfl, ?_, ?_⟩
          · intro domain selects
            rw [((only domain).mp selects).1]
            simp [IsLink, System.setInclude]
          · intro domain unselected
            have other : domain ≠ selected := by
              rintro rfl
              exact unselected ((only domain).mpr ⟨rfl, plain⟩)
            simp [System.setInclude, System.setEnabled, other]
    · rw [result]
      refine ⟨⟨rfl, rfl, ?_, fun _ _ => rfl⟩, by simp [slash]⟩
      intro domain selects
      exact absurd ((only domain).mp selects).2 slash

structure Enabled (webName : String → String) (component : String) (s s' : System) : Prop where
  kvstore : s'.kvstore = s.kvstore
  enabled : s'.enabled = Function.update s.enabled component true
  linked : ∀ domain, Selects s component domain → Plain (webName component) →
    s'.includes domain = some (.symlink (webName component ++ ".conf"))
  others : ∀ domain, ¬ (Selects s component domain ∧ Plain (webName component)) →
    s'.includes domain = s.includes domain

variable (webName) in
theorem enable_spec (component : String) (s : System) :
    Enabled webName component s ((enable webName component).exec s).2 := by
  have same : domainGet component (s.setEnabled component true) = domainGet component s := rfl
  simp only [enable, exec_bind, exec_modify, exec_get, same]
  cases found : domainGet component s with
  | none =>
    refine ⟨rfl, rfl, ?_, fun _ _ => rfl⟩
    rintro domain ⟨selected, _⟩
    rw [found] at selected
    cases selected
  | some selected =>
    dsimp only
    rw [state_linkRoot]
    split
    · rename_i plain
      refine ⟨rfl, rfl, ?_, ?_⟩
      · rintro domain ⟨selects, _⟩ _
        cases found.symm.trans selects
        simp [System.setInclude]
      · intro domain unselected
        have other : domain ≠ selected := by
          rintro rfl
          exact unselected ⟨⟨found, plain.1⟩, plain.2⟩
        simp [System.setInclude, System.setEnabled, other]
    · rename_i slash
      refine ⟨rfl, rfl, ?_, fun _ _ => rfl⟩
      rintro domain ⟨selects, plain⟩ plainName
      cases found.symm.trans selects
      exact absurd ⟨plain, plainName⟩ slash

theorem keyGet_inj {component component' : String} (same : keyGet component = keyGet component') :
    component = component' := by
  rw [keyGet, keyGet] at same
  exact String.append_left_inj _ |>.mp same

theorem domainGet_setDomain (component : String) (domain : Option String) (s : System) :
    domainGet component (setDomain component domain s) = domain.filter (· ≠ "") := by
  simp [domainGet, setDomain]

theorem domainGet_setDomain_of_ne {component other : String} (ne : other ≠ component)
    (domain : Option String) (s : System) :
    domainGet other (setDomain component domain s) = domainGet other s := by
  have key : keyGet other ≠ keyGet component := fun same => ne (keyGet_inj same)
  simp [domainGet, setDomain, key]

/-! ## Links that are installed -/

structure Installed (webName : String → String) (s : System) (component domain : String) : Prop where
  enabled : s.enabled component = true
  selected : domainGet component s = some domain
  link : s.includes domain = some (.symlink (webName component ++ ".conf"))

def LinksInstalled (webName : String → String) (s : System) : Prop :=
  ∀ domain, IsLink (s.includes domain) → Plain domain ∧ ∃ component, Installed webName s component domain

def OthersKept (webName : String → String) (s : System) (event : Event) : Prop :=
  ∀ domain component, component ≠ event.component → Installed webName s component domain →
    ¬ Installed webName (step webName s event) event.component domain →
      (step webName s event).includes domain = s.includes domain

def Sound (webName : String → String) (s : System) (event : Event) : Prop :=
  LinksInstalled webName (step webName s event) ∧ OthersKept webName s event

def Unshared (webName : String → String) (s : System) (component domain : String) : Prop :=
  ∀ other ≠ component, ¬ Installed webName s other domain

/-- A component whose domain is linked by another one is neither disabled nor, unless it takes the
link over, given a domain; and one is uninstalled after it has been disabled. -/
def Apart (webName : String → String) (s : System) : Event → Prop
  | .enable _ => True
  | .disable component => ∀ domain, domainGet component s = some domain →
      Unshared webName s component domain
  | .domainSet component new appIsEnabled => ∀ domain, domainGet component s = some domain →
      (appIsEnabled = true ∧ new = some domain ∧ Plain (webName component)) ∨
        Unshared webName s component domain
  | .uninstall component => ∀ domain, Installed webName s component domain →
      ¬ Unshared webName s component domain

variable {s s' : System} {component : String}

theorem Disabled.link (disabled : Disabled component s s') (installed : LinksInstalled webName s)
    {domain : String} (link : IsLink (s'.includes domain)) :
    Plain domain ∧ s'.includes domain = s.includes domain ∧
      ∃ other ≠ component, Installed webName s' other domain := by
  have unselected : ¬ Selects s component domain := fun selects => disabled.removed domain selects link
  have same := disabled.others domain unselected
  rw [same] at link
  obtain ⟨plain, owner, own⟩ := installed domain link
  have other : owner ≠ component := by
    rintro rfl
    exact unselected ⟨own.selected, plain⟩
  refine ⟨plain, same, owner, other, ?_, ?_, ?_⟩
  · rw [disabled.enabled, Function.update_of_ne other]
    exact own.enabled
  · rw [domainGet, disabled.kvstore]
    exact own.selected
  · rw [same]
    exact own.link

theorem sound_disable_iff (installed : LinksInstalled webName s) :
    Sound webName s (.disable component) ↔ Apart webName s (.disable component) := by
  obtain ⟨disabled, _⟩ := disable_spec component s
  have off : ∀ domain, ¬ Installed webName (step webName s (.disable component)) component domain := by
    intro domain own
    have on := own.enabled
    rw [step, call, disabled.enabled, Function.update_self] at on
    cases on
  constructor
  · rintro ⟨_, kept⟩ domain selected other ne own
    have plain := (installed domain ⟨_, own.link⟩).1
    have same := kept domain other ne own (off domain)
    apply disabled.removed domain ⟨selected, plain⟩
    exact ⟨_, same.trans own.link⟩
  · intro apart
    constructor
    · intro domain link
      obtain ⟨plain, _, other, _, own⟩ := disabled.link installed link
      exact ⟨plain, other, own⟩
    · intro domain other ne own _
      apply disabled.others
      rintro ⟨selected, _⟩
      exact apart domain selected other ne own

theorem sound_uninstall_iff (installed : LinksInstalled webName s) :
    Sound webName s (.uninstall component) ↔ Apart webName s (.uninstall component) := by
  have next : step webName s (.uninstall component) = setDomain component none s := rfl
  have kept : ∀ domain other, other ≠ component →
      (Installed webName (setDomain component none s) other domain ↔
        Installed webName s other domain) := by
    intro domain other ne
    have selected := domainGet_setDomain_of_ne ne none s
    exact ⟨fun own => ⟨own.enabled, selected ▸ own.selected, own.link⟩,
      fun own => ⟨own.enabled, selected ▸ own.selected, own.link⟩⟩
  constructor
  · rintro ⟨sound, _⟩ domain own unshared
    obtain ⟨_, other, still⟩ := sound domain ⟨_, own.link⟩
    rw [next] at still
    have ne : other ≠ component := by
      rintro rfl
      have selected := still.selected
      rw [domainGet_setDomain] at selected
      cases selected
    exact unshared other ne ((kept domain other ne).mp still)
  · intro apart
    constructor
    · intro domain link
      obtain ⟨plain, owner, own⟩ := installed domain link
      refine ⟨plain, ?_⟩
      rw [next]
      by_cases mine : owner = component
      · rw [mine] at own
        have shared := apart domain own
        simp only [Unshared, not_forall, not_not] at shared
        obtain ⟨other, ne, own⟩ := shared
        exact ⟨other, (kept domain other ne).mpr own⟩
      · exact ⟨owner, (kept domain owner mine).mpr own⟩
    · intro domain other ne own _
      rfl

theorem Enabled.installed (enabled : Enabled webName component s s')
    {domain : String} (selects : Selects s component domain) (plain : Plain (webName component)) :
    Installed webName s' component domain := by
  refine ⟨?_, ?_, enabled.linked domain selects plain⟩
  · rw [enabled.enabled, Function.update_self]
  · rw [domainGet, enabled.kvstore]
    exact selects.1

theorem Enabled.kept (enabled : Enabled webName component s s') {other domain : String}
    (unlinked : ¬ (Selects s component domain ∧ Plain (webName component)))
    (own : Installed webName s other domain) : Installed webName s' other domain := by
  refine ⟨?_, ?_, ?_⟩
  · rw [enabled.enabled, Function.update_apply]
    split
    · rfl
    · exact own.enabled
  · rw [domainGet, enabled.kvstore]
    exact own.selected
  · rw [enabled.others domain unlinked]
    exact own.link

theorem sound_enable (installed : LinksInstalled webName s) :
    Sound webName s (.enable component) := by
  have enabled := enable_spec webName component s
  constructor
  · intro domain link
    change IsLink (((enable webName component).exec s).2.includes domain) at link
    by_cases linked : Selects s component domain ∧ Plain (webName component)
    · exact ⟨linked.1.2, component, enabled.installed linked.1 linked.2⟩
    · rw [enabled.others domain linked] at link
      obtain ⟨plain, owner, own⟩ := installed domain link
      exact ⟨plain, owner, enabled.kept linked own⟩
  · intro domain other _ _ uninstalled
    apply enabled.others
    rintro ⟨selects, plain⟩
    exact uninstalled (enabled.installed selects plain)

variable (webName component) in
theorem step_domainSet (new : Option String) (appIsEnabled : Bool) (s : System) :
    ∃ s₁, Disabled component s s₁ ∧
      ((∃ domain, domainGet component s = some domain ∧ ¬ Plain domain) ∧
        step webName s (.domainSet component new appIsEnabled) = s₁ ∨
      (∀ domain, domainGet component s = some domain → Plain domain) ∧
        step webName s (.domainSet component new appIsEnabled) =
          if appIsEnabled = true then step webName (setDomain component new s₁) (.enable component)
          else setDomain component new s₁) := by
  obtain ⟨disabled, raises⟩ := disable_spec component s
  refine ⟨_, disabled, ?_⟩
  simp only [step, call, domainSet, exec_bind]
  generalize (disable component).exec s = outcome at raises ⊢
  obtain ⟨e | ⟨⟩, s₁⟩ := outcome
  · exact .inl ⟨raises.mp ⟨e, rfl⟩, rfl⟩
  · apply Or.inr
    constructor
    · intro domain selected
      by_contra slash
      obtain ⟨e, raised⟩ := raises.mpr ⟨domain, selected, slash⟩
      cases raised
    · dsimp only [exec_modify]
      split
      · rename_i on
        rw [when_of on]
      · rename_i off
        rw [when_of_not off, exec_pure]

theorem installed_setDomain_iff {other : String} (ne : other ≠ component) (new : Option String)
    (domain : String) :
    Installed webName (setDomain component new s) other domain ↔ Installed webName s other domain := by
  have selected := domainGet_setDomain_of_ne ne new s
  exact ⟨fun own => ⟨own.enabled, selected ▸ own.selected, own.link⟩,
    fun own => ⟨own.enabled, selected ▸ own.selected, own.link⟩⟩

theorem Disabled.linksInstalled (disabled : Disabled component s s')
    (installed : LinksInstalled webName s) (new : Option String) :
    LinksInstalled webName (setDomain component new s') := by
  intro domain link
  obtain ⟨plain, _, other, ne, own⟩ := disabled.link installed link
  exact ⟨plain, other, (installed_setDomain_iff ne new domain).mpr own⟩

theorem selects_setDomain_iff {new : Option String} {domain : String} (selected : domainGet component s = some domain)
    (plain : Plain domain) : Selects (setDomain component new s') component domain ↔ new = some domain := by
  have nonempty : domain ≠ "" := by
    have filtered := (Option.filter_eq_some_iff.mp selected).2
    simpa using filtered
  rw [Selects, domainGet_setDomain]
  constructor
  · rintro ⟨same, _⟩
    exact (Option.filter_eq_some_iff.mp same).1
  · rintro rfl
    exact ⟨by simp [Option.filter, nonempty], plain⟩

theorem linksInstalled_domainSet (installed : LinksInstalled webName s) (new : Option String)
    (appIsEnabled : Bool) :
    LinksInstalled webName (step webName s (.domainSet component new appIsEnabled)) := by
  obtain ⟨s₁, disabled, ⟨_, next⟩ | ⟨_, next⟩⟩ := step_domainSet webName
    component new appIsEnabled s
  · rw [next]
    intro domain link
    obtain ⟨plain, _, other, _, own⟩ := disabled.link installed link
    exact ⟨plain, other, own⟩
  · rw [next]
    split
    · exact (sound_enable (disabled.linksInstalled installed new)).1
    · exact disabled.linksInstalled installed new

theorem not_isLink_domainSet {new : Option String} {appIsEnabled : Bool} {domain : String}
    (selected : domainGet component s = some domain) (plain : Plain domain)
    (unclaimed : ¬ (appIsEnabled = true ∧ new = some domain ∧ Plain (webName component))) :
    ¬ IsLink ((step webName s (.domainSet component new appIsEnabled)).includes domain) := by
  obtain ⟨s₁, disabled, ⟨⟨_, same, slash⟩, _⟩ | ⟨_, next⟩⟩ := step_domainSet webName
    component new appIsEnabled s
  · cases selected.symm.trans same
    exact absurd plain slash
  · have removed := disabled.removed domain ⟨selected, plain⟩
    rw [next]
    split
    · rename_i on
      have unlinked : ¬ (Selects (setDomain component new s₁) component domain ∧
          Plain (webName component)) := by
        rintro ⟨selects, plainName⟩
        exact unclaimed ⟨on, (selects_setDomain_iff selected plain).mp selects, plainName⟩
      have enabled := enable_spec webName component (setDomain component new s₁)
      rw [step, call, enabled.others domain unlinked]
      exact removed
    · exact removed

theorem installed_domainSet {domain : String} (selected : domainGet component s = some domain)
    (plain : Plain domain) (plainName : Plain (webName component)) :
    Installed webName (step webName s (.domainSet component (some domain) true)) component domain := by
  obtain ⟨s₁, _, ⟨⟨_, same, slash⟩, _⟩ | ⟨_, next⟩⟩ := step_domainSet webName
    component (some domain) true s
  · cases selected.symm.trans same
    exact absurd plain slash
  · rw [next, if_pos rfl]
    have enabled := enable_spec webName component (setDomain component (some domain) s₁)
    exact enabled.installed ((selects_setDomain_iff selected plain).mpr rfl) plainName

theorem includes_domainSet {new : Option String} {appIsEnabled : Bool} {domain : String}
    (unselected : domainGet component s ≠ some domain)
    (uninstalled : ¬ Installed webName (step webName s (.domainSet component new appIsEnabled))
      component domain) :
    (step webName s (.domainSet component new appIsEnabled)).includes domain = s.includes domain := by
  obtain ⟨s₁, disabled, ⟨_, next⟩ | ⟨_, next⟩⟩ := step_domainSet webName
    component new appIsEnabled s
  · rw [next]
    exact disabled.others domain fun selects => unselected selects.1
  · rw [next] at uninstalled ⊢
    split
    · rename_i on
      rw [if_pos on] at uninstalled
      have enabled := enable_spec webName component (setDomain component new s₁)
      have unlinked : ¬ (Selects (setDomain component new s₁) component domain ∧
          Plain (webName component)) := by
        rintro ⟨selects, plainName⟩
        exact uninstalled (enabled.installed selects plainName)
      rw [step, call, enabled.others domain unlinked]
      exact disabled.others domain fun selects => unselected selects.1
    · exact disabled.others domain fun selects => unselected selects.1

theorem sound_domainSet_iff (installed : LinksInstalled webName s) {new : Option String}
    {appIsEnabled : Bool} :
    Sound webName s (.domainSet component new appIsEnabled) ↔
      Apart webName s (.domainSet component new appIsEnabled) := by
  constructor
  · rintro ⟨_, kept⟩ domain selected
    by_cases claimed : appIsEnabled = true ∧ new = some domain ∧ Plain (webName component)
    · exact .inl claimed
    · apply Or.inr
      intro other ne own
      have plain := (installed domain ⟨_, own.link⟩).1
      have removed := not_isLink_domainSet selected plain claimed
      have same := kept domain other ne own fun mine => removed ⟨_, mine.link⟩
      exact removed ⟨_, same.trans own.link⟩
  · intro apart
    refine ⟨linksInstalled_domainSet installed new appIsEnabled, ?_⟩
    intro domain other ne own uninstalled
    by_cases selected : domainGet component s = some domain
    · rcases apart domain selected with ⟨rfl, rfl, plainName⟩ | unshared
      · have plain := (installed domain ⟨_, own.link⟩).1
        exact absurd (installed_domainSet selected plain plainName) uninstalled
      · exact absurd own (unshared other ne)
    · exact includes_domainSet selected uninstalled

/-! ## Calls in any order -/

theorem sound_iff (installed : LinksInstalled webName s) (event : Event) :
    Sound webName s event ↔ Apart webName s event := by
  cases event with
  | domainSet component new appIsEnabled => exact sound_domainSet_iff installed
  | enable component => exact ⟨fun _ => trivial, fun _ => sound_enable installed⟩
  | disable component => exact sound_disable_iff installed
  | uninstall component => exact sound_uninstall_iff installed

theorem root_links_iff (webName : String → String) {s : System}
    (start : ∀ domain, ¬ IsLink (s.includes domain)) (events : List Event) :
    Throughout (step webName) (Sound webName) s events ↔
      Throughout (step webName) (Apart webName) s events := by
  have installed : LinksInstalled webName s := fun domain link => absurd link (start domain)
  exact throughout_congr (LinksInstalled webName) (fun _ event installed => sound_iff installed event)
    (fun _ _ _ sound => sound.1) s events installed

def fresh : System where
  includes _ := none
  kvstore _ := none
  enabled _ := false

def linkedTo (component domain : String) : System where
  includes := Function.update (fun _ => none) domain (some (.symlink (component ++ ".conf")))
  kvstore := Function.update (fun _ => none) (keyGet component) (some domain)
  enabled := Function.update (fun _ => false) component true

theorem step_fresh : step id fresh (.domainSet "blog" (some "example.org") true) =
    linkedTo "blog" "example.org" := by
  have idle : Function.update (fun _ => false) "blog" false = fun _ : String => false :=
    Function.update_eq_self_iff.mpr rfl
  change ({ includes := _, kvstore := _, enabled := Function.update (Function.update _ _ _) _ _ } :
    System) = _
  rw [linkedTo, ← idle]
  rfl

theorem root_links_iff_one_domain :
    Throughout (step id) (Sound id) fresh
      [.domainSet "blog" (some "example.org") true, .disable "blog", .uninstall "blog"] := by
  apply (root_links_iff id _ _).mpr
  · refine ⟨?_, ?_, ?_, trivial⟩
    · intro domain selected
      cases selected
    · rw [step_fresh]
      intro domain _ other ne own
      have on := own.enabled
      simp [linkedTo, ne] at on
    · rw [step_fresh]
      intro domain own
      have on := own.enabled
      rw [step, call, (disable_spec "blog" _).1.enabled, Function.update_self] at on
      cases on
  · rintro _ ⟨_, link⟩
    cases link

theorem link_of_other_removed :
    ¬ Throughout (step id) (Sound id) fresh
      [.domainSet "blog" (some "example.org") true, .domainSet "wiki" (some "example.org") true,
        .disable "blog"] := by
  rintro ⟨_, _, ⟨_, kept⟩, _⟩
  have own : Installed id (step id (step id fresh (.domainSet "blog" (some "example.org") true))
      (.domainSet "wiki" (some "example.org") true)) "wiki" "example.org" :=
    ⟨rfl, rfl, rfl⟩
  have same := kept "example.org" "wiki" (by decide) own fun mine => by
    have on := mine.enabled
    cases on
  cases same

end Plinth.Apache
