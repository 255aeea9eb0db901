import Plinth.Model.Names.Static

/-! # No domain is lost -/

namespace Plinth.StaticDomains

open Effect Python Distinct

variable {entry : Entry} {domain : Name} {hosts : List Entry} {name : Name}

/-! ## An entry -/

theorem readEntry_eq (entry : Entry) : readEntry entry = domainsOf entry := by
  rw [readEntry, domainsOf]
  cases last : entry.aliases.getLast? with
  | none =>
    have plain : ¬ ∃ domain, IsOldStyle entry domain := by
      rintro ⟨domain, hostname, member, -⟩
      rw [last] at member
      cases member
    rw [dif_neg plain]
  | some hostname =>
    dsimp only
    by_cases old : ∃ domain, IsOldStyle entry domain
    · rw [dif_pos old]
      obtain ⟨hostname', member, free, same⟩ := old.choose_spec
      rw [last] at member
      cases member
      have starts : Text.startswith entry.canonical (hostname ++ ['.']) = true := by
        rw [Text.startswith, List.isPrefixOf_iff_prefix, same]
        exact ⟨old.choose, by simp⟩
      rw [starts, same, Text.partition_append free]
      simp [free]
    · rw [dif_neg old]
      by_cases starts : (!hostname.contains '.' &&
          Text.startswith entry.canonical (hostname ++ ['.'])) = true
      · obtain ⟨free, starts⟩ := Bool.and_eq_true_iff.mp starts
        rw [Text.startswith, List.isPrefixOf_iff_prefix] at starts
        obtain ⟨domain, same⟩ := starts
        exact absurd ⟨domain, hostname, last, by simpa using free, by simp [← same]⟩ old
      · rw [if_neg starts]

theorem nonempty_of_mem (member : name ∈ (domainsOf entry).2) : name ≠ [] := by
  apply entry.aliases_nonempty
  rw [domainsOf] at member
  split at member
  · exact List.mem_of_mem_dropLast member
  · exact member

noncomputable def given (entry : Entry) : List Name :=
  [(domainsOf entry).1].filter (· ≠ [])

noncomputable def coded (entry : Entry) : List Name :=
  if (domainsOf entry).1 = [] ∧ (domainsOf entry).2 = [] then [] else [(domainsOf entry).1]

theorem filter_kept (entry : Entry) :
    (domainsOf entry).2.filter (· ≠ []) = (domainsOf entry).2 := by
  rw [List.filter_eq_self]
  intro name member
  exact decide_eq_true (nonempty_of_mem member)

theorem names_eq (entry : Entry) :
    ((domainsOf entry).1 :: (domainsOf entry).2).filter (· ≠ []) =
      given entry ++ (domainsOf entry).2 := by
  rw [← List.singleton_append, List.filter_append, filter_kept]
  rfl

theorem foldl_set (domains : OrderedDict Name Bool) (k : Name) (values : List Name) :
    values.foldl (fun domains value => if value ≠ [] then domains.set k true else domains) domains =
      if values.all (fun value => value = []) then domains else domains.set k true := by
  induction values generalizing domains with
  | nil => rfl
  | cons value values ih =>
    rw [List.foldl_cons, ih, List.all_cons]
    by_cases empty : value = []
    · simp [empty]
    · have again : (domains.set k true).set k true = domains.set k true :=
        OrderedDict.set_eq_self (domains.get?_set_self k true)
      simp [empty, again]

theorem addEntry_eq (domains : OrderedDict Name Bool) (entry : Entry) :
    addEntry domains entry = (coded entry).foldl (fun domains k => domains.set k true) domains := by
  have kept : ((domainsOf entry).2.all fun value => value = []) = true ↔
      (domainsOf entry).2 = [] := by
    constructor
    · intro all
      rw [List.eq_nil_iff_forall_not_mem]
      intro name member
      exact nonempty_of_mem member (of_decide_eq_true (List.all_eq_true.mp all name member))
    · intro none
      rw [none]
      rfl
  rw [addEntry, readEntry_eq]
  dsimp only
  rw [foldl_set, coded, List.all_cons]
  by_cases empty : (domainsOf entry).1 = [] ∧ (domainsOf entry).2 = []
  · rw [if_pos empty, if_pos (by simp [empty])]
    rfl
  · rw [if_neg empty, if_neg]
    · rfl
    · rw [Bool.and_eq_true, decide_eq_true_eq, kept]
      exact empty

theorem getOldDomains_eq (hosts : List Entry) :
    getOldDomains hosts = distinct ((localEntries hosts).flatMap coded) := by
  have step : addEntry = fun domains entry =>
      (coded entry).foldl (fun domains k => domains.set k true) domains := by
    funext domains entry
    exact addEntry_eq domains entry
  rw [getOldDomains, step, ← List.foldl_flatMap, keys_foldl_set]
  rfl

theorem oldNames_eq (hosts : List Entry) :
    oldNames hosts =
      distinct ((localEntries hosts).flatMap fun entry => given entry ++ (domainsOf entry).2) := by
  rw [oldNames]
  simp only [names_eq]

theorem mem_oldNames : name ∈ oldNames hosts ↔ ∃ entry ∈ localEntries hosts,
    (name = (domainsOf entry).1 ∧ name ≠ []) ∨ name ∈ (domainsOf entry).2 := by
  rw [oldNames_eq, mem_distinct, List.mem_flatMap]
  simp only [List.mem_append, given, List.mem_filter, List.mem_singleton, decide_eq_true_eq]

theorem mem_getOldDomains : name ∈ getOldDomains hosts ↔ ∃ entry ∈ localEntries hosts,
    name = (domainsOf entry).1 ∧ (name ≠ [] ∨ (domainsOf entry).2 ≠ []) := by
  rw [getOldDomains_eq, mem_distinct, List.mem_flatMap]
  constructor
  · rintro ⟨entry, listed, member⟩
    rw [coded] at member
    split at member
    · cases member
    · rename_i some
      cases List.mem_singleton.mp member
      exact ⟨entry, listed, rfl, not_and_or.mp some⟩
  · rintro ⟨entry, listed, rfl, some⟩
    refine ⟨entry, listed, ?_⟩
    rw [coded, if_neg (not_and_or.mpr some)]
    exact List.mem_singleton_self _

theorem ne_nil_of_mem_oldNames (member : name ∈ oldNames hosts) : name ≠ [] := by
  obtain ⟨entry, -, ⟨-, nonempty⟩ | kept⟩ := mem_oldNames.mp member
  · exact nonempty
  · exact nonempty_of_mem kept

theorem givesAll_iff (hosts : List Entry) : GivesAll hosts ↔
    (∀ entry ∈ localEntries hosts, (domainsOf entry).1 = [] → (domainsOf entry).2 = []) ∧
      AllAnnounced given (fun entry => (domainsOf entry).2) [] (localEntries hosts) := by
  have same (named : ∀ entry ∈ localEntries hosts,
      (domainsOf entry).1 = [] → (domainsOf entry).2 = []) :
      (localEntries hosts).flatMap coded = (localEntries hosts).flatMap given := by
    apply List.flatMap_congr
    intro entry listed
    rw [coded, given]
    by_cases empty : (domainsOf entry).1 = []
    · rw [if_pos ⟨empty, named entry listed empty⟩]
      simp [empty]
    · rw [if_neg fun both => empty both.1]
      simp [empty]
  rw [← distinctFrom_flatMap_iff]
  constructor
  · intro all
    have named : ∀ entry ∈ localEntries hosts,
        (domainsOf entry).1 = [] → (domainsOf entry).2 = [] := by
      intro entry listed empty
      by_contra some
      have member : [] ∈ getOldDomains hosts :=
        mem_getOldDomains.mpr ⟨entry, listed, empty.symm, .inr some⟩
      rw [all] at member
      exact ne_nil_of_mem_oldNames member rfl
    refine ⟨named, ?_⟩
    rw [GivesAll, getOldDomains_eq, oldNames_eq, same named] at all
    exact all
  · rintro ⟨named, all⟩
    rw [GivesAll, getOldDomains_eq, oldNames_eq, same named]
    exact all

/-! ## The setup -/

variable {env env' : Environment} {failures : Failures} {oldVersion : Nat} {s : System}

theorem keeps_call (made : Call) : Keeps id (call failures made) := by
  intro s
  rw [call]
  split <;> rfl

theorem call_of_none {made : Call} (works : failures made = none) :
    call failures made = pure () := by
  rw [call, works]

theorem call_of_some {made : Call} {raised : Exception} (fails : failures made = some raised) :
    call failures made = throw raised := by
  rw [call, fails]

theorem exec_installResolved (s : System) : (installResolved failures).exec s = (.ok (), s) := by
  have kept : Keeps id (installResolved failures) :=
    ((keeps_call _).bind fun _ => keeps_call _).tryCatch fun _ => keeps_pure ()
  have state := kept s
  have returns : ((installResolved failures).exec s).1 = .ok () := by
    rw [installResolved, exec_tryCatch]
    split <;> rfl
  exact Prod.ext returns state

theorem exec_when_installResolved (s : System) :
    (when (env.isResolvedInstalled = false) (installResolved failures)).exec s = (.ok (), s) := by
  rw [when]
  split
  · exact exec_installResolved s
  · rfl

theorem keeps_configureResolved : Keeps id (configureResolved failures oldVersion) :=
  (keeps_call _).when.bind fun _ => (keeps_call _).bind fun _ => keeps_call _

structure Stores (failures : Failures) : Prop where
  superSetup : failures .superSetup = none
  domainsList : failures .domainsList = none
  getOldDomains : failures .getOldDomains = none
  domainsSet : failures .domainsSet = none

def Interrupted (failures : Failures) : Prop :=
  Stores failures ∧ failures .domainDeleteAll ≠ none

theorem state_migrate (failures : Failures) (s : System) (works : failures .superSetup = none) :
    (Stores failures → failures .domainDeleteAll = none → ((migrate failures).exec s).2 =
      ⟨s.domains ++ getOldDomains s.hosts, domainDeleteAll s.hosts⟩) ∧
    (Interrupted failures → ((migrate failures).exec s).2 =
      ⟨s.domains ++ getOldDomains s.hosts, s.hosts⟩) ∧
    (¬ Stores failures → ((migrate failures).exec s).2 = s) := by
  rw [migrate]
  cases listed : failures .domainsList with
  | some raised =>
    have not : ¬ Stores failures := fun stores => by
      rw [stores.domainsList] at listed
      cases listed
    rw [call_of_some listed]
    exact ⟨fun h => absurd h not, fun h => absurd h.1 not, fun _ => rfl⟩
  | none =>
    cases read : failures .getOldDomains with
    | some raised =>
      have not : ¬ Stores failures := fun stores => by
        rw [stores.getOldDomains] at read
        cases read
      rw [call_of_none listed, call_of_some read]
      exact ⟨fun h => absurd h not, fun h => absurd h.1 not, fun _ => rfl⟩
    | none =>
      cases written : failures .domainsSet with
      | some raised =>
        have not : ¬ Stores failures := fun stores => by
          rw [stores.domainsSet] at written
          cases written
        rw [call_of_none listed, call_of_none read, call_of_some written]
        exact ⟨fun h => absurd h not, fun h => absurd h.1 not, fun _ => rfl⟩
      | none =>
        have stores : Stores failures := ⟨works, listed, read, written⟩
        rw [call_of_none listed, call_of_none read, call_of_none written]
        refine ⟨fun _ deletes => ?_, fun interrupted => ?_, fun not => absurd stores not⟩
        · rw [call_of_none deletes]
          rfl
        · obtain ⟨raised, fails⟩ := Option.ne_none_iff_exists'.mp interrupted.2
          rw [call_of_some fails]
          rfl

theorem state_setup (env : Environment) (failures : Failures) (old : oldVersion < 4) (s : System) :
    (Stores failures → failures .domainDeleteAll = none →
      ((setup env failures oldVersion).exec s).2 =
        ⟨s.domains ++ getOldDomains s.hosts, domainDeleteAll s.hosts⟩) ∧
    (Interrupted failures → ((setup env failures oldVersion).exec s).2 =
      ⟨s.domains ++ getOldDomains s.hosts, s.hosts⟩) ∧
    (¬ Stores failures → ((setup env failures oldVersion).exec s).2 = s) := by
  rw [setup]
  cases works : failures .superSetup with
  | some raised =>
    have not : ¬ Stores failures := fun stores => by
      rw [stores.superSetup] at works
      cases works
    rw [call_of_some works]
    exact ⟨fun h => absurd h not, fun h => absurd h.1 not, fun _ => rfl⟩
  | none =>
    have finish (u : Unit) : Keeps id (do
        when (env.isResolvedInstalledThen = true) (configureResolved failures oldVersion)
        call failures .enable) :=
      keeps_configureResolved.when.bind fun _ => keeps_call _
    rw [call_of_none works, pure_bind, exec_bind_of_ok (exec_when_installResolved s),
      when_of old, state_bind_of_keeps finish]
    exact state_migrate failures s works

theorem localEntries_domainDeleteAll (hosts : List Entry) :
    localEntries (domainDeleteAll hosts) = [] := by
  rw [localEntries, domainDeleteAll, List.filter_filter, List.filter_eq_nil_iff]
  simp

theorem domains_repeatedSetup (env env' : Environment) (failures : Failures) (old : oldVersion < 4)
    (s : System) :
    (Interrupted failures → (repeatedSetup env env' failures oldVersion s).domains =
      s.domains ++ getOldDomains s.hosts ++ getOldDomains s.hosts) ∧
    (¬ Interrupted failures → (repeatedSetup env env' failures oldVersion s).domains =
      s.domains ++ getOldDomains s.hosts) := by
  have works : Stores fun _ => none := ⟨rfl, rfl, rfl, rfl⟩
  have first := state_setup env failures old s
  have second (s : System) := (state_setup env' (fun _ => none) old s).1 works rfl
  rw [repeatedSetup, second]
  refine ⟨fun interrupted => ?_, fun completes => ?_⟩
  · rw [first.2.1 interrupted]
  · by_cases stores : Stores failures
    · have deletes : failures .domainDeleteAll = none := by
        by_contra fails
        exact completes ⟨stores, fails⟩
      have none : getOldDomains (domainDeleteAll s.hosts) = [] := by
        rw [getOldDomains, localEntries_domainDeleteAll]
        rfl
      rw [first.1 stores deletes, none, List.append_nil]
    · rw [first.2.2 stores]

theorem count_getOldDomains (member : name ∈ getOldDomains hosts) :
    (getOldDomains hosts).count name = 1 := by
  rw [getOldDomains_eq] at member ⊢
  exact List.count_eq_one_of_mem (nodup_distinct _) member

theorem migrates_iff (old : oldVersion < 4) : Migrates env env' failures oldVersion s ↔
    s.domains.Nodup ∧
    (∀ entry ∈ localEntries s.hosts, domainsOf entry ≠ ([], []) →
      (domainsOf entry).1 ∉ s.domains) ∧
    (∀ name ∈ oldNames s.hosts, name ∈ s.domains ∨
      ∃ entry ∈ localEntries s.hosts, name = (domainsOf entry).1) ∧
    (Interrupted failures → ∀ entry ∈ localEntries s.hosts, (domainsOf entry).1 = []) := by
  have some_iff (entry : Entry) : domainsOf entry ≠ ([], []) ↔
      (domainsOf entry).1 ≠ [] ∨ (domainsOf entry).2 ≠ [] := by
    rw [Ne, Prod.ext_iff, not_and_or]
  have outcome := domains_repeatedSetup env env' failures old s
  have least (name : Name) : s.domains.count name + (getOldDomains s.hosts).count name ≤
      (repeatedSetup env env' failures oldVersion s).domains.count name := by
    by_cases interrupted : Interrupted failures
    · rw [outcome.1 interrupted, List.count_append, List.count_append]
      exact Nat.le_add_right _ _
    · rw [outcome.2 interrupted, List.count_append]
  constructor
  · intro migrates
    have bound {name : Name} (wanted : name ∈ s.domains ∨ name ∈ oldNames s.hosts) :
        s.domains.count name + (getOldDomains s.hosts).count name ≤ 1 :=
      (least name).trans (migrates name wanted).1.le
    refine ⟨?_, ?_, ?_, ?_⟩
    · rw [List.nodup_iff_count_le_one]
      intro name
      by_cases member : name ∈ s.domains
      · exact (Nat.le_add_right _ _).trans (bound (.inl member))
      · rw [List.count_eq_zero_of_not_mem member]
        exact Nat.zero_le _
    · intro entry listed some member
      have given : (domainsOf entry).1 ∈ getOldDomains s.hosts :=
        mem_getOldDomains.mpr ⟨entry, listed, rfl, (some_iff entry).mp some⟩
      have once := bound (.inl member)
      have stored := List.count_pos_iff.mpr member
      rw [count_getOldDomains given] at once
      omega
    · intro name wanted
      by_contra missing
      rw [not_or] at missing
      have absent : name ∉ getOldDomains s.hosts := by
        intro member
        obtain ⟨entry, listed, same, -⟩ := mem_getOldDomains.mp member
        exact missing.2 ⟨entry, listed, same⟩
      have once := (migrates name (.inr wanted)).1
      by_cases interrupted : Interrupted failures
      · rw [outcome.1 interrupted, List.count_append, List.count_append,
          List.count_eq_zero_of_not_mem missing.1, List.count_eq_zero_of_not_mem absent] at once
        cases once
      · rw [outcome.2 interrupted, List.count_append,
          List.count_eq_zero_of_not_mem missing.1, List.count_eq_zero_of_not_mem absent] at once
        cases once
    · intro interrupted entry listed
      by_contra nonempty
      have given : (domainsOf entry).1 ∈ getOldDomains s.hosts :=
        mem_getOldDomains.mpr ⟨entry, listed, rfl, .inl nonempty⟩
      have wanted : (domainsOf entry).1 ∈ oldNames s.hosts :=
        mem_oldNames.mpr ⟨entry, listed, .inl ⟨rfl, nonempty⟩⟩
      have once := (migrates _ (.inr wanted)).1
      rw [outcome.1 interrupted, List.count_append, List.count_append,
        count_getOldDomains given] at once
      omega
  · rintro ⟨nodup, fresh, covered, whole⟩ name wanted
    have once : (repeatedSetup env env' failures oldVersion s).domains.count name = 1 := by
      by_cases stored : name ∈ s.domains
      · have absent : name ∉ getOldDomains s.hosts := by
          intro member
          obtain ⟨entry, listed, rfl, some⟩ := mem_getOldDomains.mp member
          exact fresh entry listed ((some_iff entry).mpr some) stored
        have zero := List.count_eq_zero_of_not_mem absent
        have one := List.count_eq_one_of_mem nodup stored
        by_cases interrupted : Interrupted failures
        · rw [outcome.1 interrupted, List.count_append, List.count_append, zero, one]
        · rw [outcome.2 interrupted, List.count_append, zero, one]
      · have old := wanted.resolve_left stored
        have nonempty := ne_nil_of_mem_oldNames old
        obtain ⟨entry, listed, same⟩ := (covered name old).resolve_left stored
        have member : name ∈ getOldDomains s.hosts :=
          mem_getOldDomains.mpr ⟨entry, listed, same, .inl nonempty⟩
        have completes : ¬ Interrupted failures := by
          intro interrupted
          exact nonempty (same.trans (whole interrupted entry listed))
        rw [outcome.2 completes, List.count_append, List.count_eq_zero_of_not_mem stored,
          count_getOldDomains member]
    refine ⟨once, ?_⟩
    rw [domainDelete, ← List.count_eq_zero, List.count_erase_self, once]

/-- All domains are given, and are stored once after a repeated setup. -/
theorem migration_iff (env env' : Environment) (failures : Failures) (oldVersion : Nat)
    (s : System) (old : oldVersion < 4) :
    (GivesAll s.hosts ↔
      (∀ entry ∈ localEntries s.hosts, (domainsOf entry).1 = [] → (domainsOf entry).2 = []) ∧
      AllAnnounced given (fun entry => (domainsOf entry).2) [] (localEntries s.hosts)) ∧
    (Migrates env env' failures oldVersion s ↔
      s.domains.Nodup ∧
      (∀ entry ∈ localEntries s.hosts, domainsOf entry ≠ ([], []) →
        (domainsOf entry).1 ∉ s.domains) ∧
      (∀ name ∈ oldNames s.hosts, name ∈ s.domains ∨
        ∃ entry ∈ localEntries s.hosts, name = (domainsOf entry).1) ∧
      (Interrupted failures → ∀ entry ∈ localEntries s.hosts, (domainsOf entry).1 = [])) :=
  ⟨givesAll_iff s.hosts, migrates_iff old⟩

def aliasEntry : Entry where
  ipaddr := HOSTS_LOCAL_IP
  canonical := "example.org".toList
  aliases := ["example.com".toList]
  canonical_nonempty := by decide
  aliases_nonempty := by decide

def plainEntry : Entry where
  ipaddr := HOSTS_LOCAL_IP
  canonical := "example.org".toList
  aliases := []
  canonical_nonempty := by decide
  aliases_nonempty := by decide

def deletionFails : Failures
  | .domainDeleteAll => some (Exception.RuntimeError "")
  | _ => none

def restartFails : Failures
  | .restart => some (Exception.RuntimeError "")
  | _ => none

theorem alias_lost : ¬ GivesAll [aliasEntry] ∧
    ¬ Migrates ⟨true, true⟩ ⟨true, true⟩ deletionFails 3 ⟨[], [plainEntry]⟩ := by
  refine ⟨fun all => ?_, fun migrates => ?_⟩
  · have member : "example.com".toList ∈ oldNames [aliasEntry] := by
      refine mem_oldNames.mpr ⟨aliasEntry, List.mem_singleton_self _, .inr ?_⟩
      rw [← readEntry_eq]
      decide +kernel
    rw [← all] at member
    revert member
    decide +kernel
  · have interrupted : Interrupted deletionFails := ⟨⟨rfl, rfl, rfl, rfl⟩, by decide⟩
    have whole := (((migrates_iff (by decide)).mp migrates).2.2.2 interrupted) plainEntry
      (List.mem_singleton_self _)
    rw [← readEntry_eq] at whole
    revert whole
    decide +kernel

theorem plain_entry_migrates : GivesAll [plainEntry] ∧
    Migrates ⟨true, true⟩ ⟨true, true⟩ restartFails 3 ⟨["example.net".toList], [plainEntry]⟩ := by
  have entries : localEntries [plainEntry] = [plainEntry] := rfl
  have read : domainsOf plainEntry = ("example.org".toList, []) := by
    rw [← readEntry_eq]
    decide +kernel
  have completes : ¬ Interrupted restartFails := fun interrupted => interrupted.2 rfl
  have both := migration_iff ⟨true, true⟩ ⟨true, true⟩ restartFails 3
    ⟨["example.net".toList], [plainEntry]⟩ (by decide)
  constructor
  · apply both.1.mpr
    rw [entries]
    refine ⟨fun entry listed empty => ?_, ?_, trivial⟩
    · rw [List.mem_singleton.mp listed, read]
    · change Announced _ _ (domainsOf plainEntry).2
      rw [read]
      trivial
  · apply both.2.mpr
    refine ⟨List.nodup_singleton _, fun entry listed _ => ?_, fun name wanted => ?_,
      fun interrupted => absurd interrupted completes⟩
    · rw [List.mem_singleton.mp listed, read]
      decide +kernel
    · obtain ⟨entry, listed, ⟨same, -⟩ | kept⟩ := mem_oldNames.mp wanted
      · exact .inr ⟨entry, listed, same⟩
      · rw [List.mem_singleton.mp listed, read] at kept
        cases kept

end Plinth.StaticDomains
