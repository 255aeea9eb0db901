import Plinth.Lib.Distinct
import Plinth.Lib.Effect
import Plinth.Model.ErrorRedirect

/-!
# Redirects after errors end

A redirect leads to an item above the page in the menu, so that fewer items are above each page
than above the one before.
-/

namespace Plinth.ErrorRedirect

open Python Exception Distinct Effect

variable {menus : List MenuItem} {site : Site} {item above : MenuItem} {n : Nat}

/-! ## What is relied on -/

inductive Above (menus : List MenuItem) : MenuItem → MenuItem → Prop
  | self (item : MenuItem) : Above menus item item
  | parent {item other above : MenuItem} {name : Name} (link : item.parent = some name)
      (found : getWithUrlName menus name = .ok other) (rest : Above menus other above) :
      Above menus item above

structure IsMenu (menus : List MenuItem) : Prop where
  home : ∃ item ∈ menus, item.urlName = index
  parents : ∀ item ∈ menus, ∀ name, item.parent = some name → ∃ other ∈ menus, other.urlName = name
  top : ∀ item ∈ menus, item.parent = none ↔ item.urlName = index

/-- The URL of an item is that of its page; where several items have this URL, the page may be that
of another one above it. -/
def Resolves (site : Site) : Prop :=
  ∀ name item, getWithUrlName site.menus name = .ok item → ∃ above found,
    Above site.menus item above ∧ above.url = item.url ∧ site.resolve item.url = some found ∧
    fullUrlName found = .ok above.urlName

/-! ## The items above -/

theorem getWithUrlName_ok {name : Name} (found : getWithUrlName menus name = .ok item) :
    item ∈ menus ∧ item.urlName = name := by
  rw [getWithUrlName] at found
  split at found
  · rename_i item' first
    cases found
    exact ⟨List.mem_of_find?_eq_some first, by simpa using List.find?_some first⟩
  · cases found

theorem getWithUrlName_self {name : Name} (found : getWithUrlName menus name = .ok item) :
    getWithUrlName menus item.urlName = .ok item := by
  rw [(getWithUrlName_ok found).2]
  exact found

theorem exists_getWithUrlName {name : Name} (named : ∃ item ∈ menus, item.urlName = name) :
    ∃ item, getWithUrlName menus name = .ok item := by
  obtain ⟨item, member, same⟩ := named
  rw [getWithUrlName]
  cases first : menus.find? fun item => item.urlName = name with
  | some found => exact ⟨found, rfl⟩
  | none =>
    have absent := List.find?_eq_none.mp first item member
    rw [decide_eq_true_eq] at absent
    exact absurd same absent

def ancestors (menus : List MenuItem) : Nat → MenuItem → Option (List MenuItem)
  | 0, _ => none
  | n + 1, item =>
    match item.parent with
    | none => some [item]
    | some name =>
      match getWithUrlName menus name with
      | .ok other => (ancestors menus n other).map (item :: ·)
      | .error _ => none

theorem ancestors_of_top (top : item.parent = none) (n : Nat) :
    ancestors menus (n + 1) item = some [item] := by
  rw [ancestors, top]

theorem ancestors_of_parent {name : Name} {other : MenuItem} (link : item.parent = some name)
    (found : getWithUrlName menus name = .ok other) (n : Nat) :
    ancestors menus (n + 1) item = (ancestors menus n other).map (item :: ·) := by
  rw [ancestors, link]
  dsimp only
  rw [found]

theorem climb_eq (isMenu : IsMenu menus) (request : Request) (member : item ∈ menus) (n : Nat)
    (breadcrumbs : Breadcrumbs) :
    climb menus request n item breadcrumbs = .ok ((ancestors menus n item).map fun items =>
      items.foldl (fun breadcrumbs item => addItem request item breadcrumbs) breadcrumbs) := by
  induction n generalizing item breadcrumbs with
  | zero => rfl
  | succ n ih =>
    rw [climb]
    cases link : item.parent with
    | none =>
      rw [ancestors_of_top link]
      rfl
    | some name =>
      obtain ⟨other, found⟩ := exists_getWithUrlName (isMenu.parents item member name link)
      rw [ancestors_of_parent link found, Option.map_map]
      dsimp only
      rw [found]
      exact ih (getWithUrlName_ok found).1 _

theorem ancestors_mono {m : Nat} {items : List MenuItem} (le : n ≤ m)
    (reached : ancestors menus n item = some items) : ancestors menus m item = some items := by
  induction n generalizing item m items with
  | zero => cases reached
  | succ n ih =>
    obtain ⟨m, rfl⟩ := Nat.exists_eq_add_of_le le
    rw [Nat.add_right_comm]
    rw [ancestors] at reached ⊢
    split at reached
    · exact reached
    · split at reached
      · obtain ⟨rest, found, rfl⟩ := Option.map_eq_some_iff.mp reached
        rw [ih (Nat.le_add_right n m) found]
        rfl
      · cases reached

theorem ancestors_of_above {items : List MenuItem} (isAbove : Above menus item above)
    (reached : ancestors menus n item = some items) :
    ∃ items', ancestors menus n above = some items' ∧ items'.length ≤ items.length := by
  induction isAbove generalizing n items with
  | self => exact ⟨items, reached, Nat.le_refl _⟩
  | parent link found rest ih =>
    cases n with
    | zero => cases reached
    | succ n =>
      rw [ancestors_of_parent link found] at reached
      obtain ⟨items', reached', rfl⟩ := Option.map_eq_some_iff.mp reached
      obtain ⟨last, found', fewer⟩ := ih reached'
      refine ⟨last, ancestors_mono (Nat.le_succ n) found', ?_⟩
      rw [List.length_cons]
      omega

theorem getWithUrlName_above {name : Name} (found : getWithUrlName menus name = .ok item)
    (isAbove : Above menus item above) : getWithUrlName menus above.urlName = .ok above := by
  induction isAbove generalizing name with
  | self => exact getWithUrlName_self found
  | parent link found' rest ih => exact ih found'

theorem ancestors_eq_cons {items : List MenuItem} (reached : ancestors menus n item = some items) :
    ∃ rest, items = item :: rest := by
  cases n with
  | zero => cases reached
  | succ n =>
    rw [ancestors] at reached
    split at reached
    · cases reached
      exact ⟨[], rfl⟩
    · split at reached
      · obtain ⟨rest, -, rfl⟩ := Option.map_eq_some_iff.mp reached
        exact ⟨rest, rfl⟩
      · cases reached

theorem length_ancestors {items : List MenuItem} (reached : ancestors menus n item = some items) :
    items.length ≤ n := by
  induction n generalizing item items with
  | zero => cases reached
  | succ n ih =>
    rw [ancestors] at reached
    split at reached
    · cases reached
      exact Nat.le_add_left 1 n
    · split at reached
      · obtain ⟨rest, reached', rfl⟩ := Option.map_eq_some_iff.mp reached
        exact Nat.succ_le_succ (ih reached')
      · cases reached

theorem parent_of_single (reached : ancestors menus n item = some [item]) : item.parent = none := by
  cases n with
  | zero => cases reached
  | succ n =>
    rw [ancestors] at reached
    split at reached
    · assumption
    · split at reached
      · obtain ⟨rest, reached', same⟩ := Option.map_eq_some_iff.mp reached
        obtain ⟨later, rfl⟩ := ancestors_eq_cons reached'
        cases same
      · cases reached

theorem mem_ancestors {items : List MenuItem} {other : MenuItem}
    (reached : ancestors menus n item = some (item :: items)) (member : other ∈ items) :
    (∃ name, getWithUrlName menus name = .ok other) ∧
    ∃ items', ancestors menus n other = some items' ∧ items'.length ≤ items.length := by
  induction n generalizing item items with
  | zero => cases reached
  | succ n ih =>
    rw [ancestors] at reached
    split at reached
    · cases reached
      cases member
    · rename_i name link
      split at reached
      · rename_i parent found
        obtain ⟨rest, reached', same⟩ := Option.map_eq_some_iff.mp reached
        obtain rfl := List.cons.inj same |>.2
        obtain ⟨later, rfl⟩ := ancestors_eq_cons reached'
        rcases List.mem_cons.mp member with rfl | member
        · exact ⟨⟨name, found⟩, _, ancestors_mono (Nat.le_succ n) reached', Nat.le_refl _⟩
        · obtain ⟨named, items', reached'', fewer⟩ := ih reached' member
          exact ⟨named, items', ancestors_mono (Nat.le_succ n) reached'', Nat.le_succ_of_le fewer⟩
      · cases reached

/-! ## The breadcrumbs -/

theorem keys_markActiveSection (breadcrumbs : Breadcrumbs) :
    (markActiveSection breadcrumbs).keys = breadcrumbs.keys := by
  rw [markActiveSection]
  split
  · rename_i url crumb found
    apply breadcrumbs.keys_set_of_mem
    exact List.mem_map_of_mem (List.mem_of_getElem? found)
  · rfl

theorem keys_foldl_addItem (request : Request) (items : List MenuItem) (breadcrumbs : Breadcrumbs) :
    (items.foldl (fun breadcrumbs item => addItem request item breadcrumbs) breadcrumbs).keys =
      breadcrumbs.keys ++ distinctFrom breadcrumbs.keys (items.map MenuItem.url) :=
  keys_foldl_set_map MenuItem.url _ items breadcrumbs

structure Begins (menus : List MenuItem) (request : Request) (here : Bool) (item : MenuItem) :
    Prop where
  found : ∃ name, getWithUrlName menus name = .ok item
  start : ∃ breadcrumbs : Breadcrumbs, start menus request = .ok (breadcrumbs, item) ∧
    breadcrumbs.keys = if here then [request.path] else []
  own : here = false → ∀ found, request.resolverMatch = some found →
    fullUrlName found = .ok item.urlName

theorem exists_begins (isMenu : IsMenu menus) (request : Request)
    (named : ∀ found, request.resolverMatch = some found → found.urlName ≠ none) :
    ∃ here item, Begins menus request here item := by
  obtain ⟨home, isHome⟩ := exists_getWithUrlName isMenu.home
  cases resolved : request.resolverMatch with
  | none =>
    refine ⟨false, home, ⟨index, isHome⟩, ⟨OrderedDict.empty, ?_, rfl⟩, ?_⟩
    · rw [start, resolved]
      exact bind_of_ok isHome rfl
    · intro _ found same
      rw [resolved] at same
      cases same
  | some match_ =>
    obtain ⟨urlName, hasName⟩ := Option.ne_none_iff_exists'.mp (named match_ resolved)
    have full : fullUrlName match_ = .ok (joinNames (match_.appNames ++ [urlName])) := by
      rw [fullUrlName, hasName]
    cases own : getWithUrlName menus (joinNames (match_.appNames ++ [urlName])) with
    | ok item =>
      refine ⟨false, item, ⟨_, own⟩, ⟨OrderedDict.empty, ?_, rfl⟩, ?_⟩
      · rw [start, resolved]
        dsimp only
        refine bind_of_ok full ?_
        rw [own]
        rfl
      · intro _ found same
        rw [resolved] at same
        cases same
        rw [full, (getWithUrlName_ok own).2]
    | error e =>
      have single : (add request request.path (some "Here")
          (some (joinNames (match_.appNames ++ [urlName]))) OrderedDict.empty).keys =
          [request.path] := rfl
      cases app : getWithUrlName menus (joinNames (match_.appNames ++ [index])) with
      | ok item =>
        refine ⟨true, item, ⟨_, app⟩, ⟨_, ?_, single⟩, nofun⟩
        rw [start, resolved]
        dsimp only
        refine bind_of_ok full ?_
        rw [own]
        dsimp only
        rw [app]
        rfl
      | error e' =>
        refine ⟨true, home, ⟨_, isHome⟩, ⟨_, ?_, single⟩, nofun⟩
        rw [start, resolved]
        dsimp only
        refine bind_of_ok full ?_
        rw [own]
        dsimp only
        rw [app]
        exact bind_of_ok isHome rfl

theorem Begins.keys (isMenu : IsMenu menus) {request : Request} {here : Bool}
    (begins : Begins menus request here item) :
    ∃ breadcrumbs, getBreadcrumbs menus request = .ok breadcrumbs ∧
      (∀ items, ancestors menus 10 item = some items → breadcrumbs.keys =
        distinct ((if here then [request.path] else []) ++ items.map MenuItem.url)) ∧
      (ancestors menus 10 item = none → ∃ home, getWithUrlName menus index = .ok home ∧
        breadcrumbs.keys = [home.url]) := by
  obtain ⟨name, found⟩ := begins.found
  obtain ⟨first, started, keys⟩ := begins.start
  have climbed := climb_eq isMenu request (getWithUrlName_ok found).1 10 first
  cases reached : ancestors menus 10 item with
  | some items =>
    rw [reached] at climbed
    refine ⟨_, bind_of_ok started (bind_of_ok climbed rfl), ?_, ?_⟩
    · rintro _ ⟨⟩
      rw [keys_markActiveSection, keys_foldl_addItem, keys, distinct, distinctFrom_append]
      cases here <;> rfl
    · intro none_
      cases none_
  | none =>
    obtain ⟨home, isHome⟩ := exists_getWithUrlName isMenu.home
    rw [reached] at climbed
    refine ⟨_, bind_of_ok started (bind_of_ok climbed (bind_of_ok isHome rfl)), ?_, ?_⟩
    · intro items some_
      cases some_
    · refine fun _ => ⟨home, isHome, ?_⟩
      rw [keys_markActiveSection]
      rfl

theorem getBreadcrumbs_of_unnamed (menus : List MenuItem) {request : Request}
    {found : ResolverMatch}
    (resolved : request.resolverMatch = some found) (unnamed : found.urlName = none) :
    ∃ e, getBreadcrumbs menus request = .error e := by
  have full : fullUrlName found =
      .error (TypeError "sequence item: expected str instance, NoneType found") := by
    rw [fullUrlName, unnamed]
  have started : start menus request =
      .error (TypeError "sequence item: expected str instance, NoneType found") := by
    rw [start, resolved]
    exact bind_of_error full
  exact ⟨_, bind_of_error started⟩

/-! ## How many items are above a page -/

def Site.height (site : Site) (path : Path) : Nat :=
  match site.resolve path with
  | none => 13
  | some found =>
    match start site.menus ⟨.get, path, some found⟩ with
    | .error _ => 0
    | .ok (breadcrumbs, item) =>
      match ancestors site.menus 10 item with
      | some items => breadcrumbs.keys.length + items.length
      | none => 12

def Site.IsHome (site : Site) (path : Path) : Prop :=
  ∃ found, site.resolve path = some found ∧ isHome found = true

theorem height_of_begins {path : Path} {found : ResolverMatch} {here : Bool}
    (resolved : site.resolve path = some found)
    (begins : Begins site.menus ⟨.get, path, some found⟩ here item) :
    (∀ items, ancestors site.menus 10 item = some items →
      site.height path = (if here then 1 else 0) + items.length) ∧
    (ancestors site.menus 10 item = none → site.height path = 12) := by
  obtain ⟨first, started, keys⟩ := begins.start
  rw [Site.height, resolved]
  dsimp only
  rw [started]
  dsimp only
  rw [keys]
  constructor
  · intro items reached
    rw [reached]
    cases here <;> rfl
  · intro reached
    rw [reached]

theorem height_of_item (resolves : Resolves site) {name : Name}
    (found : getWithUrlName site.menus name = .ok item) {items : List MenuItem}
    (reached : ancestors site.menus 10 item = some items) :
    site.height item.url ≤ items.length := by
  obtain ⟨above, match_, isAbove, -, resolved, full⟩ := resolves name item found
  obtain ⟨items', reached', fewer⟩ := ancestors_of_above isAbove reached
  have own := getWithUrlName_above found isAbove
  have begins : Begins site.menus ⟨.get, item.url, some match_⟩ false above := by
    refine ⟨⟨_, own⟩, ⟨OrderedDict.empty, ?_, rfl⟩, ?_⟩
    · refine bind_of_ok full ?_
      rw [own]
      rfl
    · rintro _ _ ⟨⟩
      exact full
  rw [(height_of_begins resolved begins).1 items' reached', if_neg Bool.false_ne_true, Nat.zero_add]
  exact fewer

theorem height_of_home (isMenu : IsMenu site.menus) (resolves : Resolves site) {home : MenuItem}
    (isHome : getWithUrlName site.menus index = .ok home) : site.height home.url ≤ 1 := by
  obtain ⟨member, named⟩ := getWithUrlName_ok isHome
  exact height_of_item resolves isHome (ancestors_of_top ((isMenu.top home member).mpr named) 9)

theorem isHome_of_full {found : ResolverMatch} (full : fullUrlName found = .ok index) :
    isHome found = true := by
  rw [fullUrlName] at full
  split at full
  · rename_i urlName named
    have joined := Except.ok.inj full
    have none : found.appNames = [] := by
      cases apps : found.appNames with
      | nil => rfl
      | cons app rest =>
        have member : ':' ∈ joinNames (found.appNames ++ [urlName]) := by
          rw [apps, joinNames, List.cons_append]
          cases more : rest ++ [urlName] with
          | nil => simp at more
          | cons next more => simp [List.intercalate]
        rw [joined] at member
        exact absurd member (by decide)
    rw [none] at joined
    have same : urlName = index := by
      rw [← joined, joinNames]
      simp [List.intercalate]
    rw [isHome, none, named, same]
    rfl
  · cases full

theorem height_redirect (isMenu : IsMenu site.menus) (resolves : Resolves site) {path url : Path}
    (notHome : ¬ site.IsHome path)
    (redirects : getRedirectUrlOnError site.menus (site.request ⟨.get, path⟩) = .ok url) :
    site.height url < site.height path := by
  obtain ⟨breadcrumbs, got, chosen⟩ := ok_of_bind redirects
  have second : breadcrumbs.keys[if 1 < breadcrumbs.keys.length then 1 else 0]? = some url := by
    dsimp only at chosen
    split at chosen
    · rename_i found
      cases chosen
      exact found
    · cases chosen
  have named : ∀ found, (site.request ⟨.get, path⟩).resolverMatch = some found →
      found.urlName ≠ none := by
    intro found resolved unnamed
    obtain ⟨e, raises⟩ := getBreadcrumbs_of_unnamed site.menus resolved unnamed
    rw [got] at raises
    cases raises
  obtain ⟨here, item, begins⟩ := exists_begins isMenu (site.request ⟨.get, path⟩) named
  obtain ⟨breadcrumbs', got', keys, reset⟩ := begins.keys isMenu
  obtain rfl := Except.ok.inj (got.symm.trans got')
  -- the height of a page is that of its item, and higher if the page has none of its own
  have height : (∀ items, ancestors site.menus 10 item = some items →
      (if here then 1 else 0) + items.length ≤ site.height path) ∧
      (ancestors site.menus 10 item = none → 12 ≤ site.height path) := by
    cases resolved : site.resolve path with
    | some found =>
      have same : site.request ⟨.get, path⟩ = ⟨.get, path, some found⟩ :=
        congrArg (Request.mk .get path) resolved
      rw [same] at begins
      obtain ⟨reached, high⟩ := height_of_begins resolved begins
      exact ⟨fun items found => (reached items found).ge, fun none => (high none).ge⟩
    | none =>
      have whole : site.height path = 13 := by
        rw [Site.height, resolved]
      refine ⟨fun items reached => ?_, fun _ => by omega⟩
      have few := length_ancestors reached
      split <;> omega
  cases reached : ancestors site.menus 10 item with
  | none =>
    obtain ⟨home, isHome, single⟩ := reset reached
    rw [single] at second
    obtain rfl := Option.some.inj second
    have low := height_of_home isMenu resolves isHome
    have high := height.2 reached
    omega
  | some items =>
    have high := height.1 items reached
    obtain ⟨rest, rfl⟩ := ancestors_eq_cons reached
    rw [keys _ reached] at second
    cases here with
    | true =>
      have member := mem_of_second path (by simp) second
      obtain ⟨other, inItems, rfl⟩ := List.mem_map.mp member
      have low : site.height other.url ≤ (item :: rest).length := by
        rcases List.mem_cons.mp inItems with rfl | inRest
        · obtain ⟨name, found⟩ := begins.found
          exact height_of_item resolves found reached
        · obtain ⟨⟨name, found⟩, items', reached', fewer⟩ := mem_ancestors reached inRest
          have low := height_of_item resolves found reached'
          rw [List.length_cons]
          omega
      rw [if_pos rfl] at high
      omega
    | false =>
      rw [if_neg Bool.false_ne_true, List.length_cons] at high
      cases rest with
      | cons next rest =>
        have member := mem_of_second item.url (by simp) second
        obtain ⟨other, inRest, rfl⟩ := List.mem_map.mp member
        obtain ⟨⟨name, found⟩, items', reached', fewer⟩ := mem_ancestors reached inRest
        have low := height_of_item resolves found reached'
        omega
      | nil =>
        obtain ⟨name, found⟩ := begins.found
        obtain ⟨member, -⟩ := getWithUrlName_ok found
        have top : item.parent = none := parent_of_single reached
        cases resolved : site.resolve path with
        | some match_ =>
          have full := begins.own rfl match_ resolved
          rw [(isMenu.top item member).mp top] at full
          exact absurd ⟨match_, resolved, isHome_of_full full⟩ notHome
        | none =>
          have whole : site.height path = 13 := by
            rw [Site.height, resolved]
          obtain rfl : item.url = url := Option.some.inj second
          have low := height_of_item resolves found reached
          rw [List.length_singleton] at low
          omega

/-! ## Following the redirects -/

def Site.rank (site : Site) (visit : Visit) : Nat :=
  match visit.method with
  | .get => site.height visit.path
  | .post => site.height visit.path + 1

theorem next_redirect {outcome : Outcome} {visit visit' : Visit}
    (next : site.next outcome visit = some visit') :
    ∃ url, visit' = ⟨.get, url⟩ ∧
      getRedirectUrlOnError site.menus (site.request visit) = .ok url ∧
      (outcome = .notAllowed ∨ ¬ site.IsHome visit.path) := by
  rw [Site.next] at next
  split at next
  · rename_i url messages responded
    cases next
    refine ⟨url, rfl, ?_⟩
    have handled (handled : processException site.menus (site.request visit) outcome =
        .ok (.redirect url, messages)) :
        getRedirectUrlOnError site.menus (site.request visit) = .ok url ∧
          (outcome = .notAllowed ∨ ¬ site.IsHome visit.path) := by
      rw [processException] at handled
      split at handled
      · cases handled
      · split at handled
        · cases handled
        · rename_i found resolved
          split at handled
          · cases handled
          · rename_i other
            obtain ⟨url', redirects, same⟩ := ok_of_bind handled
            cases same
            refine ⟨redirects, .inr ?_⟩
            rintro ⟨found', resolved', isHome⟩
            obtain rfl := Option.some.inj (resolved.symm.trans resolved')
            exact other isHome
    cases outcome with
    | response => cases responded
    | notAllowed =>
      obtain ⟨url', redirects, same⟩ := ok_of_bind responded
      cases same
      exact ⟨redirects, .inl rfl⟩
    | operationalError => exact handled responded
    | http404 => exact handled responded
    | otherException => exact handled responded
  · cases next

theorem rank_next (isMenu : IsMenu site.menus) (resolves : Resolves site) {outcome : Outcome}
    {visit visit' : Visit} (next : site.next outcome visit = some visit')
    (allows : visit.method = .get → site.IsHome visit.path → outcome ≠ .notAllowed) :
    site.rank visit' < site.rank visit := by
  obtain ⟨url, rfl, redirects, cause⟩ := next_redirect next
  obtain ⟨method, path⟩ := visit
  cases method with
  | post =>
    obtain rfl := Except.ok.inj redirects
    exact Nat.lt_succ_self _
  | get =>
    apply height_redirect isMenu resolves _ redirects
    intro home
    rcases cause with rfl | other
    · exact allows rfl home rfl
    · exact other home

/-- A page is not visited twice with the same method, and at some time there is no redirect. The
home page does not reject GET requests. -/
def RedirectsEnd (site : Site) : Prop :=
  ∀ (view : Nat → Visit → Outcome) (visit : Visit),
    (∀ n path, site.IsHome path → view n ⟨.get, path⟩ ≠ .notAllowed) →
    (∀ i j visit', site.visitAt view visit i = some visit' →
      site.visitAt view visit j = some visit' → i = j) ∧
    ∃ n, site.visitAt view visit n = none

theorem rank_visitAt (isMenu : IsMenu site.menus) (resolves : Resolves site)
    {view : Nat → Visit → Outcome} {visit : Visit}
    (allows : ∀ n path, site.IsHome path → view n ⟨.get, path⟩ ≠ .notAllowed) {i k : Nat}
    {first last : Visit} (before : site.visitAt view visit i = some first)
    (after : site.visitAt view visit (i + k) = some last) :
    site.rank last + k ≤ site.rank first := by
  induction k generalizing last with
  | zero =>
    obtain rfl := Option.some.inj (before.symm.trans after)
    exact Nat.le_refl _
  | succ k ih =>
    obtain ⟨middle, reached, next⟩ := Option.bind_eq_some_iff.mp after
    have earlier := ih reached
    have lower := rank_next isMenu resolves next fun get home => by
      have same : middle = ⟨.get, middle.path⟩ := by rw [← get]
      rw [same]
      exact allows (i + k) middle.path home
    omega

theorem redirectsEnd (isMenu : IsMenu site.menus) (resolves : Resolves site) :
    RedirectsEnd site := by
  intro view visit allows
  have apart {i k : Nat} {visit' : Visit} (before : site.visitAt view visit i = some visit')
      (after : site.visitAt view visit (i + k) = some visit') : k = 0 := by
    have lower := rank_visitAt isMenu resolves allows before after
    omega
  constructor
  · intro i j visit' first second
    rcases Nat.le_total i j with le | le
    · obtain ⟨k, rfl⟩ := Nat.exists_eq_add_of_le le
      rw [apart first second, Nat.add_zero]
    · obtain ⟨k, rfl⟩ := Nat.exists_eq_add_of_le le
      rw [apart second first, Nat.add_zero]
  · refine ⟨site.rank visit + 1, ?_⟩
    cases reached : site.visitAt view visit (site.rank visit + 1) with
    | none => rfl
    | some last =>
      rw [← Nat.zero_add (site.rank visit + 1)] at reached
      have lower := rank_visitAt isMenu resolves allows (i := 0) rfl reached
      omega

def HasBreadcrumbs (site : Site) : Prop :=
  ∀ visit found, site.resolve visit.path = some found → ∃ breadcrumbs,
    getBreadcrumbs site.menus (site.request visit) = .ok breadcrumbs ∧ breadcrumbs.keys ≠ []

theorem error_redirects_end_iff (site : Site) (isMenu : IsMenu site.menus)
    (resolves : Resolves site) : HasBreadcrumbs site ∧ RedirectsEnd site ↔
      ∀ path found, site.resolve path = some found → found.urlName ≠ none := by
  constructor
  · rintro ⟨shown, -⟩ path found resolved unnamed
    obtain ⟨breadcrumbs, got, -⟩ := shown ⟨.get, path⟩ found resolved
    have resolved' : (site.request ⟨.get, path⟩).resolverMatch = some found := resolved
    obtain ⟨e, raises⟩ := getBreadcrumbs_of_unnamed site.menus resolved' unnamed
    rw [got] at raises
    cases raises
  · intro named
    refine ⟨?_, redirectsEnd isMenu resolves⟩
    intro visit found resolved
    obtain ⟨here, item, begins⟩ := exists_begins isMenu (site.request visit) fun found' resolved' =>
      named visit.path found' resolved'
    obtain ⟨breadcrumbs, got, keys, reset⟩ := begins.keys isMenu
    refine ⟨breadcrumbs, got, ?_⟩
    cases reached : ancestors site.menus 10 item with
    | none =>
      obtain ⟨home, -, single⟩ := reset reached
      rw [single]
      exact List.cons_ne_nil _ _
    | some items =>
      obtain ⟨rest, rfl⟩ := ancestors_eq_cons reached
      rw [keys _ reached]
      apply List.ne_nil_of_mem (a := item.url)
      rw [mem_distinct]
      simp

/-! ## A page without a name -/

def homeItem : MenuItem :=
  ⟨some "Home", "/".toList, index, none⟩

def appsItem : MenuItem :=
  ⟨some "Apps", "/apps/".toList, "apps".toList, some index⟩

def smallSite (shortcuts : Option Name) : Site where
  menus := [homeItem, appsItem]
  resolve path :=
    if path = "/".toList then some ⟨[], some index⟩
    else if path = "/apps/".toList then some ⟨[], some "apps".toList⟩
    else if path = "/api/1/shortcuts".toList then some ⟨["api".toList], shortcuts⟩
    else none

theorem isMenu_small (shortcuts : Option Name) : IsMenu (smallSite shortcuts).menus where
  home := ⟨homeItem, List.mem_cons_self, rfl⟩
  parents := by
    intro item member name link
    rcases List.mem_cons.mp member with rfl | member
    · cases link
    · obtain rfl := List.mem_singleton.mp member
      obtain rfl := Option.some.inj link
      exact ⟨homeItem, List.mem_cons_self, rfl⟩
  top := by
    have all : ∀ item ∈ [homeItem, appsItem], item.parent = none ↔ item.urlName = index := by
      decide
    exact all

theorem resolves_small (shortcuts : Option Name) : Resolves (smallSite shortcuts) := by
  intro name item found
  obtain ⟨member, -⟩ := getWithUrlName_ok found
  rcases List.mem_cons.mp member with rfl | member
  · exact ⟨_, _, .self _, rfl, rfl, rfl⟩
  · obtain rfl := List.mem_singleton.mp member
    exact ⟨_, _, .self _, rfl, rfl, rfl⟩

theorem named_pages_redirect :
    HasBreadcrumbs (smallSite (some "shortcuts".toList)) ∧
      RedirectsEnd (smallSite (some "shortcuts".toList)) := by
  apply (error_redirects_end_iff _ (isMenu_small _) (resolves_small _)).mpr
  intro path found resolved
  rw [smallSite] at resolved
  dsimp only at resolved
  split at resolved
  · cases resolved
    exact Option.some_ne_none _
  · split at resolved
    · cases resolved
      exact Option.some_ne_none _
    · split at resolved
      · cases resolved
        exact Option.some_ne_none _
      · cases resolved

theorem unnamed_page_raises : ¬ (HasBreadcrumbs (smallSite none) ∧ RedirectsEnd (smallSite none)) := by
  rintro ⟨shown, -⟩
  have resolved : ((smallSite none).request ⟨.get, "/api/1/shortcuts".toList⟩).resolverMatch =
      some ⟨["api".toList], none⟩ := rfl
  obtain ⟨breadcrumbs, got, -⟩ := shown ⟨.get, "/api/1/shortcuts".toList⟩ ⟨["api".toList], none⟩ rfl
  obtain ⟨e, raises⟩ := getBreadcrumbs_of_unnamed (smallSite none).menus resolved rfl
  rw [got] at raises
  cases raises

end Plinth.ErrorRedirect
