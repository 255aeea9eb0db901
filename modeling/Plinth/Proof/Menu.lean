import Plinth.Lib.Runs
import Plinth.Model.Menu

/-! # Filtering the menu -/

namespace Plinth.Menu

open Effect Python Exception

/-! ## Items of a menu -/

mutual

def MenuItem.everything : MenuItem → List MenuItem
  | ⟨name, tags, order, items⟩ => ⟨name, tags, order, items⟩ :: allItems items

def allItems : List MenuItem → List MenuItem
  | [] => []
  | menuItem :: rest => menuItem.everything ++ allItems rest

end

theorem mem_everything_self (item : MenuItem) : item ∈ item.everything := by
  cases item
  exact List.mem_cons_self

theorem mem_allItems {items : List MenuItem} {sub : MenuItem} :
    sub ∈ allItems items ↔ ∃ item ∈ items, sub ∈ item.everything := by
  induction items with
  | nil => simp [allItems]
  | cons item items ih => simp [allItems, ih]

theorem mem_everything_iff {item sub : MenuItem} :
    sub ∈ item.everything ↔ sub = item ∨ sub ∈ allItems item.items := by
  cases item
  exact List.mem_cons

mutual

theorem everything_trans {item sub sub' : MenuItem} (member : sub ∈ item.everything)
    (member' : sub' ∈ sub.everything) : sub' ∈ item.everything := by
  cases item with
  | mk name tags order items =>
    obtain rfl | below := mem_everything_iff.mp member
    · exact member'
    · exact List.mem_cons_of_mem _ (allItems_trans below member')

theorem allItems_trans {items : List MenuItem} {sub sub' : MenuItem} (member : sub ∈ allItems items)
    (member' : sub' ∈ sub.everything) : sub' ∈ allItems items := by
  cases items with
  | nil => exact absurd member List.not_mem_nil
  | cons item items =>
    rw [allItems, List.mem_append] at member ⊢
    exact member.imp (everything_trans · member') (allItems_trans · member')

end

mutual

def MenuItem.allTags (lists : Lists) : MenuItem → List String
  | ⟨name, tags, order, items⟩ =>
    MenuItem.tagList ⟨name, tags, order, items⟩ lists ++ itemsTags lists items

def itemsTags (lists : Lists) : List MenuItem → List String
  | [] => []
  | menuItem :: rest => menuItem.allTags lists ++ itemsTags lists rest

end

def MenuItem.nearTags (lists : Lists) (item : MenuItem) : List String :=
  item.tagList lists ++ item.items.flatMap (·.tagList lists)

/-! ## What is to be shown -/

def Carries (lists : Lists) (selectedTags : List String) (item : MenuItem) : Prop :=
  selectedTags = [] ∨ ∃ tag ∈ selectedTags, tag ∈ item.allTags lists

instance decidableCarries (lists : Lists) (selectedTags : List String) :
    DecidablePred (Carries lists selectedTags) :=
  fun _ => inferInstanceAs (Decidable (_ ∨ _))

inductive Filtered (lists : Lists) (selectedTags : List String) :
    List MenuItem → List MenuProxy → Prop
  | mk {items : List MenuItem} {proxies : List MenuProxy}
      (same : (proxies.map MenuProxy.menuItem).Perm
        (items.filter fun item => Carries lists selectedTags item))
      (below : ∀ proxy ∈ proxies, Filtered lists selectedTags proxy.menuItem.items proxy.items) :
      Filtered lists selectedTags items proxies

structure Call where
  menuItems : List MenuItem
  selectedTags : List String

section Runs

variable (lower : String → String)

def Call.pick (call : Call) (lists : Lists) : Except Exception (List MenuProxy) :=
  ((pickMenuItems lower call.selectedTags call.menuItems).exec lists).1

def step (lists : Lists) (call : Call) : Lists :=
  ((pickMenuItems lower call.selectedTags call.menuItems).exec lists).2

def run (lists : Lists) (calls : List Call) : Lists :=
  calls.foldl (step lower) lists

/-- After any requests for items of the menu, the tags of the items are those that they had at
first, and another request shows what it would have shown at first. -/
structure PureFilter (menu : List MenuItem) (lists : Lists) : Prop where
  tags : ∀ calls : List Call, (∀ call ∈ calls, ∀ item ∈ call.menuItems, item ∈ allItems menu) →
    ∀ item ∈ allItems menu, item.tagList (run lower lists calls) = item.tagList lists
  shown : ∀ calls : List Call, (∀ call ∈ calls, ∀ item ∈ call.menuItems, item ∈ allItems menu) →
    ∀ call : Call, (∀ item ∈ call.menuItems, item ∈ allItems menu) →
      call.pick lower (run lower lists calls) = call.pick lower lists ∧
        ∃ proxies, call.pick lower lists = .ok proxies ∧
          Filtered lists call.selectedTags call.menuItems proxies

end Runs

/-- The item has a name; its list of tags is not extended; and the tags further below are among
those that are looked at. -/
structure Plain (lists : Lists) (item : MenuItem) : Prop where
  named : item.name ≠ none
  apart : item.tagList lists = [] ∨ ∀ child ∈ item.items, child.tagList lists = []
  near : ∀ tag ∈ item.allTags lists, tag ∈ item.nearTags lists

/-! ## Without a change -/

section Quiet

variable {lists : Lists}

theorem exec_extend_nothing {tags : Nat} {items : List MenuItem}
    (nothing : ∀ item ∈ items, item.tagList lists = []) :
    (extend tags items).exec lists = (.ok (), lists) := by
  induction items with
  | nil => rfl
  | cons item items ih =>
    obtain ⟨here, rest⟩ := List.forall_mem_cons.mp nothing
    rw [extend, forEach, exec_bind, exec_modify]
    dsimp only
    rw [here, List.append_nil, Function.update_eq_self]
    exact ih rest

theorem exec_collectTags_of_apart {item : MenuItem}
    (apart : item.tagList lists = [] ∨ ∀ child ∈ item.items, child.tagList lists = []) :
    (collectTags item).exec lists = (.ok (item.nearTags lists), lists) := by
  have none (children : ∀ child ∈ item.items, child.tagList lists = []) :
      item.items.flatMap (·.tagList lists) = [] := List.flatMap_eq_nil_iff.mpr children
  rw [collectTags, exec_bind, exec_get]
  dsimp only
  cases found : item.tags with
  | none =>
    have own : item.tagList lists = [] := by rw [MenuItem.tagList, found]
    rw [MenuItem.nearTags, own]
    rfl
  | some tags =>
    have own : item.tagList lists = lists tags := by rw [MenuItem.tagList, found]
    dsimp only
    split
    · rename_i empty
      rw [MenuItem.nearTags, own, empty]
      rfl
    · rename_i some
      have children := apart.resolve_left fun empty => some (own.symm.trans empty)
      rw [exec_bind, exec_extend_nothing children, MenuItem.nearTags, none children, own,
        List.append_nil]
      rfl

end Quiet

section Filter

variable {lower : String → String} {selectedTags : List String} {lists : Lists}

theorem length_of_mapM {α β : Type} {f : α → Except Exception β} {l : List α} {results : List β}
    (found : l.mapM f = .ok results) : results.length = l.length := by
  induction l generalizing results with
  | nil =>
    cases found
    rfl
  | cons a l ih =>
    rw [List.mapM_cons] at found
    obtain ⟨b, -, found⟩ := ok_of_bind found
    obtain ⟨rest, later, found⟩ := ok_of_bind found
    cases found
    rw [List.length_cons, List.length_cons, ih later]

theorem filterAndSort_perm {proxied result : List MenuProxy}
    (sorted : filterAndSort lower selectedTags proxied = .ok result) :
    result.Perm (proxied.filter (isMatching selectedTags)) := by
  obtain ⟨keys, found, sorted⟩ := ok_of_bind sorted
  obtain rfl := Except.ok.inj sorted
  have perm := (List.mergeSort_perm ((proxied.filter (isMatching selectedTags)).zip keys)
    fun a b => a.2.le b.2).map Prod.fst
  rwa [List.map_fst_zip (Nat.le_of_eq (length_of_mapM found).symm)] at perm

theorem filterAndSort_returns_iff {proxied : List MenuProxy} :
    (∃ result, filterAndSort lower selectedTags proxied = .ok result) ↔
      ∀ proxy ∈ proxied.filter (isMatching selectedTags), proxy.menuItem.name ≠ none := by
  have keyed (proxy : MenuProxy) :
      (∃ key, sortKey lower selectedTags proxy = .ok key) ↔ proxy.menuItem.name ≠ none := by
    unfold sortKey
    cases proxy.menuItem.name <;> simp
  simp only [← keyed]
  rw [← mapM_returns_iff]
  exact returns_bind_iff fun keys _ => ⟨_, rfl⟩

theorem isMatching_iff {proxy : MenuProxy} :
    isMatching selectedTags proxy = true ↔
      selectedTags = [] ∨ ∃ tag ∈ selectedTags, tag ∈ proxy.tags := by
  simp [isMatching, mismatchMap]

theorem mem_allTags_of_mem_tagList {item : MenuItem} {tag : String}
    (member : tag ∈ item.tagList lists) : tag ∈ item.allTags lists := by
  cases item
  exact List.mem_append_left _ member

theorem mem_itemsTags {items : List MenuItem} {tag : String} :
    tag ∈ itemsTags lists items ↔ ∃ item ∈ items, tag ∈ item.allTags lists := by
  induction items with
  | nil => simp [itemsTags]
  | cons item items ih => simp [itemsTags, ih]

theorem mem_allTags_of_mem_nearTags {item : MenuItem} {tag : String}
    (member : tag ∈ item.nearTags lists) : tag ∈ item.allTags lists := by
  cases item with
  | mk name tags order items =>
    obtain own | below := List.mem_append.mp member
    · exact List.mem_append_left _ own
    · obtain ⟨child, present, tagged⟩ := List.mem_flatMap.mp below
      exact List.mem_append_right _
        (mem_itemsTags.mpr ⟨child, present, mem_allTags_of_mem_tagList tagged⟩)

def Quiet (lists : Lists) (item : MenuItem) : Prop :=
  item.name ≠ none ∧ (item.tagList lists = [] ∨ ∀ child ∈ item.items, child.tagList lists = [])

def Near (lists : Lists) (item : MenuItem) : Prop :=
  ∀ tag ∈ item.allTags lists, tag ∈ item.nearTags lists

structure Proxies (lists : Lists) (selectedTags : List String) (items : List MenuItem)
    (proxied : List MenuProxy) : Prop where
  same : proxied.map MenuProxy.menuItem = items
  tags : ∀ proxy ∈ proxied, proxy.tags = proxy.menuItem.nearTags lists
  below : (∀ item ∈ allItems items, Near lists item) →
    ∀ proxy ∈ proxied, Filtered lists selectedTags proxy.menuItem.items proxy.items

theorem Proxies.filterAndSort {items : List MenuItem} {proxied : List MenuProxy}
    (proxies : Proxies lists selectedTags items proxied)
    (named : ∀ item ∈ items, item.name ≠ none) :
    ∃ result, filterAndSort lower selectedTags proxied = .ok result ∧
      ((∀ item ∈ allItems items, Near lists item) → Filtered lists selectedTags items result) := by
  have member {proxy : MenuProxy} (present : proxy ∈ proxied) : proxy.menuItem ∈ items :=
    proxies.same ▸ List.mem_map_of_mem present
  obtain ⟨result, sorted⟩ := (filterAndSort_returns_iff).mpr
    fun proxy present => named _ (member (List.mem_of_mem_filter present))
  refine ⟨result, sorted, fun near => ?_⟩
  have perm := filterAndSort_perm sorted
  have kept : proxied.filter (isMatching selectedTags) =
      proxied.filter fun proxy => Carries lists selectedTags proxy.menuItem := by
    apply List.filter_congr
    intro proxy present
    rw [Bool.eq_iff_iff, isMatching_iff, decide_eq_true_iff, proxies.tags proxy present, Carries]
    have whole := near proxy.menuItem
      (mem_allItems.mpr ⟨_, member present, mem_everything_self _⟩)
    have same (tag : String) : tag ∈ proxy.menuItem.nearTags lists ↔
        tag ∈ proxy.menuItem.allTags lists := ⟨mem_allTags_of_mem_nearTags, whole tag⟩
    simp only [same]
  refine .mk ?_ fun proxy present => ?_
  · rw [← proxies.same, List.filter_map]
    rw [kept] at perm
    exact perm.map _
  · exact proxies.below near proxy (List.mem_of_mem_filter (perm.mem_iff.mp present))

mutual

theorem exec_proxiedItem (item : MenuItem) (quiet : ∀ sub ∈ item.everything, Quiet lists sub) :
    ∃ proxy, (proxiedItem lower selectedTags item).exec lists = (.ok proxy, lists) ∧
      proxy.menuItem = item ∧ proxy.tags = item.nearTags lists ∧
      ((∀ sub ∈ allItems item.items, Near lists sub) →
        Filtered lists selectedTags item.items proxy.items) := by
  cases item with
  | mk name tags order items =>
    have below : ∀ sub ∈ allItems items, Quiet lists sub :=
      fun sub member => quiet sub (List.mem_cons_of_mem _ member)
    have collected := exec_collectTags_of_apart (quiet _ (mem_everything_self _)).2
    obtain ⟨proxied, ran, proxies⟩ := exec_proxiedItems items below
    obtain ⟨result, sorted, filtered⟩ := proxies.filterAndSort
      fun child member => (below child (mem_allItems.mpr ⟨child, member, mem_everything_self _⟩)).1
    refine ⟨⟨⟨name, tags, order, items⟩, _, result⟩, ?_, rfl, rfl, filtered⟩
    refine exec_bind_eq_ok_iff.mpr ⟨_, _, collected, exec_bind_eq_ok_iff.mpr ⟨_, _, ran, ?_⟩⟩
    rw [sorted]
    rfl

theorem exec_proxiedItems (items : List MenuItem) (quiet : ∀ sub ∈ allItems items, Quiet lists sub) :
    ∃ proxied, (proxiedItems lower selectedTags items).exec lists = (.ok proxied, lists) ∧
      Proxies lists selectedTags items proxied := by
  cases items with
  | nil => exact ⟨[], rfl, rfl, by simp, by simp⟩
  | cons item rest =>
    obtain ⟨proxy, first, same, tags, below⟩ := exec_proxiedItem item
      fun sub member => quiet sub (List.mem_append_left _ member)
    obtain ⟨proxied, later, proxies⟩ := exec_proxiedItems rest
      fun sub member => quiet sub (List.mem_append_right _ member)
    refine ⟨proxy :: proxied, ?_, ?_, ?_, ?_⟩
    · exact exec_bind_eq_ok_iff.mpr ⟨_, _, first, exec_bind_eq_ok_iff.mpr ⟨_, _, later, rfl⟩⟩
    · rw [List.map_cons, same, proxies.same]
    · rw [List.forall_mem_cons, same]
      exact ⟨tags, proxies.tags⟩
    · intro near
      rw [List.forall_mem_cons, same]
      refine ⟨below fun sub member => near sub (List.mem_append_left _ ?_),
        proxies.below fun sub member => near sub (List.mem_append_right _ member)⟩
      exact mem_everything_iff.mpr (.inr member)

end

theorem exec_pickMenuItems {items : List MenuItem} (quiet : ∀ sub ∈ allItems items, Quiet lists sub) :
    ∃ result, (pickMenuItems lower selectedTags items).exec lists = (.ok result, lists) ∧
      ((∀ sub ∈ allItems items, Near lists sub) → Filtered lists selectedTags items result) := by
  obtain ⟨proxied, ran, proxies⟩ := exec_proxiedItems items quiet
  obtain ⟨result, sorted, filtered⟩ := proxies.filterAndSort
    fun item member => (quiet item (mem_allItems.mpr ⟨item, member, mem_everything_self _⟩)).1
  refine ⟨result, exec_bind_eq_ok_iff.mpr ⟨_, _, ran, ?_⟩, filtered⟩
  rw [exec_lift, sorted]

/-! ## With a change -/

def Exceeds (tags n : Nat) (lists : Lists) : Prop :=
  n < (lists tags).length

variable {tags n : Nat}

theorem exceeds_append {lists : Lists} (exceeds : Exceeds tags n lists) (tags' : Nat)
    (more : List String) :
    Exceeds tags n (Function.update lists tags' (lists tags' ++ more)) := by
  unfold Exceeds at *
  by_cases same : tags = tags'
  · subst same
    rw [Function.update_self, List.length_append]
    omega
  · rwa [Function.update_of_ne same]

theorem exceeds_extend (tags' : Nat) (items : List MenuItem) :
    Safe (Exceeds tags n) (extend tags' items) :=
  safe_forEach fun _ _ => Triple.modify fun _ exceeds => exceeds_append exceeds tags' _

theorem exceeds_collectTags (item : MenuItem) : Safe (Exceeds tags n) (collectTags item) := by
  refine safe_get.bind fun lists => ?_
  cases item.tags with
  | none => exact safe_pure _
  | some tags' =>
    dsimp only
    split
    · exact safe_pure _
    · exact (exceeds_extend tags' item.items).bind fun _ => safe_get.bind fun _ => safe_pure _

theorem exceeds_lift {α : Type} (result : Except Exception α) :
    Safe (Exceeds tags n) (lift result) := by
  cases result with
  | error e => exact safe_throw e
  | ok a => exact safe_pure a

mutual

theorem exceeds_proxiedItem (item : MenuItem) :
    Safe (Exceeds tags n) (proxiedItem lower selectedTags item) := by
  cases item with
  | mk name tags' order items =>
    exact (exceeds_collectTags _).bind fun _ => (exceeds_proxiedItems items).bind fun _ =>
      (exceeds_lift _).bind fun _ => safe_pure _

theorem exceeds_proxiedItems (items : List MenuItem) :
    Safe (Exceeds tags n) (proxiedItems lower selectedTags items) := by
  cases items with
  | nil => exact safe_pure _
  | cons item rest =>
    exact (exceeds_proxiedItem item).bind fun _ => (exceeds_proxiedItems rest).bind fun _ =>
      safe_pure _

end

theorem extend_exceeds {items : List MenuItem} {child : MenuItem} (member : child ∈ items)
    {lists : Lists} (some : child.tagList lists ≠ []) (atLeast : n ≤ (lists tags).length) :
    Exceeds tags n ((extend tags items).exec lists).2 := by
  induction items generalizing lists with
  | nil => exact absurd member List.not_mem_nil
  | cons item items ih =>
    have first : (extend tags (item :: items)).exec lists = (extend tags items).exec
        (Function.update lists tags (lists tags ++ item.tagList lists)) := by
      rw [extend, forEach, exec_bind, exec_modify]
      rfl
    rw [first]
    obtain rfl | later := List.mem_cons.mp member
    · refine (exceeds_extend tags items).final ?_
      have added := List.length_pos_iff.mpr some
      unfold Exceeds
      rw [Function.update_self, List.length_append]
      omega
    · refine ih later ?_ ?_
      · cases named : child.tags with
        | none =>
          rw [MenuItem.tagList, named] at some
          exact absurd rfl some
        | some tags' =>
          rw [MenuItem.tagList, named] at some ⊢
          have exceeds : Exceeds tags' 0 lists := List.length_pos_iff.mpr some
          exact List.length_pos_iff.mp (exceeds_append exceeds tags _)
      · rw [Function.update_self, List.length_append]
        omega

theorem pick_exceeds {item child : MenuItem} (named : item.tags = some tags)
    (own : lists tags ≠ []) (member : child ∈ item.items) (some : child.tagList lists ≠ []) :
    Exceeds tags (lists tags).length ((pickMenuItems lower selectedTags [item]).exec lists).2 := by
  have collected : Triple (· = lists) (collectTags item)
      (fun _ => Exceeds tags (lists tags).length) fun _ => Exceeds tags (lists tags).length := by
    intro lists' same
    have extended : Exceeds tags (lists tags).length ((extend tags item.items).exec lists).2 :=
      extend_exceeds member some (Nat.le_refl _)
    rw [same, collectTags, exec_bind, exec_get, named]
    dsimp only
    rw [if_neg own, exec_bind]
    rcases outcome : (extend tags item.items).exec lists with ⟨e | _, lists''⟩
    · rwa [outcome] at extended
    · rwa [outcome] at extended
  have one : Triple (· = lists) (proxiedItem lower selectedTags item)
      (fun _ => Exceeds tags (lists tags).length) fun _ => Exceeds tags (lists tags).length := by
    cases item with
    | mk name tags' order items =>
      exact collected.bind fun _ => (exceeds_proxiedItems items).bind fun _ =>
        (exceeds_lift _).bind fun _ => safe_pure _
  have all : Triple (· = lists) (proxiedItems lower selectedTags [item])
      (fun _ => Exceeds tags (lists tags).length) fun _ => Exceeds tags (lists tags).length :=
    one.bind fun _ => safe_pure _
  have whole : Triple (· = lists) (pickMenuItems lower selectedTags [item])
      (fun _ => Exceeds tags (lists tags).length) fun _ => Exceeds tags (lists tags).length :=
    all.bind fun _ => exceeds_lift _
  exact whole.final rfl

/-! ## Proxies of items -/

theorem menuItem_of_returns {item : MenuItem} {proxy : MenuProxy} {lists lists' : Lists}
    (ran : (proxiedItem lower selectedTags item).exec lists = (.ok proxy, lists')) :
    proxy.menuItem = item := by
  cases item with
  | mk name tags order items =>
    obtain ⟨_, _, -, ran⟩ := returns_of_bind ran
    obtain ⟨_, _, -, ran⟩ := returns_of_bind ran
    obtain ⟨_, _, -, ran⟩ := returns_of_bind ran
    cases ran
    rfl

theorem named_of_returns {item : MenuItem} {result : List MenuProxy}
    (ran : ((pickMenuItems lower [] [item]).exec lists).1 = .ok result) : item.name ≠ none := by
  obtain ⟨proxied, _, found, sorted⟩ := returns_of_bind (Prod.ext ran rfl)
  obtain ⟨proxy, _, first, found⟩ := returns_of_bind found
  obtain ⟨rest, _, later, found⟩ := returns_of_bind found
  cases later
  cases found
  rw [exec_lift] at sorted
  have named := filterAndSort_returns_iff.mp ⟨_, congrArg Prod.fst sorted⟩ proxy
    (by simp [isMatching])
  rwa [menuItem_of_returns first] at named

end Filter

/-! ## The claimed filter -/

section Claim

variable {lower : String → String} {menu : List MenuItem} {lists : Lists}

theorem within {item : MenuItem} (member : item ∈ allItems menu) {sub : MenuItem}
    (below : sub ∈ allItems [item]) : sub ∈ allItems menu := by
  obtain ⟨_, present, inside⟩ := mem_allItems.mp below
  rw [List.mem_singleton.mp present] at inside
  exact allItems_trans member inside

theorem quiet_of_pure (pure : PureFilter lower menu lists) {item : MenuItem}
    (member : item ∈ allItems menu) : Quiet lists item := by
  have here : ∀ item' ∈ [item], item' ∈ allItems menu := by simpa using member
  constructor
  · obtain ⟨-, proxies, shown, -⟩ := pure.shown [] (by simp) ⟨[item], []⟩ here
    exact named_of_returns shown
  · by_contra changed
    rw [not_or] at changed
    obtain ⟨own, children⟩ := changed
    push Not at children
    obtain ⟨child, below, some⟩ := children
    have same := pure.tags [⟨[item], []⟩] (by simpa using member) item member
    cases named : item.tags with
    | none =>
      rw [MenuItem.tagList, named] at own
      exact own rfl
    | some tags =>
      rw [MenuItem.tagList, named] at own
      have exceeds : Exceeds tags (lists tags).length (run lower lists [⟨[item], []⟩]) :=
        pick_exceeds named own below some
      rw [MenuItem.tagList, MenuItem.tagList, named] at same
      exact absurd (congrArg List.length same) (Nat.ne_of_gt exceeds)

theorem near_of_pure (pure : PureFilter lower menu lists) {item : MenuItem}
    (member : item ∈ allItems menu) : Near lists item := by
  intro tag carried
  have quiet : ∀ sub ∈ allItems [item], Quiet lists sub :=
    fun sub below => quiet_of_pure pure (within member below)
  obtain ⟨-, proxies, shown, filtered⟩ := pure.shown [] (by simp) ⟨[item], [tag]⟩
    (by simpa using member)
  obtain ⟨proxied, ran, all⟩ : ∃ proxied, (proxiedItems lower [tag] [item]).exec lists =
      (.ok proxied, lists) ∧ Proxies lists [tag] [item] proxied := exec_proxiedItems [item] quiet
  have sorted : filterAndSort lower [tag] proxied = .ok proxies := by
    have picked : (((pickMenuItems lower [tag] [item]).exec lists).1 : Except _ _) =
        filterAndSort lower [tag] proxied := by
      rw [pickMenuItems, exec_bind, ran]
      dsimp only
      rw [exec_lift]
    exact picked.symm.trans shown
  have perm := filterAndSort_perm sorted
  cases filtered with
  | mk same below =>
    have kept : item ∈ [item].filter fun item => Carries lists [tag] item := by
      simp [Carries, carried]
    obtain ⟨proxy, present, rfl⟩ := List.mem_map.mp (same.mem_iff.mpr kept)
    obtain ⟨inside, matching⟩ := List.mem_filter.mp (perm.mem_iff.mp present)
    have tagged : tag ∈ proxy.tags := by
      obtain none | ⟨tag', selected, tagged⟩ := isMatching_iff.mp matching
      · cases none
      · rwa [List.mem_singleton.mp selected] at tagged
    rwa [all.tags proxy inside] at tagged

/-- Filtering the menu changes nothing and shows the right items, in every run of requests, exactly
when no list of tags is extended and no tag is further below than the next level. -/
theorem pure_filter_iff (lower : String → String) (menu : List MenuItem) (lists : Lists) :
    PureFilter lower menu lists ↔ ∀ item ∈ allItems menu, Plain lists item := by
  constructor
  · intro pure item member
    obtain ⟨named, apart⟩ := quiet_of_pure pure member
    exact ⟨named, apart, near_of_pure pure member⟩
  · intro plain
    have quiet (call : Call) (inside : ∀ item ∈ call.menuItems, item ∈ allItems menu) :
        ∃ result, (pickMenuItems lower call.selectedTags call.menuItems).exec lists =
          (.ok result, lists) ∧ Filtered lists call.selectedTags call.menuItems result := by
      have whole : ∀ sub ∈ allItems call.menuItems, Plain lists sub := by
        intro sub below
        obtain ⟨item, member, below⟩ := mem_allItems.mp below
        exact plain sub (allItems_trans (inside item member) below)
      obtain ⟨result, ran, filtered⟩ := exec_pickMenuItems
        fun sub below => ⟨(whole sub below).named, (whole sub below).apart⟩
      exact ⟨result, ran, filtered fun sub below => (whole sub below).near⟩
    have same (calls : List Call)
        (inside : ∀ call ∈ calls, ∀ item ∈ call.menuItems, item ∈ allItems menu) :
        run lower lists calls = lists := by
      induction calls with
      | nil => rfl
      | cons call calls ih =>
        obtain ⟨here, rest⟩ := List.forall_mem_cons.mp inside
        obtain ⟨result, ran, -⟩ := quiet call here
        have unchanged : step lower lists call = lists := by rw [step, ran]
        rw [run, List.foldl_cons, unchanged]
        exact ih rest
    refine ⟨fun calls inside item _ => by rw [same calls inside], ?_⟩
    intro calls inside call here
    obtain ⟨result, ran, filtered⟩ := quiet call here
    rw [same calls inside]
    exact ⟨rfl, result, congrArg Prod.fst ran, filtered⟩

theorem tags_of_child_added :
    ¬ PureFilter id [⟨some "Sharing", some 0, 50, [⟨some "Links", some 1, 50, []⟩]⟩]
      (fun tags => if tags = 0 then ["files"] else ["web"]) := by
  intro pure
  obtain ⟨-, none | none⟩ := quiet_of_pure pure List.mem_cons_self
  · exact List.cons_ne_nil _ _ none
  · exact List.cons_ne_nil _ _ (none _ List.mem_cons_self)

end Claim

/-! ## The active item -/

section Active

variable {menu : List UrlItem} {path : List Char} {best : Best} {seen : List (UrlItem × Nat)}

theorem commonPrefix_of_starts {url path : List Char} (starts : url <+: path) :
    commonPrefix url path = url := by
  obtain ⟨rest, rfl⟩ := starts
  induction url with
  | nil => simp [commonPrefix]
  | cons c url ih => simp [commonPrefix, ih]

theorem considerItem_of_starts {next : UrlItem × Nat} (starts : next.1.url <+: path) :
    considerItem path best next =
      if best.1.length < next.1.url.length then (next.1.url, some next.2) else best := by
  have begins : next.1.url.isPrefixOf path = true := List.isPrefixOf_iff_prefix.mpr starts
  simp [considerItem, commonPrefix_of_starts starts, begins]

def Tracks (seen : List (UrlItem × Nat)) (path : List Char) (best : Best) : Prop :=
  (best = ([], none) ∧ ∀ other ∈ seen, other.1.url <+: path → other.1.url = []) ∨
    ∃ urlitem ∈ seen, best = (urlitem.1.url, some urlitem.2) ∧ IsBest seen path urlitem

theorem Tracks.longest (tracks : Tracks seen path best) :
    ∀ other ∈ seen, other.1.url <+: path → other.1.url.length ≤ best.1.length := by
  intro other member starts
  rcases tracks with ⟨rfl, none_⟩ | ⟨urlitem, _, rfl, _, _, longest⟩
  · simp [none_ other member starts]
  · rcases longest other member starts with shorter | ⟨same, _⟩
    · exact Nat.le_of_lt shorter
    · exact Nat.le_of_eq (congrArg List.length same)

theorem Tracks.consider (tracks : Tracks seen path best) (next : UrlItem × Nat)
    (later : ∀ other ∈ seen, other.2 < next.2) :
    Tracks (seen ++ [next]) path (considerItem path best next) := by
  by_cases starts : next.1.url <+: path
  · rw [considerItem_of_starts starts]
    split
    · rename_i longer
      have something : next.1.url ≠ [] := fun none_ => by simp [none_] at longer
      refine .inr ⟨next, by simp, rfl, something, starts, ?_⟩
      intro other member starts'
      rcases List.mem_append.mp member with before | last
      · exact .inl (Nat.lt_of_le_of_lt (tracks.longest other before starts') longer)
      · rw [List.mem_singleton.mp last]
        exact .inr ⟨rfl, Nat.le_refl _⟩
    · rename_i notLonger
      rcases tracks with ⟨rfl, none_⟩ | ⟨urlitem, member, rfl, something, starts', longest⟩
      · have empty : next.1.url = [] := by simpa using notLonger
        refine .inl ⟨rfl, ?_⟩
        simpa [or_imp, forall_and, empty] using none_
      · refine .inr ⟨urlitem, by simp [member], rfl, something, starts', ?_⟩
        intro other member' starts''
        rcases List.mem_append.mp member' with before | last
        · exact longest other before starts''
        · obtain rfl := List.mem_singleton.mp last
          rcases Nat.lt_or_eq_of_le (Nat.le_of_not_lt notLonger) with shorter | same
          · exact .inl shorter
          · have url := (List.prefix_of_prefix_length_le starts starts' same.le).eq_of_length same
            exact .inr ⟨url, (later urlitem member).le⟩
  · have skipped : considerItem path best next = best := by simp [considerItem, starts]
    rw [skipped]
    rcases tracks with ⟨rfl, none_⟩ | ⟨urlitem, member, rfl, something, starts', longest⟩
    · refine .inl ⟨rfl, ?_⟩
      simpa [or_imp, forall_and, starts] using none_
    · refine .inr ⟨urlitem, by simp [member], rfl, something, starts', ?_⟩
      simpa [or_imp, forall_and, starts] using longest

theorem Tracks.foldl (tracks : Tracks seen path best) (rest : List (UrlItem × Nat))
    (sorted : (seen ++ rest).Pairwise fun a b => a.2 < b.2) :
    Tracks (seen ++ rest) path (rest.foldl (considerItem path) best) := by
  induction rest generalizing seen best with
  | nil => simpa using tracks
  | cons next rest ih =>
    have later : ∀ other ∈ seen, other.2 < next.2 := fun other member =>
      (List.pairwise_append.mp sorted).2.2 other member next List.mem_cons_self
    rw [List.append_cons] at sorted ⊢
    exact ih (tracks.consider next later) sorted

theorem tracks_menu (menu : List UrlItem) (path : List Char) :
    Tracks menu.zipIdx path (menu.zipIdx.foldl (considerItem path) ([], none)) := by
  have sorted : menu.zipIdx.Pairwise fun a b => a.2 < b.2 := by
    rw [← List.pairwise_map (f := Prod.snd) (R := fun a b => a < b), List.zipIdx_map_snd]
    exact List.pairwise_lt_range'
  have empty : Tracks [] path ([], none) := .inl ⟨rfl, by simp⟩
  exact empty.foldl menu.zipIdx sorted

theorem IsBest.unique {a b : UrlItem × Nat} (best : IsBest menu.zipIdx path a)
    (best' : IsBest menu.zipIdx path b) (member : a ∈ menu.zipIdx) (member' : b ∈ menu.zipIdx) :
    a = b := by
  have index : a.2 = b.2 := by
    rcases best.2.2 b member' best'.2.1 with shorter | ⟨_, before⟩
    · rcases best'.2.2 a member best.2.1 with shorter' | ⟨same, _⟩
      · omega
      · simp [same] at shorter
    · rcases best'.2.2 a member best.2.1 with shorter' | ⟨_, before'⟩
      · simp_all
      · omega
  have item := List.mem_zipIdx_iff_getElem?.mp member
  have item' := List.mem_zipIdx_iff_getElem?.mp member'
  rw [index, item'] at item
  exact Prod.ext (Option.some.inj item).symm index

theorem markActiveMenuitem_eq (menu : List UrlItem) (path : List Char) :
    markActiveMenuitem menu path = menu.zipIdx.map fun urlitem =>
      urlitem.1.mark (decide (IsBest menu.zipIdx path urlitem)) := by
  apply List.ext_getElem?
  intro i
  rw [List.getElem?_map, List.getElem?_zipIdx]
  rcases tracks_menu menu path with ⟨best, none_⟩ | ⟨urlitem, member, best, isBest⟩
  · have never : ∀ urlitem ∈ menu.zipIdx, ¬ IsBest menu.zipIdx path urlitem :=
      fun urlitem member isBest => isBest.1 (none_ urlitem member isBest.2.1)
    cases found : menu[i]? with
    | none => simp [markActiveMenuitem, best, found]
    | some item =>
      have notBest := never (item, i) (List.mem_zipIdx_iff_getElem?.mpr found)
      simp [markActiveMenuitem, best, found, notBest]
  · cases found : menu[i]? with
    | none => simp [markActiveMenuitem, best, found, List.getElem?_modify]
    | some item =>
      have member' : (item, i) ∈ menu.zipIdx := List.mem_zipIdx_iff_getElem?.mpr found
      by_cases same : urlitem.2 = i
      · have equal : urlitem = (item, i) := by
          have there := List.mem_zipIdx_iff_getElem?.mp member
          rw [same, found] at there
          exact Prod.ext (Option.some.inj there).symm same
        rw [equal] at isBest
        simp [markActiveMenuitem, best, found, same, isBest, UrlItem.mark]
      · have notBest : ¬ IsBest menu.zipIdx path (item, i) := fun isBest' =>
          same (congrArg Prod.snd (isBest.unique isBest' member member'))
        simp [markActiveMenuitem, best, found, same, notBest]

theorem markActiveMenuitem_unmarked (menu : List UrlItem) (path : List Char) :
    markActiveMenuitem (menu.map (UrlItem.mark false)) path = markActiveMenuitem menu path := by
  have again : (UrlItem.mark false) ∘ (UrlItem.mark false) = UrlItem.mark false := rfl
  simp only [markActiveMenuitem, List.zipIdx_map, List.foldl_map, List.map_map, again]
  rfl

theorem unmarked_markActiveMenuitem (menu : List UrlItem) (path : List Char) :
    (markActiveMenuitem menu path).map (UrlItem.mark false) = menu.map (UrlItem.mark false) := by
  rw [markActiveMenuitem_eq, List.map_map]
  conv_rhs => rw [← List.zipIdx_map_fst 0 menu, List.map_map]
  rfl

/-- Whatever has been visited before, the item of the longest URL that begins the path is the
active one, and the only one; there is one unless no URL begins the path. -/
theorem active_after_visits (menu : List UrlItem) (visits : List (List Char)) (path : List Char) :
    Runs.run markActiveMenuitem menu (visits ++ [path]) =
      (menu.zipIdx.map fun urlitem =>
        urlitem.1.mark (decide (IsBest menu.zipIdx path urlitem))) ∧
    ((∃! urlitem, urlitem ∈ menu.zipIdx ∧ IsBest menu.zipIdx path urlitem) ↔
      ∃ urlitem ∈ menu, urlitem.url ≠ [] ∧ urlitem.url <+: path) := by
  have kept : (Runs.run markActiveMenuitem menu visits).map (UrlItem.mark false) =
      menu.map (UrlItem.mark false) := by
    refine Runs.invariant_run (fun menu' => menu'.map (UrlItem.mark false) = menu.map (UrlItem.mark false))
      (fun menu' path' same => ?_) menu visits rfl
    rw [unmarked_markActiveMenuitem, same]
  constructor
  · rw [Runs.run_append, Runs.run_cons, Runs.run_nil, ← markActiveMenuitem_unmarked, kept,
      markActiveMenuitem_unmarked, markActiveMenuitem_eq]
  · constructor
    · intro ⟨urlitem, ⟨member, isBest⟩, _⟩
      exact ⟨urlitem.1, List.fst_mem_of_mem_zipIdx member, isBest.1, isBest.2.1⟩
    · intro ⟨item, member, something, starts⟩
      obtain ⟨i, found⟩ := List.mem_iff_getElem?.mp member
      have member' : (item, i) ∈ menu.zipIdx := List.mem_zipIdx_iff_getElem?.mpr found
      rcases tracks_menu menu path with ⟨_, none_⟩ | ⟨urlitem, there, _, isBest⟩
      · exact absurd (none_ (item, i) member' starts) something
      · exact ⟨urlitem, ⟨there, isBest⟩, fun other best => best.2.unique isBest best.1 there⟩

end Active

end Plinth.Menu
