import Mathlib.Logic.Function.Basic
import Plinth.Lib.Effect
import Plinth.Lib.Python.Value

/-!
# The menu

`_pick_menu_items` of `plinth/views.py`. An item is given with the items below it. Its tags are a
list object, which the function may change.
-/

namespace Plinth.Menu

open Effect Python Exception

structure MenuItem where
  name : Option String
  tags : Option Nat
  order : Rat
  items : List MenuItem

abbrev Lists := Nat → List String

/-- `item.tags or []` -/
def MenuItem.tagList (item : MenuItem) (lists : Lists) : List String :=
  match item.tags with
  | none => []
  | some tags => lists tags

structure MenuProxy where
  menuItem : MenuItem
  tags : List String
  items : List MenuProxy

abbrev Picking := Effect Lists Exception

/-- `tags += item.tags or []` for the items below -/
def extend (tags : Nat) (items : List MenuItem) : Picking Unit :=
  forEach items fun item => modify fun lists =>
    Function.update lists tags (lists tags ++ item.tagList lists)

def collectTags (menuItem : MenuItem) : Picking (List String) := do
  let lists ← get
  match menuItem.tags with
  | none => return menuItem.items.flatMap (·.tagList lists)
  | some tags =>
    if lists tags = [] then return menuItem.items.flatMap (·.tagList lists)
    else do
      extend tags menuItem.items
      return (← get) tags

def mismatchMap (selectedTags menuTags : List String) : List Bool :=
  selectedTags.map fun tag => tag ∉ menuTags

structure SortKey where
  mismatches : Nat
  mismatchMap : List Bool
  order : Rat
  name : String

def boolsLe : List Bool → List Bool → Bool
  | a :: l, b :: l' => if a = b then boolsLe l l' else b
  | _, _ => true

def textLe : List Char → List Char → Bool
  | [], _ => true
  | _ :: _, [] => false
  | a :: l, b :: l' => if a = b then textLe l l' else a.toNat < b.toNat

def SortKey.le (a b : SortKey) : Bool :=
  if a.mismatches ≠ b.mismatches then a.mismatches < b.mismatches
  else if a.mismatchMap ≠ b.mismatchMap then boolsLe a.mismatchMap b.mismatchMap
  else if a.order.blt b.order then true
  else if b.order.blt a.order then false
  else textLe a.name.toList b.name.toList

section Pick

variable (lower : String → String) (selectedTags : List String)

def sortKey (proxy : MenuProxy) : Except Exception SortKey :=
  match proxy.menuItem.name with
  | none => .error (AttributeError "'NoneType' object has no attribute 'lower'")
  | some name =>
    let mismatches := mismatchMap selectedTags proxy.tags
    .ok ⟨mismatches.count true, mismatches, proxy.menuItem.order, lower name⟩

def isMatching (proxy : MenuProxy) : Bool :=
  selectedTags = [] ∨ ¬ (mismatchMap selectedTags proxy.tags).all id

def filterAndSort (proxiedMenuItems : List MenuProxy) : Except Exception (List MenuProxy) := do
  let filteredMenuItems := proxiedMenuItems.filter (isMatching selectedTags)
  let keys ← filteredMenuItems.mapM (sortKey lower selectedTags)
  return ((filteredMenuItems.zip keys).mergeSort fun a b => a.2.le b.2).map Prod.fst

mutual

def proxiedItem : MenuItem → Picking MenuProxy
  | ⟨name, tags, order, items⟩ => do
      let allTags ← collectTags ⟨name, tags, order, items⟩
      let proxiedMenuItems ← proxiedItems items
      return ⟨⟨name, tags, order, items⟩, allTags,
        ← lift (filterAndSort lower selectedTags proxiedMenuItems)⟩

def proxiedItems : List MenuItem → Picking (List MenuProxy)
  | [] => return []
  | menuItem :: rest => do
      let proxy ← proxiedItem menuItem
      return proxy :: (← proxiedItems rest)

end

def pickMenuItems (menuItems : List MenuItem) : Picking (List MenuProxy) := do
  lift (filterAndSort lower selectedTags (← proxiedItems lower selectedTags menuItems))

end Pick

/-!
## The active item

`mark_active_menuitem` of `plinth/templatetags/extras.py`, which changes the items it is given.
-/

structure UrlItem where
  url : List Char
  text : String
  active : Option Bool

def UrlItem.mark (active : Bool) (urlitem : UrlItem) : UrlItem :=
  { urlitem with active := some active }

def commonPrefix : List Char → List Char → List Char
  | c :: l, d :: l' => if c = d then c :: commonPrefix l l' else []
  | _, _ => []

/-- The best match so far, and the index of its item. -/
abbrev Best := List Char × Option Nat

def considerItem (path : List Char) (best : Best) (urlitem : UrlItem × Nat) : Best :=
  if !urlitem.1.url.isPrefixOf path then best
  else if best.1.length < (commonPrefix urlitem.1.url path).length then
    (commonPrefix urlitem.1.url path, some urlitem.2)
  else best

def markActiveMenuitem (menu : List UrlItem) (path : List Char) : List UrlItem :=
  match (menu.zipIdx.foldl (considerItem path) ([], none)).2 with
  | none => menu.map (.mark false)
  | some i => (menu.map (.mark false)).modify i (.mark true)

/-- No URL that begins the path is longer, and none before it is the same. -/
def IsBest (urlitems : List (UrlItem × Nat)) (path : List Char) (urlitem : UrlItem × Nat) : Prop :=
  urlitem.1.url ≠ [] ∧ urlitem.1.url <+: path ∧ ∀ other ∈ urlitems, other.1.url <+: path →
    other.1.url.length < urlitem.1.url.length ∨
      other.1.url = urlitem.1.url ∧ urlitem.2 ≤ other.2

instance (urlitems : List (UrlItem × Nat)) (path : List Char) (urlitem : UrlItem × Nat) :
    Decidable (IsBest urlitems path urlitem) :=
  inferInstanceAs (Decidable (_ ∧ _ ∧ _))

end Plinth.Menu
