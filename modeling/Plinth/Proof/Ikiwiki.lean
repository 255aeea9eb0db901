import Plinth.Model.Ikiwiki

/-! # Deleting one site -/

namespace Plinth.Ikiwiki

open Effect Python Exception Lookup

variable {tree : Tree} {depth : Nat}

/-! ## Trees without some locations -/

@[simp] theorem without_nil (tree : Tree) : without tree [] = tree := by
  funext location
  simp [without]

theorem without_without (tree : Tree) (removed removed' : List Location) :
    without (without tree removed) removed' = without tree (removed ++ removed') := by
  funext location
  unfold without
  by_cases first : ∃ place ∈ removed, place <+: location
  · have both : ∃ place ∈ removed ++ removed', place <+: location := by
      obtain ⟨place, member, above⟩ := first
      exact ⟨place, List.mem_append_left _ member, above⟩
    rw [if_pos first, if_pos both]
    split <;> rfl
  · rw [if_neg first]
    by_cases second : ∃ place ∈ removed', place <+: location
    · have both : ∃ place ∈ removed ++ removed', place <+: location := by
        obtain ⟨place, member, above⟩ := second
        exact ⟨place, List.mem_append_right _ member, above⟩
      rw [if_pos second, if_pos both]
    · have neither : ¬ ∃ place ∈ removed ++ removed', place <+: location := by
        rintro ⟨place, member, above⟩
        rcases List.mem_append.mp member with member | member
        · exact first ⟨place, member, above⟩
        · exact second ⟨place, member, above⟩
      rw [if_neg second, if_neg neither]

theorem without_of_not {removed : List Location} {location : Location}
    (outside : ∀ place ∈ removed, ¬ place <+: location) :
    without tree removed location = tree location := by
  unfold without
  rw [if_neg]
  rintro ⟨place, member, above⟩
  exact outside place member above

theorem without_of_mem {removed : List Location} {place location : Location}
    (member : place ∈ removed) (above : place <+: location) :
    without tree removed location = none :=
  if_pos ⟨place, member, above⟩

theorem extends_without {removed removed' : List Location} (fewer : removed' ⊆ removed)
    (directories : ∀ place ∈ removed, tree place = some .directory) :
    Extends (without tree removed) (without tree removed') := by
  have kept : ∀ location, without tree removed location ≠ none →
      without tree removed' location = without tree removed location := by
    intro location there
    have outside : ∀ place ∈ removed, ¬ place <+: location :=
      fun place member above => there (without_of_mem member above)
    rw [without_of_not outside, without_of_not fun place member => outside place (fewer member)]
  constructor
  · intro location _ directory
    rw [kept location (by rw [directory]; nofun), directory]
  · intro location name target _ directory
    constructor
    · intro link
      rw [kept _ (by rw [link]; nofun), link]
    · intro link
      have inTree : tree (location ++ [name]) = some (.link target) := by
        unfold without at link
        split at link
        · cases link
        · exact link
      rw [without_of_not, inTree]
      intro place member above
      rcases List.prefix_concat_iff.mp above with rfl | shorter
      · rw [directories _ member] at inTree
        cases inTree
      · rw [without_of_mem member shorter] at directory
        cases directory

/-! ## Places -/

theorem length_of_mem_places {site : List Char} {location : Location}
    (member : location ∈ places site) : location.length = 4 := by
  simp only [places, folders, setupFile, siteBase, wikiBase, List.mem_append, List.mem_cons,
    List.not_mem_nil, or_false] at member
  rcases member with (rfl | rfl | rfl) | rfl <;> rfl

theorem eq_of_prefix {site site' : List Char} {location location' : Location}
    (place : location ∈ places site) (place' : location' ∈ places site')
    (above : location <+: location') : location = location' :=
  above.eq_of_length
    ((length_of_mem_places place).trans (length_of_mem_places place').symm)

theorem ownFolders_sub (tree : Tree) (site : List Char) : ownFolders tree site ⊆ folders site :=
  List.filter_sublist.subset

theorem mem_places_of_folders {site : List Char} {location : Location}
    (member : location ∈ folders site) : location ∈ places site :=
  List.mem_append_left _ member

theorem setupFile_mem (site : List Char) : setupFile site ∈ places site := by
  simp [places]

theorem own_sub (tree : Tree) (site : List Char) : own tree site ⊆ places site := by
  intro location member
  rcases List.mem_append.mp member with folder | file
  · exact mem_places_of_folders (ownFolders_sub tree site folder)
  · split at file
    · cases file
    · rw [List.mem_singleton] at file
      rw [file]
      exact setupFile_mem site

theorem there_of_mem_own {site : List Char} {location : Location}
    (member : location ∈ own tree site) : tree location ≠ none := by
  rcases List.mem_append.mp member with folder | file
  · rw [of_decide_eq_true (List.mem_filter.mp folder).2]
    nofun
  · split at file
    · cases file
    · rename_i there
      rw [List.mem_singleton] at file
      rw [file]
      exact there

theorem directory_of_mem_ownFolders {site : List Char} {location : Location}
    (member : location ∈ ownFolders tree site) : tree location = some .directory :=
  of_decide_eq_true (List.mem_filter.mp member).2

theorem append_ne_self {suffix : List Char} (some_ : suffix ≠ []) (site : List Char) :
    site ≠ site ++ suffix := by
  intro same
  exact some_ (List.append_right_eq_self.mp same.symm)

theorem setupFile_not_mem_folders (site : List Char) : setupFile site ∉ folders site := by
  simp only [folders, setupFile, siteBase, wikiBase, List.mem_cons, List.not_mem_nil, or_false]
  rintro (same | same | same)
  · simp at same
  · have names : site ++ setup = site := by simpa using same
    exact append_ne_self (by decide : setup ≠ []) site names.symm
  · have names : site ++ setup = site ++ git := by simpa using same
    exact absurd (List.append_cancel_left names) (by decide)

theorem folders_apart (site : List Char) :
    ¬ siteBase ++ [site] <+: wikiBase ++ [site] ∧
      ¬ siteBase ++ [site] <+: wikiBase ++ [site ++ git] ∧
      ¬ wikiBase ++ [site] <+: wikiBase ++ [site ++ git] := by
  refine ⟨fun above => ?_, fun above => ?_, fun above => ?_⟩
  · have same := above.eq_of_length rfl
    simp [siteBase, wikiBase] at same
  · have same := above.eq_of_length rfl
    simp [siteBase, wikiBase] at same
  · have same := above.eq_of_length rfl
    have names : site = site ++ git := by simpa using same
    exact append_ne_self (by decide : git ≠ []) site names

/-! ## Paths of a name -/

theorem lastName_join_base {base : List Char} (open_ : ¬ (base = [] ∨ base.getLast? = some '/'))
    (name : List Char) : lastName (Os.join base name) = lastName name := by
  by_cases absolute : name.head? = some '/'
  · rw [Os.join, if_pos absolute]
  · rw [Os.join, if_neg absolute, if_neg open_]
    simp only [lastName, List.splitOn_append_cons_self]
    exact List.getLast_append_of_ne_nil _ (List.splitOn_ne_nil '/' name)

theorem lastName_html (name : List Char) : lastName (htmlFolder name) = lastName name :=
  lastName_join_base (by decide +kernel) name

theorem lastName_wiki (name : List Char) : lastName (wikiFolder name) = lastName name :=
  lastName_join_base (by decide +kernel) name

theorem wikiFolder_ne_nil (name : List Char) : wikiFolder name ≠ [] := by
  unfold wikiFolder Os.join
  split
  · rename_i absolute
    rintro rfl
    cases absolute
  · rw [if_neg (by decide +kernel)]
    simp

theorem slash_not_mem : '/' ∉ git ∧ '/' ∉ setup := by
  constructor <;> decide

theorem isName_append {suffix : List Char} (long : 3 ≤ suffix.length) (name : List Char) :
    Path.IsName '.' (name ++ suffix) := by
  have length : 3 ≤ (name ++ suffix).length := by
    rw [List.length_append]
    omega
  refine ⟨?_, ?_, ?_⟩
  · intro same
    rw [same] at length
    exact absurd length (by decide)
  · intro same
    rw [same] at length
    exact absurd length (by decide)
  · intro same
    rw [same] at length
    exact absurd length (by decide)

theorem place_beside {suffix : List Char} (long : 3 ≤ suffix.length) (free : '/' ∉ suffix)
    (name : List Char) : place tree depth [] (wikiFolder name ++ suffix) =
      parent tree depth [] (wikiFolder name) >>= fun directory =>
        pure (directory ++ [lastName name ++ suffix]) := by
  have last : lastName (wikiFolder name ++ suffix) = lastName name ++ suffix := by
    rw [lastName_append free, lastName_wiki]
  rw [place_of_isName (last ▸ isName_append long _), last,
    parent_append free (wikiFolder_ne_nil name)]

theorem place_html {name : List Char} (isName : Path.IsName '.' (lastName name)) :
    place tree depth [] (htmlFolder name) =
      parent tree depth [] (htmlFolder name) >>= fun directory =>
        pure (directory ++ [lastName name]) := by
  rw [place_of_isName (by rw [lastName_html]; exact isName), lastName_html]

theorem place_wiki {name : List Char} (isName : Path.IsName '.' (lastName name)) :
    place tree depth [] (wikiFolder name) =
      parent tree depth [] (wikiFolder name) >>= fun directory =>
        pure (directory ++ [lastName name]) := by
  rw [place_of_isName (by rw [lastName_wiki]; exact isName), lastName_wiki]

/-! ## The folders are removed -/

def folderAt (tree : Tree) (location : Location) : List Location :=
  [location].filter fun location => tree location = some .directory

theorem ownFolders_eq (tree : Tree) (site : List Char) : ownFolders tree site =
    folderAt tree (siteBase ++ [site]) ++ (folderAt tree (wikiBase ++ [site]) ++
      folderAt tree (wikiBase ++ [site ++ git])) := by
  simp only [ownFolders, folders, folderAt, ← List.filter_append, List.singleton_append]

theorem removed_of_isName {path : List Char} {location : Location}
    (isName : Path.IsName '.' (lastName path)) (earlier : List Location)
    (kept : without tree earlier location = tree location) :
    removed (without tree earlier) path (.ok location) =
      without tree (earlier ++ folderAt tree location) := by
  unfold removed folderAt
  dsimp only
  rw [kept]
  by_cases directory : tree location = some .directory
  · rw [if_pos directory, if_neg, without_without]
    · simp [directory]
    · rintro (dot | dots)
      · exact isName.2.1 dot
      · exact isName.2.2 dots
  · rw [if_neg directory]
    simp [directory]

def firstTree (depth : Nat) (tree : Tree) (name : List Char) : Tree :=
  removed tree (htmlFolder name) (place tree depth [] (htmlFolder name))

def secondTree (depth : Nat) (tree : Tree) (name : List Char) : Tree :=
  removed (firstTree depth tree name) (wikiFolder name)
    (place (firstTree depth tree name) depth [] (wikiFolder name))

def thirdTree (depth : Nat) (tree : Tree) (name : List Char) : Tree :=
  removed (secondTree depth tree name) (wikiFolder name ++ git)
    (place (secondTree depth tree name) depth [] (wikiFolder name ++ git))

theorem exec_remove (depth : Nat) (tree : Tree) (name : List Char) :
    (remove depth name).exec ⟨tree, []⟩ =
      (unlinkAt (thirdTree depth tree name)
        (place (thirdTree depth tree name) depth [] (wikiFolder name ++ setup))).exec
          ⟨thirdTree depth tree name,
            [(place tree depth [] (htmlFolder name)).toOption,
              (place (firstTree depth tree name) depth [] (wikiFolder name)).toOption,
              (place (secondTree depth tree name) depth [] (wikiFolder name ++ git)).toOption,
              (place (thirdTree depth tree name) depth []
                (wikiFolder name ++ setup)).toOption]⟩ :=
  rfl

theorem aimed_unlinkAt (tree : Tree) (found : Except Failure Location) (s : State) :
    ((unlinkAt tree found).exec s).2.aimed = s.aimed := by
  unfold unlinkAt
  split
  · split <;> rfl
  · rfl
  · rfl

section Found

variable {name site : List Char}

def firstFolders (tree : Tree) (site : List Char) : List Location :=
  folderAt tree (siteBase ++ [site])

def secondFolders (tree : Tree) (site : List Char) : List Location :=
  firstFolders tree site ++ folderAt tree (wikiBase ++ [site])

theorem firstTree_of_place (isName : Path.IsName '.' (lastName name))
    (found : place tree depth [] (htmlFolder name) = .ok (siteBase ++ [site])) :
    firstTree depth tree name = without tree (firstFolders tree site) := by
  have html : Path.IsName '.' (lastName (htmlFolder name)) := by
    rw [lastName_html]
    exact isName
  have kept : without tree [] (siteBase ++ [site]) = tree (siteBase ++ [site]) := by
    rw [without_nil]
  have removed_ := removed_of_isName html [] kept
  rw [without_nil] at removed_
  rw [firstTree, found, removed_]
  rfl

theorem secondTree_of_place (isName : Path.IsName '.' (lastName name))
    (first : firstTree depth tree name = without tree (firstFolders tree site))
    (found : place (firstTree depth tree name) depth [] (wikiFolder name) =
      .ok (wikiBase ++ [site])) :
    secondTree depth tree name = without tree (secondFolders tree site) := by
  have wiki : Path.IsName '.' (lastName (wikiFolder name)) := by
    rw [lastName_wiki]
    exact isName
  rw [secondTree, found, first, removed_of_isName wiki]
  · rfl
  · apply without_of_not
    intro place member above
    rw [List.mem_singleton.mp (List.mem_filter.mp member).1] at above
    exact (folders_apart site).1 above

theorem thirdTree_of_place
    (second : secondTree depth tree name = without tree (secondFolders tree site))
    (found : place (secondTree depth tree name) depth [] (wikiFolder name ++ git) =
      .ok (wikiBase ++ [site ++ git])) :
    thirdTree depth tree name = without tree (ownFolders tree site) := by
  have last : Path.IsName '.' (lastName (wikiFolder name ++ git)) := by
    rw [lastName_append slash_not_mem.1]
    exact isName_append (by decide) _
  rw [thirdTree, found, second, removed_of_isName last, ownFolders_eq]
  · rw [secondFolders, firstFolders, List.append_assoc]
  · apply without_of_not
    intro place member above
    rcases List.mem_append.mp member with member | member
    · rw [List.mem_singleton.mp (List.mem_filter.mp member).1] at above
      exact (folders_apart site).2.1 above
    · rw [List.mem_singleton.mp (List.mem_filter.mp member).1] at above
      exact (folders_apart site).2.2 above

end Found

/-! ## The whole deletion -/

section Whole

variable {name site : List Char}

theorem directories_ownFolders : ∀ place ∈ ownFolders tree site, tree place = some .directory :=
  fun _ member => directory_of_mem_ownFolders member

theorem firstFolders_sub : firstFolders tree site ⊆ ownFolders tree site := by
  rw [ownFolders_eq]
  exact List.subset_append_left _ _

theorem secondFolders_sub : secondFolders tree site ⊆ ownFolders tree site := by
  rw [ownFolders_eq, secondFolders, firstFolders, ← List.append_assoc]
  exact List.subset_append_left _ _

structure Found (depth : Nat) (tree : Tree) (name site : List Char) : Prop where
  html : place tree depth [] (htmlFolder name) = .ok (siteBase ++ [site])
  wiki : place (firstTree depth tree name) depth [] (wikiFolder name) = .ok (wikiBase ++ [site])
  git : place (secondTree depth tree name) depth [] (wikiFolder name ++ git) =
    .ok (wikiBase ++ [site ++ git])
  setup : place (thirdTree depth tree name) depth [] (wikiFolder name ++ setup) =
    .ok (setupFile site)
  third : thirdTree depth tree name = without tree (ownFolders tree site)

theorem ok_of_place {path last : List Char} {base : Location} {tree : Tree}
    (found : parent tree depth [] path = .ok base) :
    (parent tree depth [] path >>= fun directory => pure (directory ++ [last])) =
      .ok (base ++ [last]) :=
  bind_of_ok found rfl

theorem found_of_parents (isName : Path.IsName '.' site) (last : lastName name = site)
    (html : parent tree depth [] (htmlFolder name) = .ok siteBase)
    (wiki : parent (without tree (ownFolders tree site)) depth [] (wikiFolder name) =
      .ok wikiBase) : Found depth tree name site := by
  have named : Path.IsName '.' (lastName name) := last ▸ isName
  have atHtml : place tree depth [] (htmlFolder name) = .ok (siteBase ++ [site]) := by
    rw [place_html named, last]
    exact ok_of_place html
  have first := firstTree_of_place named atHtml
  have atWiki : place (firstTree depth tree name) depth [] (wikiFolder name) =
      .ok (wikiBase ++ [site]) := by
    rw [place_wiki named, last, first]
    exact ok_of_place
      (parent_of_extends (extends_without firstFolders_sub directories_ownFolders) wiki)
  have second := secondTree_of_place named first atWiki
  have atGit : place (secondTree depth tree name) depth [] (wikiFolder name ++ git) =
      .ok (wikiBase ++ [site ++ git]) := by
    rw [place_beside (by decide) slash_not_mem.1, last, second]
    exact ok_of_place
      (parent_of_extends (extends_without secondFolders_sub directories_ownFolders) wiki)
  have third := thirdTree_of_place second atGit
  refine ⟨atHtml, atWiki, atGit, ?_, third⟩
  rw [place_beside (by decide) slash_not_mem.2, last, third]
  exact ok_of_place wiki

theorem ok_of_toOption {ε α : Type} {result : Except ε α} {a : α}
    (found : result.toOption = some a) : result = .ok a := by
  cases result with
  | error e => cases found
  | ok b =>
    cases found
    rfl

theorem parent_of_place {path last last' : List Char} {base : Location} {tree : Tree}
    (found : (parent tree depth [] path >>= fun directory => pure (directory ++ [last])) =
      .ok (base ++ [last'])) : parent tree depth [] path = .ok base ∧ last = last' := by
  obtain ⟨directory, ok, made⟩ := ok_of_bind found
  obtain ⟨rfl, same⟩ := List.append_inj' (Except.ok.inj made) rfl
  exact ⟨ok, by simpa using same⟩

theorem found_of_aimed (isName : Path.IsName '.' site)
    (html : place tree depth [] (htmlFolder name) = .ok (siteBase ++ [site]))
    (wiki : place (firstTree depth tree name) depth [] (wikiFolder name) =
      .ok (wikiBase ++ [site]))
    (git_ : place (secondTree depth tree name) depth [] (wikiFolder name ++ git) =
      .ok (wikiBase ++ [site ++ git]))
    (setup_ : place (thirdTree depth tree name) depth [] (wikiFolder name ++ setup) =
      .ok (setupFile site)) :
    lastName name = site ∧ parent tree depth [] (htmlFolder name) = .ok siteBase ∧
      parent (without tree (ownFolders tree site)) depth [] (wikiFolder name) = .ok wikiBase ∧
      Found depth tree name site := by
  have beside := git_
  rw [place_beside (by decide) slash_not_mem.1] at beside
  have last : lastName name = site := List.append_cancel_right (parent_of_place beside).2
  have named : Path.IsName '.' (lastName name) := last ▸ isName
  have third := thirdTree_of_place
    (secondTree_of_place named (firstTree_of_place named html) wiki) git_
  have atHtml := html
  rw [place_html named] at atHtml
  have atSetup := setup_
  rw [place_beside (by decide) slash_not_mem.2, third] at atSetup
  exact ⟨last, (parent_of_place atHtml).1, (parent_of_place atSetup).1,
    html, wiki, git_, setup_, third⟩

theorem exec_remove_of_found (found : Found depth tree name site)
    (noDirectory : tree (setupFile site) ≠ some .directory) :
    (remove depth name).exec ⟨tree, []⟩ =
      (.ok (), ⟨without tree (own tree site), (places site).map some⟩) := by
  have kept : without tree (ownFolders tree site) (setupFile site) = tree (setupFile site) := by
    apply without_of_not
    intro place member above
    have folder := ownFolders_sub tree site member
    rw [ eq_of_prefix (mem_places_of_folders folder) (setupFile_mem site) above] at folder
    exact setupFile_not_mem_folders site folder
  rw [exec_remove, found.html, found.wiki, found.git, found.setup, found.third]
  unfold unlinkAt own
  dsimp only
  rw [kept]
  cases there : tree (setupFile site) with
  | none =>
    rw [if_pos rfl, List.append_nil]
    rfl
  | some kind =>
    rw [if_neg nofun, ← without_without]
    cases kind with
    | directory => exact absurd there noDirectory
    | file => rfl
    | link target => rfl

theorem exec_remove_of_directory (found : Found depth tree name site)
    (directory : tree (setupFile site) = some .directory) :
    ((remove depth name).exec ⟨tree, []⟩).1 = .error OSError := by
  have kept : without tree (ownFolders tree site) (setupFile site) = some .directory := by
    rw [without_of_not, directory]
    intro place member above
    have folder := ownFolders_sub tree site member
    rw [ eq_of_prefix (mem_places_of_folders folder) (setupFile_mem site) above] at folder
    exact setupFile_not_mem_folders site folder
  rw [exec_remove, found.setup, found.third]
  unfold unlinkAt
  dsimp only
  rw [kept]
  rfl

end Whole

/-! ## Exactly one site -/

section Site

variable {site : List Char}

theorem without_own_at {location : Location} {other : List Char}
    (place : location ∈ places other) (notOwn : location ∉ own tree site) :
    without tree (own tree site) location = tree location := by
  apply without_of_not
  intro removed member above
  rw [ eq_of_prefix (own_sub tree site member) place above] at member
  exact notOwn member

theorem gone_iff : (∀ location ∈ folders site, without tree (own tree site) location = none ∨
      without tree (own tree site) location = some .file) ↔
    ∀ location ∈ folders site, ∀ target, tree location ≠ some (.link target) := by
  constructor
  · intro gone location member target link
    have notOwn : location ∉ own tree site := by
      intro isOwn
      rcases List.mem_append.mp isOwn with folder | file
      · rw [directory_of_mem_ownFolders folder] at link
        cases link
      · split at file
        · cases file
        · rw [List.mem_singleton] at file
          rw [file] at member
          exact setupFile_not_mem_folders site member
    have left := gone location member
    rw [without_own_at (mem_places_of_folders member) notOwn, link] at left
    rcases left with left | left <;> cases left
  · intro noLink location member
    by_cases isOwn : location ∈ own tree site
    · exact .inl (without_of_mem isOwn List.prefix_rfl)
    · rw [without_own_at (mem_places_of_folders member) isOwn]
      cases there : tree location with
      | none => exact .inl rfl
      | some kind =>
        cases kind with
        | file => exact .inr rfl
        | link target => exact absurd there (noLink location member target)
        | directory =>
          exfalso
          apply isOwn
          exact List.mem_append_left _ (List.mem_filter.mpr ⟨member, decide_eq_true there⟩)

theorem others_iff : (∀ other, IsSite depth tree other → other ≠ site →
      ∀ location ∈ places other, ∀ inside, location <+: inside →
        without tree (own tree site) inside = tree inside) ↔
    ∀ other, IsSite depth tree other → other ≠ site → ∀ location ∈ own tree site,
      location ∉ places other := by
  constructor
  · intro kept other isSite different location isOwn place
    have same := kept other isSite different location place location List.prefix_rfl
    rw [without_of_mem isOwn List.prefix_rfl] at same
    exact there_of_mem_own isOwn same.symm
  · intro apart other isSite different location place inside below
    apply without_of_not
    intro removed member above
    -- Both are above the same location, and equally deep.
    have same : removed = location := by
      have lengths := (length_of_mem_places (own_sub tree site member)).trans
        (length_of_mem_places place).symm
      exact (List.prefix_of_prefix_length_le above below lengths.le).eq_of_length lengths
    rw [same] at member
    exact apart other isSite different location member place

end Site

/-- A deletion is refused, or removes one site and nothing else, exactly when the name is refused or
leads to the places of a site, which are no links and none of which belongs to another site. -/
theorem deletion_confined_iff (depth : Nat) (tree : Tree) (name : List Char) :
    Confined depth tree name ↔
      isRefused depth tree name = true ∨ ∃ site, Addresses depth tree name site := by
  by_cases refused : isRefused depth tree name = true
  · have ran : (delete depth name).exec ⟨tree, []⟩ = (.error notACorrectName, ⟨tree, []⟩) := by
      rw [delete, exec_bind_of_ok (exec_get _), if_pos refused]
      rfl
    exact iff_of_true (.inl ran) (.inl refused)
  · have ran : (delete depth name).exec ⟨tree, []⟩ = (remove depth name).exec ⟨tree, []⟩ := by
      rw [delete, exec_bind_of_ok (exec_get _), if_neg refused]
    unfold Confined
    rw [ran]
    constructor
    · rintro (none_ | ⟨site, tree', isName, removed, deleted⟩)
      · have aimed := congrArg (fun outcome => outcome.2.aimed) none_
        dsimp only at aimed
        rw [exec_remove, aimed_unlinkAt] at aimed
        cases aimed
      · right
        have aimed := congrArg (fun outcome => outcome.2.aimed) removed
        dsimp only at aimed
        rw [exec_remove, aimed_unlinkAt] at aimed
        simp only [places, folders, List.cons_append, List.nil_append, List.map_cons, List.map_nil,
          List.cons.injEq, and_true] at aimed
        obtain ⟨html, wiki, git_, setup_⟩ := aimed
        obtain ⟨last, atHtml, atWiki, found⟩ := found_of_aimed isName (ok_of_toOption html)
          (ok_of_toOption wiki) (ok_of_toOption git_) (ok_of_toOption setup_)
        obtain ⟨same, gone, others⟩ := deleted
        rw [same] at gone others
        refine ⟨site, isName, last, atHtml, atWiki, gone_iff.mp gone, ?_, others_iff.mp others⟩
        intro directory
        have failed := exec_remove_of_directory found directory
        rw [removed] at failed
        cases failed
    · rintro (isRefused_ | ⟨site, addresses⟩)
      · exact absurd isRefused_ refused
      · right
        have found := found_of_parents addresses.isName addresses.last addresses.html
          addresses.wiki
        exact ⟨site, _, addresses.isName, exec_remove_of_found found addresses.noDirectory,
          rfl, gone_iff.mpr addresses.noLink, others_iff.mpr addresses.apart⟩

/-! ## A machine with one blog -/

def blogTree : Tree := fun location =>
  ([[], ["var".toList], ["var".toList, "www".toList], siteBase, siteBase ++ ["blog".toList],
    ["var".toList, "lib".toList], wikiBase, wikiBase ++ ["blog".toList],
    wikiBase ++ ["blog".toList ++ git]].map fun directory => (directory, Kind.directory)).lookup
      location

theorem empty_name_not_confined : ¬ Confined 40 blogTree [] := by
  have ran : ((delete 40 []).exec ⟨blogTree, []⟩).1 = .ok () := by
    rfl
  have aimed : ((delete 40 []).exec ⟨blogTree, []⟩).2.aimed.head? = some (some siteBase) := by
    rfl
  rintro (refused | ⟨site, tree', _, removed, _⟩)
  · rw [refused] at ran
    cases ran
  · rw [removed] at aimed
    simp [places, folders, siteBase] at aimed

end Plinth.Ikiwiki
