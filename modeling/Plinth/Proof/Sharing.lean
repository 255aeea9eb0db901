import Plinth.Model.Sharing

/-! # The shares that are listed -/

namespace Plinth.Sharing

open Augeas Effect Python Exception

/-! ## Values -/

def Named (name : String) : Prop :=
  ∀ c ∈ name.toList, isNameChar c = true

theorem getNameFromUrl_shareUrl {name : String} (named : Named name) :
    getNameFromUrl (shareUrl name) = some name := by
  have url : (shareUrl name).toList = "/share/".toList ++ name.toList := String.toList_append
  have starts : "/share/".toList.isPrefixOf ("/share/".toList ++ name.toList) = true :=
    List.isPrefixOf_iff_prefix.mpr (List.prefix_append _ _)
  have rest : ("/share/".toList ++ name.toList).drop "/share/".length = name.toList :=
    List.drop_left' rfl
  rw [getNameFromUrl, url, if_pos starts, rest, List.takeWhile_eq_self_iff.mpr named,
    String.ofList_toList]

theorem unquote_quote (path : String) : unquote (quote path) = path := by
  have quoted : (quote path).toList =
      ['"'] ++ (Text.replace ['"'] ['\\', '"'] path.toList ++ ['"']) := by
    simp [quote]
  have inner : Text.removesuffix (['"'] ++ (Text.replace ['"'] ['\\', '"'] path.toList ++ ['"'])) ['"'] =
      ['"'] ++ Text.replace ['"'] ['\\', '"'] path.toList := by
    rw [← List.append_assoc]
    exact Text.removesuffix_append _ _
  have differ : '\\' ≠ '"' := by decide
  rw [unquote, quoted, inner, Text.removeprefix_append, Text.replace_escape differ,
    String.ofList_toList]

/-! ## What `_add` writes -/

def argNode (value : Option String) : Node :=
  ⟨"arg", value, []⟩

def directiveNode (directive : String) (args : List (Option String)) : Node :=
  ⟨"directive", some directive, args.map argNode⟩

def accessNodes (groups : List (Option String)) (isPublic : Bool) : List Node :=
  if isPublic then [directiveNode "Require" [some "all", some "granted"]]
  else directiveNode "Use" [some "AuthOpenIDConnect"] ::
    groups.map fun group => directiveNode "Use" [some "RequireGroup", group]

structure Entry where
  name : String
  path : String
  content : List Node
  isPublic : Bool

namespace Entry

def alias_ (entry : Entry) : Node :=
  directiveNode "Alias" [some (shareUrl entry.name), some entry.path]

def location (entry : Entry) : Node :=
  ⟨"Location", none, argNode (some (shareUrl entry.name)) :: entry.content⟩

def added (name path : String) (groups : List (Option String)) (isPublic : Bool) : Entry where
  name := name
  path := quote path
  content := directiveNode "Include" [some "includes/freedombox-sharing.conf"] ::
    accessNodes groups isPublic
  isPublic := isPublic

end Entry

section Add

variable (conf : Node) (directive : String)

theorem set_directive :
    conf.set (some directive) [⟨"directive", .new⟩] = conf.push (directiveNode directive []) := by
  rw [Node.set_new]
  rfl

theorem set_arg (before : List (Option String)) (value : Option String) :
    (conf.push (directiveNode directive before)).set value
        [⟨"directive", .last⟩, ⟨"arg", .nth (before.length + 1)⟩] =
      conf.push (directiveNode directive (before ++ [value])) := by
  have counted : count "arg" (directiveNode directive before).children = before.length := by
    simp [count, directiveNode, argNode, List.countP_map, Function.comp_def]
  have isDirective : (directiveNode directive before).label = "directive" := rfl
  rw [Node.set_last isDirective, Node.set_next counted]
  simp [Node.push, Node.set, directiveNode, argNode]

variable {location : Node} (isLocation : location.label = "Location")
include isLocation

theorem setArgs_push (before args : List (Option String)) :
    setArgs (conf.push (location.push (directiveNode directive before))) (before.length + 1) args =
      conf.push (location.push (directiveNode directive (before ++ args))) := by
  induction args generalizing before with
  | nil => rw [List.append_nil, setArgs]
  | cons value args ih =>
    have isLocation' : (location.push (directiveNode directive before)).label = "Location" :=
      isLocation
    have later := ih (before ++ [value])
    rw [List.length_append, List.append_assoc] at later
    rw [setArgs, Node.set_last isLocation', set_arg]
    exact later

theorem addDirective_push (args : List (Option String)) :
    addDirective (conf.push location) directive args =
      conf.push (location.push (directiveNode directive args)) := by
  rw [addDirective, Node.set_last isLocation, set_directive]
  exact setArgs_push conf directive isLocation [] args

theorem addDirectives_push (groups : List (Option String)) :
    groups.foldl (fun conf groupName =>
      addDirective conf "Use" [some "RequireGroup", groupName]) (conf.push location) =
    conf.push ⟨location.label, location.value, location.children ++
      groups.map fun group => directiveNode "Use" [some "RequireGroup", group]⟩ := by
  induction groups generalizing location with
  | nil =>
    cases location
    rw [List.map_nil, List.append_nil]
    rfl
  | cons group groups ih =>
    have isLocation' : (location.push
        (directiveNode "Use" [some "RequireGroup", group])).label = "Location" := isLocation
    rw [List.foldl_cons, addDirective_push conf _ isLocation, ih isLocation']
    simp [Node.push]

end Add

theorem addShare_eq (name path : String) (groups : List (Option String)) (isPublic : Bool)
    (conf : Node) : addShare name path groups isPublic conf =
      (conf.push (Entry.added name path groups isPublic).alias_).push
        (Entry.added name path groups isPublic).location := by
  have start : ∀ conf : Node, conf.set (some (shareUrl name))
      [⟨"Location", .new⟩, ⟨"arg", .nth 1⟩] =
      conf.push ⟨"Location", none, [argNode (some (shareUrl name))]⟩ := by
    intro conf
    rw [Node.set_new]
    rfl
  have url := set_arg conf "Alias" [] (some (shareUrl name))
  have both := set_arg conf "Alias" [some (shareUrl name)] (some (quote path))
  simp only [List.length_nil, List.length_singleton, Nat.zero_add, Nat.reduceAdd] at url both
  unfold addShare
  dsimp only
  rw [set_directive, url, List.nil_append, both, start, addDirective_push _ _ rfl]
  cases isPublic with
  | true =>
    rw [if_neg (fun private_ => private_ rfl), addDirective_push _ _ rfl]
    rfl
  | false =>
    rw [if_pos Bool.false_ne_true, addDirective_push _ _ rfl, addDirectives_push _ rfl]
    rfl

/-! ## What is read of a `Location` -/

section Read

theorem beneath_directiveNode (directive : String) (args : List (Option String)) :
    (directiveNode directive args).beneath = args.map argNode := by
  have none : (args.map argNode).flatMap Node.beneath = [] := by
    rw [List.flatMap_eq_nil_iff]
    intro node member
    obtain ⟨value, _, rfl⟩ := List.mem_map.mp member
    rfl
  rw [Node.beneath_eq]
  show args.map argNode ++ (args.map argNode).flatMap Node.beneath = args.map argNode
  rw [none, List.append_nil]

theorem filter_beneath {conf : Node} {nodes : List (String × List (Option String))}
    {first : List (Option String)} {test : Node → Bool}
    (children : conf.children =
      first.map argNode ++ nodes.map fun node => directiveNode node.1 node.2)
    (onlyDirectives : ∀ value, test (argNode value) = false) :
    conf.beneath.filter test =
      (nodes.map fun node => directiveNode node.1 node.2).filter test := by
  have args : ∀ values : List (Option String), (values.map argNode).filter test = [] := by
    intro values
    rw [List.filter_eq_nil_iff]
    intro node member
    obtain ⟨value, _, rfl⟩ := List.mem_map.mp member
    rw [onlyDirectives]
    exact Bool.false_ne_true
  have deeper : (conf.children.flatMap Node.beneath).filter test = [] := by
    rw [List.filter_flatMap, List.flatMap_eq_nil_iff, children]
    intro node member
    rcases List.mem_append.mp member with member | member
    · obtain ⟨value, _, rfl⟩ := List.mem_map.mp member
      rfl
    · obtain ⟨directive, _, rfl⟩ := List.mem_map.mp member
      rw [beneath_directiveNode]
      exact args directive.2
  rw [Node.beneath_eq, List.filter_append, deeper, List.append_nil, children, List.filter_append,
    args, List.nil_append]

variable (name path : String) (groups : List (Option String)) (isPublic : Bool)

def accessDirectives : List (String × List (Option String)) :=
  ("Include", [some "includes/freedombox-sharing.conf"]) ::
    if isPublic then [("Require", [some "all", some "granted"])]
    else ("Use", [some "AuthOpenIDConnect"]) ::
      groups.map fun group => ("Use", [some "RequireGroup", group])

theorem content_added : (Entry.added name path groups isPublic).content =
    (accessDirectives groups isPublic).map fun node => directiveNode node.1 node.2 := by
  cases isPublic <;> simp [Entry.added, accessNodes, accessDirectives, Function.comp_def]

theorem filter_added {test : Node → Bool} (onlyDirectives : ∀ value, test (argNode value) = false) :
    (Entry.added name path groups isPublic).location.beneath.filter test =
      ((accessDirectives groups isPublic).map fun node => directiveNode node.1 node.2).filter test := by
  have children : (Entry.added name path groups isPublic).location.children =
      [some (shareUrl name)].map argNode ++
        (accessDirectives groups isPublic).map fun node => directiveNode node.1 node.2 := by
    rw [← content_added name path]
    rfl
  exact filter_beneath children onlyDirectives

theorem directives_added (value : String) :
    directives value (Entry.added name path groups isPublic).location =
      ((accessDirectives groups isPublic).map fun node => directiveNode node.1 node.2).filter
        fun node => node.label = "directive" ∧ node.value = some value := by
  apply filter_added
  intro value
  rfl

theorem readGroups_added :
    readGroups (Entry.added name path groups isPublic).location =
      if isPublic then [] else groups := by
  have groupArgs : ∀ value, decide ((argNode value).label = "directive" ∧
      arg 1 (argNode value) = some "RequireGroup") = false := by
    intro value
    rfl
  rw [readGroups, directives_added, filter_added _ _ _ _ groupArgs]
  cases isPublic with
  | true => simp [accessDirectives, directiveNode, argNode, arg, Node.nth, nth]
  | false =>
    simp [accessDirectives, directiveNode, argNode, arg, Node.nth, nth, List.filter_map,
      Function.comp_def]

theorem readIsPublic_added :
    readIsPublic (Entry.added name path groups isPublic).location = .ok isPublic := by
  unfold readIsPublic getRequire
  simp only [directives_added]
  cases isPublic with
  | true => simp [accessDirectives, directiveNode, argNode, Node.nth, nth, get, pure, Except.pure, bind, Except.bind]
  | false =>
    simp [accessDirectives, directiveNode, argNode, List.filter_map, Function.comp_def, pure, Except.pure]

end Read

/-! ## Shares in the file -/

namespace Entry

def bare (entry : Entry) : Share where
  name := entry.name
  path := unquote entry.path
  url := shareUrl entry.name
  access := none

def share (entry : Entry) : Share :=
  { entry.bare with access := some (readGroups entry.location, entry.isPublic) }

/-- The rest of a `Location` has no argument of the block, and says who may read. -/
structure Sound (entry : Entry) : Prop where
  named : Named entry.name
  noArgs : entry.content.filter (fun node => node.label = "arg") = []
  isPublic : readIsPublic entry.location = .ok entry.isPublic

theorem alias_label (entry : Entry) : entry.alias_.label = "directive" := rfl

theorem location_label (entry : Entry) : entry.location.label = "Location" := rfl

theorem labelled_arg {entry : Entry} (sound : entry.Sound) :
    entry.location.labelled "arg" = [argNode (some (shareUrl entry.name))] := by
  show (argNode (some (shareUrl entry.name)) :: entry.content).filter _ = _
  rw [List.filter_cons_of_pos rfl, sound.noArgs]

end Entry

def isAlias (directive : Node) : Bool :=
  directive.value = some "Alias"

theorem isAlias_alias (entry : Entry) : isAlias entry.alias_ = true := rfl

structure Represents (conf : Node) (entries : List Entry) : Prop where
  aliases : (conf.labelled "directive").filter isAlias = entries.map Entry.alias_
  locations : conf.labelled "Location" = entries.map Entry.location
  distinct : (entries.map Entry.name).Nodup
  sound : ∀ entry ∈ entries, entry.Sound

theorem represents_empty : Represents emptyConf [] :=
  ⟨rfl, rfl, List.nodup_nil, fun _ member => by cases member⟩

theorem sound_added {name : String} (named : Named name) (path : String)
    (groups : List (Option String)) (isPublic : Bool) :
    (Entry.added name path groups isPublic).Sound where
  named := named
  noArgs := by
    rw [content_added, List.filter_eq_nil_iff]
    intro node member
    obtain ⟨directive, _, rfl⟩ := List.mem_map.mp member
    have isDirective : (directiveNode directive.1 directive.2).label = "directive" := rfl
    simp [isDirective]
  isPublic := readIsPublic_added name path groups isPublic

section Add

variable {conf : Node} {entries : List Entry}

theorem Represents.add (stored : Represents conf entries) {name : String} (named : Named name)
    (fresh : name ∉ entries.map Entry.name) (path : String) (groups : List (Option String))
    (isPublic : Bool) : Represents (addShare name path groups isPublic conf)
      (entries ++ [Entry.added name path groups isPublic]) := by
  rw [addShare_eq]
  refine ⟨?_, ?_, ?_, ?_⟩
  · rw [Node.labelled_push, Node.labelled_push, List.map_append, List.filter_append,
      List.filter_append, stored.aliases]
    simp [Entry.alias_label, Entry.location_label, isAlias_alias]
  · rw [Node.labelled_push, Node.labelled_push, List.map_append, stored.locations]
    simp [Entry.alias_label, Entry.location_label]
  · have apart : (entries.map Entry.name).Disjoint [name] := by
      rw [List.disjoint_singleton]
      exact fresh
    rw [List.map_append]
    exact stored.distinct.append (List.nodup_singleton name) apart
  · intro entry member
    rcases List.mem_append.mp member with member | member
    · exact stored.sound entry member
    · rw [List.mem_singleton.mp member]
      exact sound_added named path groups isPublic

end Add

/-! ## Removing -/

section Remove

variable {conf : Node} {entries : List Entry} {name : String}

theorem shareUrl_inj {name other : String} : shareUrl name = shareUrl other ↔ name = other := by
  constructor
  · intro same
    have chars := congrArg String.toList same
    rw [shareUrl, shareUrl, String.toList_append, String.toList_append] at chars
    exact String.toList_inj.mp (List.append_cancel_left chars)
  · exact congrArg shareUrl

theorem isAliasOf_alias (name : String) (entry : Entry) :
    isAliasOf (shareUrl name) entry.alias_ = decide (entry.name = name) := by
  simp [isAliasOf, Entry.alias_, directiveNode, arg, argNode, Node.nth, nth, shareUrl_inj]

def hasUrl (url : String) (location : Node) : Bool :=
  (location.labelled "arg").map Node.value = [some url]

theorem hasUrl_location (name : String) {entry : Entry} (sound : entry.Sound) :
    hasUrl (shareUrl name) entry.location = decide (entry.name = name) := by
  rw [hasUrl, Entry.labelled_arg sound]
  simp [argNode, shareUrl_inj]

theorem isLocationOf_location (url : String) {entry : Entry} (sound : entry.Sound) :
    isLocationOf url entry.location = .ok (hasUrl url entry.location) := by
  rw [isLocationOf, hasUrl, Entry.labelled_arg sound]
  simp [get, argNode, bind, Except.bind, pure, Except.pure]

theorem isAlias_of_isAliasOf {url : String} {directive : Node}
    (is : isAliasOf url directive = true) : isAlias directive = true := by
  simp only [isAliasOf, isAlias, Bool.decide_and, Bool.and_eq_true, decide_eq_true_eq] at is ⊢
  exact is.1

theorem length_filter_name {entries : List Entry} (distinct : (entries.map Entry.name).Nodup)
    (name : String) : (entries.filter fun entry => entry.name = name).length ≤ 1 := by
  have counted := List.nodup_iff_count_le_one.mp distinct name
  rw [List.count, List.countP_map, List.countP_eq_length_filter] at counted
  exact counted

theorem filter_not_name {f : Entry → Node} {test : Node → Bool}
    (named : ∀ entry ∈ entries, test (f entry) = decide (entry.name = name)) :
    (entries.map f).filter (fun node => !test node) =
      (entries.filter fun entry => entry.name ≠ name).map f := by
  rw [List.filter_map]
  congr 1
  apply List.filter_congr
  intro entry member
  simp [named entry member]

theorem Represents.remove (stored : Represents conf entries) (name : String) :
    ∃ conf', removeShare name conf = .ok conf' ∧
      Represents conf' (entries.filter fun entry => entry.name ≠ name) := by
  have narrower : (conf.labelled "directive").filter (isAliasOf (shareUrl name)) =
      (entries.filter fun entry => entry.name = name).map Entry.alias_ := by
    have both : ∀ directive, isAliasOf (shareUrl name) directive =
        (isAliasOf (shareUrl name) directive && isAlias directive) := by
      intro directive
      cases is : isAliasOf (shareUrl name) directive with
      | false => rfl
      | true => rw [isAlias_of_isAliasOf is]; rfl
    rw [funext both, ← List.filter_filter, stored.aliases, List.filter_map]
    congr 2
    funext entry
    exact isAliasOf_alias name entry
  have fewAliases : ((conf.labelled "directive").filter (isAliasOf (shareUrl name))).length ≤ 1 := by
    rw [narrower, List.length_map]
    exact length_filter_name stored.distinct name
  have withoutAlias : conf.removeWhere "directive"
      (fun directive => Except.ok (ε := Exception) (isAliasOf (shareUrl name) directive)) =
      .ok (conf.without "directive" (isAliasOf (shareUrl name))) :=
    Node.removeWhere_eq (fun _ _ => rfl) fewAliases
  have sameLocations : (conf.without "directive" (isAliasOf (shareUrl name))).labelled "Location" =
      entries.map Entry.location := by
    rw [Node.labelled_without_of_ne (by decide), stored.locations]
  have decided : ∀ location ∈ (conf.without "directive" (isAliasOf (shareUrl name))).labelled
      "Location", isLocationOf (shareUrl name) location = .ok (hasUrl (shareUrl name) location) := by
    rw [sameLocations]
    intro location member
    obtain ⟨entry, inside, rfl⟩ := List.mem_map.mp member
    exact isLocationOf_location (shareUrl name) (stored.sound entry inside)
  have fewLocations : (((conf.without "directive" (isAliasOf (shareUrl name))).labelled
      "Location").filter (hasUrl (shareUrl name))).length ≤ 1 := by
    have byName : entries.filter (hasUrl (shareUrl name) ∘ Entry.location) =
        entries.filter fun entry => entry.name = name := by
      apply List.filter_congr
      intro entry member
      exact hasUrl_location name (stored.sound entry member)
    rw [sameLocations, List.filter_map, List.length_map, byName]
    exact length_filter_name stored.distinct name
  refine ⟨_, bind_of_ok withoutAlias (Node.removeWhere_eq decided fewLocations), ?_, ?_, ?_, ?_⟩
  · have swapped : (conf.labelled "directive").filter (fun directive =>
        isAlias directive && !isAliasOf (shareUrl name) directive) =
        ((conf.labelled "directive").filter isAlias).filter
          fun directive => !isAliasOf (shareUrl name) directive := by
      rw [List.filter_filter]
      congr 1
      funext directive
      exact Bool.and_comm _ _
    rw [Node.labelled_without_of_ne (by decide), Node.labelled_without, List.filter_filter, swapped,
      stored.aliases]
    exact filter_not_name fun entry _ => isAliasOf_alias name entry
  · rw [Node.labelled_without, sameLocations]
    exact filter_not_name fun entry member => hasUrl_location name (stored.sound entry member)
  · exact stored.distinct.sublist (List.filter_sublist.map Entry.name)
  · intro entry member
    exact stored.sound entry (List.mem_of_mem_filter member)

end Remove

/-! ## Listing -/

section List

variable {conf : Node} {entries : List Entry}

theorem readAlias_alias {entry : Entry} (named : Named entry.name) :
    readAlias entry.alias_ = .ok (some entry.bare) := by
  have isAlias : entry.alias_.value = some "Alias" := rfl
  have url : arg 1 entry.alias_ = some (shareUrl entry.name) := rfl
  have path : arg 2 entry.alias_ = some entry.path := rfl
  rw [readAlias, if_neg (not_not.mpr isAlias), url, path]
  dsimp only
  rw [getNameFromUrl_shareUrl named]
  rfl

theorem readAliases {directives : List Node} (named : ∀ entry ∈ entries, Named entry.name)
    (aliases : directives.filter isAlias = entries.map Entry.alias_) :
    ∃ shares, directives.mapM readAlias = .ok shares ∧
      shares.reduceOption = entries.map Entry.bare := by
  induction directives generalizing entries with
  | nil =>
    rw [List.filter_nil] at aliases
    rw [List.map_eq_nil_iff.mp aliases.symm]
    exact ⟨[], rfl, rfl⟩
  | cons directive directives ih =>
    rw [List.mapM_cons]
    by_cases is : isAlias directive = true
    · rw [List.filter_cons_of_pos is] at aliases
      cases entries with
      | nil => cases aliases
      | cons entry entries =>
        obtain ⟨rfl, others⟩ := List.cons.inj aliases
        rw [List.forall_mem_cons] at named
        obtain ⟨shares, read, same⟩ := ih named.2 others
        refine ⟨some entry.bare :: shares, ?_, ?_⟩
        · apply bind_of_ok (readAlias_alias named.1)
          exact bind_of_ok read rfl
        · rw [List.map_cons, ← same]
          rfl
    · have other : readAlias directive = .ok none := by
        rw [readAlias, if_pos]
        simpa [isAlias] using is
      rw [List.filter_cons_of_neg is] at aliases
      obtain ⟨shares, read, same⟩ := ih named aliases
      refine ⟨none :: shares, ?_, ?_⟩
      · apply bind_of_ok other
        exact bind_of_ok read rfl
      · rw [← same]
        rfl

theorem readLocation_next {done todo : List Entry} {entry : Entry} (sound : entry.Sound)
    (distinct : ((done ++ entry :: todo).map Entry.name).Nodup) :
    readLocation (done.map Entry.share ++ (entry :: todo).map Entry.bare) entry.location =
      .ok ((done ++ [entry]).map Entry.share ++ todo.map Entry.bare) := by
  rw [List.map_append, List.map_cons, List.nodup_append'] at distinct
  obtain ⟨_, laterDistinct, apart⟩ := distinct
  have notDone : ∀ other ∈ done, other.name ≠ entry.name := fun other member same =>
    apart (List.mem_map_of_mem member) (same ▸ List.mem_cons_self)
  have notTodo : ∀ other ∈ todo, other.name ≠ entry.name := fun other member same =>
    (List.nodup_cons.mp laterDistinct).1 (same ▸ List.mem_map_of_mem member)
  have there : ((done.map Entry.share ++ (entry :: todo).map Entry.bare).any
      fun share => share.name = entry.name) = true := by
    simp [Entry.bare]
  rw [readLocation, Entry.labelled_arg sound]
  apply bind_of_ok rfl
  dsimp only [argNode]
  rw [getNameFromUrl_shareUrl sound.named]
  dsimp only
  rw [if_pos there]
  apply bind_of_ok sound.isPublic
  apply congrArg Except.ok
  have keepDone : (done.map Entry.share).map (fun share => if share.name = entry.name then
      { share with access := some (readGroups entry.location, entry.isPublic) } else share) =
      done.map Entry.share := by
    rw [List.map_map]
    apply List.map_congr_left
    intro other member
    exact if_neg (notDone other member)
  have keepTodo : (todo.map Entry.bare).map (fun share => if share.name = entry.name then
      { share with access := some (readGroups entry.location, entry.isPublic) } else share) =
      todo.map Entry.bare := by
    rw [List.map_map]
    apply List.map_congr_left
    intro other member
    exact if_neg (notTodo other member)
  have here : (if entry.bare.name = entry.name then
      { entry.bare with access := some (readGroups entry.location, entry.isPublic) }
      else entry.bare) = entry.share := if_pos rfl
  rw [List.map_cons, List.map_append, List.map_cons, keepDone, keepTodo, here]
  simp

theorem readLocations {done todo : List Entry} (sound : ∀ entry ∈ todo, entry.Sound)
    (distinct : ((done ++ todo).map Entry.name).Nodup) :
    (todo.map Entry.location).foldlM readLocation (done.map Entry.share ++ todo.map Entry.bare) =
      .ok ((done ++ todo).map Entry.share) := by
  induction todo generalizing done with
  | nil => simp [pure, Except.pure]
  | cons entry todo ih =>
    rw [List.forall_mem_cons] at sound
    have distinct' : ((done ++ [entry] ++ todo).map Entry.name).Nodup := by
      rwa [List.append_assoc]
    have later := ih sound.2 distinct'
    rw [List.append_assoc] at later
    show (entry.location :: todo.map Entry.location).foldlM readLocation _ = _
    rw [List.foldlM_cons]
    apply bind_of_ok (readLocation_next sound.1 distinct)
    exact later

theorem Represents.listShares (stored : Represents conf entries) :
    listShares conf = .ok (entries.map Entry.share) := by
  obtain ⟨shares, read, same⟩ :=
    readAliases (fun entry member => (stored.sound entry member).named) stored.aliases
  rw [Sharing.listShares]
  apply bind_of_ok read
  rw [same, stored.locations]
  have distinct : (([] ++ entries).map Entry.name).Nodup := stored.distinct
  exact readLocations stored.sound distinct

end List

/-! ## The old way to authenticate -/

def Share.visible (share : Share) : Share :=
  { share with access := share.access.map fun access =>
      (if access.2 then [] else access.1, access.2) }

def Entry.readded (entry : Entry) : Entry :=
  .added entry.name (unquote entry.path) (readGroups entry.location) entry.isPublic

theorem share_added (name path : String) (groups : List (Option String)) (isPublic : Bool) :
    (Entry.added name path groups isPublic).share =
      ⟨name, path, shareUrl name, some (if isPublic then [] else groups, isPublic)⟩ := by
  have same : unquote (quote path) = path := unquote_quote path
  rw [Entry.share, readGroups_added]
  simp [Entry.bare, Entry.added, same]

theorem visible_added (name path : String) (groups : List (Option String)) (isPublic : Bool) :
    (Entry.added name path groups isPublic).share.visible =
      ⟨name, path, shareUrl name, some (if isPublic then [] else groups, isPublic)⟩ := by
  rw [share_added, Share.visible]
  cases isPublic <;> rfl

theorem visible_readded (entry : Entry) : entry.readded.share.visible = entry.share.visible := by
  rw [Entry.readded, visible_added]
  rfl

section Migrate

variable {conf : Node} {entries : List Entry}

theorem Represents.removeAll (stored : Represents conf entries) :
    ∃ conf', (entries.map Entry.share).foldlM
      (fun conf share => removeShare share.name conf) conf = .ok conf' ∧ Represents conf' [] := by
  induction entries generalizing conf with
  | nil => exact ⟨conf, rfl, stored⟩
  | cons entry entries ih =>
    obtain ⟨conf', removed, stored'⟩ := stored.remove entry.name
    have fresh := (List.nodup_cons.mp stored.distinct).1
    have rest : (entry :: entries).filter (fun other => other.name ≠ entry.name) = entries := by
      rw [List.filter_cons_of_neg (by simp), List.filter_eq_self]
      intro other member
      exact decide_eq_true fun same => fresh (same ▸ List.mem_map_of_mem member)
    rw [rest] at stored'
    obtain ⟨last, removedAll, empty⟩ := ih stored'
    rw [List.map_cons, List.foldlM_cons]
    exact ⟨last, bind_of_ok removed removedAll, empty⟩

theorem Represents.readdAll {done : List Entry} (stored : Represents conf done)
    (named : ∀ entry ∈ entries, Named entry.name)
    (distinct : ((done ++ entries).map Entry.name).Nodup) :
    ∃ conf', (entries.map Entry.share).foldlM readd conf = .ok conf' ∧
      Represents conf' (done ++ entries.map Entry.readded) := by
  induction entries generalizing conf done with
  | nil =>
    refine ⟨conf, rfl, ?_⟩
    rwa [List.map_nil, List.append_nil]
  | cons entry entries ih =>
    rw [List.forall_mem_cons] at named
    have fresh : entry.name ∉ done.map Entry.name := by
      rw [List.map_append, List.nodup_append'] at distinct
      exact fun member => distinct.2.2 member List.mem_cons_self
    have stored' : Represents _ (done ++ [entry.readded]) :=
      stored.add named.1 fresh (unquote entry.path) (readGroups entry.location) entry.isPublic
    have distinct' : ((done ++ [entry.readded] ++ entries).map Entry.name).Nodup := by
      rw [List.append_assoc]
      simpa [Entry.readded, Entry.added] using distinct
    obtain ⟨conf', readded, last⟩ := ih stored' named.2 distinct'
    rw [List.append_assoc] at last
    rw [List.map_cons, List.foldlM_cons]
    exact ⟨conf', bind_of_ok rfl readded, last⟩

theorem Represents.migrate (stored : Represents conf entries) :
    ∃ conf' entries', migrateOldStyleAuth conf = .ok conf' ∧ Represents conf' entries' ∧
      entries'.map (fun entry => entry.share.visible) =
        entries.map fun entry => entry.share.visible := by
  rw [migrateOldStyleAuth]
  by_cases old : directives "TKTAuthToken" conf = []
  · rw [if_pos old]
    exact ⟨conf, entries, rfl, stored, rfl⟩
  · obtain ⟨removed, removedAll, empty⟩ := stored.removeAll
    obtain ⟨conf', readded, stored'⟩ := empty.readdAll
      (fun entry member => (stored.sound entry member).named) stored.distinct
    rw [if_neg old]
    refine ⟨conf', entries.map Entry.readded, ?_, stored', ?_⟩
    · apply bind_of_ok stored.listShares
      apply bind_of_ok removedAll
      exact readded
    · rw [List.map_map]
      apply List.map_congr_left
      intro entry _
      exact visible_readded entry

end Migrate

/-! ## Calls -/

def after (shares : List Share) : Call → List Share
  | .add name path groups isPublic =>
    if shares.any fun share => share.name = name then shares
    else shares ++ [⟨name, path, shareUrl name,
      some (if isPublic then [] else groups.map some, isPublic)⟩]
  | .remove name => shares.filter fun share => share.name ≠ name
  | .migrateOldStyleAuth => shares

def Call.Named : Call → Prop
  | .add name _ _ _ => Sharing.Named name
  | _ => True

def visibleShares (entries : List Entry) : List Share :=
  entries.map fun entry => entry.share.visible

theorem any_name (entries : List Entry) (name : String) :
    ((visibleShares entries).any fun share => share.name = name) = true ↔
      name ∈ entries.map Entry.name := by
  simp [visibleShares, Share.visible, Entry.share, Entry.bare]

section Step

variable {conf : Node} {entries : List Entry}

theorem Represents.step (stored : Represents conf entries) {event : Call} (named : event.Named) :
    ∃ entries', Represents (step conf event) entries' ∧
      visibleShares entries' = after (visibleShares entries) event := by
  cases event with
  | add name path groups isPublic =>
    have there : ((entries.map Entry.share).any fun share => share.name = name) = true ↔
        name ∈ entries.map Entry.name := by
      simp only [List.any_map, List.any_eq_true, List.mem_map, Function.comp_apply,
        decide_eq_true_eq]
      rfl
    by_cases inside : name ∈ entries.map Entry.name
    · have refused : call conf (.add name path groups isPublic) = .error alreadyPresent := by
        apply bind_of_ok stored.listShares
        rw [if_pos (there.mpr inside)]
        rfl
      rw [Sharing.step, refused, after, if_pos ((any_name entries name).mpr inside)]
      exact ⟨entries, stored, rfl⟩
    · have added : call conf (.add name path groups isPublic) =
          .ok (addShare name path (groups.map some) isPublic conf) := by
        apply bind_of_ok stored.listShares
        rw [if_neg (mt there.mp inside)]
        rfl
      rw [Sharing.step, added, after, if_neg (mt (any_name entries name).mp inside)]
      refine ⟨_, stored.add named inside path (groups.map some) isPublic, ?_⟩
      rw [visibleShares, List.map_append, List.map_singleton, visible_added]
      rfl
  | remove name =>
    obtain ⟨conf', removed, stored'⟩ := stored.remove name
    have call : call conf (.remove name) = .ok conf' := removed
    rw [Sharing.step, call, after]
    refine ⟨_, stored', ?_⟩
    rw [visibleShares, visibleShares, List.filter_map]
    rfl
  | migrateOldStyleAuth =>
    obtain ⟨conf', entries', migrated, stored', same⟩ := stored.migrate
    have call : call conf .migrateOldStyleAuth = .ok conf' := migrated
    rw [Sharing.step, call, after]
    exact ⟨entries', stored', same⟩

theorem Represents.run (stored : Represents conf entries) {events : List Call}
    (named : ∀ event ∈ events, event.Named) :
    ∃ entries', Represents (events.foldl Sharing.step conf) entries' ∧
      visibleShares entries' = events.foldl after (visibleShares entries) := by
  induction events generalizing conf entries with
  | nil => exact ⟨entries, stored, rfl⟩
  | cons event events ih =>
    rw [List.forall_mem_cons] at named
    obtain ⟨entries', stored', same⟩ := stored.step named.1
    obtain ⟨last, storedLast, sameLast⟩ := ih stored' named.2
    rw [List.foldl_cons, List.foldl_cons, ← same]
    exact ⟨last, storedLast, sameLast⟩

end Step

/-- After any calls the shares are listed that were added and not removed since, whatever they
found in the file that represents shares of the old or the new way. -/
theorem shares_are_listed {events : List Call} (named : ∀ event ∈ events, event.Named) :
    (listShares (events.foldl step emptyConf)).map (List.map Share.visible) =
      .ok (events.foldl after []) ∧
    ∀ conf entries, Represents conf entries →
      (listShares (events.foldl step conf)).map (List.map Share.visible) =
        .ok (events.foldl after (entries.map fun entry => entry.share.visible)) := by
  have all : ∀ conf entries, Represents conf entries →
      (listShares (events.foldl step conf)).map (List.map Share.visible) =
        .ok (events.foldl after (visibleShares entries)) := by
    intro conf entries stored
    obtain ⟨entries', stored', same⟩ := stored.run named
    rw [stored'.listShares, ← same]
    show Except.ok ((entries'.map Entry.share).map Share.visible) = _
    rw [List.map_map]
    rfl
  exact ⟨all emptyConf [] represents_empty, all⟩

theorem shares_are_listed_of_one :
    (∀ event ∈ [Call.add "music" "/srv/\\\"my\" music" ["admin"] false], event.Named) ∧
      (listShares ([Call.add "music" "/srv/\\\"my\" music" ["admin"] false].foldl step emptyConf)).map
        (List.map Share.visible) =
        .ok [⟨"music", "/srv/\\\"my\" music", "/share/music", some ([some "admin"], false)⟩] := by
  have named : ∀ event ∈ [Call.add "music" "/srv/\\\"my\" music" ["admin"] false], event.Named := by
    intro event member
    rw [List.mem_singleton.mp member]
    intro c inside
    have letters : "music".toList.all isNameChar = true := by decide
    exact List.all_eq_true.mp letters c inside
  exact ⟨named, (shares_are_listed named).1⟩

def oldEntry : Entry where
  name := "music"
  path := "\"/srv/music\""
  content := [directiveNode "Include" [some "includes/freedombox-sharing.conf"],
    ⟨"IfModule", none, [argNode (some "mod_auth_pubtkt.c"),
      directiveNode "TKTAuthToken" [some "admin"]]⟩]
  isPublic := false

example : readGroups oldEntry.location = [some "admin"] := rfl

example : readIsPublic oldEntry.location = .ok false := rfl

end Plinth.Sharing
