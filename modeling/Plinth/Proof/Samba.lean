import Plinth.Lib.Runs
import Plinth.Model.Samba

/-!
# Shares that are read as they were added

A share is kept by a name made of the last component of its mount point, and its mount point and
type are read off its path and name again. Both are read as they were written when the mount
point does not contain the directory of the shares, the name of an open share does not end like
those of the others, and no two shares have the same name.
-/

namespace Plinth.Samba

open Effect Python Runs

/-! ## Paths -/

theorem infix_append_cons {word before after : List Char} {c : Char} (free : c ∉ word)
    (inside : word <:+: before ++ c :: after) : word <:+: before ∨ word <:+: after := by
  rcases List.infix_append_iff.mp inside with left | right | ⟨front, back, same, suffix, start⟩
  · exact .inl left
  · rcases List.infix_cons_iff.mp right with start | later
    · cases word with
      | nil => exact .inl (List.nil_infix)
      | cons d word =>
        rw [List.cons_prefix_cons] at start
        rw [start.1] at free
        exact absurd List.mem_cons_self free
    · exact .inr later
  · cases back with
    | nil =>
      rw [List.append_nil] at same
      rw [same]
      exact .inl suffix.isInfix
    | cons d back =>
      rw [List.cons_prefix_cons] at start
      rw [same, start.1] at free
      exact absurd (List.mem_append_right _ List.mem_cons_self) free

def base (mountPoint : MountPoint) : List Char :=
  if mountPoint.path.getLast? = some '/' then mountPoint.path else mountPoint.path ++ ['/']

theorem MountPoint.nonempty (mountPoint : MountPoint) : mountPoint.path ≠ [] := by
  intro empty
  have absolute := mountPoint.absolute
  rw [empty] at absolute
  cases absolute

theorem normpath_base (mountPoint : MountPoint) : Os.normpath (base mountPoint) = mountPoint.path := by
  rw [base]
  split
  · exact mountPoint.normal
  · rename_i open_
    rw [Os.normpath_append_slash mountPoint.nonempty open_, mountPoint.normal]

theorem base_ends (mountPoint : MountPoint) : ∃ start, base mountPoint = start ++ ['/'] := by
  rw [base]
  split
  · rename_i closed
    exact List.getLast?_eq_some_iff.mp closed
  · exact ⟨_, rfl⟩

theorem join_path (mountPoint : MountPoint) {rest : List Char} (relative : rest.head? ≠ some '/') :
    Os.join mountPoint.path rest = base mountPoint ++ rest := by
  rw [Os.join, base, if_neg relative]
  by_cases closed : mountPoint.path.getLast? = some '/'
  · rw [if_pos (.inr closed), if_pos closed]
  · rw [if_neg (not_or.mpr ⟨mountPoint.nonempty, closed⟩), if_neg closed, List.append_assoc]
    rfl

def below : ShareType → List Char
  | .open_ => "open_share".toList
  | .group => "group_share".toList
  | .home => "homes/%u".toList

variable (env : Environment)

def storedPath (mountPoint : MountPoint) (shareType : ShareType) : List Char :=
  match shareType with
  | .open_ | .group => sharePath env mountPoint.path shareType
  | .home => Os.join (sharePath env mountPoint.path .home) "%u".toList

theorem getSharesPath_ends (mountPoint : List Char) :
    (getSharesPath env mountPoint).head? ≠ some '/' ∧
      (getSharesPath env mountPoint).getLast? = some '/' := by
  rw [getSharesPath]
  split
  · decide
  · split <;> decide

theorem join_subdir {path : List Char} (closed : path.getLast? = some '/') (shareType : ShareType) :
    Os.join path (subdir shareType) = path ++ subdir shareType := by
  have relative : (subdir shareType).head? ≠ some '/' := by cases shareType <;> decide
  rw [Os.join, if_neg relative, if_pos (.inr closed)]

theorem sharePath_eq (mountPoint : MountPoint) (shareType : ShareType) :
    sharePath env mountPoint.path shareType =
      base mountPoint ++ getSharesPath env mountPoint.path ++ subdir shareType := by
  obtain ⟨relative, closed⟩ := getSharesPath_ends env mountPoint.path
  rw [sharePath, join_path mountPoint relative, join_subdir]
  simp [List.getLast?_append, closed]

theorem storedPath_eq (mountPoint : MountPoint) (shareType : ShareType) :
    storedPath env mountPoint shareType =
      base mountPoint ++ (getSharesPath env mountPoint.path ++ below shareType) := by
  cases shareType with
  | open_ =>
    have same : below .open_ = subdir .open_ := rfl
    rw [storedPath, sharePath_eq, List.append_assoc, same]
  | group =>
    have same : below .group = subdir .group := rfl
    rw [storedPath, sharePath_eq, List.append_assoc, same]
  | home =>
    have same : below .home = subdir .home ++ '/' :: "%u".toList := by decide
    have ends : (subdir .home).getLast? = some 's' := by decide
    have last : (sharePath env mountPoint.path .home).getLast? = some 's' := by
      rw [sharePath_eq, List.getLast?_append, ends]
      rfl
    have nonempty : sharePath env mountPoint.path .home ≠ [] := by
      intro empty
      rw [empty] at last
      cases last
    rw [storedPath, Os.join, if_neg (by decide), if_neg (by simp [nonempty, last]), sharePath_eq,
      same, List.append_assoc, List.append_assoc]

def Decodable (mountPoint : MountPoint) (shareType : ShareType) : Prop :=
  if mountPoint.path = "/var".toList then True
  else if env.varOnSameDevice mountPoint.path then
    ¬ varShares <:+: base mountPoint ∧
      env.isMount (Os.normpath (Text.before libShares (storedPath env mountPoint shareType))) = false
  else ¬ '/' :: varShares <:+: base mountPoint ∧ ¬ freedomboxShares <:+: base mountPoint

instance (mountPoint : MountPoint) (shareType : ShareType) :
    Decidable (Decodable env mountPoint shareType) := by
  unfold Decodable
  infer_instance

variable {env}

theorem getMountPoint_storedPath {mountPoint : MountPoint} {shareType : ShareType}
    (mounted : env.isMount mountPoint.path = true) (decodable : Decodable env mountPoint shareType) :
    getMountPoint env (storedPath env mountPoint shareType) = base mountPoint := by
  have path := storedPath_eq env mountPoint shareType
  obtain ⟨start, ends⟩ := base_ends mountPoint
  by_cases isVar : mountPoint.path = "/var".toList
  · have shares : getSharesPath env mountPoint.path = libShares := if_pos isVar
    have isBase : base mountPoint = "/var/".toList := by
      rw [base, isVar]
      rfl
    have first : Text.before libShares (storedPath env mountPoint shareType) = base mountPoint := by
      rw [path, shares, isBase]
      exact Text.before_append (by decide) (by decide) _
    have marked : '/' :: varShares <:+: storedPath env mountPoint shareType := by
      rw [path, shares, isBase]
      exact ⟨[], below shareType, rfl⟩
    rw [getMountPoint, if_pos marked, first, normpath_base, if_pos mounted]
    exact first
  · rw [Decodable, if_neg isVar] at decodable
    by_cases device : env.varOnSameDevice mountPoint.path = true
    · rw [if_pos device] at decodable
      obtain ⟨absent, unmounted⟩ := decodable
      have shares : getSharesPath env mountPoint.path = varShares := by
        rw [getSharesPath, if_neg isVar, if_pos device]
      have marked : '/' :: varShares <:+: storedPath env mountPoint shareType := by
        rw [path, shares, ends]
        exact ⟨start, below shareType, by simp⟩
      rw [getMountPoint, if_pos marked, unmounted, if_neg Bool.false_ne_true, path, shares]
      exact Text.before_append (by decide) absent _
    · rw [if_neg device] at decodable
      obtain ⟨unmarked, absent⟩ := decodable
      have shares : getSharesPath env mountPoint.path = freedomboxShares := by
        rw [getSharesPath, if_neg isVar, if_neg device]
      have notMarked : ¬ '/' :: varShares <:+: storedPath env mountPoint shareType := by
        rw [path, shares]
        intro marked
        rcases infix_append_cons (by decide) marked with inside | after
        · exact unmarked inside
        · cases shareType <;> revert after <;> decide
      rw [getMountPoint, if_neg notMarked, path, shares]
      exact Text.before_append (by decide) absent _

/-! ## Names -/

theorem shareTypeOf_append_group (name : List Char) : shareTypeOf (name ++ groupSuffix) = .group := by
  rw [shareTypeOf, if_pos (List.isSuffixOf_iff_suffix.mpr (List.suffix_append _ _))]

theorem shareTypeOf_append_home (name : List Char) : shareTypeOf (name ++ homeSuffix) = .home := by
  have notGroup : ¬ groupSuffix.isSuffixOf (name ++ homeSuffix) = true := by
    intro ends
    obtain ⟨start, same⟩ := List.isSuffixOf_iff_suffix.mp ends
    have last := congrArg List.getLast? same
    rw [List.getLast?_append, List.getLast?_append] at last
    simp [groupSuffix, homeSuffix] at last
  rw [shareTypeOf, if_neg notGroup, if_pos (List.isSuffixOf_iff_suffix.mpr (List.suffix_append _ _))]

abbrev Pair := MountPoint × ShareType

def shareName (pair : Pair) : List Char :=
  match pair.2 with
  | .open_ => createShareName pair.1.path
  | .group => createShareName pair.1.path ++ groupSuffix
  | .home => createShareName pair.1.path ++ homeSuffix

def entry (env : Environment) (pair : Pair) : List Char × List Char :=
  (shareName pair, storedPath env pair.1 pair.2)

theorem createShare_eq (pair : Pair) :
    createShare env pair.1.path pair.2 = defineShare env (entry env pair).1 (entry env pair).2 := by
  obtain ⟨mountPoint, _ | _ | _⟩ := pair <;> rfl

structure Readable (env : Environment) (pair : Pair) : Prop where
  oneLine : '\n' ∉ pair.1.path
  isSection : shareName pair ≠ "DEFAULT".toList
  typed : pair.2 = .open_ →
    ¬ groupSuffix <:+ createShareName pair.1.path ∧ ¬ homeSuffix <:+ createShareName pair.1.path
  decodable : Decodable env pair.1 pair.2

def share (env : Environment) (pair : Pair) : Share :=
  ⟨shareName pair, pair.1.path, storedPath env pair.1 pair.2, pair.2⟩

theorem readShare_entry {pair : Pair} (mounted : env.isMount pair.1.path = true)
    (readable : Readable env pair) : readShare env (entry env pair) = share env pair := by
  have mountPoint : Os.normpath (getMountPoint env (entry env pair).2) = pair.1.path := by
    rw [entry, getMountPoint_storedPath mounted readable.decodable, normpath_base]
  have shareType : shareTypeOf (entry env pair).1 = pair.2 := by
    obtain ⟨mountPoint, shareType⟩ := pair
    cases shareType with
    | open_ =>
      obtain ⟨notGroup, notHome⟩ := readable.typed rfl
      rw [← List.isSuffixOf_iff_suffix] at notGroup notHome
      exact (if_neg notGroup).trans (if_neg notHome)
    | group => exact shareTypeOf_append_group _
    | home => exact shareTypeOf_append_home _
  rw [readShare, mountPoint, shareType]
  rfl

/-! ## Calls in any order -/

def record (env : Environment) (stored : List Pair) : Event → List Pair
  | .addShare mountPoint shareType =>
    if env.isMount mountPoint.path ∧ env.accepts (shareName (mountPoint, shareType)) then
      stored.filter (· ≠ (mountPoint, shareType)) ++ [(mountPoint, shareType)]
    else stored
  | .deleteShare mountPoint shareType => stored.filter (· ≠ (mountPoint, shareType))

def Storable (env : Environment) (stored : List Pair) : Event → Prop
  | .addShare mountPoint shareType => env.isMount mountPoint.path = true →
      Readable env (mountPoint, shareType) ∧ ∀ other ∈ stored, other ≠ (mountPoint, shareType) →
        env.fold (shareName other) ≠ env.fold (shareName (mountPoint, shareType))
  | .deleteShare _ _ => True

structure Holds (env : Environment) (registry : Registry) (stored : List Pair) : Prop where
  entries : registry = stored.map (entry env)
  nodup : stored.Nodup
  mounted : ∀ pair ∈ stored, env.isMount pair.1.path = true
  accepted : ∀ pair ∈ stored, env.accepts (shareName pair) = true
  readable : ∀ pair ∈ stored, Readable env pair
  distinct : ∀ pair ∈ stored, ∀ other ∈ stored, other ≠ pair →
    env.fold (shareName other) ≠ env.fold (shareName pair)

variable {registry : Registry} {stored : List Pair}

theorem Holds.getShares (holds : Holds env registry stored) :
    getShares env registry = stored.map (share env) := by
  have all : sections registry = registry := by
    rw [sections, holds.entries, List.filter_eq_self]
    intro named member
    obtain ⟨pair, present, rfl⟩ := List.mem_map.mp member
    exact decide_eq_true (holds.readable pair present).isSection
  rw [Samba.getShares, all, holds.entries, List.map_map]
  apply List.map_congr_left
  intro pair member
  exact readShare_entry (holds.mounted pair member) (holds.readable pair member)

theorem filter_entries {pair : Pair} (apart : ∀ other ∈ stored, other ≠ pair →
    env.fold (shareName other) ≠ env.fold (shareName pair)) :
    (stored.map (entry env)).filter (fun named => env.fold named.1 ≠ env.fold (shareName pair)) =
      (stored.filter (· ≠ pair)).map (entry env) := by
  rw [List.filter_map]
  congr 1
  apply List.filter_congr
  intro other member
  by_cases same : other = pair
  · simp [same, entry]
  · simp [same, entry, apart other member same]

theorem any_entries_iff {pair : Pair} (apart : ∀ other ∈ stored, other ≠ pair →
    env.fold (shareName other) ≠ env.fold (shareName pair)) :
    (stored.map (entry env)).any (fun named => env.fold named.1 = env.fold (shareName pair)) = true ↔
      pair ∈ stored := by
  rw [List.any_eq_true]
  constructor
  · rintro ⟨named, member, same⟩
    obtain ⟨other, present, rfl⟩ := List.mem_map.mp member
    by_contra absent
    have ne : other ≠ pair := by
      rintro rfl
      exact absent present
    exact apart other present ne (of_decide_eq_true same)
  · intro present
    exact ⟨entry env pair, List.mem_map_of_mem present, decide_eq_true rfl⟩

theorem exec_delshare {pair : Pair} (present : pair ∈ stored)
    (apart : ∀ other ∈ stored, other ≠ pair →
      env.fold (shareName other) ≠ env.fold (shareName pair)) :
    (delshare env (shareName pair)).exec (stored.map (entry env)) =
      (.ok (), (stored.filter (· ≠ pair)).map (entry env)) := by
  rw [delshare, exec_bind, exec_get]
  dsimp only
  rw [if_pos ((any_entries_iff apart).mpr present), exec_modify, filter_entries apart]

theorem exec_delshare_absent {pair : Pair} (absent : pair ∉ stored)
    (apart : ∀ other ∈ stored, other ≠ pair →
      env.fold (shareName other) ≠ env.fold (shareName pair)) :
    ∃ e, (delshare env (shareName pair)).exec (stored.map (entry env)) =
      (.error e, (stored.filter (· ≠ pair)).map (entry env)) := by
  have same : stored.filter (· ≠ pair) = stored := by
    rw [List.filter_eq_self]
    intro other member
    apply decide_eq_true
    rintro rfl
    exact absent member
  rw [delshare, exec_bind, exec_get, same]
  dsimp only
  rw [if_neg fun found => absent ((any_entries_iff apart).mp found)]
  exact ⟨_, rfl⟩

theorem state_defineShare {pair : Pair} (apart : ∀ other ∈ stored, other ≠ pair →
    env.fold (shareName other) ≠ env.fold (shareName pair)) :
    ((defineShare env (shareName pair) (storedPath env pair.1 pair.2)).exec
      (stored.map (entry env))).2 =
      (if env.accepts (shareName pair) = true then stored.filter (· ≠ pair) ++ [pair]
        else stored.filter (· ≠ pair)).map (entry env) := by
  have removed : (tryCatch (delshare env (shareName pair)) fun _ => pure ()).exec
      (stored.map (entry env)) = (.ok (), (stored.filter (· ≠ pair)).map (entry env)) := by
    rw [exec_tryCatch]
    by_cases present : pair ∈ stored
    · rw [exec_delshare present apart]
    · obtain ⟨e, failed⟩ := exec_delshare_absent present apart
      rw [failed]
      rfl
  have free : ¬ ((stored.filter (· ≠ pair)).map (entry env)).any
      (fun named => env.fold named.1 = env.fold (shareName pair)) = true := by
    rw [any_entries_iff]
    · simp
    · intro other member
      exact apart other (List.mem_of_mem_filter member)
  rw [defineShare, exec_bind, removed]
  dsimp only
  rw [addshare, exec_bind, exec_get]
  dsimp only
  by_cases accepted : env.accepts (shareName pair) = true
  · rw [if_pos ⟨accepted, free⟩, if_pos accepted, exec_modify, List.map_append]
    rfl
  · rw [if_neg fun both => accepted both.1, if_neg accepted]
    rfl

theorem Holds.filter (holds : Holds env registry stored) (pair : Pair) :
    Holds env ((stored.filter (· ≠ pair)).map (entry env)) (stored.filter (· ≠ pair)) where
  entries := rfl
  nodup := holds.nodup.filter _
  mounted other member := holds.mounted other (List.mem_of_mem_filter member)
  accepted other member := holds.accepted other (List.mem_of_mem_filter member)
  readable other member := holds.readable other (List.mem_of_mem_filter member)
  distinct other member other' member' :=
    holds.distinct other (List.mem_of_mem_filter member) other' (List.mem_of_mem_filter member')

theorem Holds.append (holds : Holds env registry stored) {pair : Pair} (absent : pair ∉ stored)
    (mounted : env.isMount pair.1.path = true) (accepted : env.accepts (shareName pair) = true)
    (readable : Readable env pair) (apart : ∀ other ∈ stored, other ≠ pair →
      env.fold (shareName other) ≠ env.fold (shareName pair)) :
    Holds env ((stored ++ [pair]).map (entry env)) (stored ++ [pair]) := by
  have all : ∀ {P : Pair → Prop}, (∀ other ∈ stored, P other) → P pair →
      ∀ other ∈ stored ++ [pair], P other := by
    intro P old new other member
    rcases List.mem_append.mp member with member | member
    · exact old other member
    · rw [List.mem_singleton.mp member]
      exact new
  refine ⟨rfl, ?_, all holds.mounted mounted, all holds.accepted accepted,
    all holds.readable readable, ?_⟩
  · rw [← List.concat_eq_append]
    exact holds.nodup.concat absent
  · apply all
    · intro other member
      apply all (holds.distinct other member)
      intro ne same
      exact apart other member (fun h => ne h.symm) same.symm
    · apply all apart
      intro ne
      exact absurd rfl ne

theorem filter_of_not_mem {pair : Pair} (absent : pair ∉ stored) :
    stored.filter (· ≠ pair) = stored := by
  rw [List.filter_eq_self]
  intro other member
  apply decide_eq_true
  rintro rfl
  exact absent member

theorem Holds.step_addShare (holds : Holds env registry stored) (pair : Pair)
    (storable : Storable env stored (.addShare pair.1 pair.2)) :
    Holds env (step env registry (.addShare pair.1 pair.2))
      (record env stored (.addShare pair.1 pair.2)) := by
  by_cases mounted : env.isMount pair.1.path = true
  · obtain ⟨readable, apart⟩ := storable mounted
    have next : step env registry (.addShare pair.1 pair.2) =
        (if env.accepts (shareName pair) = true then stored.filter (· ≠ pair) ++ [pair]
          else stored.filter (· ≠ pair)).map (entry env) := by
      rw [step, call, addShare, pair.1.normal, if_pos mounted, createShare_eq, holds.entries]
      exact state_defineShare apart
    rw [next, record]
    by_cases accepted : env.accepts (shareName pair) = true
    · rw [if_pos accepted, if_pos ⟨mounted, accepted⟩]
      apply (holds.filter pair).append _ mounted accepted readable
      · intro other member
        exact apart other (List.mem_of_mem_filter member)
      · simp
    · have absent : pair ∉ stored := fun member => accepted (holds.accepted pair member)
      rw [if_neg accepted, if_neg fun both => accepted both.2, filter_of_not_mem absent,
        ← holds.entries]
      exact holds
  · have same : step env registry (.addShare pair.1 pair.2) = registry := by
      rw [step, call, addShare, pair.1.normal, if_neg mounted]
      rfl
    rw [same, record, if_neg fun both => mounted both.1]
    exact holds

theorem share_matches_iff (pair other : Pair) :
    (share env other).mountPoint = pair.1.path ∧ (share env other).shareType = pair.2 ↔
      other = pair := by
  obtain ⟨⟨path, _, _⟩, shareType⟩ := pair
  obtain ⟨⟨path', _, _⟩, shareType'⟩ := other
  simp [share]

def deleteMatching (env : Environment) (pair : Pair) (share : Share) : Call :=
  Effect.when (share.mountPoint = pair.1.path ∧ share.shareType = pair.2) (delshare env share.name)

theorem exec_deleteMatching_of_absent {pair : Pair} {listed : List Pair} (absent : pair ∉ listed)
    (registry : Registry) :
    (forEach (listed.map (share env)) (deleteMatching env pair)).exec registry = (.ok (), registry) := by
  induction listed with
  | nil => rfl
  | cons other listed ih =>
    rw [List.mem_cons, not_or] at absent
    have mismatch : ¬ ((share env other).mountPoint = pair.1.path ∧
        (share env other).shareType = pair.2) := by
      rw [share_matches_iff]
      exact Ne.symm absent.1
    rw [List.map_cons, forEach, exec_bind, deleteMatching, when_of_not mismatch, exec_pure]
    exact ih absent.2

theorem exec_deleteMatching {pair : Pair} {listed : List Pair} (distinct : listed.Nodup)
    (sub : ∀ other ∈ listed, other ∈ stored) (present : pair ∈ listed)
    (apart : ∀ other ∈ stored, other ≠ pair →
      env.fold (shareName other) ≠ env.fold (shareName pair)) :
    (forEach (listed.map (share env)) (deleteMatching env pair)).exec (stored.map (entry env)) =
      (.ok (), (stored.filter (· ≠ pair)).map (entry env)) := by
  induction listed with
  | nil => cases present
  | cons other listed ih =>
    obtain ⟨fresh, distinct⟩ := List.nodup_cons.mp distinct
    rw [List.map_cons, forEach, exec_bind, deleteMatching]
    by_cases same : other = pair
    · have removed : (delshare env (share env other).name).exec (stored.map (entry env)) =
          (.ok (), (stored.filter (· ≠ pair)).map (entry env)) := by
        rw [same]
        exact exec_delshare (sub pair (same ▸ List.mem_cons_self)) apart
      rw [when_of ((share_matches_iff pair other).mpr same), removed]
      exact exec_deleteMatching_of_absent (same ▸ fresh) _
    · rw [when_of_not fun found => same ((share_matches_iff pair other).mp found), exec_pure]
      apply ih distinct
      · exact fun later member => sub later (List.mem_cons_of_mem _ member)
      · exact (List.mem_cons.mp present).resolve_left (Ne.symm same)

theorem Holds.step_deleteShare (holds : Holds env registry stored) (pair : Pair) :
    Holds env (step env registry (.deleteShare pair.1 pair.2))
      (record env stored (.deleteShare pair.1 pair.2)) := by
  have unfolded : step env registry (.deleteShare pair.1 pair.2) =
      ((forEach (stored.map (share env)) (deleteMatching env pair)).exec
        (stored.map (entry env))).2 := by
    rw [step, call, deleteShare, exec_bind, exec_get]
    dsimp only
    rw [holds.getShares, pair.1.normal, holds.entries]
    rfl
  rw [unfolded, record]
  by_cases present : pair ∈ stored
  · rw [exec_deleteMatching holds.nodup (fun _ member => member) present
      (holds.distinct pair present)]
    exact holds.filter pair
  · rw [exec_deleteMatching_of_absent present, filter_of_not_mem present, ← holds.entries]
    exact holds

theorem Holds.step (holds : Holds env registry stored) {event : Event}
    (storable : Storable env stored event) :
    Holds env (step env registry event) (record env stored event) := by
  cases event with
  | addShare mountPoint shareType => exact holds.step_addShare (mountPoint, shareType) storable
  | deleteShare mountPoint shareType => exact holds.step_deleteShare (mountPoint, shareType)

theorem holds_run (events : List Event) (holds : Holds env registry stored)
    (storable : Throughout (record env) (Storable env) stored events) :
    Holds env (run (Samba.step env) registry events) (run (record env) stored events) := by
  induction events generalizing registry stored with
  | nil => exact holds
  | cons event events ih => exact ih (holds.step storable.1) storable.2

theorem holds_nil : Holds env [] [] where
  entries := rfl
  nodup := List.nodup_nil
  mounted _ member := by cases member
  accepted _ member := by cases member
  readable _ member := by cases member
  distinct _ member := by cases member

def others (event : Event) (shares : List Share) : List Share :=
  match event with
  | .addShare mountPoint shareType | .deleteShare mountPoint shareType =>
    shares.filter fun share => ¬ (share.mountPoint = mountPoint.path ∧ share.shareType = shareType)

theorem others_share (pair : Pair) (listed : List Pair) :
    ((listed.map (share env)).filter fun share =>
      ¬ (share.mountPoint = pair.1.path ∧ share.shareType = pair.2)) =
      (listed.filter (· ≠ pair)).map (share env) := by
  rw [List.filter_map]
  congr 1
  apply List.filter_congr
  intro other _
  simp only [Function.comp_apply, share_matches_iff]

theorem others_record (event : Event) (stored : List Pair) :
    others event ((record env stored event).map (share env)) =
      others event (stored.map (share env)) := by
  cases event with
  | addShare mountPoint shareType =>
    rw [others, others, others_share (mountPoint, shareType), others_share (mountPoint, shareType),
      record]
    split
    · simp
    · rfl
  | deleteShare mountPoint shareType =>
    rw [others, others, others_share (mountPoint, shareType), others_share (mountPoint, shareType),
      record]
    simp

theorem shares_stored (env : Environment) {events : List Event} {event : Event}
    (storable : Throughout (record env) (Storable env) [] (events ++ [event])) :
    getShares env (run (step env) [] (events ++ [event])) =
      (run (record env) [] (events ++ [event])).map (share env) ∧
    others event (getShares env (run (step env) [] (events ++ [event]))) =
      others event (getShares env (run (step env) [] events)) := by
  have before := holds_run events holds_nil ((throughout_append _ _ _).mp storable).1
  have after := holds_run (events ++ [event]) holds_nil storable
  rw [after.getShares, before.getShares]
  refine ⟨rfl, ?_⟩
  rw [run_append]
  exact others_record event _

def mounts : Environment where
  isMount _ := true
  varOnSameDevice _ := false
  accepts _ := true
  fold name := name.map Char.toLower

def diskA : MountPoint := ⟨"/media/a/disk".toList, by decide, by decide⟩

def diskB : MountPoint := ⟨"/media/b/disk".toList, by decide, by decide⟩

theorem shares_stored_diskA :
    getShares mounts (run (step mounts) [] [.addShare diskA .open_, .deleteShare diskB .open_]) =
      [share mounts (diskA, .open_)] := by
  have readable : Readable mounts (diskA, .open_) := by
    refine ⟨by decide, by decide, ?_, by decide⟩
    intro _
    decide
  have storable : Throughout (record mounts) (Storable mounts) []
      ([.addShare diskA .open_] ++ [.deleteShare diskB .open_]) :=
    ⟨fun _ => ⟨readable, fun _ member => by cases member⟩, trivial, trivial⟩
  exact (shares_stored mounts storable).1

theorem share_overwritten :
    getShares mounts (run (step mounts) [] [.addShare diskA .open_, .addShare diskB .open_]) ≠
      (run (record mounts) [] [.addShare diskA .open_, .addShare diskB .open_]).map
        (share mounts) := by
  decide

end Plinth.Samba
