import Plinth.Proof.LetsEncrypt.Components

/-!
# Where certificates are written and read

A copy is checked where its paths lead to, a comparison only as its paths are written. Whether a
declared path is admitted is decided by the text before its placeholder.
-/

namespace Plinth.LetsEncrypt.Certificates

open Python Exception Pathlib FileSystem Effect

def Confined (host : Host) (app : Text) (location : Location) : Prop :=
  IsSource (located location) ∨
    ∃ components, host.components app = .ok components ∧ IsManaged components (located location)

theorem assertManagedPath_ok_iff {host : Host} {app : Text} {p : PurePath} :
    assertManagedPath host app p = .ok () ↔
      ∃ components, host.components app = .ok components ∧ IsManaged components p := by
  unfold assertManagedPath
  constructor
  · intro asserted
    obtain ⟨components, declared, asserted⟩ := ok_of_bind asserted
    split at asserted
    · rename_i managed
      exact ⟨components, declared, managed⟩
    · cases asserted
  · rintro ⟨components, declared, managed⟩
    apply bind_of_ok declared
    rw [if_pos managed]
    rfl

theorem locateManaged_ok_iff {host : Host} {fs : FileSystem} {app text : Text}
    {location : Location} : locateManaged host fs app text = .ok location ↔
      fs.resolve false host.depth text = .ok location ∧
        assertManagedPath host app (located location) = .ok () := by
  unfold locateManaged
  constructor
  · intro h
    obtain ⟨_, resolved, h⟩ := ok_of_bind h
    obtain ⟨⟨⟩, asserted, h⟩ := ok_of_bind h
    cases h
    exact ⟨resolved, asserted⟩
  · rintro ⟨resolved, asserted⟩
    exact bind_of_ok resolved (bind_of_ok asserted rfl)

/-! ## Copying -/

structure Within (copy : Copy) (before s : System) : Prop where
  writes : ∀ location ∈ s.writes,
    location ∈ before.writes ∨ location ∈ [copy.privateKey, copy.certificate]
  made : ∀ location ∈ s.made,
    location ∈ before.made ∨ ∃ target ∈ [copy.privateKey, copy.certificate], location <+: target

section Within

variable {host : Host} {copy : Copy} {before : System}

theorem within_makeDirectory {permissions : Nat} {location target : Location}
    (member : target ∈ [copy.privateKey, copy.certificate]) (onTheWay : location <+: target) :
    Safe (Within copy before) (makeDirectory host permissions location) := by
  intro s within
  unfold makeDirectory
  rw [exec_bind, exec_get]
  dsimp only
  cases there : s.fs.entry location with
  | none =>
    refine ⟨within.writes, fun other listed => ?_⟩
    rcases List.mem_append.mp listed with earlier | last
    · exact within.made other earlier
    · rw [List.mem_singleton.mp last]
      exact .inr ⟨target, member, onTheWay⟩
  | some entry =>
    dsimp only
    by_cases directory : s.fs.isDir host.depth location = true
    · rw [if_pos directory]
      exact within
    · rw [if_neg directory]
      exact within

theorem within_mkdir {target : Location} (member : target ∈ [copy.privateKey, copy.certificate]) :
    Safe (Within copy before) (mkdir host target.dropLast) := by
  apply Safe.bind
  · apply safe_forEach
    intro location listed
    have onTheWay := (mem_inits_tail.mp listed).2
    exact within_makeDirectory member
      ((onTheWay.trans (List.dropLast_prefix _)).trans (List.dropLast_prefix _))
  · exact fun _ => safe_when fun _ => within_makeDirectory member (List.dropLast_prefix _)

theorem within_readBytes (location : Location) : Safe (Within copy before) (readBytes location) := by
  refine Safe.bind (Triple.modify fun s within => ⟨within.writes, within.made⟩) fun _ => ?_
  refine safe_get.bind fun s => ?_
  split
  · exact safe_pure _
  · exact safe_throw _
  · exact safe_throw _

theorem within_writeFile {target : Location} (member : target ∈ [copy.privateKey, copy.certificate])
    (attributes : Attributes) (bytes : Text) :
    Safe (Within copy before) (writeFile host target attributes bytes) := by
  apply Safe.bind
  · refine Triple.modify fun s within => ⟨fun location listed => ?_, within.made⟩
    rcases List.mem_append.mp listed with earlier | last
    · exact within.writes location earlier
    · rw [List.mem_singleton.mp last]
      exact .inr member
  · intro _
    split
    · exact Triple.modify fun s within => ⟨within.writes, within.made⟩
    · exact safe_throw _
    · exact Safe.bind (Triple.modify fun s within => ⟨within.writes, within.made⟩) fun _ =>
        safe_throw _

theorem within_copyfile {permissions : Nat} (source : Location) {target : Location}
    (member : target ∈ [copy.privateKey, copy.certificate]) :
    Safe (Within copy before) (copyfile host permissions source target) := by
  refine safe_get.bind fun s => ?_
  split
  · exact safe_throw _
  · refine (within_readBytes source).bind fun bytes => safe_get.bind fun s' => ?_
    unfold writeOver
    split
    · exact within_writeFile member _ _
    · exact within_writeFile member _ _
    · exact safe_throw _

theorem within_copyChain : Safe (Within copy before) (copyChain host copy) := by
  unfold copyChain
  split
  · exact within_copyfile _ (by simp)
  · refine (within_readBytes _).bind fun bytes => safe_get.bind fun s => ?_
    split
    · exact within_writeFile (by simp) _ _
    · exact safe_throw _

theorem within_chown {user group : String} {target : Location}
    (member : target ∈ [copy.privateKey, copy.certificate]) :
    Safe (Within copy before) (chown host user group target) := by
  unfold chown
  split
  · intro s within
    unfold setOwner
    rw [exec_bind, exec_get]
    dsimp only
    split
    · rename_i outcome a s' ran
      split at ran
      · cases ran
        refine ⟨fun location listed => ?_, within.made⟩
        rcases List.mem_append.mp listed with earlier | last
        · exact within.writes location earlier
        · rw [List.mem_singleton.mp last]
          exact .inr member
      · cases ran
    · rename_i outcome e s' ran
      split at ran
      · cases ran
      · cases ran
        exact within
  · exact safe_throw _

theorem within_perform (user group : String) :
    Safe (Within copy before) (perform host copy user group) := by
  refine (within_mkdir (by simp)).bind fun _ => (within_mkdir (by simp)).bind fun _ => ?_
  refine (within_copyfile _ (by simp)).bind fun _ => within_copyChain.bind fun _ => ?_
  exact (within_chown (by simp)).bind fun _ => within_chown (by simp)

end Within

def untouched (fs : FileSystem) : System where
  fs := fs
  reads := []
  writes := []
  made := []

variable {host : Host} {fs : FileSystem}

theorem confined_of_locate {request : Request} {copy : Copy}
    (found : locate host fs request = .ok copy) :
    ∀ location ∈ [copy.privateKey, copy.certificate],
      Confined host request.managingApp location := by
  unfold locate at found
  obtain ⟨_, _, found⟩ := ok_of_bind found
  obtain ⟨_, _, found⟩ := ok_of_bind found
  obtain ⟨key, keyFound, found⟩ := ok_of_bind found
  obtain ⟨chain, chainFound, found⟩ := ok_of_bind found
  cases found
  have keyManaged := assertManagedPath_ok_iff.mp (locateManaged_ok_iff.mp keyFound).2
  have chainManaged := assertManagedPath_ok_iff.mp (locateManaged_ok_iff.mp chainFound).2
  intro location member
  rcases List.mem_cons.mp member with rfl | member
  · exact .inr keyManaged
  · rw [List.mem_singleton.mp member]
    exact .inr chainManaged

theorem copyCertificate_confined (host : Host) (request : Request) (user group : String)
    (fs : FileSystem) :
    (∀ location ∈ ((copyCertificate host request user group).exec (untouched fs)).2.writes,
      Confined host request.managingApp location) ∧
    ∀ location ∈ ((copyCertificate host request user group).exec (untouched fs)).2.made,
      ∃ target, Confined host request.managingApp target ∧ location <+: target := by
  unfold copyCertificate
  rw [exec_bind, exec_get]
  dsimp only
  rw [exec_bind, exec_lift]
  cases found : locate host (untouched fs).fs request with
  | error e => exact ⟨by simp [untouched], by simp [untouched]⟩
  | ok copy =>
    have confined := confined_of_locate found
    have start : Within copy (untouched fs) (untouched fs) := ⟨fun _ => .inl, fun _ => .inl⟩
    have within : Within copy (untouched fs) ((perform host copy user group).exec
        (untouched fs)).2 := (within_perform user group).final start
    refine ⟨fun location listed => ?_, fun location listed => ?_⟩
    · rcases within.writes location listed with earlier | target
      · cases earlier
      · exact confined location target
    · rcases within.made location listed with earlier | ⟨target, member, onTheWay⟩
      · cases earlier
      · exact ⟨target, confined target member, onTheWay⟩

/-! ## Comparing -/

def Looked (host : Host) (fs : FileSystem) (first second : Text) (location : Location) : Prop :=
  fs.resolve true host.depth first = .ok location ∨
    (∃ place node, Finds host fs first place node) ∧
      fs.resolve true host.depth second = .ok location

theorem reads_stat (host : Host) (text : Text) (s : System) (location : Location) :
    location ∈ ((stat host text).exec s).2.reads ↔
      location ∈ s.reads ∨ s.fs.resolve true host.depth text = .ok location := by
  unfold stat
  rw [exec_bind, exec_get]
  dsimp only
  rw [exec_bind, exec_lift]
  cases resolved : s.fs.resolve true host.depth text with
  | error e => simp
  | ok place =>
    have looked : ∀ action : Action Node, Keeps (fun s : System => s.reads) action →
        (location ∈ ((reads place >>= fun _ => action).exec s).2.reads ↔
          location ∈ s.reads ∨ place = location) := by
      intro action keeps
      rw [exec_bind]
      change location ∈ (action.exec { s with reads := s.reads ++ [place] }).2.reads ↔ _
      rw [show (action.exec { s with reads := s.reads ++ [place] }).2.reads =
        s.reads ++ [place] from keeps _]
      simp [eq_comm]
    rw [Except.ok.injEq]
    apply looked
    split
    · exact keeps_pure _
    · exact keeps_throw _

theorem returns_stat (host : Host) (text : Text) (s : System) :
    (∃ node, ((stat host text).exec s).1 = .ok node) ↔
      ∃ location node, Finds host s.fs text location node := by
  constructor
  · rintro ⟨node, ran⟩
    obtain ⟨location, finds, _⟩ := stat_ok_iff.mp (Prod.ext ran rfl)
    exact ⟨location, node, finds⟩
  · rintro ⟨location, node, finds⟩
    exact ⟨node, by rw [stat_ok_iff.mpr ⟨location, finds, rfl⟩]⟩

theorem reads_cmp (host : Host) (first second : Text) (s : System) (location : Location) :
    location ∈ ((cmp host first second).exec s).2.reads ↔
      location ∈ s.reads ∨ Looked host s.fs first second location := by
  have read := reads_stat host first s location
  have returns := returns_stat host first s
  have kept : ((stat host first).exec s).2.fs = s.fs := Component.keepsFiles_stat first s
  unfold cmp
  rw [exec_bind, Looked, ← returns]
  generalize (stat host first).exec s = outcome at read kept ⊢
  obtain ⟨e | node, between⟩ := outcome
  · simpa using read
  · have later : ((stat host second >>= fun node' => (pure (sameBytes node node') :
        Action Bool)).exec between).2 = ((stat host second).exec between).2 :=
      state_bind_of_keeps (fun _ => keeps_pure _) between
    dsimp only at read kept ⊢
    rw [later, reads_stat, read, kept]
    simp [or_assoc]

def LookedAt (host : Host) (fs : FileSystem) (request : Request) (location : Location) : Prop :=
  Looked host fs request.sourceCertificate request.certificate location ∨
    Agree host fs request.sourceCertificate request.certificate ∧
      Looked host fs request.sourcePrivateKey request.privateKey location

theorem reads_compareFiles (host : Host) (request : Request) (s : System) (location : Location) :
    location ∈ ((compareFiles host request).exec s).2.reads ↔
      location ∈ s.reads ∨ LookedAt host s.fs request location := by
  have read := reads_cmp host request.sourceCertificate request.certificate s location
  have kept : ((cmp host request.sourceCertificate request.certificate).exec s).2.fs = s.fs :=
    Component.keepsFiles_cmp _ _ s
  have agrees : ((cmp host request.sourceCertificate request.certificate).exec s).1 = .ok true ↔
      Agree host s.fs request.sourceCertificate request.certificate := by
    rw [← cmp_true_iff]
    constructor
    · intro same
      exact ⟨_, Prod.ext same rfl, kept⟩
    · rintro ⟨s', ran, _⟩
      rw [ran]
  unfold compareFiles
  rw [exec_bind, LookedAt, ← agrees]
  generalize (cmp host request.sourceCertificate request.certificate).exec s = outcome at read kept ⊢
  obtain ⟨e | same, between⟩ := outcome
  · simpa using read
  · dsimp only at read kept ⊢
    cases same with
    | false =>
      rw [if_neg (by simp), exec_pure]
      simpa using read
    | true =>
      rw [if_pos rfl, reads_cmp, read, kept]
      simp [or_assoc]

theorem reads_compareCertificate (host : Host) (request : Request) (fs : FileSystem)
    (location : Location) :
    location ∈ ((compareCertificate host request).exec (untouched fs)).2.reads ↔
      checkPaths host request = .ok () ∧ LookedAt host fs request location := by
  unfold compareCertificate
  rw [exec_bind, exec_lift]
  cases checked : checkPaths host request with
  | error e => simp [untouched]
  | ok u =>
    have read := reads_compareFiles host request (untouched fs) location
    dsimp only
    rw [exec_tryCatch]
    generalize (compareFiles host request).exec (untouched fs) = outcome at read ⊢
    obtain ⟨e | same, s'⟩ := outcome
    · have caught : Keeps (fun s : System => s.reads) (catchMissing e) := by
        unfold catchMissing
        split
        · exact keeps_pure _
        · exact keeps_throw _
      rw [show ((catchMissing e).exec s').2.reads = s'.reads from caught s', read]
      simp [untouched]
    · rw [read]
      simp [untouched]

/-! ## Declared paths -/

def IsDomain (domain : Text) : Prop :=
  IsPart domain ∧ domain ≠ ['.', '.']

theorem format_of_hasDomain {template : Template} (has : template.HasDomain) :
    ∃ rest : Text → Text,
      ∀ domain, template.format domain = template.beforeDomain ++ (domain ++ rest domain) := by
  obtain ⟨pieces, noBraces⟩ := template
  change Piece.domain ∈ pieces at has
  obtain ⟨before, after, rfl, absent⟩ := List.eq_append_cons_of_mem has
  have differs : ∀ piece ∈ before, decide (piece ≠ .domain) = true := fun piece member =>
    decide_eq_true (fun same => absent (same ▸ member))
  refine ⟨fun domain => after.flatMap (Template.Piece.shown domain), fun domain => ?_⟩
  have taken : (before ++ .domain :: after).takeWhile (· ≠ Piece.domain) = before := by
    rw [List.takeWhile_append_of_pos differs, List.takeWhile_cons_of_neg (by simp), List.append_nil]
  have plain : before.flatMap (Template.Piece.shown domain) =
      before.flatMap (Template.Piece.shown Template.placeholder) := by
    refine congrArg List.flatten (List.map_congr_left fun piece member => ?_)
    cases piece with
    | char c => rfl
    | domain => exact absurd member absent
  rw [Template.format, Template.beforeDomain, taken, List.flatMap_append, plain,
    List.flatMap_cons]
  rfl

def directoryParts (text : Text) : List Text :=
  (text.splitOn '/').dropLast.filter fun part => part ≠ [] ∧ part ≠ ['.']

theorem partsOf_continued (before : Text) {domain : Text} (isDomain : IsDomain domain)
    (rest : Text) : ∃ name more, partsOf (before ++ (domain ++ rest)) =
      directoryParts before ++ name :: more ∧ domain.length ≤ name.length := by
  obtain ⟨segments, last, split, append⟩ := Path.splitOn_append '/' before
  obtain ⟨segments', last', split', append'⟩ := Path.splitOn_append '/' domain
  obtain ⟨first, more, splitRest⟩ := List.exists_cons_of_ne_nil (List.splitOn_ne_nil '/' rest)
  rw [List.splitOn_eq_singleton isDomain.1.2.2] at split'
  cases segments' with
  | cons segment segments' => simp at split'
  | nil =>
    cases split'
    have splitAll := append _ _ _ (append' rest first more splitRest)
    refine ⟨last ++ (domain ++ first), more.filter fun part => part ≠ [] ∧ part ≠ ['.'], ?_,
      by simp only [List.length_append]; omega⟩
    have kept : last ++ (domain ++ first) ≠ [] ∧ last ++ (domain ++ first) ≠ ['.'] := by
      obtain ⟨⟨nonempty, notDot, _⟩, _⟩ := isDomain
      refine ⟨by simp [nonempty], fun dot => ?_⟩
      have lengths := congrArg List.length dot
      obtain ⟨c, tail, rfl⟩ := List.exists_cons_of_ne_nil nonempty
      simp only [List.length_append, List.length_cons, List.length_nil] at lengths
      have noLast : last = [] := List.length_eq_zero_iff.mp (by omega)
      have noTail : tail = [] := List.length_eq_zero_iff.mp (by omega)
      have noFirst : first = [] := List.length_eq_zero_iff.mp (by omega)
      subst noLast noTail noFirst
      exact notDot (by simpa using dot)
    rw [partsOf, splitAll, directoryParts, split, List.dropLast_concat,
      List.filter_append, List.filter_cons, if_pos (decide_eq_true kept)]

theorem initialSlashes_continued (before : Text) {rest : Text} (nonempty : rest ≠ [])
    (noSlash : rest.head? ≠ some '/') :
    Os.initialSlashes (before ++ rest) = Os.initialSlashes before := by
  obtain ⟨c, rest, rfl⟩ := List.exists_cons_of_ne_nil nonempty
  have other : c ≠ '/' := by simpa using noSlash
  match before with
  | [] => simp [Os.initialSlashes, other]
  | [a] =>
    by_cases first : a = '/' <;> simp [Os.initialSlashes, other, first]
  | [a, b] =>
    by_cases first : a = '/'
    · by_cases second : b = '/' <;> simp [Os.initialSlashes, other, first, second]
    · simp [Os.initialSlashes, first]
  | a :: b :: d :: before =>
    by_cases first : a = '/'
    · by_cases second : b = '/'
      · by_cases third : d = '/' <;> simp [Os.initialSlashes, first, second, third]
      · simp [Os.initialSlashes, first, second]
    · simp [Os.initialSlashes, first]

def IsCovered (components : List Component) (template : Template) : Prop :=
  if template.HasDomain then
    ∃ other ∈ templates components,
      (getManagedPath other).root = Os.initialSlashes template.beforeDomain ∧
        (getManagedPath other).parts <+: directoryParts template.beforeDomain
  else partsOf template.text ≠ []

theorem isManaged_of_covered {components : List Component} {template : Template}
    (member : template ∈ templates components) (covered : IsCovered components template)
    {domain : Text} (isDomain : IsDomain domain) :
    IsManaged components (path (template.format domain)) := by
  unfold IsCovered at covered
  by_cases has : template.HasDomain
  · rw [if_pos has] at covered
    obtain ⟨other, listed, root, parts⟩ := covered
    obtain ⟨rest, formatted⟩ := format_of_hasDomain has
    obtain ⟨name, more, split, _⟩ := partsOf_continued template.beforeDomain isDomain (rest domain)
    obtain ⟨c, tail, rfl⟩ := List.exists_cons_of_ne_nil isDomain.1.1
    have noSlash : (c :: tail ++ rest (c :: tail)).head? ≠ some '/' := by
      rintro ⟨⟩
      exact isDomain.1.2.2 List.mem_cons_self
    refine ⟨other, listed, ?_, ?_, ?_⟩
    · change _ = Os.initialSlashes (template.format _)
      rw [root, formatted, initialSlashes_continued _ (by simp) noSlash]
    · change _ <+: partsOf (template.format _)
      rw [formatted, split]
      exact parts.trans (List.prefix_append _ _)
    · change _ ≠ partsOf (template.format _)
      rw [formatted, split]
      intro same
      have length := parts.length_le
      rw [same, List.length_append, List.length_cons] at length
      omega
  · rw [if_neg has] at covered
    refine ⟨template, member, ?_⟩
    rw [getManagedPath, if_neg has, ← Template.text_of_plain has domain]
    refine ⟨rfl, List.dropLast_prefix _, ?_⟩
    intro same
    have lengths := congrArg List.length same
    have positive := List.length_pos_iff.mpr covered
    change (partsOf template.text).dropLast.length = (partsOf template.text).length at lengths
    rw [List.length_dropLast] at lengths
    omega

theorem isCovered_of_managed {components : List Component} {template : Template}
    (managed : ∀ domain, IsDomain domain →
      IsManaged components (path (template.format domain))) : IsCovered components template := by
  unfold IsCovered
  by_cases has : template.HasDomain
  · rw [if_pos has]
    obtain ⟨rest, formatted⟩ := format_of_hasDomain has
    -- longer than every part of a managed path
    let parts := (templates components).flatMap fun other => (getManagedPath other).parts
    have isDomain : IsDomain (List.replicate (parts.flatten.length + 1) 'a') := by
      refine ⟨⟨by simp, ?_, ?_⟩, ?_⟩
      · intro dot
        exact absurd (List.eq_of_mem_replicate (dot ▸ List.mem_cons_self : '.' ∈ _)) (by decide)
      · intro slash
        exact absurd (List.eq_of_mem_replicate slash) (by decide)
      · intro dots
        exact absurd (List.eq_of_mem_replicate (dots ▸ List.mem_cons_self : '.' ∈ _)) (by decide)
    obtain ⟨other, listed, root, onTheWay, _⟩ := managed _ isDomain
    obtain ⟨name, more, split, longer⟩ := partsOf_continued template.beforeDomain isDomain
      (rest (List.replicate (parts.flatten.length + 1) 'a'))
    refine ⟨other, listed, ?_, ?_⟩
    · rw [root]
      change Os.initialSlashes (template.format _) = _
      rw [formatted]
      refine initialSlashes_continued _ (by simp) ?_
      rw [List.replicate_succ]
      simp
    · change _ <+: partsOf (template.format _) at onTheWay
      rw [formatted, split] at onTheWay
      rcases List.prefix_or_prefix_of_prefix onTheWay (List.prefix_append _ _) with inside | ⟨tail, same⟩
      · exact inside
      · cases tail with
        | nil =>
          rw [List.append_nil] at same
          rw [← same]
        | cons first tail =>
          rw [← same, List.prefix_append_right_inj, List.cons_prefix_cons] at onTheWay
          obtain ⟨rfl, _⟩ := onTheWay
          have part : first ∈ parts :=
            List.mem_flatMap.mpr ⟨other, listed, same ▸ by simp⟩
          have short := (List.sublist_flatten_of_mem part).length_le
          rw [List.length_replicate] at longer
          omega
  · rw [if_neg has]
    have isDomain : IsDomain ['a'] := ⟨by decide, by decide⟩
    obtain ⟨other, _, _, onTheWay, differs⟩ := managed ['a'] isDomain
    rw [← Template.text_of_plain has] at onTheWay differs
    change _ <+: partsOf _ at onTheWay
    change _ ≠ partsOf _ at differs
    intro empty
    rw [empty] at onTheWay differs
    exact differs (List.prefix_nil.mp onTheWay)

/-! ## Both -/

/-- Copies are made, and files compared, in managed directories and those of certificates only; and
what an app declares is admitted by both. -/
structure Confines (host : Host) (request : Request) (user group : String) (fs : FileSystem) :
    Prop where
  writes : ∀ location ∈ ((copyCertificate host request user group).exec (untouched fs)).2.writes,
    Confined host request.managingApp location
  made : ∀ location ∈ ((copyCertificate host request user group).exec (untouched fs)).2.made,
    ∃ target, Confined host request.managingApp target ∧ location <+: target
  reads : ∀ location ∈ ((compareCertificate host request).exec (untouched fs)).2.reads,
    Confined host request.managingApp location
  admitted : ∀ components, host.components request.managingApp = .ok components →
    ∀ template ∈ templates components, ∀ domain, IsDomain domain →
      assertManagedPath host request.managingApp (path (template.format domain)) = .ok () ∧
        ∃ location, locateManaged host fs request.managingApp (template.format domain) = .ok location

/-- What the check of a comparison admits leads nowhere else; and the directories of placeholders
are managed, also where the paths lead to. -/
structure Sound (host : Host) (request : Request) (fs : FileSystem) : Prop where
  leads : checkPaths host request = .ok () →
    ∀ location, LookedAt host fs request location → Confined host request.managingApp location
  covered : ∀ components, host.components request.managingApp = .ok components →
    ∀ template ∈ templates components, IsCovered components template ∧
      ∀ domain, IsDomain domain → ∃ location,
        fs.resolve false host.depth (template.format domain) = .ok location ∧
          IsManaged components (located location)

def upwardsRequest : Request where
  managingApp := "ejabberd".toList
  sourcePrivateKey := "/etc/letsencrypt/../../home/key".toList
  sourceCertificate := "/etc/letsencrypt/../../home/secret".toList
  privateKey := "/etc/ejabberd/letsencrypt/key.pem".toList
  certificate := "/etc/ejabberd/letsencrypt/cert.pem".toList

def upwardsFiles : FileSystem :=
  holding [(["etc".toList], []), (["etc".toList, "letsencrypt".toList], []),
    (["home".toList], []), (["home".toList, "secret".toList], "secret".toList)]

end Plinth.LetsEncrypt.Certificates
