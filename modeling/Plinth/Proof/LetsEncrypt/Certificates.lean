import Plinth.Model.LetsEncrypt.Components

/-!
# What copies of certificates hold

A copy that succeeds writes two files. What they hold is told by the files that their bytes come
from; whether comparing finds the copies again is told by the state before.
-/

namespace Plinth.LetsEncrypt.Certificates

open Python Exception Pathlib FileSystem Effect

/-! ## Contents -/

def content (fs : FileSystem) (location : Location) : Text :=
  match fs.entry location with
  | some (.node (.file file)) => file.content
  | _ => []

def IsFile (fs : FileSystem) (location : Location) : Prop :=
  ∃ file, fs.entry location = some (.node (.file file))

theorem content_of_entry {fs : FileSystem} {location : Location} {file : File}
    (there : fs.entry location = some (.node (.file file))) : content fs location = file.content := by
  rw [content, there]

def Copy.written {α : Type} (copy : Copy) (before : Location → List α) (location : Location) :
    List α :=
  let key := before copy.sourcePrivateKey
  let chain := if copy.sourceCertificate = copy.privateKey then key
    else before copy.sourceCertificate
  if location = copy.certificate then
    if copy.certificate = copy.privateKey then key ++ chain else chain
  else if location = copy.privateKey then key
  else before location

def origins (copies : List Copy) : Location → List Location :=
  copies.foldl (fun before copy => copy.written before) fun location => [location]

def bytesOf (fs : FileSystem) (locations : List Location) : Text :=
  locations.flatMap (content fs)

theorem bytesOf_written (fs : FileSystem) (copy : Copy) (before : Location → List Location)
    (location : Location) : bytesOf fs (copy.written before location) =
      copy.written (fun location => bytesOf fs (before location)) location := by
  simp only [Copy.written]
  split
  · split
    · rw [bytesOf, List.flatMap_append]
      split <;> rfl
    · split <;> rfl
  · split <;> rfl

/-! ## File systems that differ by what was added -/

structure Extends (fs fs' : FileSystem) : Prop where
  cwd : fs.cwd = fs'.cwd
  kept : ∀ location entry, fs.entry location = some entry → fs'.entry location = some entry
  added : ∀ location entry, fs.entry location = none → fs'.entry location = some entry →
    ∃ attributes, entry = .node (.directory attributes)

namespace Extends

variable {fs fs' fs'' : FileSystem}

theorem refl (fs : FileSystem) : Extends fs fs where
  cwd := rfl
  kept _ _ there := there
  added location entry missing there := by rw [missing] at there; cases there

theorem trans (first : Extends fs fs') (second : Extends fs' fs'') : Extends fs fs'' where
  cwd := first.cwd.trans second.cwd
  kept location entry there := second.kept _ _ (first.kept _ _ there)
  added location entry missing there := by
    cases between : fs'.entry location with
    | none => exact second.added _ _ between there
    | some entry' =>
      obtain ⟨attributes, rfl⟩ := first.added _ _ missing between
      have same := second.kept _ _ between
      rw [there] at same
      cases same
      exact ⟨attributes, rfl⟩

theorem sameLinks (extended : Extends fs fs') : SameLinks fs fs' where
  cwd := extended.cwd
  link location target := by
    refine ⟨extended.kept _ _, fun link => ?_⟩
    cases there : fs.entry location with
    | none =>
      obtain ⟨attributes, directory⟩ := extended.added _ _ there link
      cases directory
    | some entry =>
      rw [extended.kept _ _ there] at link
      exact link

theorem entry_file_iff (extended : Extends fs fs') (location : Location) (file : File) :
    fs.entry location = some (.node (.file file)) ↔
      fs'.entry location = some (.node (.file file)) := by
  refine ⟨extended.kept _ _, fun found => ?_⟩
  cases there : fs.entry location with
  | none =>
    obtain ⟨attributes, directory⟩ := extended.added _ _ there found
    cases directory
  | some entry =>
    rw [extended.kept _ _ there] at found
    exact found

theorem isFile_iff (extended : Extends fs fs') (location : Location) :
    IsFile fs location ↔ IsFile fs' location := by
  simp only [IsFile, extended.entry_file_iff]

theorem content_eq (extended : Extends fs fs') (location : Location) :
    content fs' location = content fs location := by
  by_cases isFile : IsFile fs location
  · obtain ⟨file, there⟩ := isFile
    rw [content_of_entry there, content_of_entry (extended.kept _ _ there)]
  · have notFile := (extended.isFile_iff location).not.mp isFile
    rw [content, content]
    split
    · rename_i file there
      exact absurd ⟨file, there⟩ notFile
    · split
      · rename_i file there
        exact absurd ⟨file, there⟩ isFile
      · rfl

end Extends

structure Overwritten (target : Location) (bytes : Text) (fs fs' : FileSystem) : Prop where
  writable : fs.entry target = none ∨ IsFile fs target
  put : ∃ attributes, fs' = fs.put target (some (.file ⟨bytes, attributes⟩))

namespace Overwritten

variable {target : Location} {bytes : Text} {fs fs' : FileSystem}

theorem entry_of_ne (written : Overwritten target bytes fs fs') {location : Location}
    (different : location ≠ target) : fs'.entry location = fs.entry location := by
  obtain ⟨attributes, rfl⟩ := written.put
  exact entry_put_of_ne fs _ different

theorem entry_self (written : Overwritten target bytes fs fs') :
    ∃ attributes, fs'.entry target = some (.node (.file ⟨bytes, attributes⟩)) := by
  obtain ⟨attributes, rfl⟩ := written.put
  exact ⟨attributes, entry_put_self fs _ _⟩

theorem sameLinks (written : Overwritten target bytes fs fs') : SameLinks fs fs' where
  cwd := by
    obtain ⟨attributes, rfl⟩ := written.put
    rfl
  link location link := by
    by_cases same : location = target
    · subst same
      obtain ⟨attributes, there⟩ := written.entry_self
      rcases written.writable with missing | ⟨file, before⟩
      · simp [there, missing]
      · simp [there, before]
    · rw [written.entry_of_ne same]

theorem missing_iff (written : Overwritten target bytes fs fs') (location : Location) :
    fs'.entry location = none ↔ fs.entry location = none ∧ location ≠ target := by
  by_cases same : location = target
  · subst same
    obtain ⟨attributes, there⟩ := written.entry_self
    simp [there]
  · rw [written.entry_of_ne same]
    exact ⟨fun missing => ⟨missing, same⟩, And.left⟩

theorem missing_iff_of_isFile (written : Overwritten target bytes fs fs')
    (isFile : IsFile fs target) (location : Location) :
    fs'.entry location = none ↔ fs.entry location = none := by
  rw [written.missing_iff]
  refine and_iff_left_of_imp ?_
  rintro missing rfl
  obtain ⟨file, there⟩ := isFile
  rw [there] at missing
  cases missing

theorem isFile_iff (written : Overwritten target bytes fs fs') (location : Location) :
    IsFile fs' location ↔ location = target ∨ IsFile fs location := by
  by_cases same : location = target
  · subst same
    obtain ⟨attributes, there⟩ := written.entry_self
    exact iff_of_true ⟨_, there⟩ (.inl rfl)
  · simp only [IsFile, written.entry_of_ne same, same, false_or]

theorem content_eq (written : Overwritten target bytes fs fs') (location : Location) :
    content fs' location = if location = target then bytes else content fs location := by
  split
  · rename_i same
    subst same
    obtain ⟨attributes, there⟩ := written.entry_self
    exact content_of_entry there
  · rename_i different
    rw [content, content, written.entry_of_ne different]

end Overwritten

/-! ## Steps of a copy -/

variable {host : Host} {s s' : System}

theorem makeDirectory_spec {permissions : Nat} {location : Location}
    (ran : (makeDirectory host permissions location).exec s = (.ok (), s')) :
    Extends s.fs s'.fs ∧
      ∀ other, s'.fs.entry other = none ↔ s.fs.entry other = none ∧ other ≠ location := by
  unfold makeDirectory at ran
  obtain ⟨_, _, got, ran⟩ := returns_of_bind ran
  cases got
  cases there : s.fs.entry location with
  | none =>
    simp only [there] at ran
    cases ran
    refine ⟨⟨rfl, fun other entry found => ?_, fun other entry missing found => ?_⟩, fun other => ?_⟩
    · have different : other ≠ location := by
        rintro rfl
        rw [there] at found
        cases found
      exact (entry_put_of_ne _ _ different).trans found
    · by_cases same : other = location
      · subst same
        rw [entry_put_self] at found
        cases found
        exact ⟨_, rfl⟩
      · rw [entry_put_of_ne _ _ same, missing] at found
        cases found
    · by_cases same : other = location
      · subst same
        simp
      · rw [entry_put_of_ne _ _ same]
        exact ⟨fun missing => ⟨missing, same⟩, And.left⟩
  | some entry =>
    simp only [there] at ran
    split at ran
    · cases ran
      refine ⟨.refl _, fun other => ⟨fun missing => ⟨missing, ?_⟩, And.left⟩⟩
      rintro rfl
      rw [there] at missing
      cases missing
    · cases ran

theorem makeDirectories_spec {permissions : Nat} {locations : List Location}
    (ran : (forEach locations (makeDirectory host permissions)).exec s = (.ok (), s')) :
    Extends s.fs s'.fs ∧
      ∀ other, s'.fs.entry other = none ↔ s.fs.entry other = none ∧ other ∉ locations := by
  induction locations generalizing s with
  | nil =>
    cases ran
    exact ⟨.refl _, fun other => by simp⟩
  | cons location locations ih =>
    obtain ⟨_, between, first, later⟩ := returns_of_bind ran
    obtain ⟨extended, missing⟩ := makeDirectory_spec first
    obtain ⟨extended', missing'⟩ := ih later
    refine ⟨extended.trans extended', fun other => ?_⟩
    rw [missing', missing, List.mem_cons, not_or, and_assoc]

theorem mem_inits_tail {location other : Location} :
    other ∈ location.inits.tail ↔ other ≠ [] ∧ other <+: location := by
  cases location with
  | nil => simp
  | cons name location =>
    rw [List.inits_cons, List.tail_cons, List.mem_map]
    constructor
    · rintro ⟨rest, member, rfl⟩
      exact ⟨List.cons_ne_nil _ _, (List.prefix_cons_inj name).mpr ((List.mem_inits _ _).mp member)⟩
    · rintro ⟨nonempty, onTheWay⟩
      obtain ⟨first, rest, rfl⟩ := List.exists_cons_of_ne_nil nonempty
      obtain ⟨rfl, before⟩ := List.cons_prefix_cons.mp onTheWay
      exact ⟨rest, (List.mem_inits _ _).mpr before, rfl⟩

theorem mkdir_spec {location : Location}
    (ran : (mkdir host location).exec s = (.ok (), s')) :
    Extends s.fs s'.fs ∧ ∀ other, s'.fs.entry other = none ↔
      s.fs.entry other = none ∧ ¬ (other ≠ [] ∧ other <+: location) := by
  obtain ⟨_, between, first, later⟩ := returns_of_bind ran
  obtain ⟨extended, missing⟩ := makeDirectories_spec first
  by_cases root : location = []
  · subst root
    rw [when_of_not (not_not.mpr rfl)] at later
    cases later
    refine ⟨extended, fun other => ?_⟩
    rw [missing]
    simp
  · rw [when_of root] at later
    obtain ⟨extended', missing'⟩ := makeDirectory_spec later
    refine ⟨extended.trans extended', fun other => ?_⟩
    rw [missing', missing, mem_inits_tail, and_assoc]
    refine and_congr_right fun _ => ?_
    rw [← not_or, not_iff_not]
    constructor
    · rintro (⟨nonempty, onTheWay⟩ | rfl)
      · exact ⟨nonempty, onTheWay.trans (List.dropLast_prefix _)⟩
      · exact ⟨root, List.prefix_rfl⟩
    · rintro ⟨nonempty, onTheWay⟩
      rw [← List.dropLast_append_getLast root, List.prefix_concat_iff] at onTheWay
      rcases onTheWay with same | shorter
      · exact .inr (same.trans (List.dropLast_append_getLast root))
      · exact .inl ⟨nonempty, shorter⟩

theorem readBytes_spec {location : Location} {bytes : Text}
    (ran : (readBytes location).exec s = (.ok bytes, s')) :
    s'.fs = s.fs ∧ IsFile s.fs location ∧ bytes = content s.fs location := by
  unfold readBytes at ran
  obtain ⟨_, between, first, ran⟩ := returns_of_bind ran
  cases first
  obtain ⟨_, between, got, ran⟩ := returns_of_bind ran
  cases got
  dsimp only at ran
  split at ran
  · rename_i file there
    cases ran
    exact ⟨rfl, ⟨file, there⟩, (content_of_entry there).symm⟩
  · cases ran
  · cases ran

theorem writeFile_spec {location : Location} {attributes : Attributes} {bytes : Text}
    (writable : s.fs.entry location = none ∨ IsFile s.fs location)
    (ran : (writeFile host location attributes bytes).exec s = (.ok (), s')) :
    Overwritten location bytes s.fs s'.fs := by
  unfold writeFile at ran
  obtain ⟨_, between, first, ran⟩ := returns_of_bind ran
  cases first
  split at ran
  · cases ran
    exact ⟨writable, attributes, rfl⟩
  · cases ran
  · obtain ⟨_, between, first, ran⟩ := returns_of_bind ran
    cases ran

theorem copyfile_spec {permissions : Nat} {source target : Location}
    (ran : (copyfile host permissions source target).exec s = (.ok (), s')) :
    source ≠ target ∧ IsFile s.fs source ∧
      Overwritten target (content s.fs source) s.fs s'.fs := by
  unfold copyfile at ran
  obtain ⟨_, between, got, ran⟩ := returns_of_bind ran
  cases got
  split at ran
  · cases ran
  · rename_i notSame
    obtain ⟨bytes, between, read, ran⟩ := returns_of_bind ran
    obtain ⟨same, isFile, rfl⟩ := readBytes_spec read
    obtain ⟨_, between', got, ran⟩ := returns_of_bind ran
    cases got
    refine ⟨?_, isFile, ?_⟩
    · rintro rfl
      obtain ⟨file, there⟩ := isFile
      simp [isSameFile, there] at notSame
    · rw [same] at ran
      unfold writeOver at ran
      split at ran
      · rename_i missing
        have written := writeFile_spec (s := between) (.inl (same ▸ missing)) ran
        rwa [same] at written
      · rename_i file there
        have written := writeFile_spec (s := between) (.inr ⟨file, same ▸ there⟩) ran
        rwa [same] at written
      · cases ran

theorem append_spec {target : Location} {bytes : Text}
    (ran : (append host target bytes).exec s = (.ok (), s')) :
    Overwritten target (content s.fs target ++ bytes) s.fs s'.fs := by
  unfold append at ran
  obtain ⟨_, between, got, ran⟩ := returns_of_bind ran
  cases got
  split at ran
  · rename_i file there
    rw [content_of_entry there]
    exact writeFile_spec (.inr ⟨file, there⟩) ran
  · cases ran

theorem chown_spec {user group : String} {location : Location}
    (ran : (chown host user group location).exec s = (.ok (), s')) :
    IsFile s.fs location ∧ Overwritten location (content s.fs location) s.fs s'.fs := by
  unfold chown at ran
  split at ran
  · unfold setOwner at ran
    obtain ⟨_, between, got, ran⟩ := returns_of_bind ran
    cases got
    split at ran
    · rename_i file there
      cases ran
      refine ⟨⟨file, there⟩, .inr ⟨file, there⟩, ⟨user, group, file.attributes.permissions⟩, ?_⟩
      rw [content_of_entry there]
    · cases ran
  · cases ran

/-! ## A copy as a whole -/

structure After (copy : Copy) (fs fs' : FileSystem) : Prop where
  links : SameLinks fs fs'
  missing : ∀ location, location ≠ [] → (fs'.entry location = none ↔ fs.entry location = none ∧
    ¬ ∃ other ∈ [copy.privateKey, copy.certificate], location <+: other)
  contents : ∀ location, content fs' location = copy.written (content fs) location
  files : ∀ location, IsFile fs location → IsFile fs' location
  sourceKey : IsFile fs' copy.sourcePrivateKey
  sourceChain : IsFile fs' copy.sourceCertificate
  key : IsFile fs' copy.privateKey
  chain : IsFile fs' copy.certificate
  keyApart : copy.sourcePrivateKey ≠ copy.privateKey
  chainApart : copy.certificate ≠ copy.privateKey → copy.sourceCertificate ≠ copy.certificate

structure Chained (copy : Copy) (fs fs' : FileSystem) : Prop where
  links : SameLinks fs fs'
  missing : ∀ location, fs'.entry location = none ↔
    fs.entry location = none ∧ location ≠ copy.privateKey ∧ location ≠ copy.certificate
  contents : ∀ location, content fs' location = copy.written (content fs) location
  files : ∀ location, IsFile fs location → IsFile fs' location
  sourceKey : IsFile fs copy.sourcePrivateKey
  sourceChain : IsFile fs' copy.sourceCertificate
  keyApart : copy.sourcePrivateKey ≠ copy.privateKey
  chainApart : copy.certificate ≠ copy.privateKey → copy.sourceCertificate ≠ copy.certificate

theorem chained_of_copies {copy : Copy} {between : System}
    (first : (copyfile host 0o600 copy.sourcePrivateKey copy.privateKey).exec s = (.ok (), between))
    (later : (copyChain host copy).exec between = (.ok (), s')) : Chained copy s.fs s'.fs := by
  obtain ⟨keyApart, sourceKey, keyWritten⟩ := copyfile_spec first
  unfold copyChain at later
  by_cases apart : copy.certificate ≠ copy.privateKey
  · rw [if_pos apart] at later
    obtain ⟨chainApart, sourceChain, chainWritten⟩ := copyfile_spec later
    refine ⟨keyWritten.sameLinks.trans chainWritten.sameLinks, fun location => ?_,
      fun location => ?_, fun location isFile => ?_, sourceKey, ?_, keyApart, fun _ => chainApart⟩
    · rw [chainWritten.missing_iff, keyWritten.missing_iff, and_assoc]
    · rw [chainWritten.content_eq, keyWritten.content_eq, keyWritten.content_eq, Copy.written,
        if_neg apart]
    · rw [chainWritten.isFile_iff, keyWritten.isFile_iff]
      exact .inr (.inr isFile)
    · exact (chainWritten.isFile_iff _).mpr (.inr sourceChain)
  · rw [if_neg apart] at later
    rw [not_not] at apart
    obtain ⟨bytes, middle, read, later⟩ := returns_of_bind later
    obtain ⟨same, sourceChain, rfl⟩ := readBytes_spec read
    have chainWritten := append_spec later
    rw [same] at chainWritten
    refine ⟨keyWritten.sameLinks.trans chainWritten.sameLinks, fun location => ?_,
      fun location => ?_, fun location isFile => ?_, sourceKey, ?_, keyApart,
      fun different => absurd apart different⟩
    · rw [chainWritten.missing_iff, keyWritten.missing_iff, and_assoc, apart]
    · rw [chainWritten.content_eq, keyWritten.content_eq, keyWritten.content_eq,
        keyWritten.content_eq, Copy.written, apart, if_pos rfl, if_pos rfl]
    · rw [chainWritten.isFile_iff, keyWritten.isFile_iff]
      exact .inr (.inr isFile)
    · exact (chainWritten.isFile_iff _).mpr (.inr sourceChain)

theorem written_congr {α : Type} {copy : Copy} {before before' : Location → List α}
    (same : ∀ location, before location = before' location) (location : Location) :
    copy.written before location = copy.written before' location := by
  rw [funext same]

theorem onTheWay_iff {location other : Location} :
    (location ≠ [] ∧ location <+: other.dropLast) ∨ location = other ↔
      (location ≠ [] ∨ location = other) ∧ location <+: other := by
  constructor
  · rintro (⟨nonempty, before⟩ | rfl)
    · exact ⟨.inl nonempty, before.trans (List.dropLast_prefix _)⟩
    · exact ⟨.inr rfl, List.prefix_rfl⟩
  · rintro ⟨nonempty | rfl, onTheWay⟩
    · by_cases same : location = other
      · exact .inr same
      · refine .inl ⟨nonempty, ?_⟩
        have filled : other ≠ [] := by
          rintro rfl
          exact nonempty (List.prefix_nil.mp onTheWay)
        rw [← List.dropLast_append_getLast filled, List.prefix_concat_iff,
          List.dropLast_append_getLast filled] at onTheWay
        exact onTheWay.resolve_left same
    · exact .inr rfl

theorem perform_spec {copy : Copy} {user group : String}
    (ran : (perform host copy user group).exec s = (.ok (), s')) : After copy s.fs s'.fs := by
  unfold perform at ran
  obtain ⟨_, s₁, made, ran⟩ := returns_of_bind ran
  obtain ⟨_, s₂, made', ran⟩ := returns_of_bind ran
  obtain ⟨_, s₃, keyCopied, ran⟩ := returns_of_bind ran
  obtain ⟨_, s₄, chainCopied, ran⟩ := returns_of_bind ran
  obtain ⟨_, s₅, chainOwned, keyOwned⟩ := returns_of_bind ran
  obtain ⟨extended₁, missing₁⟩ := mkdir_spec made
  obtain ⟨extended₂, missing₂⟩ := mkdir_spec made'
  have extended := extended₁.trans extended₂
  have chained := chained_of_copies keyCopied chainCopied
  obtain ⟨chain, owned⟩ := chown_spec chainOwned
  obtain ⟨key, owned'⟩ := chown_spec keyOwned
  have finish : ∀ location, IsFile s₄.fs location → IsFile s'.fs location := fun location isFile =>
    (owned'.isFile_iff _).mpr (.inr ((owned.isFile_iff _).mpr (.inr isFile)))
  have contents : ∀ location, content s'.fs location = content s₄.fs location := by
    intro location
    have same₅ : content s₅.fs location = content s₄.fs location := by
      rw [owned.content_eq]
      split
      · rename_i here
        rw [here]
      · rfl
    rw [owned'.content_eq]
    split
    · rename_i here
      rw [← here, same₅]
    · exact same₅
  refine ⟨?_, fun location nonempty => ?_, fun location => ?_, fun location isFile => ?_, ?_, ?_, ?_,
    ?_, chained.keyApart, chained.chainApart⟩
  · exact ((extended.sameLinks.trans chained.links).trans owned.sameLinks).trans owned'.sameLinks
  · have kept : s'.fs.entry location = none ↔ s₄.fs.entry location = none :=
      (owned'.missing_iff_of_isFile key location).trans (owned.missing_iff_of_isFile chain location)
    rw [kept, chained.missing, missing₂, missing₁, and_assoc, and_assoc]
    refine and_congr_right fun _ => ?_
    have wayKey := @onTheWay_iff location copy.privateKey
    have wayChain := @onTheWay_iff location copy.certificate
    simp only [nonempty, ne_eq, not_false_eq_true, true_and, true_or] at wayKey wayChain
    simp only [nonempty, ne_eq, not_false_eq_true, true_and, List.mem_cons, List.not_mem_nil,
      or_false, exists_eq_or_imp, exists_eq_left, ← wayKey, ← wayChain]
    tauto
  · rw [contents, chained.contents]
    exact written_congr (fun location => extended.content_eq location) location
  · exact finish _ (chained.files _ ((extended.isFile_iff _).mp isFile))
  · exact finish _ (chained.files _ chained.sourceKey)
  · exact finish _ chained.sourceChain
  · exact (owned'.isFile_iff _).mpr (.inr key)
  · exact finish _ chain

/-! ## Copies one after the other -/

def destinations (copies : List Copy) : List Location :=
  copies.flatMap fun copy => [copy.privateKey, copy.certificate]

structure AfterAll (copies : List Copy) (fs fs' : FileSystem) : Prop where
  links : SameLinks fs fs'
  missing : ∀ location, location ≠ [] → (fs'.entry location = none ↔ fs.entry location = none ∧
    ¬ ∃ other ∈ destinations copies, location <+: other)
  contents : ∀ location, content fs' location = bytesOf fs (origins copies location)
  files : ∀ location, IsFile fs location → IsFile fs' location
  each : ∀ copy ∈ copies, IsFile fs' copy.sourcePrivateKey ∧ IsFile fs' copy.sourceCertificate ∧
    IsFile fs' copy.privateKey ∧ IsFile fs' copy.certificate

theorem AfterAll.nil (fs : FileSystem) : AfterAll [] fs fs where
  links := .refl
  missing location _ := by simp [destinations]
  contents location := by simp [origins, bytesOf]
  files _ := id
  each := by simp

theorem AfterAll.snoc {copies : List Copy} {copy : Copy} {fs fs' fs'' : FileSystem}
    (before : AfterAll copies fs fs') (after : After copy fs' fs'') :
    AfterAll (copies ++ [copy]) fs fs'' where
  links := before.links.trans after.links
  missing location nonempty := by
    rw [after.missing location nonempty, before.missing location nonempty, and_assoc, ← not_or]
    refine and_congr_right fun _ => not_congr ?_
    simp only [destinations, List.flatMap_append, List.flatMap_cons, List.flatMap_nil,
      List.append_nil, List.mem_append, or_and_right, exists_or]
  contents location := by
    rw [after.contents, written_congr before.contents, ← bytesOf_written, origins, origins,
      List.foldl_append]
    rfl
  files location isFile := after.files location (before.files location isFile)
  each copy' member := by
    rcases List.mem_append.mp member with earlier | last
    · obtain ⟨sourceKey, sourceChain, key, chain⟩ := before.each copy' earlier
      exact ⟨after.files _ sourceKey, after.files _ sourceChain, after.files _ key,
        after.files _ chain⟩
    · rw [List.mem_singleton.mp last]
      exact ⟨after.sourceKey, after.sourceChain, after.key, after.chain⟩

theorem locate_congr {fs fs' : FileSystem} (same : SameLinks fs fs') (request : Request) :
    locate host fs request = locate host fs' request := by
  have resolved : ∀ text, fs.resolve false host.depth text = fs'.resolve false host.depth text :=
    fun text => resolve_congr same (fun strict => by cases strict) host.depth text
  simp only [locate, locateSource, locateManaged, resolved]

theorem copyCertificate_spec {request : Request} {user group : String}
    (ran : (copyCertificate host request user group).exec s = (.ok (), s')) :
    ∃ copy, locate host s.fs request = .ok copy ∧ After copy s.fs s'.fs := by
  unfold copyCertificate at ran
  obtain ⟨_, between, got, ran⟩ := returns_of_bind ran
  cases got
  obtain ⟨copy, between, found, ran⟩ := returns_of_bind ran
  rw [exec_lift, Prod.mk.injEq] at found
  obtain ⟨found, rfl⟩ := found
  exact ⟨copy, found, perform_spec ran⟩

theorem resolve_of_locate {fs : FileSystem} {request : Request} {copy : Copy}
    (found : locate host fs request = .ok copy) :
    fs.resolve false host.depth request.sourcePrivateKey = .ok copy.sourcePrivateKey ∧
      fs.resolve false host.depth request.sourceCertificate = .ok copy.sourceCertificate ∧
      fs.resolve false host.depth request.privateKey = .ok copy.privateKey ∧
      fs.resolve false host.depth request.certificate = .ok copy.certificate := by
  have source : ∀ {text location}, locateSource host fs text = .ok location →
      fs.resolve false host.depth text = .ok location := by
    intro text location h
    obtain ⟨_, resolved, h⟩ := ok_of_bind h
    obtain ⟨_, _, h⟩ := ok_of_bind h
    cases h
    exact resolved
  have managed : ∀ {text location}, locateManaged host fs request.managingApp text = .ok location →
      fs.resolve false host.depth text = .ok location := by
    intro text location h
    obtain ⟨_, resolved, h⟩ := ok_of_bind h
    obtain ⟨_, _, h⟩ := ok_of_bind h
    cases h
    exact resolved
  unfold locate at found
  obtain ⟨_, sourceKey, found⟩ := ok_of_bind found
  obtain ⟨_, sourceChain, found⟩ := ok_of_bind found
  obtain ⟨_, key, found⟩ := ok_of_bind found
  obtain ⟨_, chain, found⟩ := ok_of_bind found
  cases found
  exact ⟨source sourceKey, source sourceChain, managed key, managed chain⟩

/-! ## Comparing -/

def Finds (host : Host) (fs : FileSystem) (text : Text) (location : Location) (node : Node) :
    Prop :=
  fs.resolve true host.depth text = .ok location ∧ fs.entry location = some (.node node)

theorem stat_ok_iff {text : Text} {node : Node} : (stat host text).exec s = (.ok node, s') ↔
    ∃ location, Finds host s.fs text location node ∧
      s' = { s with reads := s.reads ++ [location] } := by
  unfold stat
  rw [exec_bind, exec_get]
  dsimp only
  rw [exec_bind_eq_ok_iff]
  constructor
  · rintro ⟨location, between, found, ran⟩
    rw [exec_lift, Prod.mk.injEq] at found
    obtain ⟨found, rfl⟩ := found
    obtain ⟨_, between, read, ran⟩ := returns_of_bind ran
    cases read
    split at ran
    · rename_i node' there
      cases ran
      exact ⟨location, ⟨found, there⟩, rfl⟩
    · cases ran
  · rintro ⟨location, ⟨found, there⟩, rfl⟩
    refine ⟨location, s, by rw [exec_lift, found], ?_⟩
    rw [there]
    rfl

theorem cmp_ok_iff {first second : Text} {same : Bool} :
    (cmp host first second).exec s = (.ok same, s') ↔
      ∃ location node location' node', Finds host s.fs first location node ∧
        Finds host s.fs second location' node' ∧ same = sameBytes node node' ∧
        s' = { s with reads := s.reads ++ [location] ++ [location'] } := by
  unfold cmp
  rw [exec_bind_eq_ok_iff]
  constructor
  · rintro ⟨node, between, found, ran⟩
    obtain ⟨location, finds, rfl⟩ := stat_ok_iff.mp found
    obtain ⟨node', between, found', ran⟩ := returns_of_bind ran
    obtain ⟨location', finds', rfl⟩ := stat_ok_iff.mp found'
    cases ran
    exact ⟨location, node, location', node', finds, finds', rfl, rfl⟩
  · rintro ⟨location, node, location', node', finds, finds', rfl, rfl⟩
    refine ⟨node, _, stat_ok_iff.mpr ⟨location, finds, rfl⟩, ?_⟩
    have found' : (stat host second).exec { s with reads := s.reads ++ [location] } =
        (.ok node', { s with reads := s.reads ++ [location] ++ [location'] }) :=
      stat_ok_iff.mpr ⟨location', finds', rfl⟩
    exact (exec_bind_of_ok found').trans rfl

def Agree (host : Host) (fs : FileSystem) (first second : Text) : Prop :=
  ∃ location location', fs.resolve true host.depth first = .ok location ∧
    fs.resolve true host.depth second = .ok location' ∧ IsFile fs location ∧
    IsFile fs location' ∧ content fs location = content fs location'

theorem cmp_true_iff {first second : Text} :
    (∃ s', (cmp host first second).exec s = (.ok true, s') ∧ s'.fs = s.fs) ↔
      Agree host s.fs first second := by
  constructor
  · rintro ⟨s', ran, -⟩
    obtain ⟨location, node, location', node', finds, finds', same, rfl⟩ := cmp_ok_iff.mp ran
    rcases node with file | attributes
    · rcases node' with file' | attributes'
      · refine ⟨location, location', finds.1, finds'.1, ⟨file, finds.2⟩, ⟨file', finds'.2⟩, ?_⟩
        rw [content_of_entry finds.2, content_of_entry finds'.2]
        exact of_decide_eq_true same.symm
      · cases same
    · cases same
  · rintro ⟨location, location', found, found', ⟨file, there⟩, ⟨file', there'⟩, same⟩
    rw [content_of_entry there, content_of_entry there'] at same
    refine ⟨_, cmp_ok_iff.mpr ⟨location, .file file, location', .file file', ⟨found, there⟩,
      ⟨found', there'⟩, (decide_eq_true same).symm, rfl⟩, rfl⟩

theorem compareFiles_true_iff {request : Request} :
    (∃ s', (compareFiles host request).exec s = (.ok true, s')) ↔
      Agree host s.fs request.sourceCertificate request.certificate ∧
        Agree host s.fs request.sourcePrivateKey request.privateKey := by
  unfold compareFiles
  constructor
  · rintro ⟨s', ran⟩
    obtain ⟨same, between, first, ran⟩ := returns_of_bind ran
    cases same with
    | false => cases ran
    | true =>
      have kept : between.fs = s.fs := by
        obtain ⟨_, _, _, _, _, _, _, rfl⟩ := cmp_ok_iff.mp first
        rfl
      have kept' : s'.fs = between.fs := by
        obtain ⟨_, _, _, _, _, _, _, rfl⟩ := cmp_ok_iff.mp ran
        rfl
      have agree := cmp_true_iff.mp ⟨s', ran, kept'⟩
      rw [kept] at agree
      exact ⟨cmp_true_iff.mp ⟨between, first, kept⟩, agree⟩
  · rintro ⟨chains, keys⟩
    obtain ⟨between, first, kept⟩ := cmp_true_iff.mpr chains
    rw [← kept] at keys
    obtain ⟨s', later, _⟩ := cmp_true_iff.mpr keys
    exact ⟨s', (exec_bind_of_ok first).trans later⟩

theorem compareCertificate_true_iff {request : Request} :
    ((compareCertificate host request).exec s).1 = .ok true ↔ checkPaths host request = .ok () ∧
      Agree host s.fs request.sourceCertificate request.certificate ∧
        Agree host s.fs request.sourcePrivateKey request.privateKey := by
  rw [← compareFiles_true_iff]
  unfold compareCertificate
  rw [exec_bind, exec_lift]
  cases checked : checkPaths host request with
  | error e => simp
  | ok u =>
    dsimp only
    rw [exec_tryCatch]
    rcases (compareFiles host request).exec s with ⟨e | same, s'⟩
    · have caught : (exec (catchMissing e) s').1 ≠ .ok true := by
        unfold catchMissing
        split <;> simp
      simp [caught]
    · simp

/-! ## Comparing after copying -/

def Walks (host : Host) (fs : FileSystem) (request : Request) : Prop :=
  ∀ text ∈ [request.sourcePrivateKey, request.sourceCertificate, request.privateKey,
    request.certificate], ∃ location, fs.resolve true host.depth text = .ok location

def Alike (copies : List Copy) (fs : FileSystem) (copy : Copy) : Prop :=
  bytesOf fs (origins copies copy.sourceCertificate) =
      bytesOf fs (origins copies copy.certificate) ∧
    bytesOf fs (origins copies copy.sourcePrivateKey) =
      bytesOf fs (origins copies copy.privateKey)

section After

variable {copies : List Copy} {fs : FileSystem}

theorem resolve_after {fs' : FileSystem} (after : AfterAll copies fs fs') (text : Text) :
    fs'.resolve true host.depth text =
      (fs.laidOut (destinations copies)).resolve true host.depth text := by
  apply resolve_congr (after.links.symm.trans (sameLinks_laidOut _))
  intro _ location nonempty
  rw [after.missing location nonempty, entry_laidOut_eq_none]

theorem agree_iff {fs' : FileSystem} (after : AfterAll copies fs fs') {first second : Text}
    {location location' : Location} (found : fs.resolve false host.depth first = .ok location)
    (found' : fs.resolve false host.depth second = .ok location') (isFile : IsFile fs' location)
    (isFile' : IsFile fs' location') : Agree host fs' first second ↔
      (∃ place, (fs.laidOut (destinations copies)).resolve true host.depth first = .ok place) ∧
      (∃ place, (fs.laidOut (destinations copies)).resolve true host.depth second = .ok place) ∧
        bytesOf fs (origins copies location) = bytesOf fs (origins copies location') := by
  have sameResolve : ∀ text, fs'.resolve false host.depth text = fs.resolve false host.depth text :=
    fun text => resolve_congr after.links.symm (fun strict => by cases strict) host.depth text
  have leads : ∀ {text place place'}, fs'.resolve true host.depth text = .ok place →
      fs.resolve false host.depth text = .ok place' → place = place' := by
    intro text place place' strict lax
    have lax' := resolve_of_strict strict
    rw [sameResolve, lax] at lax'
    cases lax'
    rfl
  rw [← resolve_after after, ← resolve_after after, ← after.contents, ← after.contents]
  constructor
  · rintro ⟨place, place', strict, strict', _, _, same⟩
    obtain rfl := leads strict found
    obtain rfl := leads strict' found'
    exact ⟨⟨place, strict⟩, ⟨place', strict'⟩, same⟩
  · rintro ⟨⟨place, strict⟩, ⟨place', strict'⟩, same⟩
    obtain rfl := leads strict found
    obtain rfl := leads strict' found'
    exact ⟨place, place', strict, strict', isFile, isFile', same⟩

theorem compare_after {s : System} (after : AfterAll copies fs s.fs) {request : Request}
    {copy : Copy} (located : locate host fs request = .ok copy) (member : copy ∈ copies) :
    ((compareCertificate host request).exec s).1 = .ok true ↔ checkPaths host request = .ok () ∧
      Walks host (fs.laidOut (destinations copies)) request ∧ Alike copies fs copy := by
  obtain ⟨sourceKey, sourceChain, key, chain⟩ := resolve_of_locate located
  obtain ⟨sourceKeyFile, sourceChainFile, keyFile, chainFile⟩ := after.each copy member
  rw [compareCertificate_true_iff, agree_iff after sourceChain chain sourceChainFile chainFile,
    agree_iff after sourceKey key sourceKeyFile keyFile, Walks, Alike]
  simp only [List.forall_mem_cons, List.not_mem_nil, false_imp_iff, implies_true, and_true]
  tauto

end After

end Plinth.LetsEncrypt.Certificates
