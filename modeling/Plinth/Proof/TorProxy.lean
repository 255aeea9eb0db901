import Plinth.Model.TorProxy

/-! # Switching the use of Tor on and off -/

namespace Plinth.TorProxy

open Python

variable {uri w : List Char} {stuck : Bool}

def Torified (uri : List Char) : Prop :=
  aptTorPrefix <+: uri

def Untouched (files : List SourcesList) : Prop :=
  ∀ file ∈ files, file.error = false → ∀ uri ∈ file.uris, ¬ Torified uri

/-! ## One URI -/

def configureUri (stuck : Bool) (uri : List Char) : Option Bool → List Char
  | some true => if stuck then uri else enableUri uri
  | some false => disableUri uri
  | none => uri

theorem disableUri_of_not (plain : ¬ Torified uri) : disableUri uri = uri := by
  have start : ¬ Text.startswith uri aptTorPrefix = true := fun start =>
    plain (List.isPrefixOf_iff_prefix.mp start)
  rw [disableUri, if_neg start]

@[simp] theorem disableUri_append (uri : List Char) : disableUri (aptTorPrefix ++ uri) = uri := by
  have start : Text.startswith (aptTorPrefix ++ uri) aptTorPrefix = true :=
    List.isPrefixOf_iff_prefix.mpr (List.prefix_append _ _)
  rw [disableUri, if_pos start, List.drop_left]

@[simp] theorem isHttp_append (uri : List Char) : isHttp (aptTorPrefix ++ uri) = false :=
  rfl

theorem run_of_not (plain : ¬ Torified uri) (events : List (Option Bool)) :
    Runs.run (configureUri stuck) uri events = uri ∨
      Runs.run (configureUri stuck) uri events = aptTorPrefix ++ uri := by
  refine Runs.invariant_run (fun w => w = uri ∨ w = aptTorPrefix ++ uri)
    (fun w event either => ?_) uri events (.inl rfl)
  cases event with
  | none => exact either
  | some on =>
    cases on with
    | true =>
      rcases either with rfl | rfl
      · by_cases http : isHttp w = true <;> cases stuck <;> simp [configureUri, enableUri, http]
      · simp [configureUri, enableUri]
    | false =>
      rcases either with rfl | rfl
      · exact .inl (disableUri_of_not plain)
      · exact .inl (disableUri_append uri)

/-- What is prefixed later than that is never longer than it was at the beginning. -/
structure Bounded (uri w : List Char) : Prop where
  length : w.length ≤ uri.length
  http : isHttp w = true → w.length + aptTorPrefix.length ≤ uri.length

theorem Bounded.configure (bounded : Bounded uri w) (event : Option Bool) :
    Bounded uri (configureUri stuck w event) := by
  cases event with
  | none => exact bounded
  | some on =>
    cases on with
    | true =>
      by_cases http : isHttp w = true
      · cases stuck with
        | true => exact bounded
        | false =>
          have shorter := bounded.http http
          simp only [configureUri, enableUri, http, if_true, Bool.false_eq_true, if_false]
          exact ⟨by rw [List.length_append]; omega, by simp⟩
      · have same : enableUri w = w := by simp [enableUri, http]
        simpa [configureUri, same] using bounded
    | false =>
      by_cases tor : Torified w
      · obtain ⟨rest, rfl⟩ := tor
        have shorter := bounded.length
        rw [List.length_append] at shorter
        rw [configureUri, disableUri_append]
        exact ⟨by omega, fun _ => by omega⟩
      · rwa [configureUri, disableUri_of_not tor]

theorem run_configureUri_iff (uri : List Char) (events : List (Option Bool)) :
    Runs.run (configureUri stuck) uri (events ++ [some false]) = uri ↔ ¬ Torified uri := by
  rw [Runs.run_append, Runs.run_cons, Runs.run_nil, configureUri]
  constructor
  · intro restored tor
    have bounded : Bounded uri (Runs.run (configureUri stuck) uri events) := by
      refine Runs.invariant_run (Bounded uri) (fun w event b => b.configure event) uri events
        ⟨Nat.le_refl _, fun http => ?_⟩
      obtain ⟨rest, rfl⟩ := tor
      simp at http
    generalize Runs.run (configureUri stuck) uri events = w at bounded restored
    by_cases tor' : Torified w
    · obtain ⟨rest, rfl⟩ := tor'
      rw [disableUri_append] at restored
      have shorter := bounded.length
      rw [restored, List.length_append] at shorter
      have some_ : aptTorPrefix.length = 4 := rfl
      omega
    · rw [disableUri_of_not tor'] at restored
      exact tor' (restored ▸ tor)
  · intro plain
    rcases run_of_not plain events with same | prefixed
    · rw [same, disableUri_of_not plain]
    · rw [prefixed, disableUri_append]

/-! ## All files -/

theorem map_eq_self_iff {α : Type} (f : α → α) (l : List α) :
    l.map f = l ↔ ∀ a ∈ l, f a = a := by
  simpa using List.map_eq_map_iff (f := f) (g := id) (l := l)

theorem any_error_map (f : List Char → List Char) (files : List SourcesList) :
    (files.map (SourcesList.setUris f)).any (·.error) = files.any (·.error) := by
  have kept : SourcesList.error ∘ SourcesList.setUris f = SourcesList.error := by
    funext sources
    simp only [Function.comp_apply, SourcesList.setUris]
    split <;> rfl
  rw [List.any_map, kept]

theorem configure_eq (files : List SourcesList) (event : Option Bool) :
    configure files event =
      files.map (.setUris fun uri => configureUri (files.any (·.error)) uri event) := by
  have unchanged : SourcesList.setUris (fun uri => uri) = id := by
    funext sources
    simp [SourcesList.setUris]
  cases event with
  | none => simp [configure, configureUri, unchanged]
  | some on =>
    cases on with
    | true =>
      cases error : files.any (·.error) <;>
        simp [configure, enableAptTransportTor, configureUri, error, unchanged]
    | false => rfl

theorem run_configure (files : List SourcesList) (events : List (Option Bool)) :
    Runs.run configure files events = files.map (.setUris fun uri =>
      Runs.run (configureUri (files.any (·.error))) uri events) := by
  induction events generalizing files with
  | nil => simpa [configure, configureUri] using configure_eq files none
  | cons event events ih =>
    rw [Runs.run_cons, ih, configure_eq, any_error_map, List.map_map]
    apply List.map_congr_left
    intro file _
    cases error : file.error <;> simp [SourcesList.setUris, error, Function.comp_def]

theorem enableUri_not_plain (uri : List Char) :
    (Text.startswith (enableUri uri) aptTorPrefix || !isHttp (enableUri uri)) = true := by
  rw [enableUri]
  split
  · simp [Text.startswith]
  · rename_i other
    simp [other]

theorem isAptTransportTorEnabled_enable (files : List SourcesList) :
    isAptTransportTorEnabled (enableAptTransportTor files) = !files.any (·.error) := by
  rw [enableAptTransportTor]
  cases error : files.any (·.error) with
  | true => simp [isAptTransportTorEnabled, error]
  | false =>
    rw [if_neg Bool.false_ne_true, isAptTransportTorEnabled, any_error_map, error]
    simp only [Bool.not_false, Bool.true_and, List.all_eq_true, List.mem_flatMap, List.mem_map]
    rintro uri ⟨_, ⟨file, member, rfl⟩, inside⟩
    have parsed : file.error = false := by simpa using List.any_eq_false.mp error file member
    rw [SourcesList.setUris, if_neg (by simp [parsed])] at inside
    obtain ⟨before, _, rfl⟩ := List.mem_map.mp inside
    exact enableUri_not_plain before

theorem run_disable_iff (files : List SourcesList) (earlier : List (Option Bool)) :
    Runs.run configure files (earlier ++ [some false]) = files ↔ Untouched files := by
  rw [run_configure, map_eq_self_iff]
  apply forall₂_congr
  intro file member
  cases error : file.error with
  | true => simp [SourcesList.setUris, error]
  | false =>
    obtain ⟨uris, _⟩ := file
    cases error
    simp [SourcesList.setUris, map_eq_self_iff, run_configureUri_iff]

/-- When the last configuration turns the use of Tor on, it is on unless a file cannot be parsed;
when it turns it off, the files are as they were before the first one exactly when no URI had
the prefix. -/
theorem configurations_followed (files : List SourcesList) (earlier : List (Option Bool)) :
    isAptTransportTorEnabled (Runs.run configure files (earlier ++ [some true])) =
      !files.any (·.error) ∧
    (Runs.run configure files (earlier ++ [some false]) = files ↔ Untouched files) := by
  constructor
  · have errors : (Runs.run configure files earlier).any (·.error) = files.any (·.error) := by
      rw [run_configure, any_error_map]
    rw [Runs.run_append, Runs.run_cons, Runs.run_nil, ← errors]
    exact isAptTransportTorEnabled_enable (Runs.run configure files earlier)
  · exact run_disable_iff files earlier

end Plinth.TorProxy
