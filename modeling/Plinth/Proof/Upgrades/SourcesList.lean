import Mathlib.Data.List.Dedup
import Plinth.Model.Upgrades

/-!
# Rewriting `sources.list`

The distribution of an entry is the name of a release, alone or before a suffix that starts with a
hyphen. An update writes the new name in place of the old one, or of `stable`, and keeps the suffix.
The codename that is read off the list is then the new one, where the list had no other release.
-/

namespace Plinth.Upgrades

open Python

/-! ## Suites -/

def IsSuffix (suffix : List Char) : Prop :=
  suffix = [] ∨ ∃ rest, suffix = '-' :: rest

structure NamesRelease (codename suite suffix : List Char) : Prop where
  text : suite = codename ++ suffix
  isSuffix : IsSuffix suffix

structure IsCodename (codename : String) : Prop where
  nonempty : codename ≠ ""
  word : '-' ∉ codename.toList
  /-- `sid` is another name of `unstable` -/
  notSid : codename ≠ "sid"

theorem Release.isCodename (release : Release) : IsCodename release.codename := by
  cases release <;> exact ⟨by decide, by decide, by decide⟩

theorem takeWhile_name {name suffix : List Char} (word : '-' ∉ name) (isSuffix : IsSuffix suffix) :
    (name ++ suffix).takeWhile (· ≠ '-') = name := by
  have whole : ∀ c ∈ name, decide (c ≠ '-') = true := by
    intro c member
    simp only [decide_eq_true_eq]
    rintro rfl
    exact word member
  rw [List.takeWhile_append_of_pos whole]
  rcases isSuffix with rfl | ⟨rest, rfl⟩ <;> simp

theorem NamesRelease.unique {suite codename suffix codename' suffix' : List Char}
    (names : NamesRelease codename suite suffix) (names' : NamesRelease codename' suite suffix')
    (word : '-' ∉ codename) (word' : '-' ∉ codename') : codename = codename' ∧ suffix = suffix' := by
  have same : codename ++ suffix = codename' ++ suffix' := names.text.symm.trans names'.text
  have first := takeWhile_name word names.isSuffix
  rw [same, takeWhile_name word' names'.isSuffix] at first
  subst first
  exact ⟨rfl, List.append_cancel_left same⟩

theorem startswith_iff (codename suite : List Char) :
    Text.startswith suite (codename ++ ['-']) = true ↔
      ∃ rest, NamesRelease codename suite ('-' :: rest) := by
  rw [Text.startswith, List.isPrefixOf_iff_prefix]
  constructor
  · rintro ⟨rest, rfl⟩
    exact ⟨rest, by simp, .inr ⟨rest, rfl⟩⟩
  · rintro ⟨rest, text, -⟩
    exact ⟨rest, by simp [text]⟩

/-! ## One suite -/

def Outdated (old suite : String) (suffix : List Char) : Prop :=
  NamesRelease old.toList suite.toList suffix ∨ NamesRelease "stable".toList suite.toList suffix

theorem Outdated.names {old suite : String} {suffix : List Char} (word : '-' ∉ old.toList)
    (outdated : Outdated old suite suffix) :
    ∃ codename : List Char, '-' ∉ codename ∧ NamesRelease codename suite.toList suffix := by
  rcases outdated with names | names
  · exact ⟨old.toList, word, names⟩
  · exact ⟨"stable".toList, by decide, names⟩

theorem namesRelease_self (suite : String) : NamesRelease suite.toList suite.toList [] :=
  ⟨by simp, .inl rfl⟩

theorem updatedDistribution_outdated {old new suite : String} {suffix : List Char}
    (word : '-' ∉ old.toList) (outdated : Outdated old suite suffix) :
    (updatedDistribution old new suite).toList = new.toList ++ suffix := by
  obtain ⟨codename, notHyphen, names⟩ := outdated.names word
  unfold updatedDistribution
  split
  · rename_i bare
    have whole : '-' ∉ suite.toList := by
      rcases bare with rfl | rfl
      · exact word
      · decide
    rw [(names.unique (namesRelease_self suite) notHyphen whole).2]
    simp
  · rename_i other
    have longer : ∃ rest, suffix = '-' :: rest := by
      rcases names.isSuffix with rfl | longer
      · apply absurd _ other
        rcases outdated with names | names
        · exact .inl (String.toList_inj.mp (by simpa using names.text))
        · exact .inr (String.toList_inj.mp (by simpa using names.text))
      · exact longer
    obtain ⟨rest, rfl⟩ := longer
    have starts : Text.startswith suite.toList (old.toList ++ ['-']) ∨
        Text.startswith suite.toList ("stable".toList ++ ['-']) := by
      rcases outdated with names | names
      · exact .inl ((startswith_iff _ _).mpr ⟨rest, names⟩)
      · exact .inr ((startswith_iff _ _).mpr ⟨rest, names⟩)
    rw [if_pos starts, names.text, Text.partition_append notHyphen]
    simp

theorem updatedDistribution_other {old new suite : String}
    (other : ∀ suffix, ¬ Outdated old suite suffix) : updatedDistribution old new suite = suite := by
  unfold updatedDistribution
  split
  · rename_i bare
    rcases bare with rfl | rfl
    · exact absurd (.inl (namesRelease_self _)) (other [])
    · exact absurd (.inr (namesRelease_self _)) (other [])
  · rw [if_neg]
    rintro (starts | starts)
    · obtain ⟨rest, names⟩ := (startswith_iff _ _).mp starts
      exact other _ (.inl names)
    · obtain ⟨rest, names⟩ := (startswith_iff _ _).mp starts
      exact other _ (.inr names)

theorem updatedDistribution_idempotent {old new : String} (word : '-' ∉ old.toList)
    (codename : IsCodename new) (suite : String) :
    updatedDistribution old new (updatedDistribution old new suite) =
      updatedDistribution old new suite := by
  by_cases outdated : ∃ suffix, Outdated old suite suffix
  · obtain ⟨suffix, outdated⟩ := outdated
    have text : (updatedDistribution old new suite).toList = new.toList ++ suffix :=
      updatedDistribution_outdated word outdated
    obtain ⟨_, _, names⟩ := outdated.names word
    by_cases again : ∃ suffix, Outdated old (updatedDistribution old new suite) suffix
    · obtain ⟨suffix', again⟩ := again
      obtain ⟨name, notHyphen, names'⟩ := again.names word
      obtain ⟨-, rfl⟩ := names'.unique ⟨text, names.isSuffix⟩ notHyphen codename.word
      apply String.toList_inj.mp
      rw [updatedDistribution_outdated word again, text]
    · exact updatedDistribution_other fun suffix again' => again ⟨suffix, again'⟩
  · have same : updatedDistribution old new suite = suite :=
      updatedDistribution_other fun suffix outdated' => outdated ⟨suffix, outdated'⟩
    rw [same, same]

/-! ## The codename of a list -/

def counted (suite : List Char) : List Char :=
  Text.removesuffix (Text.removesuffix suite "-updates".toList) "-security".toList

def uncounted : List (List Char) :=
  ["".toList, "-updates".toList, "-security".toList, "-security-updates".toList]

theorem counted_cases (suite : List Char) :
    ∃ suffix ∈ uncounted, suite = counted suite ++ suffix := by
  rcases Text.removesuffix_cases suite "-updates".toList with same | cut
  · rcases Text.removesuffix_cases suite "-security".toList with same' | cut'
    · refine ⟨_, .head _, ?_⟩
      rw [counted, same, same']
      exact (List.append_nil suite).symm
    · refine ⟨_, .tail _ (.tail _ (.head _)), ?_⟩
      rw [counted, same]
      exact cut'
  · rcases Text.removesuffix_cases (Text.removesuffix suite "-updates".toList) "-security".toList
      with same' | cut'
    · refine ⟨_, .tail _ (.head _), ?_⟩
      rw [counted, same']
      exact cut
    · refine ⟨"-security".toList ++ "-updates".toList, .tail _ (.tail _ (.tail _ (.head _))), ?_⟩
      rw [counted, ← List.append_assoc, ← cut']
      exact cut

theorem isSuffix_uncounted {suffix : List Char} (member : suffix ∈ uncounted) : IsSuffix suffix := by
  simp only [uncounted, List.mem_cons, List.not_mem_nil, or_false] at member
  rcases member with rfl | rfl | rfl | rfl
  · exact .inl rfl
  · exact .inr ⟨_, rfl⟩
  · exact .inr ⟨_, rfl⟩
  · exact .inr ⟨_, rfl⟩

theorem counted_name {name suffix : List Char} (word : '-' ∉ name) (member : suffix ∈ uncounted) :
    counted (name ++ suffix) = name := by
  have updates : Text.removesuffix name "-updates".toList = name :=
    Text.removesuffix_of_not_mem List.mem_cons_self word
  have security : Text.removesuffix name "-security".toList = name :=
    Text.removesuffix_of_not_mem List.mem_cons_self word
  have noUpdates : Text.removesuffix (name ++ "-security".toList) "-updates".toList =
      name ++ "-security".toList := by
    rw [Text.removesuffix, if_neg]
    intro ends
    rw [List.isSuffixOf, List.reverse_append] at ends
    exact Bool.false_ne_true ends
  simp only [uncounted, List.mem_cons, List.not_mem_nil, or_false] at member
  rcases member with rfl | rfl | rfl | rfl
  · rw [counted, show name ++ "".toList = name from List.append_nil name, updates, security]
  · rw [counted, Text.removesuffix_append, security]
  · rw [counted, noUpdates, Text.removesuffix_append]
  · have split : name ++ "-security-updates".toList =
        name ++ "-security".toList ++ "-updates".toList := by
      rw [List.append_assoc]
      rfl
    rw [counted, split, Text.removesuffix_append, Text.removesuffix_append]

theorem mem_distributions {list : SourcesList} {dist : String} :
    dist ∈ distributions list ↔
      ∃ suite, some suite ∈ list ∧ suite ≠ "" ∧ (counted suite.toList) = dist.toList := by
  rw [distributions, List.mem_dedup, List.mem_map]
  constructor
  · rintro ⟨suite, member, rfl⟩
    rw [List.mem_filter, List.mem_filterMap] at member
    obtain ⟨⟨_, member, rfl⟩, nonempty⟩ := member
    exact ⟨suite, member, by simpa using nonempty, by simp [counted]⟩
  · rintro ⟨suite, member, nonempty, text⟩
    refine ⟨suite, ?_, ?_⟩
    · rw [List.mem_filter, List.mem_filterMap]
      exact ⟨⟨_, member, rfl⟩, by simpa using nonempty⟩
    · apply String.toList_inj.mp
      simpa [counted] using text

theorem distributions_ne_nil {list : SourcesList} {codename : String}
    (returned : getSourcesListCodename list = some codename) : distributions list ≠ [] := by
  intro none
  simp [getSourcesListCodename, none] at returned

theorem getSourcesListCodename_of_all {list : SourcesList} {codename : String}
    (notSid : codename ≠ "sid") (some_ : distributions list ≠ [])
    (all : ∀ dist ∈ distributions list, dist = codename) :
    getSourcesListCodename list = some codename := by
  have single : distributions list = [codename] := by
    have distinct : (distributions list).Nodup := List.nodup_dedup _
    cases equation : distributions list with
    | nil => exact absurd equation some_
    | cons first rest =>
      rw [equation] at all distinct
      cases all first (.head _)
      cases rest with
      | nil => rfl
      | cons second rest =>
        cases all second (.tail _ (.head _))
        exact absurd (.head _) (List.nodup_cons.mp distinct).1
  unfold getSourcesListCodename
  rw [single]
  simp only [List.mem_singleton]
  split
  · rename_i unstable
    rcases unstable with unstable | sid
    · rw [← unstable]
    · exact absurd sid.symm notSid
  · split
    · rename_i testing
      rw [← testing]
    · rfl

theorem distributions_of_codename {list : SourcesList} {codename : String}
    (returned : getSourcesListCodename list = some codename) (notUnstable : codename ≠ "unstable")
    (notTesting : codename ≠ "testing") : distributions list = [codename] := by
  unfold getSourcesListCodename at returned
  dsimp only at returned
  split at returned
  · exact absurd (Option.some.inj returned).symm notUnstable
  · split at returned
    · exact absurd (Option.some.inj returned).symm notTesting
    · split at returned
      · rename_i single
        cases returned
        exact single
      · cases returned

/-! ## The list -/

structure Rewritten (old new : String) (entry entry' : SourcesEntry) : Prop where
  nodes : entry'.nodes = entry.nodes
  other : (∀ suite ∈ entry.distribution, ∀ suffix, ¬ Outdated old suite suffix) → entry' = entry
  outdated : '-' ∉ old.toList → ∀ suite ∈ entry.distribution, ∀ suffix, Outdated old suite suffix →
    ∃ suite' ∈ entry'.distribution, NamesRelease new.toList suite'.toList suffix

theorem sourcesListUpdate_rewritten (old new : String) (entries : List SourcesEntry) :
    List.Forall₂ (Rewritten old new) entries (sourcesListUpdate old new entries) := by
  rw [sourcesListUpdate, List.forall₂_map_right_iff, List.forall₂_same]
  intro entry _
  constructor
  · rfl
  · intro other
    obtain ⟨distribution, nodes⟩ := entry
    cases distribution with
    | none => rfl
    | some suite =>
      show SourcesEntry.mk (some (updatedDistribution old new suite)) nodes = _
      rw [updatedDistribution_other (other suite rfl)]
  · intro word suite member suffix outdated
    obtain ⟨_, _, names⟩ := outdated.names word
    refine ⟨updatedDistribution old new suite, Option.mem_map_of_mem _ member, ?_, names.isSuffix⟩
    exact updatedDistribution_outdated word outdated

theorem sourcesListUpdate_idempotent {old new : String} (word : '-' ∉ old.toList)
    (codename : IsCodename new) (entries : List SourcesEntry) :
    sourcesListUpdate old new (sourcesListUpdate old new entries) =
      sourcesListUpdate old new entries := by
  rw [sourcesListUpdate, sourcesListUpdate, List.map_map]
  apply List.map_congr_left
  intro entry _
  obtain ⟨distribution, nodes⟩ := entry
  cases distribution with
  | none => rfl
  | some suite =>
    show SourcesEntry.mk (some (updatedDistribution old new (updatedDistribution old new suite)))
      nodes = _
    rw [updatedDistribution_idempotent word codename]
    rfl

theorem sourcesListUpdate_codename {entries : List SourcesEntry} {old new : String}
    (returned : getSourcesListCodename (suites entries) = some old) (word : '-' ∉ old.toList)
    (codename : IsCodename new)
    (known : ∀ dist ∈ distributions (suites entries), dist = old ∨ dist = "stable") :
    getSourcesListCodename (suites (sourcesListUpdate old new entries)) = some new := by
  have updated : suites (sourcesListUpdate old new entries) =
      (suites entries).map (Option.map (updatedDistribution old new)) := by
    rw [suites, suites, sourcesListUpdate, List.map_map, List.map_map]
    rfl
  rw [updated]
  -- what a suite that counts becomes
  have renamed : ∀ suite, some suite ∈ suites entries → suite ≠ "" →
      counted (updatedDistribution old new suite).toList = new.toList := by
    intro suite member nonempty
    obtain ⟨suffix, isUncounted, text⟩ := counted_cases suite.toList
    have counts : String.ofList (counted suite.toList) ∈ distributions (suites entries) :=
      mem_distributions.mpr ⟨suite, member, nonempty, by simp⟩
    have outdated : Outdated old suite suffix := by
      rcases known _ counts with isOld | isStable
      · exact .inl ⟨by rw [← isOld]; simpa using text, isSuffix_uncounted isUncounted⟩
      · exact .inr ⟨by rw [← isStable]; simpa using text, isSuffix_uncounted isUncounted⟩
    rw [updatedDistribution_outdated word outdated, counted_name codename.word isUncounted]
  apply getSourcesListCodename_of_all codename.notSid
  · obtain ⟨dist, member⟩ := List.exists_mem_of_ne_nil _ (distributions_ne_nil returned)
    obtain ⟨suite, member, nonempty, -⟩ := mem_distributions.mp member
    have member' : new ∈ distributions
        ((suites entries).map (Option.map (updatedDistribution old new))) := by
      apply mem_distributions.mpr
      refine ⟨updatedDistribution old new suite, List.mem_map_of_mem member, ?_, renamed suite member nonempty⟩
      intro empty
      have text := renamed suite member nonempty
      rw [empty] at text
      exact codename.nonempty (String.toList_inj.mp (text.symm.trans (by decide)))
    exact List.ne_nil_of_mem member'
  · intro dist member
    obtain ⟨suite', member, nonempty', text⟩ := mem_distributions.mp member
    obtain ⟨distribution, original, equation⟩ := List.mem_map.mp member
    obtain ⟨suite, rfl, rfl⟩ := Option.map_eq_some_iff.mp equation
    apply String.toList_inj.mp
    rw [← text]
    by_cases empty : suite = ""
    · -- an empty suite changes only where the old codename is empty
      have changed : ∃ suffix, Outdated old suite suffix := by
        by_contra other
        apply nonempty'
        rw [updatedDistribution_other fun suffix outdated => other ⟨suffix, outdated⟩, empty]
      obtain ⟨suffix, outdated⟩ := changed
      obtain ⟨name, -, names⟩ := outdated.names word
      have bare : suffix = [] := by
        have nothing := names.text
        rw [empty] at nothing
        exact (List.append_eq_nil_iff.mp nothing.symm).2
      rw [updatedDistribution_outdated word outdated, bare]
      exact counted_name codename.word (.head _)
    · exact renamed suite original empty

/-- The list names one release beside `stable`, which a list of a rolling release need not. -/
def NamesOnly (entries : List SourcesEntry) (codename : String) : Prop :=
  ∀ dist ∈ distributions (suites entries), dist = codename ∨ dist = "stable"

theorem sourcesListUpdate_spec {entries : List SourcesEntry} {old new : String}
    (returned : getSourcesListCodename (suites entries) = some old) (codename : IsCodename new) :
    List.Forall₂ (Rewritten old new) entries (sourcesListUpdate old new entries) ∧
      ('-' ∉ old.toList →
        sourcesListUpdate old new (sourcesListUpdate old new entries) =
          sourcesListUpdate old new entries ∧
        ((old = "unstable" ∨ old = "testing" → NamesOnly entries old) →
          getSourcesListCodename (suites (sourcesListUpdate old new entries)) = some new)) := by
  refine ⟨sourcesListUpdate_rewritten old new entries, fun word => ⟨?_, fun rolling => ?_⟩⟩
  · exact sourcesListUpdate_idempotent word codename entries
  · apply sourcesListUpdate_codename returned word codename
    by_cases isRolling : old = "unstable" ∨ old = "testing"
    · exact rolling isRolling
    · rw [not_or] at isRolling
      intro dist member
      rw [distributions_of_codename returned isRolling.1 isRolling.2, List.mem_singleton] at member
      exact .inl member

def debEntries (suites : List String) : List SourcesEntry :=
  suites.map fun suite =>
    { distribution := some suite
      nodes := [("type", "deb"), ("uri", "http://deb.debian.org/debian"), ("component", "main")] }

theorem sourcesListUpdate_stable :
    getSourcesListCodename (suites (sourcesListUpdate "bookworm" "trixie"
      (debEntries ["bookworm", "bookworm-updates", "bookworm-security"]))) = some "trixie" := by
  refine ((sourcesListUpdate_spec (by decide) (Release.isCodename .trixie)).2 (by decide)).2 ?_
  rintro (rolling | rolling)
  · exact absurd rolling (by decide)
  · exact absurd rolling (by decide)

theorem sid_not_updated :
    getSourcesListCodename (suites (debEntries ["sid"])) = some "unstable" ∧
      getSourcesListCodename (suites (sourcesListUpdate "unstable" "forky" (debEntries ["sid"]))) =
        some "unstable" ∧
      getSourcesListCodename (suites (debEntries ["bookworm-proposed-updates"])) =
        some "bookworm-proposed" ∧
      getSourcesListCodename (suites (sourcesListUpdate "bookworm-proposed" "trixie"
        (debEntries ["bookworm-proposed-updates"]))) = some "trixie-proposed" := by
  decide

end Plinth.Upgrades
