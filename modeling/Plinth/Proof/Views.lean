import Plinth.Lib.Browser
import Plinth.Model.Views

/-! # Redirects and browsers -/

namespace Plinth.Views

open Python Browser

/-! ## Texts that differ at the end -/

def isDropped (c : Char) : Bool :=
  Text.isSpace c || isBlank c

def Trimmed (text trimmed : List Char) : Prop :=
  ∃ dropped, text = trimmed ++ dropped ∧ ∀ c ∈ dropped, isDropped c = true

theorem prefix_of_append {start x y : List Char} {c : Char} (begins : start ++ [c] <+: x ++ y)
    (absent : c ∉ y) : start ++ [c] <+: x := by
  rcases List.prefix_or_prefix_of_prefix begins (List.prefix_append x y) with short | long
  · exact short
  · obtain ⟨rest, equation⟩ := long
    rcases List.eq_nil_or_concat rest with rfl | ⟨rest, last, rfl⟩
    · rw [← equation, List.append_nil]
    · rw [List.concat_eq_append, ← List.append_assoc] at equation
      obtain ⟨-, lasts⟩ := List.append_inj' equation rfl
      cases lasts
      rw [← equation, List.append_assoc, List.prefix_append_right_inj] at begins
      exact absurd (begins.subset (List.mem_append_right _ List.mem_cons_self)) absent

theorem Trimmed.begins {text x y start : List Char} {c : Char} (trimmed : Trimmed text x)
    (trimmed' : Trimmed text y) (kept : isDropped c = false) (begins : start ++ [c] <+: x) :
    start ++ [c] <+: y := by
  obtain ⟨dropped, rfl, -⟩ := trimmed
  obtain ⟨dropped', equation, blank⟩ := trimmed'
  have whole : start ++ [c] <+: y ++ dropped' := by
    rw [← equation]
    exact begins.trans (List.prefix_append x dropped)
  apply prefix_of_append whole
  intro member
  rw [blank c member] at kept
  cases kept

theorem trimmed_filter {text trimmed : List Char} (isTrimmed : Trimmed text trimmed) (p : Char → Bool) :
    Trimmed (text.filter p) (trimmed.filter p) := by
  obtain ⟨dropped, rfl, blank⟩ := isTrimmed
  exact ⟨dropped.filter p, List.filter_append .., fun c member => blank c (List.mem_filter.mp member).1⟩

theorem trimmed_rdropWhile {p : Char → Bool} (blank : ∀ c, p c = true → isDropped c = true)
    (text : List Char) : Trimmed text (text.rdropWhile p) := by
  refine ⟨text.rtakeWhile p, (List.rdropWhile_append_rtakeWhile ..).symm, fun c member => ?_⟩
  exact blank c (List.mem_rtakeWhile_imp member)

/-! ## What the two read -/

def parsed (url : List Char) : List Char :=
  Url.sanitize (Text.strip url)

theorem dropWhile_append_of_not {p : Char → Bool} {c : Char} (stop : p c = false)
    {front : List Char} (all : ∀ c ∈ front, p c = true) (rest : List Char) :
    (front ++ c :: rest).dropWhile p = c :: rest := by
  rw [List.dropWhile_append_of_pos all, List.dropWhile_cons_of_neg (by simp [stop])]

theorem first_kept (url : List Char) :
    (∀ c ∈ url, isBlank c = true) ∨ ∃ front c rest, url = front ++ c :: rest ∧
      (∀ c ∈ front, isBlank c = true) ∧ isBlank c = false := by
  have split := List.takeWhile_append_dropWhile (p := isBlank) (l := url)
  have front (c : Char) (member : c ∈ url.takeWhile isBlank) : isBlank c = true :=
    List.mem_takeWhile_imp member
  cases equation : url.dropWhile isBlank with
  | nil => exact .inl (List.dropWhile_eq_nil_iff.mp equation)
  | cons c rest =>
    rw [equation] at split
    have stop := List.head_dropWhile_not isBlank (l := url) (by simp [equation])
    simp only [equation, List.head_cons] at stop
    exact .inr ⟨_, c, rest, split.symm, front, stop⟩

theorem trim_eq {front rest : List Char} {c : Char} (all : ∀ c ∈ front, isBlank c = true)
    (stop : isBlank c = false) :
    trim (front ++ c :: rest) = ((c :: rest).rdropWhile isBlank).filter isKept := by
  rw [trim, dropWhile_append_of_not stop all]

theorem parsed_eq {front rest : List Char} {c : Char} (all : ∀ c ∈ front, isBlank c = true)
    (stop : isBlank c = false) (letter : Text.isSpace c = false) :
    parsed (front ++ c :: rest) = ((c :: rest).rdropWhile Text.isSpace).filter isKept := by
  have front' : ∃ front', (∀ c ∈ front', isBlank c = true) ∧
      Text.lstrip (front ++ c :: rest) = front' ++ c :: rest := by
    refine ⟨front.dropWhile Text.isSpace, fun c member => ?_, ?_⟩
    · exact all c ((List.dropWhile_sublist _).subset member)
    · rw [Text.lstrip, List.dropWhile_append]
      split
      · rename_i empty
        rw [List.isEmpty_iff.mp empty, List.dropWhile_cons_of_neg (by simp [letter])]
        rfl
      · rfl
  obtain ⟨front', blank, stripped⟩ := front'
  have first : ∃ rest', (c :: rest).rdropWhile Text.isSpace = c :: rest' := by
    have prefix_ := List.rdropWhile_prefix Text.isSpace (c :: rest)
    cases equation : (c :: rest).rdropWhile Text.isSpace with
    | nil =>
      rw [List.rdropWhile_eq_nil_iff] at equation
      have passed := equation c List.mem_cons_self
      rw [letter] at passed
      cases passed
    | cons d rest' =>
      rw [equation, List.cons_prefix_cons] at prefix_
      exact ⟨rest', by rw [prefix_.1]⟩
  obtain ⟨rest', kept⟩ := first
  rw [parsed, Text.strip, stripped, Text.rstrip, Text.rdropWhile_append_of_not letter, kept]
  show ((front' ++ c :: rest').dropWhile isBlank).filter isKept = _
  rw [dropWhile_append_of_not stop blank]

theorem trim_cases (url : List Char) :
    (∀ c ∈ (trim url).head?, Text.isSpace c = true) ∨
      ∃ text, Trimmed text (trim url) ∧ Trimmed text (parsed url) := by
  rcases first_kept url with all | ⟨front, c, rest, rfl, all, stop⟩
  · left
    have empty : trim url = [] := by
      rw [trim, List.dropWhile_eq_nil_iff.mpr all]
      rfl
    rw [empty]
    intro c member
    cases member
  · cases letter : Text.isSpace c with
    | true =>
      left
      have kept : isKept c = true := by
        refine decide_eq_true fun member => ?_
        simp only [List.mem_cons, List.not_mem_nil, or_false] at member
        rcases member with rfl | rfl | rfl <;> exact absurd stop (by decide)
      rw [trim_eq all stop]
      intro d member
      have prefix_ := (List.rdropWhile_prefix isBlank (c :: rest)).filter isKept
      rw [List.filter_cons_of_pos kept] at prefix_
      obtain ⟨rest', equation⟩ := prefix_
      cases filtered : ((c :: rest).rdropWhile isBlank).filter isKept with
      | nil =>
        rw [filtered] at member
        cases member
      | cons e rest'' =>
        rw [filtered] at member equation
        cases member
        rw [List.cons_append, List.cons.injEq] at equation
        rw [equation.1]
        exact letter
    | false =>
      right
      refine ⟨(c :: rest).filter isKept, ?_, ?_⟩
      · rw [trim_eq all stop]
        exact trimmed_filter (trimmed_rdropWhile (fun d blank => by simp [isDropped, blank]) _) _
      · rw [parsed_eq all stop letter]
        exact trimmed_filter (trimmed_rdropWhile (fun d blank => by simp [isDropped, blank]) _) _

/-! ## Schemes -/

def HasScheme (text : List Char) : Prop :=
  ∃ scheme : List Char, scheme.head?.any Char.isAlpha = true ∧
    (∀ c ∈ scheme, isSchemeChar c = true) ∧ scheme ++ [':'] <+: text

theorem Trimmed.hasScheme {text x y : List Char} (trimmed : Trimmed text x)
    (trimmed' : Trimmed text y) (scheme : HasScheme x) : HasScheme y := by
  obtain ⟨scheme, first, letters, begins⟩ := scheme
  exact ⟨scheme, first, letters, trimmed.begins trimmed' (by decide) begins⟩

theorem HasScheme.head {text : List Char} (scheme : HasScheme text) :
    ∃ c rest, text = c :: rest ∧ c.isAlpha = true := by
  obtain ⟨scheme, first, -, rest, rfl⟩ := scheme
  cases scheme with
  | nil => cases first
  | cons c scheme => exact ⟨c, _, rfl, first⟩

theorem takeScheme_none {text : List Char} (none_ : ¬ HasScheme text) : takeScheme text = none := by
  unfold takeScheme
  split
  · rename_i first
    split
    · rename_i rest equation
      exfalso
      apply none_
      have split := List.takeWhile_append_dropWhile (p := isSchemeChar) (l := text)
      rw [equation] at split
      refine ⟨text.takeWhile isSchemeChar, ?_, fun c member => List.mem_takeWhile_imp member, rest, ?_⟩
      · cases taken : text.takeWhile isSchemeChar with
        | nil =>
          rw [taken] at split
          rw [← split] at first
          cases first
        | cons c scheme =>
          rw [taken] at split
          rw [← split] at first
          exact first
      · rw [List.append_assoc]
        exact split
    · rfl
  · rfl

theorem splitScheme_of_none {text : List Char} (none_ : ¬ HasScheme text) :
    Url.splitScheme text = ([], text) := by
  refine if_neg ?_
  rintro ⟨colon, first, letters⟩
  apply none_
  refine ⟨(Url.cut ':' text).1, first, fun c member => List.all_eq_true.mp letters c member, ?_⟩
  obtain ⟨front, rest, rfl, absent⟩ := List.eq_append_cons_of_mem colon
  rw [Url.cut_append absent]
  exact ⟨rest, by simp⟩

theorem splitScheme_of_some {text : List Char} (some_ : HasScheme text) :
    (Url.splitScheme text).1 ≠ [] := by
  obtain ⟨scheme, first, letters, rest, rfl⟩ := some_
  have absent : ':' ∉ scheme := fun member => absurd (letters _ member) (by decide)
  have cut : Url.cut ':' (scheme ++ [':'] ++ rest) = (scheme, rest) := by
    rw [List.append_assoc]
    exact Url.cut_append absent rest
  have all : scheme.all Url.isSchemeChar = true := List.all_eq_true.mpr letters
  rw [Url.splitScheme, cut, if_pos ⟨by simp, first, all⟩]
  cases scheme with
  | nil => cases first
  | cons c scheme => exact List.cons_ne_nil _ _

/-! ## What is accepted -/

variable {unicode : Url.Unicode}

structure Local (text : List Char) : Prop where
  scheme : ¬ HasScheme text
  netloc : (Url.splitNetloc text).1 = []

theorem urlsplit_ok {url : List Char} {result : Url.SplitResult}
    (ok : Url.urlsplit unicode url = .ok result) :
    result.scheme = (Url.splitScheme (Url.sanitize url)).1 ∧
      result.netloc = (Url.splitNetloc (Url.splitScheme (Url.sanitize url)).2).1 := by
  unfold Url.urlsplit at ok
  dsimp only at ok
  cases brackets : Url.checkBrackets (Url.splitNetloc (Url.splitScheme (Url.sanitize url)).2).1 with
  | error e =>
    rw [brackets] at ok
    cases ok
  | ok _ =>
    cases normal : Url.checkNetloc unicode (Url.splitNetloc (Url.splitScheme (Url.sanitize url)).2).1 with
    | error e =>
      rw [brackets, normal] at ok
      cases ok
    | ok _ =>
      rw [brackets, normal] at ok
      cases ok
      exact ⟨rfl, rfl⟩

theorem urlsplit_local {url : List Char} (isLocal : Local (Url.sanitize url)) :
    ∃ result, Url.urlsplit unicode url = .ok result ∧ result.scheme = [] ∧ result.netloc = [] := by
  have scheme := splitScheme_of_none isLocal.scheme
  cases split : Url.splitNetloc (Url.sanitize url) with
  | mk netloc rest =>
    have nothing := isLocal.netloc
    rw [split] at nothing
    cases nothing
    have ok : Url.urlsplit unicode url = .ok ⟨[], [], (Url.cut '?' (Url.cut '#' rest).1).1,
        (Url.cut '?' (Url.cut '#' rest).1).2, (Url.cut '#' rest).2⟩ := by
      unfold Url.urlsplit
      rw [scheme]
      dsimp only
      rw [split]
      rfl
    exact ⟨_, ok, rfl, rfl⟩

variable (unicode) in
theorem urlparse_local_iff (url : List Char) :
    (∃ result, Url.urlparse unicode url = .ok result ∧ result.scheme = [] ∧ result.netloc = []) ↔
      Local (Url.sanitize url) := by
  constructor
  · rintro ⟨result, ok, scheme, netloc⟩
    unfold Url.urlparse at ok
    cases split : Url.urlsplit unicode url with
    | error e =>
      rw [split] at ok
      cases ok
    | ok parts =>
      have kept : parts.scheme = [] ∧ parts.netloc = [] := by
        rw [split] at ok
        change (if parts.scheme ∈ Url.usesParams then _ else _) = _ at ok
        split at ok
        · cases ok
          exact ⟨scheme, netloc⟩
        · cases ok
          exact ⟨scheme, netloc⟩
      obtain ⟨schemes, netlocs⟩ := urlsplit_ok split
      have none_ : ¬ HasScheme (Url.sanitize url) := by
        intro some_
        exact splitScheme_of_some some_ (schemes.symm.trans kept.1)
      refine ⟨none_, ?_⟩
      rw [← kept.2, netlocs, splitScheme_of_none none_]
  · intro isLocal
    obtain ⟨parts, split, scheme, netloc⟩ : ∃ parts, Url.urlsplit unicode url = .ok parts ∧
        parts.scheme = [] ∧ parts.netloc = [] := urlsplit_local isLocal
    unfold Url.urlparse
    rw [split]
    change ∃ result, (if parts.scheme ∈ Url.usesParams then _ else _) = _ ∧ _
    split
    · exact ⟨_, rfl, scheme, netloc⟩
    · exact ⟨_, rfl, scheme, netloc⟩

theorem isSafeUrl_iff (url : List Char) :
    isSafeUrl unicode (some url) = true ↔
      Text.strip url ≠ [] ∧ '\\' ∉ Text.strip url ∧ ¬ "///".toList <+: Text.strip url ∧
        Local (parsed url) := by
  rw [parsed, ← urlparse_local_iff unicode]
  have starts : Text.startswith (Text.strip url) "///".toList = true ↔
      "///".toList <+: Text.strip url := List.isPrefixOf_iff_prefix
  unfold isSafeUrl
  simp only [Option.map_some]
  by_cases empty : Text.strip url = []
  · simp [empty]
  · rw [if_neg empty]
    by_cases refused : '\\' ∈ Text.strip url ∨ Text.startswith (Text.strip url) "///".toList = true
    · rw [if_pos refused]
      rcases refused with backslash | slashes
      · simp [backslash]
      · constructor
        · intro accepted
          cases accepted
        · rintro ⟨-, -, other, -⟩
          exact absurd (starts.mp slashes) other
    · rw [if_neg refused]
      rw [not_or, starts] at refused
      cases parse : Url.urlparse unicode (Text.strip url) with
      | error e => simp
      | ok result =>
        constructor
        · intro accepted
          have nothing : result.scheme = [] ∧ result.netloc = [] := by simpa using accepted
          exact ⟨empty, refused.1, refused.2, result, rfl, nothing⟩
        · rintro ⟨-, -, -, result', same, nothing⟩
          cases same
          simpa using nothing

/-! ## Redirects that leave the site -/

structure Hidden (hosts : Hosts) (url : List Char) : Prop where
  plain : '\\' ∉ url
  unseen : ¬ "///".toList <+: Text.strip url
  slashes : "//".toList <+: trim url
  /-- `urlparse` finds an empty authority -/
  blind : "///".toList <+: trim url ∨ parsed url = "//".toList
  valid : hosts.read (authority (trim url)) ≠ none

theorem isSlash_iff {c : Char} (other : c ≠ '\\') : isSlash c = true ↔ c = '/' := by
  simp [isSlash, other]

theorem space_not_alpha {c : Char} (space : Text.isSpace c = true) : c.isAlpha = false := by
  rw [Bool.eq_false_iff]
  intro letter
  obtain ⟨low, high⟩ := Uri.printable_of_alphanum (c := c) (by rw [Char.isAlphanum, letter]; rfl)
  simp only [Text.isSpace, Bool.decide_or, Bool.decide_and, Bool.or_eq_true, Bool.and_eq_true,
    decide_eq_true_eq] at space
  omega

theorem slashes_iff {text : List Char} : "//".toList <+: text ↔ ∃ rest, text = '/' :: '/' :: rest := by
  constructor
  · rintro ⟨rest, rfl⟩
    exact ⟨rest, rfl⟩
  · rintro ⟨rest, rfl⟩
    exact ⟨rest, rfl⟩

theorem splitNetloc_nil {rest : List Char} :
    (Url.splitNetloc ('/' :: '/' :: rest)).1 = [] ↔ ∀ c ∈ rest.head?, Uri.isDelimiter c = true := by
  cases rest with
  | nil => simp [Url.splitNetloc]
  | cons c rest => simp [Url.splitNetloc, List.takeWhile_cons]

theorem authority_ended {c : Char} (ending : c = '?' ∨ c = '#') (rest : List Char) :
    authority ('/' :: '/' :: c :: rest) = [] := by
  rcases ending with rfl | rfl <;> simp [authority, isSlash]

theorem takeScheme_of_slashes {text : List Char} (slashes : "//".toList <+: text) :
    ¬ HasScheme text := by
  intro scheme
  obtain ⟨rest, rfl⟩ := slashes_iff.mp slashes
  obtain ⟨c, rest, equation, letter⟩ := scheme.head
  cases equation
  exact absurd letter (by decide)

theorem trimmed_of_slashes {url : List Char} (slashes : "//".toList <+: trim url) :
    ∃ text, Trimmed text (trim url) ∧ Trimmed text (parsed url) := by
  rcases trim_cases url with blank | texts
  · obtain ⟨rest, equation⟩ := slashes_iff.mp slashes
    rw [equation] at blank
    exact absurd (blank '/' rfl) (by decide)
  · exact texts

theorem Hidden.accepted {hosts : Hosts} {url : List Char} (hidden : Hidden hosts url) :
    isSafeUrl unicode (some url) = true := by
  obtain ⟨text, trimmed, trimmed'⟩ := trimmed_of_slashes hidden.slashes
  have slashes : "/".toList ++ ['/'] <+: parsed url :=
    trimmed.begins trimmed' (by decide) hidden.slashes
  obtain ⟨rest, equation⟩ := slashes_iff.mp slashes
  apply isSafeUrl_iff url |>.mpr
  refine ⟨?_, ?_, hidden.unseen, takeScheme_of_slashes slashes, ?_⟩
  · intro empty
    rw [parsed, empty] at equation
    cases equation
  · rw [Text.mem_strip (by decide)]
    exact hidden.plain
  · rw [equation, splitNetloc_nil]
    rcases hidden.blind with third | nothing
    · have third' : "//".toList ++ ['/'] <+: parsed url :=
        trimmed.begins (c := '/') trimmed' (by decide) third
      rw [equation] at third'
      obtain ⟨rest', equation'⟩ := third'
      cases equation'
      intro c member
      cases member
      decide
    · rw [nothing] at equation
      cases equation
      intro c member
      cases member

theorem Hidden.leaves {hosts : Hosts} {url : List Char} (hidden : Hidden hosts url) :
    ¬ StaysOnSite hosts url := by
  have plain := takeScheme_none (takeScheme_of_slashes hidden.slashes)
  obtain ⟨rest, equation⟩ := slashes_iff.mp hidden.slashes
  rw [staysOnSite_authority_iff hosts plain equation (by decide)]
  exact hidden.valid

theorem stays_of_not_hidden {hosts : Hosts} {url : List Char}
    (accepted : isSafeUrl unicode (some url) = true) (seen : ¬ Hidden hosts url) :
    StaysOnSite hosts url := by
  obtain ⟨-, plain, unseen, isLocal⟩ := (isSafeUrl_iff url).mp accepted
  rw [Text.mem_strip (by decide)] at plain
  have noBackslash {c : Char} (member : c ∈ trim url) : c ≠ '\\' := by
    rintro rfl
    exact plain (trim_subset url member)
  rcases trim_cases url with blank | ⟨text, trimmed, trimmed'⟩
  · apply staysOnSite_relative hosts
    · apply takeScheme_none
      intro scheme
      obtain ⟨c, rest, equation, letter⟩ := scheme.head
      rw [equation] at blank
      rw [space_not_alpha (blank c rfl)] at letter
      cases letter
    · intro c c' rest equation slashes
      rw [equation] at blank
      rw [Bool.and_eq_true, isSlash_iff (noBackslash (by rw [equation]; exact .head _))] at slashes
      rw [slashes.1] at blank
      exact absurd (blank '/' rfl) (by decide)
  · have noScheme : takeScheme (trim url) = none :=
      takeScheme_none fun scheme => isLocal.scheme (trimmed.hasScheme trimmed' scheme)
    by_cases slashes : "//".toList <+: trim url
    · obtain ⟨rest, equation⟩ := slashes_iff.mp slashes
      rw [staysOnSite_authority_iff hosts noScheme equation (by decide)]
      by_contra valid
      apply seen
      refine ⟨plain, unseen, slashes, ?_, valid⟩
      have slashes' : "/".toList ++ ['/'] <+: parsed url :=
        trimmed.begins trimmed' (by decide) slashes
      obtain ⟨rest', equation'⟩ := slashes_iff.mp slashes'
      have netloc := isLocal.netloc
      rw [equation', splitNetloc_nil] at netloc
      cases rest' with
      | nil => exact .inr equation'
      | cons d rest' =>
        left
        have delimiter := netloc d rfl
        have third : isDropped d = false → "//".toList ++ [d] <+: trim url := by
          intro kept
          apply trimmed'.begins trimmed kept
          rw [equation']
          exact ⟨rest', rfl⟩
        simp only [Uri.isDelimiter, Bool.or_eq_true, beq_iff_eq, or_assoc] at delimiter
        rcases delimiter with slash | ending
        · rw [slash] at third
          exact third (by decide)
        · exfalso
          have kept : isDropped d = false := by rcases ending with rfl | rfl <;> decide
          obtain ⟨rest'', equation''⟩ := third kept
          apply valid
          rw [← equation'']
          exact (congrArg hosts.read (authority_ended ending rest'')).trans hosts.read_nil
    · apply staysOnSite_relative hosts noScheme
      intro c c' rest equation both
      rw [Bool.and_eq_true, isSlash_iff (noBackslash (by rw [equation]; exact .head _)),
        isSlash_iff (noBackslash (by rw [equation]; exact .tail _ (.head _)))] at both
      rw [equation, both.1, both.2] at slashes
      exact slashes ⟨rest, rfl⟩

/-! ## Paths -/

structure IsPath (url : List Char) : Prop where
  rooted : ∃ rest, url = '/' :: rest ∧ rest.head? ≠ some '/'
  plain : '\\' ∉ url
  kept : ∀ c ∈ url, isKept c = true

theorem IsPath.accepted {url : List Char} (isPath : IsPath url) :
    isSafeUrl unicode (some url) = true := by
  obtain ⟨rest, rfl, single⟩ := isPath.rooted
  have parsedPrefix : parsed ('/' :: rest) <+: '/' :: rest := by
    rw [← List.nil_append ('/' :: rest), parsed_eq (by simp) (by decide) (by decide)]
    have whole : ('/' :: rest).filter isKept = '/' :: rest := List.filter_eq_self.mpr isPath.kept
    have cut := (List.rdropWhile_prefix Text.isSpace ('/' :: rest)).filter isKept
    rwa [whole] at cut
  have notDouble (text : List Char) (begins : text <+: '/' :: rest) : ¬ "//".toList <+: text := by
    intro double
    obtain ⟨rest', equation⟩ := slashes_iff.mp (double.trans begins)
    cases equation
    exact single rfl
  have stripPrefix : Text.strip ('/' :: rest) <+: '/' :: rest := by
    have first : Text.lstrip ('/' :: rest) = '/' :: rest :=
      List.dropWhile_cons_of_neg (by decide)
    rw [Text.strip, first]
    exact List.rdropWhile_prefix _ _
  rw [isSafeUrl_iff]
  refine ⟨?_, ?_, ?_, ?_, ?_⟩
  · exact List.ne_nil_of_mem ((Text.mem_strip (c := '/') (by decide) _).mpr (.head _))
  · rw [Text.mem_strip (by decide)]
    exact isPath.plain
  · intro triple
    exact notDouble _ stripPrefix ((show "//".toList <+: "///".toList from ⟨['/'], rfl⟩).trans triple)
  · intro scheme
    obtain ⟨c, rest', equation, letter⟩ := scheme.head
    rw [equation, List.cons_prefix_cons] at parsedPrefix
    rw [parsedPrefix.1] at letter
    exact absurd letter (by decide)
  · have noSlashes := notDouble _ parsedPrefix
    rw [Url.splitNetloc, if_neg]
    intro begins
    exact noSlashes (List.isPrefixOf_iff_prefix.mp begins)

/-- The check admits no redirect off the site, and every path, unless an authority is hidden from it. -/
theorem isSafeUrl_spec_iff (unicode : Url.Unicode) (hosts : Hosts) (url : List Char) :
    ((isSafeUrl unicode (some url) = true → StaysOnSite hosts url) ∧
      (IsPath url → isSafeUrl unicode (some url) = true)) ↔ ¬ Hidden hosts url := by
  constructor
  · rintro ⟨stays, -⟩ hidden
    exact hidden.leaves (stays hidden.accepted)
  · intro seen
    exact ⟨fun accepted => stays_of_not_hidden accepted seen, fun isPath => isPath.accepted⟩

def plainHosts : Hosts where
  read text := if text = [] then none else some text
  read_nil := rfl

theorem lower_asciiOnly (s : List Char) (_ : ∀ c ∈ s, c.toNat < 128) :
    s.map Char.toLower = s.map Char.toLower := rfl

def asciiOnly : Url.Unicode where
  lower s := s.map Char.toLower
  nfkc s := s
  lower_ascii := lower_asciiOnly

theorem tab_hides_authority :
    isSafeUrl asciiOnly (some "/\t//example.org/".toList) = true ∧
      ¬ StaysOnSite plainHosts "/\t//example.org/".toList := by
  refine ⟨by decide +kernel, fun stays => ?_⟩
  have origin := stays ⟨.https, "freedombox.local".toList⟩
    ⟨"https".toList, "example.org".toList⟩ (by decide +kernel)
  exact absurd origin (by decide)

end Plinth.Views
