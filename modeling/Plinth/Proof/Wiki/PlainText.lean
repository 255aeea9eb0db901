import Plinth.Model.Wiki.Text

/-! # Links in plain text -/

namespace Plinth.Wiki.PlainText

open Python Regex

/-! ## Links -/

def schemes : List (List Char) := ["http://".toList, "https://".toList]

structure IsUrl (url : List Char) : Prop where
  parts : ∃ scheme ∈ schemes, ∃ inner last, url = scheme ++ inner ++ [last] ∧ inner ≠ [] ∧
    (∀ c ∈ inner, c ∉ "<> ".toList) ∧ last ∉ "<> .:()".toList

structure IsUrlAt (s url rest : List Char) : Prop where
  isUrl : IsUrl url
  split : s = url ++ rest
  longest : ∀ url' rest', IsUrl url' → s = url' ++ rest' → url'.length ≤ url.length

structure IsCapitalized (word : List Char) : Prop where
  parts : ∃ c cs, word = c :: cs ∧ isUpper c = true ∧ cs ≠ [] ∧ ∀ c ∈ cs, isWordRest c = true

structure IsWikiWord (word : List Char) : Prop where
  parts : ∃ words : List (List Char), 2 ≤ words.length ∧ (∀ word ∈ words, IsCapitalized word) ∧
    word = words.flatten

def Ends (rest : List Char) : Prop :=
  rest = [] ∨ rest = ['\n'] ∨ ∃ rest', rest = ' ' :: rest'

structure IsWordAt (s word rest : List Char) : Prop where
  isWord : IsWikiWord word
  split : s = word ++ rest
  ends : Ends rest

/-! ### URLs -/

def urlTail (scheme : List Char) : Pattern (List Char) := do
  let inner ← many1 fun c => c ∉ "<> ".toList
  let last ← char fun c => c ∉ "<> .:()".toList
  return scheme ++ inner ++ [last]

theorem mem_urlTail {scheme url rest s : List Char} :
    (url, rest) ∈ urlTail scheme s ↔ ∃ inner last, url = scheme ++ inner ++ [last] ∧ inner ≠ [] ∧
      (∀ c ∈ inner, c ∉ "<> ".toList) ∧ last ∉ "<> .:()".toList ∧ s = inner ++ last :: rest := by
  simp only [urlTail, mem_bind, mem_many1, mem_char, mem_pure, decide_eq_true_eq]
  constructor
  · rintro ⟨inner, _, ⟨nonempty, rfl, plain⟩, last, _, ⟨rfl, stop⟩, rfl, rfl⟩
    exact ⟨inner, last, rfl, nonempty, plain, stop, rfl⟩
  · rintro ⟨inner, last, rfl, nonempty, plain, stop, rfl⟩
    exact ⟨inner, _, ⟨nonempty, rfl, plain⟩, last, _, ⟨rfl, stop⟩, rfl, rfl⟩

theorem urlTail_greedy (scheme : List Char) : Greedy (urlTail scheme) := by
  intro s
  show ((many1 _ s).flatMap fun found => (char _ found.2).flatMap fun last =>
    [(scheme ++ found.1 ++ [last.1], last.2)]).Pairwise _
  rw [List.pairwise_flatMap]
  constructor
  · rintro ⟨inner, rest⟩ _
    cases rest with
    | nil => exact .nil
    | cons c rest =>
      rw [char]
      split
      · exact List.pairwise_singleton _ _
      · exact .nil
  · refine (greedy_many1 _ s).imp ?_
    rintro ⟨inner, rest⟩ ⟨inner', rest'⟩ shorter found member found' member'
    obtain ⟨_, _, here⟩ := List.mem_flatMap.mp member
    obtain ⟨_, _, here'⟩ := List.mem_flatMap.mp member'
    rw [List.mem_singleton.mp here, List.mem_singleton.mp here']
    simpa using shorter

theorem urlLink_https (s : List Char) :
    urlLink ("https://".toList ++ s) = urlTail "https://".toList s := by
  have scheme : literal "http".toList ("https://".toList ++ s) = [(_, "s://".toList ++ s)] :=
    literal_append "http".toList ("s://".toList ++ s)
  have secure : choice [literal "s".toList, pure []] ("s://".toList ++ s) =
      [("s".toList, "://".toList ++ s), ([], "s://".toList ++ s)] := rfl
  refine (bind_of_single scheme).trans ((bind_of_first secure ?_).trans ?_)
  · exact bind_of_nil rfl
  · exact bind_of_single (literal_append "://".toList s)

theorem urlLink_http (s : List Char) :
    urlLink ("http://".toList ++ s) = urlTail "http://".toList s := by
  have scheme : literal "http".toList ("http://".toList ++ s) = [(_, "://".toList ++ s)] :=
    literal_append "http".toList ("://".toList ++ s)
  have secure : choice [literal "s".toList, pure []] ("://".toList ++ s) =
      [([], "://".toList ++ s)] := rfl
  refine (bind_of_single scheme).trans ((bind_of_single secure).trans ?_)
  exact bind_of_single (literal_append "://".toList s)

theorem urlLink_of_no_scheme {s : List Char} (noScheme : ∀ scheme ∈ schemes, ¬ scheme <+: s) :
    urlLink s = [] := by
  rw [List.eq_nil_iff_forall_not_mem]
  rintro ⟨url, rest⟩ member
  simp only [urlLink, mem_bind, mem_literal, mem_choice] at member
  obtain ⟨_, _, ⟨rfl, rfl⟩, secure, _, ⟨p, choice, found⟩, _, _, ⟨rfl, rfl⟩, _⟩ := member
  rcases List.mem_cons.mp choice with rfl | choice
  · obtain ⟨rfl, same⟩ := mem_literal.mp found
    apply noScheme "https://".toList (by decide)
    rw [same]
    exact ⟨_, rfl⟩
  · rw [List.mem_singleton.mp choice, mem_pure] at found
    apply noScheme "http://".toList (by decide)
    rw [← found.2]
    exact ⟨_, rfl⟩

theorem urlLink_cases (s : List Char) :
    urlLink s = [] ∨ ∃ scheme ∈ schemes, ∃ tail, s = scheme ++ tail ∧ urlLink s = urlTail scheme tail := by
  by_cases noScheme : ∀ scheme ∈ schemes, ¬ scheme <+: s
  · exact .inl (urlLink_of_no_scheme noScheme)
  · right
    push Not at noScheme
    obtain ⟨scheme, member, tail, rfl⟩ := noScheme
    refine ⟨scheme, member, tail, rfl, ?_⟩
    rcases List.mem_cons.mp member with rfl | member
    · exact urlLink_http tail
    · rw [List.mem_singleton.mp member]
      exact urlLink_https tail

theorem mem_urlLink {url rest s : List Char} :
    (url, rest) ∈ urlLink s ↔ IsUrl url ∧ s = url ++ rest := by
  constructor
  · intro member
    rcases urlLink_cases s with none | ⟨scheme, known, tail, rfl, all⟩
    · rw [none] at member
      cases member
    · rw [all, mem_urlTail] at member
      obtain ⟨inner, last, rfl, nonempty, plain, stop, rfl⟩ := member
      exact ⟨⟨scheme, known, inner, last, rfl, nonempty, plain, stop⟩, by simp⟩
  · rintro ⟨⟨scheme, known, inner, last, rfl, nonempty, plain, stop⟩, rfl⟩
    have all : urlLink (scheme ++ (inner ++ last :: rest)) = urlTail scheme (inner ++ last :: rest) := by
      rcases List.mem_cons.mp known with rfl | known
      · exact urlLink_http _
      · rw [List.mem_singleton.mp known]
        exact urlLink_https _
    have split : scheme ++ inner ++ [last] ++ rest = scheme ++ (inner ++ last :: rest) := by simp
    rw [split, all]
    exact mem_urlTail.mpr ⟨inner, last, rfl, nonempty, plain, stop, rfl⟩

theorem urlLink_greedy : Greedy urlLink := by
  intro s
  rcases urlLink_cases s with none | ⟨scheme, _, tail, _, all⟩
  · rw [none]
    exact .nil
  · rw [all]
    exact urlTail_greedy scheme tail

theorem isUrlAt_iff {s url rest : List Char} :
    IsUrlAt s url rest ↔ (urlLink s).head? = some (url, rest) := by
  constructor
  · rintro ⟨isUrl, split, longest⟩
    have member := mem_urlLink.mpr ⟨isUrl, split⟩
    cases first : (urlLink s).head? with
    | none =>
      rw [List.head?_eq_none_iff.mp first] at member
      cases member
    | some found =>
      obtain ⟨url', rest'⟩ := found
      obtain ⟨isUrl', split'⟩ := mem_urlLink.mp (List.mem_of_mem_head? first)
      have same : url'.length = url.length := Nat.le_antisymm (longest _ _ isUrl' split')
        (urlLink_greedy.longest first member)
      obtain ⟨rfl, rfl⟩ := List.append_inj (split'.symm.trans split) same
      rfl
  · intro first
    obtain ⟨isUrl, split⟩ := mem_urlLink.mp (List.mem_of_mem_head? first)
    exact ⟨isUrl, split, fun url' rest' isUrl' split' =>
      urlLink_greedy.longest first (mem_urlLink.mpr ⟨isUrl', split'⟩)⟩

/-! ### Wiki words -/

theorem mem_capitalized {word rest s : List Char} :
    (word, rest) ∈ capitalized s ↔ IsCapitalized word ∧ s = word ++ rest := by
  simp only [capitalized, mem_bind, mem_char, mem_many1, mem_pure]
  constructor
  · rintro ⟨c, _, ⟨rfl, upper⟩, cs, _, ⟨nonempty, rfl, rest_⟩, rfl, rfl⟩
    exact ⟨⟨c, cs, rfl, upper, nonempty, rest_⟩, rfl⟩
  · rintro ⟨⟨c, cs, rfl, upper, nonempty, rest_⟩, rfl⟩
    exact ⟨c, _, ⟨rfl, upper⟩, cs, _, ⟨nonempty, rfl, rest_⟩, rfl, rfl⟩

theorem capitalizedWords_sound {n : Nat} {found rest s : List Char}
    (member : (found, rest) ∈ capitalizedWords n s) :
    ∃ words : List (List Char), words ≠ [] ∧ (∀ word ∈ words, IsCapitalized word) ∧
      found = words.flatten ∧ s = found ++ rest := by
  induction n generalizing found s with
  | zero => cases member
  | succ n ih =>
    simp only [capitalizedWords, mem_bind, mem_capitalized, mem_choice, mem_pure] at member
    obtain ⟨word, _, ⟨isWord, rfl⟩, words, _, ⟨p, choice, member⟩, rfl, rfl⟩ := member
    rcases List.mem_cons.mp choice with rfl | choice
    · obtain ⟨words', _, areWords, rfl, rfl⟩ := ih member
      exact ⟨word :: words', List.cons_ne_nil _ _, List.forall_mem_cons.mpr ⟨isWord, areWords⟩,
        rfl, (List.append_assoc ..).symm⟩
    · rw [List.mem_singleton.mp choice, mem_pure] at member
      obtain ⟨rfl, rfl⟩ := member
      exact ⟨[word], List.cons_ne_nil _ _, List.forall_mem_cons.mpr ⟨isWord, nofun⟩, by simp,
        by simp⟩

theorem capitalizedWords_complete {n : Nat} {words : List (List Char)} (nonempty : words ≠ [])
    (areWords : ∀ word ∈ words, IsCapitalized word) (enough : words.length ≤ n)
    (rest : List Char) : (words.flatten, rest) ∈ capitalizedWords n (words.flatten ++ rest) := by
  induction n generalizing words with
  | zero => exact absurd (List.length_eq_zero_iff.mp (Nat.le_zero.mp enough)) nonempty
  | succ n ih =>
    simp only [capitalizedWords, mem_bind, mem_capitalized, mem_choice, mem_pure]
    cases words with
    | nil => exact absurd rfl nonempty
    | cons word words =>
      obtain ⟨isWord, areWords⟩ := List.forall_mem_cons.mp areWords
      rw [List.flatten_cons, List.append_assoc]
      refine ⟨word, _, ⟨isWord, rfl⟩, words.flatten, rest, ?_, rfl, rfl⟩
      cases words with
      | nil => exact ⟨_, .tail _ (.head _), mem_pure.mpr ⟨rfl, rfl⟩⟩
      | cons next words =>
        exact ⟨_, .head _, ih (List.cons_ne_nil _ _) areWords (Nat.le_of_succ_le_succ enough)⟩

theorem IsCapitalized.length_pos {word : List Char} (isWord : IsCapitalized word) :
    0 < word.length := by
  obtain ⟨c, cs, rfl, _⟩ := isWord
  exact Nat.succ_pos _

theorem length_le_flatten {words : List (List Char)}
    (areWords : ∀ word ∈ words, IsCapitalized word) : words.length ≤ words.flatten.length := by
  induction words with
  | nil => exact Nat.le_refl _
  | cons word words ih =>
    obtain ⟨isWord, areWords⟩ := List.forall_mem_cons.mp areWords
    have first := isWord.length_pos
    have rest := ih areWords
    rw [List.flatten_cons, List.length_append, List.length_cons]
    omega

theorem ends_iff (rest : List Char) :
    (∃ after, ((), after) ∈ choice [(do let _ ← literal " ".toList), atEnd] rest) ↔ Ends rest := by
  simp only [mem_choice, Ends]
  constructor
  · rintro ⟨after, p, choice, member⟩
    rcases List.mem_cons.mp choice with rfl | choice
    · obtain ⟨_, _, blank, _⟩ := mem_bind.mp member
      exact .inr (.inr ⟨_, (mem_literal.mp blank).2⟩)
    · rw [List.mem_singleton.mp choice, atEnd] at member
      split at member
      · next stop => exact stop.elim .inl fun newline => .inr (.inl newline)
      · cases member
  · rintro (rfl | rfl | ⟨rest', rfl⟩)
    · exact ⟨[], atEnd, .tail _ (.head _), .head _⟩
    · exact ⟨['\n'], atEnd, .tail _ (.head _), .head _⟩
    · refine ⟨rest', _, .head _, mem_bind.mpr ⟨_, rest', mem_literal.mpr ⟨rfl, rfl⟩, ?_⟩⟩
      exact mem_pure.mpr ⟨rfl, rfl⟩

def IsLead (atStart : Bool) (lead : List Char) : Prop :=
  lead = [' '] ∨ atStart = true ∧ lead = []

theorem mem_lead {atStart : Bool} {lead rest s : List Char} :
    (lead, rest) ∈ choice [literal " ".toList, if atStart then pure [] else fails] s ↔
      IsLead atStart lead ∧ s = lead ++ rest := by
  rw [mem_choice]
  constructor
  · rintro ⟨p, choice, member⟩
    rcases List.mem_cons.mp choice with rfl | choice
    · obtain ⟨rfl, rfl⟩ := mem_literal.mp member
      exact ⟨.inl rfl, rfl⟩
    · rw [List.mem_singleton.mp choice] at member
      cases atStart with
      | true =>
        obtain ⟨rfl, rfl⟩ := mem_pure.mp member
        exact ⟨.inr ⟨rfl, rfl⟩, rfl⟩
      | false => cases member
  · rintro ⟨rfl | ⟨rfl, rfl⟩, rfl⟩
    · exact ⟨_, .head _, mem_literal.mpr ⟨rfl, rfl⟩⟩
    · exact ⟨_, .tail _ (.head _), mem_pure.mpr ⟨rfl, rfl⟩⟩

theorem wikiLink_sound {size : Nat} {atStart : Bool} {lead word rest after s : List Char}
    (member : ((lead, word, rest), after) ∈ wikiLink size atStart s) :
    ∃ s', s = lead ++ s' ∧ IsWordAt s' word rest ∧ IsLead atStart lead := by
  obtain ⟨_, s', isLead, member⟩ := mem_bind.mp member
  obtain ⟨first, _, isFirst, member⟩ := mem_bind.mp member
  obtain ⟨_, _, areWords, member⟩ := mem_bind.mp member
  obtain ⟨_, _, here, member⟩ := mem_bind.mp member
  obtain ⟨_, _, stop, member⟩ := mem_bind.mp member
  have result := (mem_pure.mp member).1
  have read := List.mem_singleton.mp here
  clear member
  cases read
  cases result
  obtain ⟨leads, rfl⟩ := mem_lead.mp isLead
  obtain ⟨capital, rfl⟩ := mem_capitalized.mp isFirst
  obtain ⟨words, nonempty, capitals, rfl, rfl⟩ := capitalizedWords_sound areWords
  refine ⟨_, rfl, ⟨⟨first :: words, ?_, List.forall_mem_cons.mpr ⟨capital, capitals⟩, rfl⟩, ?_, ?_⟩,
    leads⟩
  · rw [List.length_cons]
    exact Nat.succ_le_succ (List.length_pos_iff.mpr nonempty)
  · exact (List.append_assoc ..).symm
  · exact (ends_iff _).mp ⟨_, stop⟩

theorem wikiLink_complete {size : Nat} {atStart : Bool} {lead word rest s' : List Char}
    (isWordAt : IsWordAt s' word rest) (isLead : IsLead atStart lead) (enough : s'.length ≤ size) :
    ∃ after, ((lead, word, rest), after) ∈ wikiLink size atStart (lead ++ s') := by
  obtain ⟨⟨words, two, areWords, rfl⟩, rfl, ends⟩ := isWordAt
  cases words with
  | nil => cases two
  | cons first words =>
    obtain ⟨isFirst, areWords⟩ := List.forall_mem_cons.mp areWords
    have nonempty : words ≠ [] := by
      rintro rfl
      cases two with | step two => cases two
    have short : words.length ≤ size := by
      have bound := length_le_flatten areWords
      rw [List.flatten_cons, List.length_append, List.length_append] at enough
      omega
    obtain ⟨after, stop⟩ := (ends_iff rest).mpr ends
    refine ⟨after, ?_⟩
    rw [List.flatten_cons, List.append_assoc]
    refine mem_bind.mpr ⟨lead, _, mem_lead.mpr ⟨isLead, rfl⟩, ?_⟩
    refine mem_bind.mpr ⟨first, _, mem_capitalized.mpr ⟨isFirst, rfl⟩, ?_⟩
    refine mem_bind.mpr ⟨_, rest, capitalizedWords_complete nonempty areWords short rest, ?_⟩
    refine mem_bind.mpr ⟨rest, rest, List.mem_singleton.mpr rfl, ?_⟩
    exact mem_bind.mpr ⟨(), after, stop, mem_pure.mpr ⟨rfl, rfl⟩⟩

/-! ## Boundaries -/

def isWordChar (c : Char) : Bool :=
  isUpper c || isWordRest c

theorem IsCapitalized.wordChars {word : List Char} (isWord : IsCapitalized word) :
    ∀ c ∈ word, isWordChar c = true := by
  obtain ⟨c, cs, rfl, upper, _, rest⟩ := isWord
  refine List.forall_mem_cons.mpr ⟨?_, fun c member => ?_⟩
  · rw [isWordChar, upper, Bool.true_or]
  · rw [isWordChar, rest c member, Bool.or_true]

theorem IsWikiWord.wordChars {word : List Char} (isWord : IsWikiWord word) :
    ∀ c ∈ word, isWordChar c = true := by
  obtain ⟨words, _, areWords, rfl⟩ := isWord
  intro c member
  obtain ⟨part, inside, here⟩ := List.mem_flatten.mp member
  exact (areWords part inside).wordChars c here

theorem IsWikiWord.head_upper {word : List Char} (isWord : IsWikiWord word) :
    ∃ c cs, word = c :: cs ∧ isUpper c = true := by
  obtain ⟨words, two, areWords, rfl⟩ := isWord
  cases words with
  | nil => cases two
  | cons first words =>
    obtain ⟨c, cs, rfl, upper, _⟩ := areWords first (.head _)
    exact ⟨c, cs ++ words.flatten, rfl, upper⟩

theorem Ends.head {rest : List Char} (ends : Ends rest) : ∀ c ∈ rest.head?, c = ' ' ∨ c = '\n' := by
  rcases ends with rfl | rfl | ⟨rest', rfl⟩ <;> simp

theorem Ends.takeWhile {rest : List Char} (ends : Ends rest) :
    rest.takeWhile isWordChar = [] := by
  rcases ends with rfl | rfl | ⟨rest', rfl⟩ <;> rfl

theorem IsWordAt.takeWhile {s word rest : List Char} (isWordAt : IsWordAt s word rest) :
    s.takeWhile isWordChar = word := by
  rw [isWordAt.split, List.takeWhile_append_of_pos isWordAt.isWord.wordChars,
    isWordAt.ends.takeWhile, List.append_nil]

theorem IsWordAt.unique {s word rest word' rest' : List Char} (isWordAt : IsWordAt s word rest)
    (isWordAt' : IsWordAt s word' rest') : word = word' ∧ rest = rest' := by
  have same : word = word' := isWordAt.takeWhile.symm.trans isWordAt'.takeWhile
  subst same
  exact ⟨rfl, List.append_cancel_left (isWordAt.split.symm.trans isWordAt'.split)⟩

theorem IsUrlAt.unique {s url rest url' rest' : List Char} (isUrlAt : IsUrlAt s url rest)
    (isUrlAt' : IsUrlAt s url' rest') : url = url' ∧ rest = rest' := by
  have first := isUrlAt_iff.mp isUrlAt
  rw [isUrlAt_iff.mp isUrlAt'] at first
  cases first
  exact ⟨rfl, rfl⟩

theorem IsUrl.head {url : List Char} (isUrl : IsUrl url) :
    ∃ tail, url = "http".toList ++ tail := by
  obtain ⟨scheme, known, inner, last, rfl, _⟩ := isUrl
  rcases List.mem_cons.mp known with rfl | known
  · exact ⟨"://".toList ++ inner ++ [last], rfl⟩
  · rw [List.mem_singleton.mp known]
    exact ⟨"s://".toList ++ inner ++ [last], rfl⟩

theorem IsUrl.no_blank {url : List Char} (isUrl : IsUrl url) : ' ' ∉ url := by
  obtain ⟨scheme, known, inner, last, rfl, _, plain, stop⟩ := isUrl
  rw [List.mem_append, List.mem_append, not_or, not_or]
  refine ⟨⟨?_, fun member => plain ' ' member (by decide)⟩, ?_⟩
  · exact (by decide : ∀ scheme ∈ schemes, ' ' ∉ scheme) scheme known
  · rw [List.mem_singleton]
    rintro rfl
    exact stop (by decide)

theorem IsUrl.dropWhile {url : List Char} (isUrl : IsUrl url) (rest : List Char) :
    ∃ tail, (url ++ rest).dropWhile isWordChar = ':' :: tail := by
  obtain ⟨scheme, known, inner, last, rfl, _⟩ := isUrl
  rcases List.mem_cons.mp known with rfl | known
  · exact ⟨"//".toList ++ inner ++ [last] ++ rest, rfl⟩
  · rw [List.mem_singleton.mp known]
    exact ⟨"//".toList ++ inner ++ [last] ++ rest, rfl⟩

theorem IsUrlAt.next {s url rest : List Char} (isUrlAt : IsUrlAt s url rest) :
    ∀ c ∈ rest.head?, c ∈ "<> .:()".toList := by
  intro c first
  cases rest with
  | nil => cases first
  | cons d rest =>
    cases first
    by_contra stop
    obtain ⟨scheme, known, inner, last, rfl, nonempty, plain, stop'⟩ := isUrlAt.isUrl
    have longer : IsUrl (scheme ++ (inner ++ [last]) ++ [c]) := by
      refine ⟨scheme, known, inner ++ [last], c, rfl, by simp, fun d member => ?_, stop⟩
      rcases List.mem_append.mp member with member | member
      · exact plain d member
      · rw [List.mem_singleton.mp member]
        exact fun member => stop' ((by decide : "<> ".toList ⊆ "<> .:()".toList) member)
    have bound := isUrlAt.longest _ rest longer (by rw [isUrlAt.split]; simp)
    simp at bound

theorem not_isUrlAt_of_upper {c : Char} (upper : isUpper c = true) (s url rest : List Char) :
    ¬ IsUrlAt (c :: s) url rest := by
  intro isUrlAt
  obtain ⟨tail, rfl⟩ := isUrlAt.isUrl.head
  cases isUrlAt.split
  revert upper
  decide

/-! ## Parts -/

inductive Part
  | text (content : List Char)
  | url (content : List Char)
  | word (content : List Char)
  deriving DecidableEq, Repr

namespace Part

def content : Part → List Char
  | .text content => content
  | .url content => content
  | .word content => content

def element : Part → Element
  | .text content => .plainText (sub bang content)
  | .url content => .url content
  | .word content => .link content [.plainText content] []

end Part

def contents (parts : List Part) : List Char :=
  parts.flatMap Part.content

def addChar (c : Char) : List Part → List Part
  | .text content :: parts => .text (c :: content) :: parts
  | parts => .text [c] :: parts

inductive Splits : Bool → List Char → List Part → Prop
  | nil (afterBlank : Bool) : Splits afterBlank [] []
  | url {afterBlank : Bool} {s url rest : List Char} {parts : List Part}
      (isUrlAt : IsUrlAt s url rest) (splits : Splits false rest parts) :
      Splits afterBlank s (.url url :: parts)
  | word {s word rest : List Char} {parts : List Part} (isWordAt : IsWordAt s word rest)
      (splits : Splits false rest parts) : Splits true s (.word word :: parts)
  | char {afterBlank : Bool} {c : Char} {s : List Char} {parts : List Part}
      (noUrl : ∀ url rest, ¬ IsUrlAt (c :: s) url rest)
      (noWord : afterBlank = true → ∀ word rest, ¬ IsWordAt (c :: s) word rest)
      (splits : Splits (c = ' ') s parts) : Splits afterBlank (c :: s) (addChar c parts)

theorem contents_addChar (c : Char) (parts : List Part) :
    contents (addChar c parts) = c :: contents parts := by
  unfold addChar
  split <;> rfl

theorem Splits.contents_eq {afterBlank : Bool} {s : List Char} {parts : List Part}
    (splits : Splits afterBlank s parts) : contents parts = s := by
  induction splits with
  | nil => rfl
  | url isUrlAt _ ih => exact (congrArg (_ ++ ·) ih).trans isUrlAt.split.symm
  | word isWordAt _ ih => exact (congrArg (_ ++ ·) ih).trans isWordAt.split.symm
  | char _ _ _ ih => rw [contents_addChar, ih]

theorem IsUrlAt.length_lt {s url rest : List Char} (isUrlAt : IsUrlAt s url rest) :
    rest.length < s.length := by
  obtain ⟨tail, rfl⟩ := isUrlAt.isUrl.head
  rw [isUrlAt.split, List.length_append, List.length_append]
  have four : "http".toList.length = 4 := rfl
  omega

theorem IsWordAt.length_lt {s word rest : List Char} (isWordAt : IsWordAt s word rest) :
    rest.length < s.length := by
  obtain ⟨c, cs, rfl, _⟩ := isWordAt.isWord.head_upper
  rw [isWordAt.split, List.length_append, List.length_cons]
  omega

theorem exists_splits (afterBlank : Bool) (s : List Char) :
    ∃ parts, Splits afterBlank s parts := by
  induction size : s.length using Nat.strong_induction_on generalizing afterBlank s with
  | _ size ih =>
    subst size
    by_cases isUrl : ∃ url rest, IsUrlAt s url rest
    · obtain ⟨url, rest, isUrlAt⟩ := isUrl
      obtain ⟨parts, splits⟩ := ih _ isUrlAt.length_lt false rest rfl
      exact ⟨_, .url isUrlAt splits⟩
    by_cases isWord : afterBlank = true ∧ ∃ word rest, IsWordAt s word rest
    · obtain ⟨rfl, word, rest, isWordAt⟩ := isWord
      obtain ⟨parts, splits⟩ := ih _ isWordAt.length_lt false rest rfl
      exact ⟨_, .word isWordAt splits⟩
    cases s with
    | nil => exact ⟨[], .nil afterBlank⟩
    | cons c s =>
      obtain ⟨parts, splits⟩ := ih _ (Nat.lt_succ_self _) (c = ' ') s rfl
      refine ⟨_, .char (fun url rest isUrlAt => isUrl ⟨url, rest, isUrlAt⟩) ?_ splits⟩
      exact fun after word rest isWordAt => isWord ⟨after, word, rest, isWordAt⟩

theorem not_isUrlAt_nil (url rest : List Char) : ¬ IsUrlAt [] url rest :=
  fun isUrlAt => Nat.not_lt_zero _ isUrlAt.length_lt

theorem not_isWordAt_nil (word rest : List Char) : ¬ IsWordAt [] word rest :=
  fun isWordAt => Nat.not_lt_zero _ isWordAt.length_lt

theorem not_isUrlAt_of_isWordAt {s url word rest rest' : List Char}
    (isWordAt : IsWordAt s word rest) : ¬ IsUrlAt s url rest' := by
  obtain ⟨c, cs, rfl, upper⟩ := isWordAt.isWord.head_upper
  rw [isWordAt.split]
  exact not_isUrlAt_of_upper upper _ _ _

theorem Splits.unique {afterBlank : Bool} {s : List Char} {parts parts' : List Part}
    (splits : Splits afterBlank s parts) (splits' : Splits afterBlank s parts') :
    parts = parts' := by
  induction splits generalizing parts' with
  | nil =>
    cases splits' with
    | nil => rfl
    | url isUrlAt _ => exact absurd isUrlAt (not_isUrlAt_nil _ _)
    | word isWordAt _ => exact absurd isWordAt (not_isWordAt_nil _ _)
  | url isUrlAt _ ih =>
    cases splits' with
    | nil => exact absurd isUrlAt (not_isUrlAt_nil _ _)
    | url isUrlAt' splits' =>
      obtain ⟨rfl, rfl⟩ := isUrlAt.unique isUrlAt'
      rw [ih splits']
    | word isWordAt _ => exact absurd isUrlAt (not_isUrlAt_of_isWordAt isWordAt)
    | char noUrl _ _ => exact absurd isUrlAt (noUrl _ _)
  | word isWordAt _ ih =>
    cases splits' with
    | nil => exact absurd isWordAt (not_isWordAt_nil _ _)
    | url isUrlAt _ => exact absurd isUrlAt (not_isUrlAt_of_isWordAt isWordAt)
    | word isWordAt' splits' =>
      obtain ⟨rfl, rfl⟩ := isWordAt.unique isWordAt'
      rw [ih splits']
    | char _ noWord _ => exact absurd isWordAt (noWord rfl _ _)
  | char noUrl noWord _ ih =>
    cases splits' with
    | url isUrlAt _ => exact absurd isUrlAt (noUrl _ _)
    | word isWordAt _ => exact absurd isWordAt (noWord rfl _ _)
    | char _ _ splits' => rw [ih splits']

/-! ## Searches -/

theorem wikiLink_eq_nil {size : Nat} {atStart : Bool} {s : List Char}
    (nothing : ∀ lead s' word rest, IsLead atStart lead → s = lead ++ s' → ¬ IsWordAt s' word rest) :
    wikiLink size atStart s = [] := by
  rw [List.eq_nil_iff_forall_not_mem]
  rintro ⟨⟨lead, word, rest⟩, after⟩ member
  obtain ⟨s', split, isWordAt, isLead⟩ := wikiLink_sound member
  exact nothing lead s' word rest isLead split isWordAt

theorem IsWordAt.head_upper {s word rest : List Char} (isWordAt : IsWordAt s word rest) :
    ∃ c cs, s = c :: cs ∧ isUpper c = true := by
  obtain ⟨c, cs, rfl, upper⟩ := isWordAt.isWord.head_upper
  exact ⟨c, cs ++ rest, isWordAt.split, upper⟩

theorem IsLead.unique {atStart atStart' : Bool} {lead lead' s s' word word' rest rest' : List Char}
    (isLead : IsLead atStart lead) (isLead' : IsLead atStart' lead') (same : lead ++ s = lead' ++ s')
    (isWordAt : IsWordAt s word rest) (isWordAt' : IsWordAt s' word' rest') :
    lead = lead' ∧ s = s' := by
  obtain ⟨c, cs, rfl, upper⟩ := isWordAt.head_upper
  obtain ⟨c', cs', rfl, upper'⟩ := isWordAt'.head_upper
  rcases isLead with rfl | ⟨_, rfl⟩ <;> rcases isLead' with rfl | ⟨_, rfl⟩
  · exact ⟨rfl, (List.cons.inj same).2⟩
  · rw [← (List.cons.inj same).1] at upper'
    exact absurd upper' (by decide)
  · rw [(List.cons.inj same).1] at upper
    exact absurd upper (by decide)
  · exact ⟨rfl, same⟩

theorem wikiLink_head {size : Nat} {atStart : Bool} {lead s word rest : List Char}
    (isWordAt : IsWordAt s word rest) (isLead : IsLead atStart lead) (enough : s.length ≤ size) :
    ∃ after, (wikiLink size atStart (lead ++ s)).head? = some ((lead, word, rest), after) := by
  obtain ⟨after, member⟩ := wikiLink_complete isWordAt isLead enough
  cases first : (wikiLink size atStart (lead ++ s)).head? with
  | none =>
    rw [List.head?_eq_none_iff.mp first] at member
    cases member
  | some found =>
    obtain ⟨⟨lead', word', rest'⟩, after'⟩ := found
    obtain ⟨s', split, isWordAt', isLead'⟩ := wikiLink_sound (List.mem_of_mem_head? first)
    obtain ⟨rfl, rfl⟩ := isLead.unique isLead' split isWordAt isWordAt'
    obtain ⟨rfl, rfl⟩ := isWordAt.unique isWordAt'
    exact ⟨after', rfl⟩

def firstWord : List Part → Option (List Char × List Char × List Char)
  | [] => none
  | .word word :: parts => some ([], word, contents parts)
  | part :: parts => (firstWord parts).map fun found => (part.content ++ found.1, found.2)

def firstUrl : List Part → Option (List Char × List Char × List Char)
  | [] => none
  | .url url :: parts => some ([], url, contents parts)
  | part :: parts => (firstUrl parts).map fun found => (part.content ++ found.1, found.2)

theorem firstWord_addChar (c : Char) (parts : List Part) :
    firstWord (addChar c parts) = (firstWord parts).map fun found => (c :: found.1, found.2) := by
  unfold addChar
  split
  · simp only [firstWord, Part.content, Option.map_map]
    rfl
  · rfl

theorem firstUrl_addChar (c : Char) (parts : List Part) :
    firstUrl (addChar c parts) = (firstUrl parts).map fun found => (c :: found.1, found.2) := by
  unfold addChar
  split
  · simp only [firstUrl, Part.content, Option.map_map]
    rfl
  · rfl

theorem search_append {α : Type} {p : Bool → Pattern α} {front : List Char} (back : List Char)
    {atStart : Bool}
    (nothing : ∀ before c after, front = before ++ c :: after →
      p (atStart && before.isEmpty) (c :: after ++ back) = [])
    (nonempty : front ≠ []) :
    search p atStart (front ++ back) =
      (search p false back).map fun found => (front ++ found.1, found.2) := by
  induction front generalizing atStart with
  | nil => exact absurd rfl nonempty
  | cons c front ih =>
    have here : p atStart (c :: (front ++ back)) = [] := by
      have first := nothing [] c front rfl
      rwa [List.isEmpty_nil, Bool.and_true] at first
    rw [List.cons_append, search_cons_of_no_match here]
    cases front with
    | nil => rfl
    | cons d front =>
      have rest := @ih false (fun before e after split => by
        have later := nothing (c :: before) e after (congrArg (c :: ·) split)
        simpa using later) (List.cons_ne_nil _ _)
      rw [rest, Option.map_map]
      rfl

theorem firstWord_nil {parts : List Part} {word rest : List Char}
    (found : firstWord parts = some ([], word, rest)) (plain : ∀ part ∈ parts, part.content ≠ []) :
    ∃ others, parts = .word word :: others ∧ rest = contents others := by
  cases parts with
  | nil => cases found
  | cons part parts =>
    have nonempty := plain part (.head _)
    cases part with
    | word =>
      cases found
      exact ⟨parts, rfl, rfl⟩
    | text content | url content =>
      obtain ⟨later, _, same⟩ := Option.map_eq_some_iff.mp found
      exact absurd (List.append_eq_nil_iff.mp (Prod.mk.inj same).1).1 nonempty

theorem Splits.content_ne_nil {afterBlank : Bool} {s : List Char} {parts : List Part}
    (splits : Splits afterBlank s parts) : ∀ part ∈ parts, part.content ≠ [] := by
  induction splits with
  | nil => exact nofun
  | url isUrlAt _ ih =>
    obtain ⟨tail, rfl⟩ := isUrlAt.isUrl.head
    exact List.forall_mem_cons.mpr ⟨by simp [Part.content], ih⟩
  | word isWordAt _ ih =>
    obtain ⟨c, cs, rfl, _⟩ := isWordAt.isWord.head_upper
    exact List.forall_mem_cons.mpr ⟨List.cons_ne_nil _ _, ih⟩
  | char _ _ _ ih =>
    unfold addChar
    split
    · obtain ⟨_, others⟩ := List.forall_mem_cons.mp ih
      exact List.forall_mem_cons.mpr ⟨List.cons_ne_nil _ _, others⟩
    · exact List.forall_mem_cons.mpr ⟨List.cons_ne_nil _ _, ih⟩

theorem addChar_ne_word (c : Char) (parts others : List Part) (word : List Char) :
    addChar c parts ≠ .word word :: others := by
  unfold addChar
  split <;> simp

structure FindsWord (size : Nat) (atStart : Bool) (s : List Char)
    (found : List Char × List Char × List Char) : Prop where
  finds : ∃ before lead after, found.1 = before ++ lead ∧ (found.1 = [] ∨ lead = [' ']) ∧
    search (wikiLink size) atStart s = some (before, (lead, found.2), after)

theorem FindsWord.append {size : Nat} {atStart : Bool} {front back : List Char}
    {found : List Char × List Char × List Char} (finds : FindsWord size false back found)
    (nonempty : found.1 ≠ [])
    (skips : search (wikiLink size) atStart (front ++ back) =
      (search (wikiLink size) false back).map fun found => (front ++ found.1, found.2)) :
    FindsWord size atStart (front ++ back) (front ++ found.1, found.2) := by
  obtain ⟨before, lead, after, split, blank, searched⟩ := finds
  refine ⟨front ++ before, lead, after, ?_, .inr (blank.resolve_left nonempty), ?_⟩
  · rw [List.append_assoc, ← split]
  · rw [skips, searched]
    rfl

theorem Splits.firstWord_ne_nil {afterBlank : Bool} {s : List Char} {parts : List Part}
    (splits : Splits afterBlank s parts)
    (noWord : afterBlank = true → ∀ link rest, ¬ IsWordAt s link rest)
    {found : List Char × List Char × List Char} (first : firstWord parts = some found) :
    found.1 ≠ [] := by
  obtain ⟨before, link, rest⟩ := found
  rintro rfl
  obtain ⟨others, rfl, _⟩ := firstWord_nil first splits.content_ne_nil
  generalize isParts : Part.word link :: others = parts at splits
  cases splits with
  | nil => cases isParts
  | url _ _ => cases isParts
  | word isWordAt _ => exact noWord rfl _ _ isWordAt
  | char _ _ _ => exact addChar_ne_word _ _ _ _ isParts.symm

theorem Splits.parts_of_isWordAt {s link rest : List Char} {parts : List Part}
    (splits : Splits true s parts) (isWordAt : IsWordAt s link rest) :
    firstWord parts = some ([], link, rest) := by
  cases splits with
  | nil => exact absurd isWordAt (not_isWordAt_nil _ _)
  | url isUrlAt _ => exact absurd isUrlAt (not_isUrlAt_of_isWordAt isWordAt)
  | word isWordAt' splits =>
    obtain ⟨rfl, rfl⟩ := isWordAt.unique isWordAt'
    rw [firstWord, splits.contents_eq]
  | char _ noWord _ => exact absurd isWordAt (noWord rfl _ _)

theorem wikiLink_blank (size : Nat) (s : List Char) :
    wikiLink size true (' ' :: s) = wikiLink size false (' ' :: s) := by
  have leads : choice [literal " ".toList, pure []] (' ' :: s) =
      [(" ".toList, s), ([], ' ' :: s)] := rfl
  have lead : choice [literal " ".toList, fails] (' ' :: s) = [(" ".toList, s)] := rfl
  have first : wikiLink size true (' ' :: s) = _ := bind_of_first leads (bind_of_nil rfl)
  have second : wikiLink size false (' ' :: s) = _ := bind_of_single lead
  exact first.trans second.symm

theorem search_afterBlank {s : List Char} (noWord : ∀ link rest, ¬ IsWordAt s link rest)
    (size : Nat) : search (wikiLink size) true s = search (wikiLink size) false s := by
  have same : wikiLink size true s = wikiLink size false s := by
    by_cases blank : ∃ s', s = ' ' :: s'
    · obtain ⟨s', rfl⟩ := blank
      exact wikiLink_blank size s'
    · have nothing (atStart : Bool) : wikiLink size atStart s = [] := by
        apply wikiLink_eq_nil
        rintro lead s' link rest (rfl | ⟨_, rfl⟩) split isWordAt
        · exact blank ⟨s', split⟩
        · exact noWord link rest (split ▸ isWordAt)
      rw [nothing, nothing]
  cases s with
  | nil => rw [search, search, same]
  | cons c s => rw [search, search, same]

theorem Splits.search_wiki {afterBlank : Bool} {s : List Char} {parts : List Part}
    (splits : Splits afterBlank s parts) {size : Nat} (enough : s.length ≤ size) :
    (firstWord parts = none → search (wikiLink size) afterBlank s = none) ∧
      ∀ found, firstWord parts = some found → FindsWord size afterBlank s found := by
  induction splits with
  | nil =>
    refine ⟨fun _ => ?_, fun _ found => by cases found⟩
    rw [search, wikiLink_eq_nil]
    · rfl
    · rintro lead s' link rest _ split isWordAt
      rw [(List.append_eq_nil_iff.mp split.symm).2] at isWordAt
      exact not_isWordAt_nil _ _ isWordAt
  | word isWordAt splits _ =>
    refine ⟨fun found => (by cases found), ?_⟩
    rintro _ ⟨⟩
    obtain ⟨after, first⟩ := wikiLink_head isWordAt (.inr ⟨rfl, rfl⟩) enough
    refine ⟨[], [], after, rfl, .inl rfl, ?_⟩
    rw [splits.contents_eq]
    exact search_of_match first
  | @url afterBlank s url rest parts isUrlAt splits ih =>
    obtain ⟨absent, present⟩ := ih (Nat.le_trans (Nat.le_of_lt isUrlAt.length_lt) enough)
    have skips : search (wikiLink size) afterBlank (url ++ rest) = _ :=
      search_append rest (fun before c after split => wikiLink_eq_nil ?_) (by
        obtain ⟨tail, rfl⟩ := isUrlAt.isUrl.head
        simp)
    · have same : firstWord (.url url :: parts) =
          (firstWord parts).map fun found => (url ++ found.1, found.2) := rfl
      rw [isUrlAt.split, same]
      constructor
      · intro nothing
        rw [skips, absent (Option.map_eq_none_iff.mp nothing)]
        rfl
      · intro found first
        obtain ⟨found', first', rfl⟩ := Option.map_eq_some_iff.mp first
        exact (present found' first').append (splits.firstWord_ne_nil (fun same => by cases same) first') skips
    · rintro lead s' link rest' (rfl | ⟨start, rfl⟩) same isWordAt
      · apply isUrlAt.isUrl.no_blank
        rw [split, (List.cons.inj same).1]
        simp
      · have none : before = [] := List.isEmpty_iff.mp (Bool.and_eq_true_iff.mp start).2
        subst none
        rw [List.nil_append] at split same
        obtain ⟨d, ds, rfl, upper⟩ := isWordAt.head_upper
        have isUrl := isUrlAt.isUrl
        rw [split] at isUrl
        obtain ⟨tail, start'⟩ := isUrl.head
        rw [← (List.cons.inj same).1, (List.cons.inj start').1] at upper
        exact absurd upper (by decide)
  | @char afterBlank c s parts noUrl noWord splits ih =>
    obtain ⟨absent, present⟩ := ih (Nat.le_trans (Nat.le_succ _) enough)
    rw [firstWord_addChar]
    by_cases blank : c = ' ' ∧ ∃ link rest, IsWordAt s link rest
    · obtain ⟨rfl, link, rest, isWordAt⟩ := blank
      rw [splits.parts_of_isWordAt isWordAt]
      refine ⟨fun found => (by cases found), ?_⟩
      rintro _ ⟨⟩
      obtain ⟨after, first⟩ := wikiLink_head isWordAt (.inl rfl)
        (Nat.le_trans (Nat.le_succ _) enough)
      exact ⟨[], [' '], after, rfl, .inr rfl, search_of_match first⟩
    · have notHere : wikiLink size afterBlank (c :: s) = [] := by
        apply wikiLink_eq_nil
        rintro lead s' link rest (rfl | ⟨start, rfl⟩) same isWordAt
        · obtain ⟨rfl, rfl⟩ := List.cons.inj same
          exact blank ⟨rfl, link, rest, isWordAt⟩
        · rw [List.nil_append] at same
          subst same
          exact noWord start link rest isWordAt
      have noNext : (decide (c = ' ')) = true → ∀ link rest, ¬ IsWordAt s link rest :=
        fun isBlank link rest isWordAt => blank ⟨of_decide_eq_true isBlank, link, rest, isWordAt⟩
      have flag : search (wikiLink size) (c = ' ') s = search (wikiLink size) false s := by
        cases isBlank : decide (c = ' ') with
        | true => exact search_afterBlank (noNext isBlank) size
        | false => rfl
      have skips := search_cons_of_no_match notHere
      rw [flag] at absent
      constructor
      · intro nothing
        rw [skips, absent (Option.map_eq_none_iff.mp nothing)]
        rfl
      · intro found first
        obtain ⟨found', first', rfl⟩ := Option.map_eq_some_iff.mp first
        have finds : FindsWord size false s found' := by
          obtain ⟨before, lead, after, split, lead_, searched⟩ := present found' first'
          exact ⟨before, lead, after, split, lead_, flag.symm.trans searched⟩
        exact @FindsWord.append size afterBlank [c] s found' finds
          (splits.firstWord_ne_nil noNext first') skips

theorem urlLink_eq_nil {s : List Char} (noUrl : ∀ url rest, ¬ IsUrlAt s url rest) :
    urlLink s = [] := by
  cases first : (urlLink s).head? with
  | none => exact List.head?_eq_none_iff.mp first
  | some found => exact absurd (isUrlAt_iff.mpr first) (noUrl found.1 found.2)

theorem urlLink_in_word {s word rest : List Char} (isWordAt : IsWordAt s word rest)
    {before after : List Char} {c : Char} (split : word = before ++ c :: after) :
    urlLink (c :: after ++ rest) = [] := by
  rw [List.eq_nil_iff_forall_not_mem]
  rintro ⟨url, rest'⟩ member
  obtain ⟨isUrl, same⟩ := mem_urlLink.mp member
  obtain ⟨tail, colon⟩ := isUrl.dropWhile rest'
  have letters : ∀ d ∈ c :: after, isWordChar d = true := fun d inside =>
    isWordAt.isWord.wordChars d (split ▸ List.mem_append_right _ inside)
  rw [← same, List.dropWhile_append_of_pos letters] at colon
  rcases isWordAt.ends with rfl | rfl | ⟨rest'', rfl⟩
  · cases colon
  · exact absurd (List.cons.inj colon).1 (by decide)
  · exact absurd (List.cons.inj colon).1 (by decide)

theorem Splits.search_url {afterBlank : Bool} {s : List Char} {parts : List Part}
    (splits : Splits afterBlank s parts) (atStart : Bool) :
    search (fun _ => urlLink) atStart s = firstUrl parts := by
  induction splits generalizing atStart with
  | nil => rfl
  | url isUrlAt splits _ =>
    rw [firstUrl, splits.contents_eq]
    exact search_of_match (isUrlAt_iff.mp isUrlAt)
  | @word s word rest parts isWordAt splits ih =>
    have same : firstUrl (.word word :: parts) =
        (firstUrl parts).map fun found => (word ++ found.1, found.2) := rfl
    rw [same, ← ih false, isWordAt.split]
    refine search_append rest (fun before c after split => urlLink_in_word isWordAt split) ?_
    obtain ⟨c, cs, rfl, _⟩ := isWordAt.isWord.head_upper
    exact List.cons_ne_nil _ _
  | char noUrl _ splits ih =>
    rw [firstUrl_addChar, ← ih false]
    exact search_cons_of_no_match (urlLink_eq_nil noUrl)

/-! ## The loop -/

theorem Splits.afterBlank {s : List Char} {parts : List Part} (splits : Splits false s parts)
    (noWord : ∀ link rest, ¬ IsWordAt s link rest) : Splits true s parts := by
  generalize isFalse : false = flag at splits
  cases splits with
  | nil => exact .nil true
  | url isUrlAt splits => exact .url isUrlAt splits
  | word _ _ => cases isFalse
  | char noUrl _ splits => exact .char noUrl (fun _ => noWord) splits

theorem not_isWordAt_of_head {s : List Char} (notUpper : ∀ c ∈ s.head?, isUpper c = false)
    (link rest : List Char) : ¬ IsWordAt s link rest := by
  intro isWordAt
  obtain ⟨c, cs, rfl, upper⟩ := isWordAt.head_upper
  rw [notUpper c rfl] at upper
  cases upper

theorem Splits.afterBlank_of_link {afterBlank : Bool} {s : List Char} {parts : List Part}
    (splits : Splits afterBlank s parts) (noText : ∀ text others, parts ≠ .text text :: others) :
    Splits true s parts := by
  cases splits with
  | nil => exact .nil true
  | url isUrlAt splits => exact .url isUrlAt splits
  | word isWordAt splits => exact .word isWordAt splits
  | @char _ c _ parts _ _ _ =>
    exfalso
    unfold addChar at noText
    split at noText
    · exact noText _ _ rfl
    · exact noText _ _ rfl

theorem Splits.of_url {afterBlank : Bool} {s url : List Char} {parts : List Part}
    (splits : Splits afterBlank s (.url url :: parts)) :
    s = url ++ contents parts ∧ Splits true (contents parts) parts := by
  generalize isParts : Part.url url :: parts = all at splits
  cases splits with
  | nil => cases isParts
  | word _ _ => cases isParts
  | char _ _ _ =>
    unfold addChar at isParts
    split at isParts <;> cases isParts
  | url isUrlAt splits =>
    cases isParts
    rw [splits.contents_eq]
    refine ⟨isUrlAt.split, splits.afterBlank (not_isWordAt_of_head fun c first => ?_)⟩
    have stops : "<> .:()".toList.all (fun c => !isUpper c) = true := by decide +kernel
    exact Bool.not_eq_true' _ ▸ List.all_eq_true.mp stops c (isUrlAt.next c first)

theorem Splits.of_word {afterBlank : Bool} {s word : List Char} {parts : List Part}
    (splits : Splits afterBlank s (.word word :: parts)) :
    s = word ++ contents parts ∧ Splits true (contents parts) parts := by
  generalize isParts : Part.word word :: parts = all at splits
  cases splits with
  | nil => cases isParts
  | url _ _ => cases isParts
  | char _ _ _ => exact absurd isParts.symm (addChar_ne_word _ _ _ _)
  | word isWordAt splits =>
    cases isParts
    rw [splits.contents_eq]
    refine ⟨isWordAt.split, splits.afterBlank (not_isWordAt_of_head fun c first => ?_)⟩
    rcases isWordAt.ends.head c first with rfl | rfl <;> decide

theorem Splits.of_text {afterBlank : Bool} {s text : List Char} {parts : List Part}
    (splits : Splits afterBlank s (.text text :: parts)) :
    s = text ++ contents parts ∧ Splits true (contents parts) parts ∧
      ∀ text' others, parts ≠ .text text' :: others := by
  generalize isParts : Part.text text :: parts = all at splits
  induction splits generalizing text with
  | nil => cases isParts
  | url _ _ => cases isParts
  | word _ _ => cases isParts
  | char _ _ splits ih =>
    unfold addChar at isParts
    split at isParts
    · cases isParts
      obtain ⟨rfl, rest, noText⟩ := ih rfl
      exact ⟨rfl, rest, noText⟩
    · next noText =>
      cases isParts
      rw [splits.contents_eq]
      exact ⟨rfl, splits.afterBlank_of_link noText, noText⟩

theorem plainTexts_of_url {n : Nat} {s link rest : List Char} (nonempty : s ≠ [])
    (url : search (fun _ => urlLink) true s = some ([], link, rest)) :
    plainTexts true (n + 1) s = .url link :: plainTexts true n rest := by
  cases s with
  | nil => exact absurd rfl nonempty
  | cons c s => simp only [plainTexts, if_true, url]

section NoUrl

variable {n : Nat} {s : List Char} (nonempty : s ≠ [])
  (noUrl : ∀ found, search (fun _ => urlLink) true s = some found → found.1 ≠ [])

include nonempty noUrl

theorem plainTexts_of_word {lead link rest after : List Char}
    (word : search (wikiLink s.length) true s = some ([], (lead, link, rest), after)) :
    plainTexts true (n + 1) s = .link link [.plainText link] [] :: plainTexts true n rest := by
  cases s with
  | nil => exact absurd rfl nonempty
  | cons c s =>
    simp only [plainTexts, if_true, word]
    cases url : search (fun _ => urlLink) true (c :: s) with
    | none => rfl
    | some found =>
      obtain ⟨before, _⟩ := found
      cases before with
      | nil => exact absurd rfl (noUrl _ url)
      | cons _ _ => rfl

theorem plainTexts_before_word {c : Char} {before lead link rest after : List Char}
    (word : search (wikiLink s.length) true s = some (c :: before, (lead, link, rest), after)) :
    plainTexts true (n + 1) s = .plainText (sub bang (s.take (c :: before ++ lead).length)) ::
      plainTexts true n (s.drop (c :: before ++ lead).length) := by
  cases s with
  | nil => exact absurd rfl nonempty
  | cons d s =>
    simp only [plainTexts, if_true, word]
    cases url : search (fun _ => urlLink) true (d :: s) with
    | none => rfl
    | some found =>
      obtain ⟨start, _⟩ := found
      cases start with
      | nil => exact absurd rfl (noUrl _ url)
      | cons _ _ => rfl

end NoUrl

theorem plainTexts_before_url {n : Nat} {s : List Char} (nonempty : s ≠ [])
    (noWord : search (wikiLink s.length) true s = none) {c : Char} {before link rest : List Char}
    (url : search (fun _ => urlLink) true s = some (c :: before, link, rest)) :
    plainTexts true (n + 1) s = .plainText (sub bang (s.take (c :: before).length)) ::
      plainTexts true n (s.drop (c :: before).length) := by
  cases s with
  | nil => exact absurd rfl nonempty
  | cons d s =>
    simp only [plainTexts, if_true, noWord, url]
    rfl

theorem plainTexts_of_plain {n : Nat} {s : List Char} (nonempty : s ≠ [])
    (noWord : search (wikiLink s.length) true s = none)
    (noUrl : search (fun _ => urlLink) true s = none) :
    plainTexts true (n + 1) s = [.plainText (sub bang s)] := by
  cases s with
  | nil => exact absurd rfl nonempty
  | cons d s =>
    simp only [plainTexts, if_true, noWord, noUrl]
    rfl

/-- No link is passed over: a wiki word comes after no URL that has text before it, and after no
link or start that a single blank parts it from. -/
structure Separated (parts : List Part) : Prop where
  urls : ∀ before text url after, parts = before ++ .text text :: .url url :: after →
    ∀ word, .word word ∉ after
  words : ∀ before word after, parts ≠ before ++ .text [' '] :: .word word :: after

theorem Separated.tail {part : Part} {parts : List Part} (separated : Separated (part :: parts)) :
    Separated parts := by
  constructor
  · rintro before text url after rfl
    exact separated.urls (part :: before) text url after rfl
  · rintro before word after rfl
    exact separated.words (part :: before) word after rfl

theorem firstWord_eq_none {parts : List Part} (noWord : ∀ word, .word word ∉ parts) :
    firstWord parts = none := by
  induction parts with
  | nil => rfl
  | cons part parts ih =>
    have later := ih fun word member => noWord word (List.mem_cons_of_mem _ member)
    cases part with
    | word word => exact absurd (.head _) (noWord word)
    | text content | url content =>
      rw [firstWord, later]
      · rfl
      · simp

theorem plainTexts_eq {n : Nat} {s : List Char} {parts : List Part} (splits : Splits true s parts)
    (separated : Separated parts) (enough : s.length ≤ n) :
    plainTexts true n s = parts.map Part.element := by
  induction n generalizing s parts with
  | zero =>
    have empty : s = [] := List.length_eq_zero_iff.mp (Nat.le_zero.mp enough)
    subst empty
    rw [splits.unique (.nil true)]
    rfl
  | succ n ih =>
    by_cases nonempty : s = []
    · subst nonempty
      rw [splits.unique (.nil true)]
      rfl
    have searchUrl := splits.search_url true
    obtain ⟨noWord, someWord⟩ := splits.search_wiki (Nat.le_refl _)
    have here := splits.content_ne_nil
    cases parts with
    | nil => exact absurd splits.contents_eq.symm nonempty
    | cons part parts =>
      obtain ⟨partNonempty, _⟩ := List.forall_mem_cons.mp here
      have length_lt (split : s = part.content ++ contents parts) :
          (contents parts).length ≤ n := by
        have positive := List.length_pos_iff.mpr partNonempty
        rw [split, List.length_append] at enough
        omega
      cases part with
      | url url =>
        obtain ⟨split, rest⟩ := splits.of_url
        rw [plainTexts_of_url nonempty searchUrl, ih rest separated.tail (length_lt split)]
        rfl
      | word word =>
        obtain ⟨split, rest⟩ := splits.of_word
        obtain ⟨before, lead, after, isNil, _, searched⟩ := someWord _ rfl
        obtain ⟨rfl, rfl⟩ := List.append_eq_nil_iff.mp isNil.symm
        rw [plainTexts_of_word nonempty ?_ searched, ih rest separated.tail (length_lt split)]
        · rfl
        · intro found isFound
          rw [searchUrl] at isFound
          obtain ⟨later, _, rfl⟩ := Option.map_eq_some_iff.mp isFound
          exact fun none => partNonempty (List.append_eq_nil_iff.mp none).1
      | text text =>
        obtain ⟨split, rest, noText⟩ := splits.of_text
        have next := ih rest separated.tail (length_lt split)
        have textOf : s.take text.length = text := by rw [split, List.take_left]
        have restOf : s.drop text.length = contents parts := by rw [split, List.drop_left]
        cases parts with
        | nil =>
          rw [plainTexts_of_plain nonempty (noWord rfl) searchUrl, split]
          show [Element.plainText (sub bang (text ++ []))] = _
          rw [List.append_nil]
          rfl
        | cons part parts =>
          cases part with
          | text text' => exact absurd rfl (noText _ _)
          | url url =>
            have none : firstWord (.text text :: .url url :: parts) = none := by
              refine firstWord_eq_none fun word member => ?_
              rcases List.mem_cons.mp member with same | member
              · cases same
              rcases List.mem_cons.mp member with same | member
              · cases same
              exact separated.urls [] text url parts rfl word member
            have found : search (fun _ => urlLink) true s =
                some (text, url, contents parts) := by
              rw [searchUrl]
              show some (text ++ [], url, contents parts) = _
              rw [List.append_nil]
            cases text with
            | nil => exact absurd rfl partNonempty
            | cons c text =>
              rw [plainTexts_before_url nonempty (noWord none) found, textOf, restOf,
                next]
              rfl
          | word word =>
            obtain ⟨before, lead, after, whole, blank, searched⟩ := someWord _ rfl
            have whole' : text ++ [] = before ++ lead := whole
            rw [List.append_nil] at whole'
            have isBlank : lead = [' '] := blank.resolve_left fun none =>
              partNonempty (List.append_eq_nil_iff.mp none).1
            cases before with
            | nil =>
              rw [isBlank] at whole'
              subst whole'
              exact absurd rfl (separated.words [] word parts)
            | cons c before =>
              rw [plainTexts_before_word nonempty ?_ searched, ← whole', textOf,
                restOf, next]
              · rfl
              · intro found isFound
                rw [searchUrl] at isFound
                obtain ⟨later, _, rfl⟩ := Option.map_eq_some_iff.mp isFound
                exact fun none => partNonempty (List.append_eq_nil_iff.mp none).1

/-- A plain text falls into parts in one way, and where no link is passed over, each part becomes
its element. -/
theorem parsePlainText_parts (s : List Char) :
    ∃ parts, Splits true s parts ∧ (∀ parts', Splits true s parts' → parts' = parts) ∧
      contents parts = s ∧
      (Separated parts → parsePlainText true s = parts.map Part.element) := by
  obtain ⟨parts, splits⟩ := exists_splits true s
  refine ⟨parts, splits, fun parts' splits' => splits'.unique splits, splits.contents_eq, ?_⟩
  exact fun separated => plainTexts_eq splits separated (Nat.le_refl _)

theorem Splits.char_of {afterBlank : Bool} {c : Char} {s : List Char} {parts : List Part}
    (noUrl : urlLink (c :: s) = []) (lower : isUpper c = false) (splits : Splits (c = ' ') s parts) :
    Splits afterBlank (c :: s) (addChar c parts) := by
  refine .char (fun url rest isUrlAt => ?_) (fun _ => not_isWordAt_of_head ?_) splits
  · rw [isUrlAt_iff, noUrl] at isUrlAt
    cases isUrlAt
  · rintro _ ⟨⟩
    exact lower

theorem splits_see : Splits true "see http://a.b".toList
    [.text "see ".toList, .url "http://a.b".toList] := by
  have isUrlAt : IsUrlAt "http://a.b".toList "http://a.b".toList [] :=
    isUrlAt_iff.mpr (by decide +kernel)
  exact .char_of (by decide +kernel) rfl <| .char_of (by decide +kernel) rfl <|
    .char_of (by decide +kernel) rfl <| .char_of (by decide +kernel) rfl <|
      .url isUrlAt (.nil false)

theorem parsePlainText_see : ∃ parts, Splits true "see http://a.b".toList parts ∧
    parsePlainText true "see http://a.b".toList = parts.map Part.element := by
  obtain ⟨parts, splits, unique, _, becomes⟩ := parsePlainText_parts "see http://a.b".toList
  refine ⟨parts, splits, becomes ?_⟩
  rw [← unique _ splits_see]
  constructor
  · rintro before text url after split word member
    rcases before with _ | ⟨_, _ | ⟨_, before⟩⟩
    · cases split
      cases member
    · cases split
    · cases before <;> cases split
  · rintro before word after split
    rcases before with _ | ⟨_, _ | ⟨_, before⟩⟩
    · cases split
    · cases split
    · cases before <;> cases split

def Part.whole : Part → Element
  | .text content => .plainText content
  | part => part.element

def Element.content : Element → List Char
  | .plainText content => content
  | .url content => content
  | .link target _ _ => target
  | _ => []

def FindsLinks (s : List Char) : Prop :=
  ∃ parts, Splits true s parts ∧ parsePlainText true s = parts.map Part.whole ∧
    (parsePlainText true s).flatMap Element.content = s

theorem not_findsLinks :
    ¬ FindsLinks "!FooBar".toList ∧ ¬ FindsLinks "FooBar BarFoo".toList := by
  constructor
  · rintro ⟨_, _, _, same⟩
    revert same
    decide +kernel
  · rintro ⟨_, _, _, same⟩
    revert same
    decide +kernel

end Plinth.Wiki.PlainText
