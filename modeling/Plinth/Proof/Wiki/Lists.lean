import Plinth.Model.Wiki.Blocks

/-!
# The items of a list

What an item begins with decides whether its text opens a list again. The text that is parsed for an
item is without its indentation if that is of spaces; other white space stays.
-/

namespace Plinth.Wiki

open Python Exception Text Regex Effect

variable {unicode : Unicode} {lead word text : List Char}

/-! ## How a text begins -/

def Apart (rest : List Char) : Prop :=
  ∀ c ∈ rest.head?, isSpace c = true

structure Begins (lead word text : List Char) : Prop where
  space : ∀ c ∈ lead, isSpace c = true
  nonempty : word ≠ []
  letters : ∀ c ∈ word, isSpace c = false
  text_eq : ∃ rest, text = lead ++ word ++ rest ∧ Apart rest

theorem Apart.append {rest more : List Char} (apart : Apart rest) (apart' : Apart more) :
    Apart (rest ++ more) := by
  cases rest with
  | nil => exact apart'
  | cons c rest => exact apart

theorem letters_of_all {word : List Char} (all : word.all (fun c => !isSpace c) = true) :
    ∀ c ∈ word, isSpace c = false := by
  simpa using all

theorem takeWhile_append_apart {p : Char → Bool} {u rest : List Char} (all : ∀ c ∈ u, p c = true)
    (stops : ∀ c ∈ rest.head?, p c = false) : (u ++ rest).takeWhile p = u := by
  rw [List.takeWhile_append_of_pos all]
  cases rest with
  | nil => simp
  | cons c rest => rw [List.takeWhile_cons_of_neg (by simp [stops c rfl]), List.append_nil]

theorem dropWhile_append_apart {p : Char → Bool} {u rest : List Char} (all : ∀ c ∈ u, p c = true)
    (stops : ∀ c ∈ rest.head?, p c = false) : (u ++ rest).dropWhile p = rest := by
  rw [List.dropWhile_append_of_pos all]
  cases rest with
  | nil => rfl
  | cons c rest => exact List.dropWhile_cons_of_neg (by simp [stops c rfl])

namespace Begins

theorem head_word (begins : Begins lead word text) (rest : List Char) :
    ∀ c ∈ (word ++ rest).head?, isSpace c = false := by
  cases same : word with
  | nil => exact absurd same begins.nonempty
  | cons c letters =>
    rintro _ ⟨⟩
    exact begins.letters c (by simp [same])

theorem takeWhile (begins : Begins lead word text) : text.takeWhile isSpace = lead := by
  obtain ⟨rest, rfl, _⟩ := begins.text_eq
  rw [List.append_assoc]
  exact takeWhile_append_apart begins.space (begins.head_word rest)

theorem lstrip (begins : Begins lead word text) :
    ∃ rest, lstrip text = word ++ rest ∧ Apart rest := by
  obtain ⟨rest, rfl, apart⟩ := begins.text_eq
  refine ⟨rest, ?_, apart⟩
  rw [List.append_assoc]
  exact dropWhile_append_apart begins.space (begins.head_word rest)

theorem firstWord (begins : Begins lead word text) : firstWord text = word := by
  obtain ⟨rest, same, apart⟩ := begins.lstrip
  rw [Text.firstWord, same]
  apply takeWhile_append_apart
  · intro c member
    rw [begins.letters c member, Bool.not_false]
  · intro c head
    rw [apart c head, Bool.not_true]

theorem unique {lead' word' : List Char} (begins : Begins lead word text)
    (begins' : Begins lead' word' text) : lead' = lead ∧ word' = word :=
  ⟨begins'.takeWhile.symm.trans begins.takeWhile, begins'.firstWord.symm.trans begins.firstWord⟩

theorem append (begins : Begins lead word text) {more : List Char} (apart : Apart more) :
    Begins lead word (text ++ more) := by
  obtain ⟨rest, rfl, apart'⟩ := begins.text_eq
  exact ⟨begins.space, begins.nonempty, begins.letters, rest ++ more, List.append_assoc _ _ _,
    apart'.append apart⟩

theorem of_append {more : List Char} (begins : Begins lead word (text ++ '\n' :: more))
    (noNewline : '\n' ∉ lead) : Begins lead word text := by
  obtain ⟨rest, same, apart⟩ := begins.text_eq
  refine ⟨begins.space, begins.nonempty, begins.letters, ?_⟩
  have inWord : '\n' ∉ word := fun member => by cases begins.letters '\n' member
  rcases List.append_eq_append_iff.mp same with ⟨u, start, tail⟩ | ⟨rest', start, tail⟩
  · cases u with
    | nil =>
      rw [List.append_nil] at start
      exact ⟨[], by rw [start, List.append_nil], fun c head => by cases head⟩
    | cons c u =>
      rw [List.cons_append, List.cons.injEq] at tail
      have member : '\n' ∈ lead ++ word := by simp [start, ← tail.1]
      rcases List.mem_append.mp member with member | member
      · exact absurd member noNewline
      · exact absurd member inWord
  · refine ⟨rest', start, ?_⟩
    cases rest' with
    | nil => exact fun c head => by cases head
    | cons c rest' =>
      rw [tail] at apart
      exact apart

theorem startswith_strip_iff (begins : Begins lead word text) {start : List Char}
    (letters : ∀ c ∈ start, isSpace c = false) :
    startswith (strip text) start = true ↔ start <+: word := by
  obtain ⟨rest, same, apart⟩ := begins.lstrip
  have stripped : ∃ rest', strip text = word ++ rest' ∧ rest' <+: rest := by
    rw [strip, same, rstrip]
    have ends : List.rdropWhile isSpace word = word := by
      apply List.rdropWhile_eq_self_iff.mpr
      intro nonempty space
      rw [begins.letters _ (List.getLast_mem nonempty)] at space
      cases space
    rw [List.rdropWhile, List.reverse_append, List.dropWhile_append]
    split
    · refine ⟨[], ?_, List.nil_prefix⟩
      rw [List.append_nil]
      exact ends
    · rw [List.reverse_append, List.reverse_reverse]
      exact ⟨_, rfl, List.rdropWhile_prefix isSpace rest⟩
  obtain ⟨rest', stripped, before⟩ := stripped
  rw [startswith, List.isPrefixOf_iff_prefix, stripped]
  constructor
  · intro starts
    rcases List.prefix_or_prefix_of_prefix starts (List.prefix_append word rest') with
      short | ⟨tail, long⟩
    · exact short
    · cases tail with
      | nil =>
        rw [List.append_nil] at long
        rw [long]
      | cons c tail =>
        rw [← long, List.prefix_append_right_inj] at starts
        have first : c ∈ rest.head? := by
          obtain ⟨u, same⟩ := starts.trans before
          rw [← same]
          rfl
        have nonspace := letters c (by simp [← long])
        rw [apart c first] at nonspace
        cases nonspace
  · exact fun starts => starts.trans (List.prefix_append _ _)

end Begins

/-! ## Indentation -/

theorem isSpace_of_isLineBreak {c : Char} (isBreak : isLineBreak c = true) : isSpace c = true := by
  simp only [isLineBreak, isSpace, decide_eq_true_eq] at isBreak ⊢
  omega

theorem not_isLineBreak_of_letter {c : Char} (letter : isSpace c = false) : isLineBreak c = false := by
  cases isBreak : isLineBreak c with
  | false => rfl
  | true =>
    rw [isSpace_of_isLineBreak isBreak] at letter
    cases letter

theorem splitlines_head (c : Char) (s : List Char) :
    ∃ line lines, splitlines (c :: s) = (c :: line) :: lines := by
  cases isBreak : isLineBreak c with
  | true =>
    by_cases pair : ∃ rest, c = '\r' ∧ s = '\n' :: rest
    · obtain ⟨rest, rfl, rfl⟩ := pair
      exact ⟨['\n'], splitlines rest, by rw [splitlines]⟩
    · exact ⟨[], splitlines s, splitlines_break isBreak fun rest same same' => pair ⟨rest, same, same'⟩⟩
  | false =>
    rw [splitlines_cons isBreak]
    split
    · exact ⟨[], [], rfl⟩
    · exact ⟨_, _, rfl⟩

theorem not_indented {level : Nat} {u rest : List Char} (short : u.length ≤ level)
    (other : u ≠ List.replicate level ' ') (stops : ∀ c ∈ rest.head?, c ≠ ' ') :
    startswith (u ++ rest) (List.replicate level ' ') = false := by
  apply Bool.eq_false_iff.mpr
  intro starts
  rw [startswith, List.isPrefixOf_iff_prefix] at starts
  have within := List.prefix_of_prefix_length_le (List.prefix_append u rest) starts
    (by rw [List.length_replicate]; exact short)
  obtain ⟨tail, same⟩ := within
  cases tail with
  | nil =>
    rw [List.append_nil] at same
    exact other same
  | cons c tail =>
    have space : c = ' ' := List.eq_of_mem_replicate (n := level) (by simp [← same])
    rw [← same, List.prefix_append_right_inj] at starts
    obtain ⟨_, rfl⟩ := starts
    exact stops c rfl space

theorem dedent_of_not_indented {level : Nat} {line : Line}
    (indented : startswith line (List.replicate level ' ') = false) (inCodeBlock : Bool)
    (lines : List Line) : ∃ inCodeBlock',
      dedent level inCodeBlock (line :: lines) = line ++ dedent level inCodeBlock' lines := by
  rw [dedent, indented]
  exact ⟨_, rfl⟩

theorem dedent_sublist (level : Nat) (inCodeBlock : Bool) (lines : List Line) :
    (dedent level inCodeBlock lines).Sublist lines.flatten := by
  induction lines generalizing inCodeBlock with
  | nil => exact .slnil
  | cons line lines ih =>
    rw [dedent, List.flatten_cons]
    apply List.Sublist.append _ (ih _)
    split
    · exact List.drop_sublist _ _
    · exact List.Sublist.refl _

theorem dedent_replicate {level : Nat} {c : Char} (other : c ≠ ' ') (indented : 0 < level)
    (s : List Char) : dedent level false (splitlines (List.replicate level ' ' ++ c :: s)) =
      dedent level false (splitlines (c :: s)) := by
  have noBreak : ∀ c ∈ List.replicate level ' ', isLineBreak c = false := by
    intro c member
    rw [List.eq_of_mem_replicate member]
    decide
  obtain ⟨line, lines, found⟩ := splitlines_head c s
  have starts : startswith (List.replicate level ' ' ++ c :: line) (List.replicate level ' ') = true :=
    List.isPrefixOf_iff_prefix.mpr (List.prefix_append _ _)
  have notStarts : startswith (c :: line) (List.replicate level ' ') = false := by
    apply not_indented (u := []) (Nat.zero_le _)
    · intro same
      have length := congrArg List.length same
      rw [List.length_nil, List.length_replicate] at length
      omega
    · rintro _ ⟨⟩
      exact other
  have dropped : (List.replicate level ' ' ++ c :: line).drop level = c :: line :=
    List.drop_left' List.length_replicate
  rw [splitlines_append noBreak found, found, dedent, dedent]
  simp only [starts, notStarts, dropped, Bool.false_eq_true, not_false_eq_true, and_self, if_true,
    false_and, if_false]

theorem dedent_begins_from {level : Nat} {u rest : List Char} (inCodeBlock : Bool)
    (noBreak : ∀ c ∈ u, isLineBreak c = false) (begins : Begins lead word (lead ++ word ++ rest))
    (apart : Apart rest) (noNewline : '\n' ∉ lead) (short : (u ++ lead).length ≤ level)
    (other : u ++ lead ≠ List.replicate level ' ') :
    ∃ rest', dedent level inCodeBlock (splitlines (u ++ (lead ++ word ++ rest))) =
      u ++ (lead ++ word ++ rest') ∧ Apart rest' := by
  induction lead generalizing u inCodeBlock with
  | nil =>
    rw [List.append_nil] at short other
    rw [List.nil_append]
    have stops : ∀ line : List Char, ∀ c ∈ (word ++ line).head?, c ≠ ' ' := by
      rintro line _ head rfl
      cases begins.head_word line ' ' head
    have noBreak' : ∀ c ∈ u ++ word, isLineBreak c = false := by
      intro c member
      rcases List.mem_append.mp member with member | member
      · exact noBreak c member
      · exact not_isLineBreak_of_letter (begins.letters c member)
    cases rest with
    | nil =>
      refine ⟨[], ?_, apart⟩
      rw [List.append_nil, splitlines_of_noBreak noBreak' (by simp [begins.nonempty])]
      obtain ⟨_, same⟩ := dedent_of_not_indented
        (by simpa using not_indented short other (stops [])) inCodeBlock []
      rw [same, dedent, List.append_nil]
    | cons c rest =>
      obtain ⟨line, lines, found⟩ := splitlines_head c rest
      rw [← List.append_assoc, splitlines_append noBreak' found, List.append_assoc]
      obtain ⟨code, same⟩ := dedent_of_not_indented
        (not_indented short other (stops (c :: line))) inCodeBlock lines
      refine ⟨c :: line ++ dedent level code lines, ?_, apart⟩
      rw [same, List.append_assoc, List.append_assoc]
  | cons b lead ih =>
    rw [List.mem_cons, not_or] at noNewline
    have begins' : Begins lead word (lead ++ word ++ rest) :=
      ⟨fun c member => begins.space c (List.mem_cons_of_mem b member), begins.nonempty,
        begins.letters, rest, rfl, apart⟩
    have shorter : (u ++ lead).length < level := by
      simp only [List.length_append, List.length_cons] at short ⊢
      omega
    cases isBreak : isLineBreak b with
    | false =>
      have noBreak' : ∀ c ∈ u ++ [b], isLineBreak c = false := by
        intro c member
        rcases List.mem_append.mp member with member | member
        · exact noBreak c member
        · rw [List.mem_singleton.mp member]
          exact isBreak
      obtain ⟨rest', same, apart'⟩ := ih inCodeBlock (u := u ++ [b]) noBreak' begins' noNewline.2
        (by simpa using short) (by simpa using other)
      exact ⟨rest', by simpa using same, apart'⟩
    | true =>
      have notPair : ∀ tail, b = '\r' → lead ++ word ++ rest ≠ '\n' :: tail := by
        intro tail _ same
        cases lead with
        | nil =>
          have letter := begins'.head_word rest '\n' (by
            rw [← List.nil_append word, same]
            rfl)
          cases letter
        | cons d lead =>
          cases same
          exact noNewline.2 List.mem_cons_self
      have first : splitlines (u ++ b :: (lead ++ word ++ rest)) =
          (u ++ [b]) :: splitlines (lead ++ word ++ rest) :=
        splitlines_append noBreak (splitlines_break isBreak notPair)
      have notSpace : ∀ c ∈ [b].head?, c ≠ ' ' := by
        rintro _ ⟨⟩ rfl
        cases isBreak
      have uShorter : u.length < level := by
        rw [List.length_append] at shorter
        omega
      obtain ⟨code, same⟩ := dedent_of_not_indented (not_indented (Nat.le_of_lt uShorter)
        (fun same => by simp [same] at uShorter) notSpace) inCodeBlock
        (splitlines (lead ++ word ++ rest))
      have leadShorter : lead.length < level := by
        rw [List.length_append] at shorter
        omega
      obtain ⟨rest', inner, apart'⟩ := ih code (u := []) (fun c member => by cases member) begins'
        noNewline.2 (Nat.le_of_lt leadShorter) (fun same => by simp [show lead = _ from same] at leadShorter)
      refine ⟨rest', ?_, apart'⟩
      rw [List.nil_append, List.nil_append] at inner
      rw [List.cons_append, List.cons_append, first, same, inner]
      simp

theorem dedent_begins {level : Nat} (begins : Begins lead word text) (noNewline : '\n' ∉ lead)
    (short : lead.length ≤ level) (other : lead ≠ List.replicate level ' ') (inCodeBlock : Bool) :
    Begins lead word (dedent level inCodeBlock (splitlines text)) := by
  have begins' := begins
  obtain ⟨rest, rfl, apart⟩ := begins.text_eq
  obtain ⟨rest', same, apart'⟩ := dedent_begins_from inCodeBlock (u := [])
    (fun c member => by cases member) begins' apart noNewline short other
  rw [List.nil_append, List.nil_append] at same
  exact ⟨begins.space, begins.nonempty, begins.letters, rest', same, apart'⟩

/-! ## Items -/

theorem mem_marker {found s rest : List Char} (member : (found, rest) ∈ marker unicode s) :
    found ≠ [] ∧ s = found ++ rest ∧ ∀ c ∈ found, isSpace c = false := by
  rw [marker, mem_choice] at member
  simp only [List.mem_cons, List.not_mem_nil, or_false, exists_eq_or_imp, exists_eq_left,
    mem_literal, mem_bind, mem_char, mem_pure] at member
  rcases member with ⟨rfl, rfl⟩ | ⟨rfl, rfl⟩ | ⟨d, _, ⟨rfl, digit⟩, _, _, ⟨_, rfl⟩, rfl, rfl⟩ |
    ⟨rfl, rfl⟩ | ⟨rfl, rfl⟩
  · exact ⟨List.cons_ne_nil _ _, rfl, letters_of_all rfl⟩
  · exact ⟨List.cons_ne_nil _ _, rfl, letters_of_all rfl⟩
  · refine ⟨List.cons_ne_nil _ _, rfl, ?_⟩
    intro c member
    rcases List.mem_cons.mp member with rfl | member
    · exact unicode.digit_not_space c digit
    · rw [List.mem_singleton.mp member]
      rfl
  · exact ⟨List.cons_ne_nil _ _, rfl, letters_of_all rfl⟩
  · exact ⟨List.cons_ne_nil _ _, rfl, letters_of_all rfl⟩

theorem begins_of_listItem {item indent marker : List Char}
    (found : match? (listItem unicode) item = some (indent, marker)) :
    indent ≠ [] ∧ Begins indent marker item := by
  obtain ⟨_, member⟩ := mem_of_match? found
  simp only [listItem, mem_bind, mem_pure, mem_many1, mem_many, Prod.mk.injEq] at member
  obtain ⟨_, _, ⟨nonempty, rfl, space⟩, _, _, marked, more, _, ⟨someSpace, rfl, space'⟩, _, _, _,
    ⟨rfl, rfl⟩, _⟩ := member
  obtain ⟨nonempty', rfl, letters⟩ := mem_marker marked
  refine ⟨nonempty, space, nonempty', letters, _, (List.append_assoc _ _ _).symm, ?_⟩
  cases more with
  | nil => exact absurd rfl someSpace
  | cons c more =>
    rintro _ ⟨⟩
    exact space' c List.mem_cons_self

theorem listDatum_of_begins {item : List Char} (begins : Begins lead word item) :
    (listDatum unicode item).indent = lead.length ∧
      ((listDatum unicode item).content = item ∨ (listDatum unicode item).content =
        List.replicate lead.length ' ' ++ lstripChars (word ++ " ".toList) item) := by
  rw [listDatum]
  split
  · rename_i found
    obtain ⟨rfl, rfl⟩ := begins.unique (begins_of_listItem found).2
    exact ⟨rfl, .inr rfl⟩
  · exact ⟨congrArg List.length begins.takeWhile, .inl rfl⟩

theorem exists_other {level : Nat} (length : lead.length = level) :
    lead ≠ List.replicate level ' ' ↔ ∃ c ∈ lead, c ≠ ' ' := by
  rw [ne_eq, List.eq_replicate_iff]
  simp [length]

theorem begins_lstripChars {item : List Char} (begins : Begins lead word item)
    (other : ∃ c ∈ lead, c ≠ ' ') : ∃ c lead', c ≠ ' ' ∧ (c :: lead').length ≤ lead.length ∧
      (∀ d ∈ c :: lead', d ∈ lead) ∧ Begins (c :: lead') word (lstripChars (word ++ " ".toList) item) := by
  obtain ⟨rest, rfl, apart⟩ := begins.text_eq
  have stripped : lead.dropWhile (fun c => decide (c ∈ word ++ " ".toList)) =
      lead.dropWhile (fun c => decide (c = ' ')) := by
    have same : ∀ c ∈ lead, (c ∈ word ++ " ".toList ↔ c = ' ') := by
      intro c member
      rw [List.mem_append]
      constructor
      · rintro (inWord | space)
        · have letter := begins.letters c inWord
          rw [begins.space c member] at letter
          cases letter
        · exact List.mem_singleton.mp space
      · rintro rfl
        exact .inr List.mem_cons_self
    clear begins apart other
    induction lead with
    | nil => rfl
    | cons c lead ih =>
      rw [List.forall_mem_cons] at same
      rw [List.dropWhile_cons, List.dropWhile_cons, ih same.2]
      simp only [same.1]
  have sublist : lead.dropWhile (fun c => decide (c = ' ')) <:+ lead := List.dropWhile_suffix _
  cases left : lead.dropWhile (fun c => decide (c = ' ')) with
  | nil =>
    obtain ⟨c, member, different⟩ := other
    exact absurd (of_decide_eq_true (List.dropWhile_eq_nil_iff.mp left c member)) different
  | cons c lead' =>
    have different : c ≠ ' ' := by
      have stops := List.head?_dropWhile_not (fun c => decide (c = ' ')) lead
      rw [left] at stops
      exact of_decide_eq_false stops
    rw [left] at sublist stripped
    refine ⟨c, lead', different, sublist.length_le, fun d member => sublist.subset member, ?_⟩
    refine ⟨fun d member => begins.space d (sublist.subset member), begins.nonempty, begins.letters,
      rest, ?_, apart⟩
    rw [lstripChars, List.append_assoc, List.dropWhile_append, stripped, List.isEmpty_cons,
      if_neg Bool.false_ne_true, List.append_assoc]

theorem listDatum_text_begins {item : List Char} (begins : Begins lead word item)
    (noNewline : '\n' ∉ lead) (other : ∃ c ∈ lead, c ≠ ' ') :
    ∃ lead', Begins lead' word (listDatum unicode item).text ∧ '\n' ∉ lead' ∧ ∃ c ∈ lead', c ≠ ' ' := by
  obtain ⟨indent, content | content⟩ := listDatum_of_begins begins
  · refine ⟨lead, ?_, noNewline, other⟩
    rw [Datum.text, indent, content]
    exact dedent_begins begins noNewline (Nat.le_refl _) ((exists_other rfl).mpr other) false
  · obtain ⟨c, lead', different, short, within, begins'⟩ := begins_lstripChars begins other
    refine ⟨c :: lead', ?_, fun member => noNewline (within _ member), c, List.mem_cons_self, different⟩
    have notSpaces : c :: lead' ≠ List.replicate lead.length ' ' :=
      fun same => different (List.eq_of_mem_replicate (same ▸ List.mem_cons_self))
    have stays := dedent_begins begins' (fun member => noNewline (within _ member)) short notSpaces false
    obtain ⟨rest, same, _⟩ := begins'.text_eq
    have indented : 0 < lead.length := by
      rw [List.length_cons] at short
      omega
    rw [same, List.cons_append, List.cons_append] at stays content
    rw [Datum.text, indent, content, dedent_replicate different indented]
    exact stays

theorem listDatum_text_lead {item lead' word' : List Char} (begins : Begins lead word item)
    (noNewline : '\n' ∉ lead) (nonempty : lead ≠ [])
    (begins' : Begins lead' word' (listDatum unicode item).text) (nonempty' : lead' ≠ []) :
    ∃ c ∈ lead', c ≠ ' ' := by
  have indented := List.length_pos_of_ne_nil nonempty
  have first : ∀ c s, c ≠ ' ' → (listDatum unicode item).text =
      dedent lead.length false (splitlines (c :: s)) → c ∈ lead' := by
    intro c s different same
    obtain ⟨line, lines, found⟩ := splitlines_head c s
    have notStarts : startswith (c :: line) (List.replicate lead.length ' ') = false := by
      apply not_indented (u := []) (Nat.zero_le _)
      · intro same
        have length := congrArg List.length same
        rw [List.length_nil, List.length_replicate] at length
        omega
      · rintro _ ⟨⟩
        exact different
    obtain ⟨code, unchanged⟩ := dedent_of_not_indented notStarts false lines
    obtain ⟨rest, text, _⟩ := begins'.text_eq
    rw [same, found, unchanged] at text
    cases lead' with
    | nil => exact absurd rfl nonempty'
    | cons d lead' =>
      rw [List.cons_append, List.cons_append, List.cons_append, List.cons.injEq] at text
      rw [text.1]
      exact List.mem_cons_self
  obtain ⟨indent, content | content⟩ := listDatum_of_begins begins
  · by_cases spaces : lead = List.replicate lead.length ' '
    · obtain ⟨rest, same, _⟩ := begins.text_eq
      cases letters : word with
      | nil => exact absurd letters begins.nonempty
      | cons c letters' =>
        have letter := begins.letters c (by simp [letters])
        have different : c ≠ ' ' := by
          rintro rfl
          cases letter
        have member := first c (letters' ++ rest) different (by
          rw [Datum.text, indent, content, same, letters, List.append_assoc]
          conv_lhs => rw [spaces]
          rw [List.length_replicate, List.cons_append, dedent_replicate different indented])
        rw [begins'.space c member] at letter
        cases letter
    · have stays := dedent_begins begins noNewline (Nat.le_refl _) spaces false
      rw [Datum.text, indent, content] at begins'
      rw [(stays.unique begins').1]
      exact (exists_other rfl).mp spaces
  · cases stripped : lstripChars (word ++ " ".toList) item with
    | nil =>
      have empty : (listDatum unicode item).text = [] := by
        have noBreak : ∀ c ∈ List.replicate lead.length ' ', isLineBreak c = false := by
          intro c member
          rw [List.eq_of_mem_replicate member]
          decide
        rw [Datum.text, indent, content, stripped, List.append_nil,
          splitlines_of_noBreak noBreak (by simpa using nonempty), dedent]
        simp [startswith, dedent]
      obtain ⟨rest, same, _⟩ := begins'.text_eq
      rw [empty] at same
      simp [nonempty'] at same
    | cons c s =>
      have different : c ≠ ' ' := by
        rintro rfl
        exact not_mem_of_lstripChars stripped (List.mem_append_right _ List.mem_cons_self)
      refine ⟨c, first c s different ?_, different⟩
      rw [Datum.text, indent, content, stripped, dedent_replicate different indented]

end Plinth.Wiki
