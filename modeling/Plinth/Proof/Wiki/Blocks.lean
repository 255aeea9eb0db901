import Plinth.Proof.Wiki.Lists

/-!
# The blocks that are read

Which blocks are lists and admonitions, of which `parse_wiki` parses the inner texts, and how many
lines these texts have.
-/

namespace Plinth.Wiki

open Python Exception Text Regex Effect

variable {unicode : Unicode} {endMarker : List Char} {lead word line text : List Char}
  {lines rest : List Line}

/-! ## Items -/

structure ItemsOf (unicode : Unicode) (item : List Char) (lines : List Line)
    (items : List (List Char)) (rest : List Line) : Prop where
  rest : rest <:+ lines
  first : ∃ more others, items = (item ++ more) :: others ∧ Apart more
  starts : ∀ other ∈ items, ∃ start more, other = start ++ more ∧ Apart more ∧
    (start = item ∨ start ∈ lines ∧ isListItem unicode start = true)
  count : ∀ other ∈ items, other.count '\n' ≤ item.count '\n' + lines.length

namespace ItemsOf

variable {item : List Char} {items : List (List Char)}

theorem last (item : List Char) (lines : List Line) : ItemsOf unicode item lines [item] lines := by
  have apart : Apart [] := fun c head => by cases head
  refine ⟨List.suffix_rfl, ⟨[], [], by rw [List.append_nil], apart⟩, ?_, ?_⟩
  · intro other member
    exact ⟨item, [], by rw [List.mem_singleton.mp member, List.append_nil], apart, .inl rfl⟩
  · intro other member
    rw [List.mem_singleton.mp member]
    exact Nat.le_add_right _ _

theorem extend {more : List Char} (apart : Apart more) (one : more.count '\n' ≤ 1)
    (of : ItemsOf unicode (item ++ more) lines items rest) :
    ItemsOf unicode item (line :: lines) items rest := by
  obtain ⟨suffix, ⟨more', others, same, apart'⟩, starts, count⟩ := of
  refine ⟨suffix.trans (List.suffix_cons _ _), ⟨more ++ more', others, ?_, apart.append apart'⟩, ?_, ?_⟩
  · rw [same, List.append_assoc]
  · intro other member
    obtain ⟨start, more', same, apart', rfl | ⟨member, isItem⟩⟩ := starts other member
    · exact ⟨item, more ++ more', by rw [same, List.append_assoc], apart.append apart', .inl rfl⟩
    · exact ⟨start, more', same, apart', .inr ⟨List.mem_cons_of_mem _ member, isItem⟩⟩
  · intro other member
    have bound := count other member
    rw [List.count_append] at bound
    rw [List.length_cons]
    omega

theorem next {candidate : Line} (isItem : isListItem unicode candidate = true)
    (noNewline : '\n' ∉ candidate) (of : ItemsOf unicode candidate lines items rest) :
    ItemsOf unicode item (candidate :: lines) (item :: items) rest := by
  obtain ⟨suffix, _, starts, count⟩ := of
  have none : candidate.count '\n' = 0 := List.count_eq_zero.mpr noNewline
  have apart : Apart [] := fun c head => by cases head
  refine ⟨suffix.trans (List.suffix_cons _ _), ⟨[], items, by rw [List.append_nil], apart⟩, ?_, ?_⟩
  · intro other member
    rcases List.mem_cons.mp member with rfl | member
    · exact ⟨_, [], (List.append_nil _).symm, apart, .inl rfl⟩
    · obtain ⟨start, more, same, apart, rfl | ⟨member, isItem⟩⟩ := starts other member
      · exact ⟨_, more, same, apart, .inr ⟨List.mem_cons_self, isItem⟩⟩
      · exact ⟨start, more, same, apart, .inr ⟨List.mem_cons_of_mem _ member, isItem⟩⟩
  · intro other member
    rw [List.length_cons]
    rcases List.mem_cons.mp member with rfl | member
    · omega
    · have bound := count other member
      omega

end ItemsOf

theorem apart_cons {c : Char} (space : isSpace c = true) (rest : List Char) : Apart (c :: rest) := by
  rintro _ ⟨⟩
  exact space

variable (unicode) in
theorem itemsOf_listLines (topIndent : Nat) (inCode : Bool) (item : List Char) (lines : List Line)
    (noNewline : ∀ line ∈ lines, '\n' ∉ line) :
    ItemsOf unicode item lines (listLines unicode topIndent inCode item lines).1
      (listLines unicode topIndent inCode item lines).2 := by
  induction lines generalizing inCode item with
  | nil => exact .last item []
  | cons candidate lines ih =>
    rw [List.forall_mem_cons] at noNewline
    have newline : isSpace '\n' = true := rfl
    have one : ∀ more : List Char, more.count '\n' = 0 → ('\n' :: more).count '\n' ≤ 1 := by
      intro more none
      rw [List.count_cons_self, none]
    have lineCount : candidate.count '\n' = 0 := List.count_eq_zero.mpr noNewline.1
    rw [listLines]
    split
    · split
      · exact .extend (apart_cons newline _) (one "\x7d\x7d\x7d".toList (by decide)) (ih _ _ noNewline.2)
      · exact .extend (apart_cons newline _) (one candidate lineCount) (ih _ _ noNewline.2)
    · split
      · exact .extend (apart_cons newline _) (one [] rfl) (ih _ _ noNewline.2)
      · split
        · exact .last item _
        · split
          · rename_i isItem
            exact .next isItem noNewline.1 (ih _ _ noNewline.2)
          · split
            · exact .extend (apart_cons newline _) (one candidate lineCount) (ih _ _ noNewline.2)
            · split
              · rw [List.append_assoc]
                apply ItemsOf.extend _ _ (ih _ _ noNewline.2)
                · exact apart_cons rfl _
                · rw [List.count_append, lineCount]
                  decide
              · exact .extend (apart_cons newline _) (one candidate lineCount) (ih _ _ noNewline.2)

/-! ## Lists -/

structure PlainWord (word : List Char) : Prop where
  notComment : ¬ "##".toList <+: word
  notInstruction : word ∉ processingInstructions
  notRow : ¬ "||".toList <+: word

theorem begins_of_not_blank (notBlank : ¬ text.all isSpace = true) :
    Begins (text.takeWhile isSpace) (firstWord text) text := by
  have parts : text = text.takeWhile isSpace ++ firstWord text ++
      (lstrip text).dropWhile (fun c => !isSpace c) := by
    rw [firstWord, List.append_assoc, List.takeWhile_append_dropWhile]
    exact (List.takeWhile_append_dropWhile).symm
  refine ⟨fun c member => List.mem_takeWhile_imp member, ?_, ?_, _, parts, ?_⟩
  · intro empty
    apply notBlank
    rw [List.all_eq_true]
    have stops := List.head?_dropWhile_not isSpace text
    rw [firstWord, lstrip] at empty
    cases left : text.dropWhile isSpace with
    | nil => exact List.dropWhile_eq_nil_iff.mp left
    | cons c rest =>
      rw [left] at stops empty
      rw [List.takeWhile_cons_of_pos (by simp [show isSpace c = false from stops])] at empty
      cases empty
  · intro c member
    simpa using List.mem_takeWhile_imp member
  · intro c head
    have stops := List.head?_dropWhile_not (fun c => !isSpace c) (lstrip text)
    rw [head] at stops
    simpa using stops

theorem match?_bind_of_none {α β : Type} {p : Pattern α} {f : α → Pattern β} {s : List Char}
    (none : ∀ a rest, (a, rest) ∉ p s) : match? (p >>= f) s = Option.none := by
  apply Option.isNone_iff_eq_none.mp
  rw [← Option.not_isSome, Bool.not_eq_true', Bool.eq_false_iff, ne_eq, match?_isSome_iff]
  rintro ⟨b, rest, member⟩
  obtain ⟨a, middle, member, _⟩ := mem_bind.mp member
  exact none a middle member

theorem match?_literal_of_begins {α : Type} {c : Char} {start : List Char} {f : List Char → Pattern α}
    (begins : Begins lead word line) (nonempty : lead ≠ []) (letter : isSpace c = false) :
    match? (literal (c :: start) >>= f) line = none := by
  apply match?_bind_of_none
  intro found rest member
  obtain ⟨_, same⟩ := mem_literal.mp member
  obtain ⟨rest', same', _⟩ := begins.text_eq
  cases lead with
  | nil => exact nonempty rfl
  | cons d lead =>
    rw [same, List.cons_append, List.cons_append, List.cons_append, List.cons.injEq] at same'
    rw [same'.1, begins.space d List.mem_cons_self] at letter
    cases letter

theorem lineBlock_of_begins (begins : Begins lead word line) (nonempty : lead ≠ [])
    (plain : PlainWord word) : lineBlock unicode [] line = none := by
  obtain ⟨rest, same, _⟩ := begins.text_eq
  obtain ⟨c, letters, letter⟩ : ∃ c letters, word = c :: letters :=
    List.exists_cons_of_ne_nil begins.nonempty
  have notBlank : ¬ (line ≠ [] ∧ line.all isSpace = true) := by
    rintro ⟨_, blank⟩
    have space := List.all_eq_true.mp blank c (by simp [same, letter])
    rw [begins.letters c (by simp [letter])] at space
    cases space
  have notEnd : ¬ atEndMarker [] line = true := by simp [atEndMarker]
  have notComment : ¬ startswith (strip line) "##".toList = true :=
    fun starts => plain.notComment ((begins.startswith_strip_iff (letters_of_all rfl)).mp starts)
  have longer : ∀ start : List Char, "##".toList <+: start → ¬ startswith (strip line) start = true :=
    fun start comment starts => notComment (List.isPrefixOf_iff_prefix.mpr
      (comment.trans (List.isPrefixOf_iff_prefix.mp starts)))
  have notBegin := longer "## BEGIN_INCLUDE".toList ⟨_, rfl⟩
  have notEndInclude := longer "## END_INCLUDE".toList ⟨_, rfl⟩
  have notInstruction : ¬ (strip line ≠ [] ∧ firstWord line ∈ processingInstructions) := by
    rw [begins.firstWord]
    exact fun instruction => plain.notInstruction instruction.2
  have notContents : match? (tableOfContents unicode) line = none :=
    match?_literal_of_begins begins nonempty rfl
  have notHeading : match? heading line = none := by
    apply match?_bind_of_none
    intro found rest' member
    obtain ⟨some, split, all⟩ := mem_many1.mp member
    cases found with
    | nil => exact some rfl
    | cons d found =>
      cases lead with
      | nil => exact nonempty rfl
      | cons e lead =>
        rw [same, List.cons_append, List.cons_append, List.cons_append, List.cons.injEq] at split
        have equals := of_decide_eq_true (all d List.mem_cons_self)
        have space := begins.space e List.mem_cons_self
        rw [split.1, equals] at space
        cases space
  have notRule : match? horizontalRule line = none := match?_literal_of_begins begins nonempty rfl
  rw [lineBlock, if_neg notBlank, if_neg notEnd, if_neg notBegin, if_neg notEndInclude,
    if_neg notComment, if_neg notInstruction, notContents, notHeading, notRule]

theorem indented_iff : (match? (many1 isSpace) line).isSome = true ↔ line.takeWhile isSpace ≠ [] := by
  rw [match?_isSome_iff]
  constructor
  · rintro ⟨found, rest, member⟩
    obtain ⟨some, rfl, space⟩ := mem_many1.mp member
    rw [List.takeWhile_append_of_pos space]
    exact fun empty => some (List.append_eq_nil_iff.mp empty).1
  · intro some
    exact ⟨_, line.dropWhile isSpace, mem_many1.mpr ⟨some, List.takeWhile_append_dropWhile.symm,
      fun c member => List.mem_takeWhile_imp member⟩⟩

theorem nextBlock_of_begins (begins : Begins lead word line) (nonempty : lead ≠ [])
    (plain : PlainWord word) (lines : List Line) :
    nextBlock unicode [] line lines =
      (.list ((listLines unicode lead.length (opensCode line) line lines).1.map (listDatum unicode)),
        (listLines unicode lead.length (opensCode line) line lines).2) := by
  have notRow : ¬ isRow line = true :=
    fun starts => plain.notRow ((begins.startswith_strip_iff (letters_of_all rfl)).mp starts)
  have indented : (match? (many1 isSpace) line).isSome = true := by
    rw [indented_iff, begins.takeWhile]
    exact nonempty
  rw [nextBlock, lineBlock_of_begins begins nonempty plain]
  dsimp only
  rw [if_neg notRow, if_pos indented, begins.takeWhile]

/-! ## What a block takes -/

def Block.isList : Block → Bool
  | .list _ => true
  | _ => false

def Block.admonitionLines : Block → Option (List Line)
  | .admonition _ lines => some lines
  | _ => none

theorem lineBlock_some {block : Block} (read : lineBlock unicode endMarker line = some block) :
    block.isList = false ∧ block.admonitionLines = none := by
  have other : ∀ {b : Block}, b.isList = false → b.admonitionLines = none → some b = some block →
      block.isList = false ∧ block.admonitionLines = none := by
    intro b notList notAdmonition same
    cases same
    exact ⟨notList, notAdmonition⟩
  rw [lineBlock] at read
  split at read
  · exact other rfl rfl read
  · split at read
    · exact other rfl rfl read
    · split at read
      · exact other rfl rfl read
      · split at read
        · exact other rfl rfl read
        · split at read
          · exact other rfl rfl read
          · split at read
            · exact other rfl rfl read
            · split at read
              · exact other rfl rfl read
              · split at read
                · exact other rfl rfl read
                · split at read
                  · exact other rfl rfl read
                  · cases read

theorem lineBlock_none (notRead : lineBlock unicode endMarker line = none) :
    ¬ (line ≠ [] ∧ line.all isSpace = true) ∧ ¬ startswith (strip line) "##".toList = true ∧
      ¬ (strip line ≠ [] ∧ firstWord line ∈ processingInstructions) := by
  rw [lineBlock] at notRead
  split at notRead
  · cases notRead
  rename_i notBlank
  iterate 3
    split at notRead
    · cases notRead
  split at notRead
  · cases notRead
  rename_i notComment
  split at notRead
  · cases notRead
  rename_i notInstruction
  exact ⟨notBlank, notComment, notInstruction⟩

theorem macroBlock_some {block : Block} (read : macroBlock unicode line = some block) :
    block.isList = false ∧ block.admonitionLines = none := by
  rw [macroBlock] at read
  split at read
  · cases read
    exact ⟨rfl, rfl⟩
  · split at read
    · cases read
      exact ⟨rfl, rfl⟩
    · split at read
      · cases read
        exact ⟨rfl, rfl⟩
      · cases read

theorem paragraphLines_suffix (line : Line) (lines : List Line) :
    (paragraphLines unicode endMarker line lines).2 <:+ lines := by
  induction lines generalizing line with
  | nil => exact List.suffix_rfl
  | cons next lines ih =>
    rw [paragraphLines]
    split
    · exact List.suffix_rfl
    · exact (ih next).trans (List.suffix_cons _ _)

theorem begins_of_list (notRead : lineBlock unicode endMarker line = none)
    (notRow : ¬ isRow line = true) (indented : (match? (many1 isSpace) line).isSome = true) :
    Begins (line.takeWhile isSpace) (firstWord line) line ∧ line.takeWhile isSpace ≠ [] ∧
      PlainWord (firstWord line) := by
  obtain ⟨notBlank, notComment, notInstruction⟩ := lineBlock_none notRead
  rw [indented_iff] at indented
  have nonempty : line ≠ [] := by
    rintro rfl
    exact indented rfl
  have begins := begins_of_not_blank fun blank => notBlank ⟨nonempty, blank⟩
  refine ⟨begins, indented, ?_, ?_, ?_⟩
  · exact fun starts => notComment ((begins.startswith_strip_iff (letters_of_all rfl)).mpr starts)
  · intro instruction
    refine notInstruction ⟨?_, instruction⟩
    intro empty
    have starts := (begins.startswith_strip_iff begins.letters).mpr List.prefix_rfl
    rw [startswith, empty, List.isPrefixOf_iff_prefix, List.prefix_nil] at starts
    exact begins.nonempty starts
  · exact fun starts => notRow ((begins.startswith_strip_iff (letters_of_all rfl)).mpr starts)

theorem nextBlock_cases {block : Block} (read : nextBlock unicode endMarker line lines = (block, rest)) :
    (block.isList = false ∧ block.admonitionLines = none ∧ rest <:+ lines) ∨
    (∃ style content, block = .admonition style content ∧ content <+: lines ∧ rest <:+ lines) ∨
    ∃ lead word, Begins lead word line ∧ lead ≠ [] ∧ PlainWord word ∧
      block = .list ((listLines unicode lead.length (opensCode line) line lines).1.map
        (listDatum unicode)) ∧
      rest = (listLines unicode lead.length (opensCode line) line lines).2 := by
  rw [nextBlock] at read
  split at read
  · rename_i found
    cases read
    obtain ⟨notList, notAdmonition⟩ := lineBlock_some found
    exact .inl ⟨notList, notAdmonition, List.suffix_rfl⟩
  rename_i notRead
  have notRead : lineBlock unicode endMarker line = none := by
    cases found : lineBlock unicode endMarker line with
    | none => rfl
    | some block => exact absurd found (notRead block)
  split at read
  · cases read
    exact .inl ⟨rfl, rfl, List.dropWhile_suffix _⟩
  rename_i notRow
  split at read
  · rename_i indented
    cases read
    obtain ⟨begins, nonempty, plain⟩ := begins_of_list notRead notRow indented
    exact .inr (.inr ⟨_, _, begins, nonempty, plain, rfl, rfl⟩)
  split at read
  · cases read
    exact .inl ⟨rfl, rfl, List.suffix_rfl⟩
  split at read
  · rw [codeBlock] at read
    split at read
    · cases read
      exact .inr (.inl ⟨_, _, rfl, List.takeWhile_prefix _,
        (List.tail_suffix _).trans (List.dropWhile_suffix _)⟩)
    · cases read
      exact .inl ⟨rfl, rfl, (List.tail_suffix _).trans (List.dropWhile_suffix _)⟩
  split at read
  · rename_i found
    cases read
    obtain ⟨notList, notAdmonition⟩ := macroBlock_some found
    exact .inl ⟨notList, notAdmonition, List.suffix_rfl⟩
  split at read
  · cases read
    exact .inl ⟨rfl, rfl, paragraphLines_suffix line lines⟩
  · cases read
    exact .inl ⟨rfl, rfl, List.suffix_rfl⟩

end Plinth.Wiki
