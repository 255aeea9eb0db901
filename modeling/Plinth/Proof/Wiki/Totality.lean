import Plinth.Proof.Wiki.Blocks
import Plinth.Proof.Wiki.Text

/-! # Pages that can be parsed -/

namespace Plinth.Wiki

open Python Exception Text Regex Effect Relation

variable {unicode : Unicode} {context : Option Context} {parse : List Char → Run (List Element)}

/-! ## Lists of data -/

def listed : List Datum → List Datum
  | [] => []
  | datum :: data => (datum :: data).takeWhile fun other => datum.indent ≤ other.indent

def deeper (level : Nat) (data : List Datum) : Bool :=
  (data.head?.map fun datum => decide (level < datum.indent)).getD false

def HasItem (level : Nat) (items : List Element) (data : List Datum) : Prop :=
  deeper level data = true → ∃ init content overrideMarker,
    items = init ++ [.listItem content overrideMarker]

theorem takeWhile_level {level level' : Nat} (le : level ≤ level') (data : List Datum) :
    data.takeWhile (fun datum => level ≤ datum.indent) =
      data.takeWhile (fun datum => level' ≤ datum.indent) ++
        (data.dropWhile fun datum => level' ≤ datum.indent).takeWhile fun datum =>
          level ≤ datum.indent := by
  induction data with
  | nil => rfl
  | cons datum data ih =>
    by_cases inside : level' ≤ datum.indent
    · have within : level ≤ datum.indent := Nat.le_trans le inside
      simp [inside, within, ih]
    · simp [inside]

theorem dropWhile_level {level level' : Nat} (le : level ≤ level') (data : List Datum) :
    (data.dropWhile fun datum => level' ≤ datum.indent).dropWhile (fun datum => level ≤ datum.indent) =
      data.dropWhile fun datum => level ≤ datum.indent := by
  induction data with
  | nil => rfl
  | cons datum data ih =>
    by_cases inside : level' ≤ datum.indent
    · have within : level ≤ datum.indent := Nat.le_trans le inside
      simp [inside, within, ih]
    · simp [inside]

theorem of_listItems {n : Nat} {listType : ListType} {level : Nat} {items result : List Element}
    {data rest : List Datum}
    (parsed : listItems parse n listType level items data = .ok (result, rest)) :
    rest = data.dropWhile (fun datum => level ≤ datum.indent) ∧
      ∀ datum ∈ data.takeWhile (fun datum => level ≤ datum.indent),
        ∃ elements, parse datum.text = .ok elements := by
  induction n generalizing listType level items result data rest with
  | zero => cases parsed
  | succ n ih =>
    cases data with
    | nil =>
      cases parsed
      exact ⟨rfl, fun datum member => by cases member⟩
    | cons datum data =>
      rw [listItems] at parsed
      split at parsed
      · rename_i below
        obtain ⟨⟨inner, rest'⟩, ofInner, parsed⟩ := ok_of_bind parsed
        obtain ⟨items', _, parsed⟩ := ok_of_bind parsed
        obtain ⟨rfl, innerParsed⟩ := ih ofInner
        obtain ⟨rfl, restParsed⟩ := ih parsed
        have le := Nat.le_of_lt below
        rw [dropWhile_level le, takeWhile_level le]
        refine ⟨rfl, ?_⟩
        intro other member
        rcases List.mem_append.mp member with member | member
        · exact innerParsed other member
        · exact restParsed other member
      · rename_i notBelow
        split at parsed
        · rename_i above
          cases parsed
          have outside : ¬ level ≤ datum.indent := Nat.not_le_of_lt above
          simp [outside]
        · rename_i notAbove
          have inside : level ≤ datum.indent := Nat.le_of_not_lt notAbove
          obtain ⟨elements, first, parsed⟩ := ok_of_bind parsed
          obtain ⟨rfl, restParsed⟩ := ih parsed
          simp only [inside, decide_true, List.dropWhile_cons_of_pos, true_and,
            List.takeWhile_cons_of_pos, List.forall_mem_cons]
          exact ⟨⟨elements, first⟩, restParsed⟩

theorem listItems_returns {n : Nat} (listType : ListType) (level : Nat) (items : List Element)
    (data : List Datum) (enough : 2 * data.length + (deeper level data).toNat ≤ n) (some : 0 < n)
    (hasItem : HasItem level items data)
    (parses : ∀ datum ∈ data.takeWhile (fun datum => level ≤ datum.indent),
      ∃ elements, parse datum.text = .ok elements) :
    ∃ result rest, listItems parse n listType level items data = .ok (result, rest) := by
  induction n generalizing listType level items data with
  | zero => cases some
  | succ n ih =>
    cases data with
    | nil => exact ⟨items, [], rfl⟩
    | cons datum data =>
      have bit : ∀ level data, (deeper level data).toNat ≤ 1 := fun _ _ => Bool.toNat_le _
      rw [listItems]
      rw [List.length_cons] at enough
      by_cases below : level < datum.indent
      · rw [if_pos below]
        have le := Nat.le_of_lt below
        have isDeeper : deeper level (datum :: data) = true := by simp [deeper, below]
        have notDeeper : deeper datum.indent (datum :: data) = false := by simp [deeper]
        rw [isDeeper, Bool.toNat_true] at enough
        rw [takeWhile_level le] at parses
        obtain ⟨inner, rest, ofInner⟩ := ih datum.listType datum.indent [] (datum :: data)
          (by rw [notDeeper, Bool.toNat_false, List.length_cons]; omega) (by omega)
          (by rw [HasItem, notDeeper]; intro deep; cases deep)
          (fun other member => parses other (List.mem_append_left _ member))
        obtain ⟨rfl, _⟩ := of_listItems ofInner
        obtain ⟨init, content, overrideMarker, rfl⟩ := hasItem isDeeper
        have added : addContent (init ++ [.listItem content overrideMarker])
            (.list datum.listType inner) = .ok (init ++
              [.listItem (content ++ [.list datum.listType inner]) overrideMarker]) := by
          simp [addContent]
        have shorter : ((datum :: data).dropWhile
            fun other => datum.indent ≤ other.indent).length ≤ data.length := by
          rw [List.dropWhile_cons_of_pos (by simp)]
          exact (List.dropWhile_suffix _).length_le
        have bound := bit level ((datum :: data).dropWhile fun other => datum.indent ≤ other.indent)
        obtain ⟨result, rest, ofRest⟩ := ih listType level
          (init ++ [.listItem (content ++ [.list datum.listType inner]) overrideMarker])
          ((datum :: data).dropWhile fun other => datum.indent ≤ other.indent)
          (by omega) (by omega) (fun _ => ⟨_, _, _, rfl⟩)
          (fun other member => parses other (List.mem_append_right _ member))
        refine ⟨result, rest, ?_⟩
        apply bind_of_ok ofInner
        dsimp only
        rw [added]
        exact bind_of_ok rfl ofRest
      · rw [if_neg below]
        by_cases above : datum.indent < level
        · rw [if_pos above]
          exact ⟨_, _, rfl⟩
        · rw [if_neg above]
          have inside : level ≤ datum.indent := Nat.le_of_not_lt above
          simp only [inside, decide_true, List.takeWhile_cons_of_pos,
            List.forall_mem_cons] at parses
          obtain ⟨⟨elements, first⟩, others⟩ := parses
          have bound := bit level data
          obtain ⟨result, rest, ofRest⟩ := ih listType level
            (items ++ [.listItem elements (decide (listType = .plain ∨ listType = .spaced))])
            data (by omega) (by omega) (fun _ => ⟨_, _, _, rfl⟩) others
          refine ⟨result, rest, ?_⟩
          apply bind_of_ok first
          exact ofRest

theorem parseList_returns_iff (data : List Datum) :
    (∃ result, parseList parse data = .ok result) ↔
      ∀ datum ∈ listed data, ∃ elements, parse datum.text = .ok elements := by
  cases data with
  | nil => exact ⟨fun _ datum member => (by cases member), fun _ => ⟨_, rfl⟩⟩
  | cons datum data =>
    rw [parseList, listed]
    apply (returns_bind_iff fun result _ => ⟨_, rfl⟩).trans
    constructor
    · rintro ⟨⟨items, rest⟩, parsed⟩
      exact (of_listItems parsed).2
    · intro parses
      have notDeeper : deeper datum.indent (datum :: data) = false := by simp [deeper]
      obtain ⟨result, rest, parsed⟩ := listItems_returns datum.listType datum.indent [] (datum :: data)
        (n := 2 * (datum :: data).length) (by rw [notDeeper]; exact Nat.le_refl _)
        (by rw [List.length_cons]; omega) (by rw [HasItem, notDeeper]; intro deep; cases deep) parses
      exact ⟨_, parsed⟩

/-! ## What a block is parsed from -/

namespace Block

def texts : Block → List (List Char)
  | .table rows _ => rows.flatten.flatMap Cell.paragraphs
  | .paragraph lines => lines
  | _ => []

def pages : Block → List (List Char)
  | .list data => (listed data).map Datum.text
  | .admonition _ lines => ["\n".toList.intercalate lines]
  | _ => []

def LevelRead : Block → Prop
  | .tableOfContents level => level.length ≤ 4300
  | _ => True

end Block

theorem parseCell_returns_iff (cell : Cell) :
    (∃ element, parseCell context cell = .ok element) ↔
      ∀ paragraph ∈ cell.paragraphs, Readable paragraph := by
  rw [parseCell, returns_map_iff, mapM_returns_iff]
  have one : ∀ paragraph, (∃ element, (do
      return .paragraph (← parseText true context paragraph) : Run Element) = .ok element) ↔
      Readable paragraph := by
    intro paragraph
    rw [returns_map_iff]
    exact parseText_returns_iff true context paragraph
  exact forall₂_congr fun paragraph _ => one paragraph

theorem parseBlock_returns_iff (block : Block) :
    (∃ elements, parseBlock unicode context parse block = .ok elements) ↔ block.LevelRead ∧
      (∀ text ∈ block.texts, Readable text) ∧
      ∀ page ∈ block.pages, ∃ elements, parse page = .ok elements := by
  have none : ∀ {P : List Char → Prop}, ∀ text ∈ ([] : List (List Char)), P text := by
    intro P text member
    cases member
  cases block with
  | skipped => exact ⟨fun _ => ⟨trivial, none, none⟩, fun _ => ⟨_, rfl⟩⟩
  | stopped => exact ⟨fun _ => ⟨trivial, none, none⟩, fun _ => ⟨_, rfl⟩⟩
  | element element => exact ⟨fun _ => ⟨trivial, none, none⟩, fun _ => ⟨_, rfl⟩⟩
  | tableOfContents level =>
    cases level with
    | nil => exact ⟨fun _ => ⟨Nat.zero_le _, none, none⟩, fun _ => ⟨_, rfl⟩⟩
    | cons c level =>
      rw [parseBlock, returns_map_iff, parseInt]
      · constructor
        · rintro ⟨value, read⟩
          split at read
          · cases read
          · rename_i short
            exact ⟨Nat.le_of_not_lt short, none, none⟩
        · rintro ⟨short, _⟩
          rw [if_neg (Nat.not_lt.mpr short)]
          exact ⟨_, rfl⟩
      · exact List.cons_ne_nil c level
  | table rows style =>
    rw [parseBlock, returns_map_iff, mapM_returns_iff]
    have row : ∀ cells, (∃ element, parseTableRow context cells = .ok element) ↔
        ∀ cell ∈ cells, ∀ paragraph ∈ cell.paragraphs, Readable paragraph := by
      intro cells
      rw [parseTableRow, returns_map_iff, mapM_returns_iff]
      exact forall₂_congr fun cell _ => parseCell_returns_iff cell
    simp only [row]
    constructor
    · intro all
      refine ⟨trivial, ?_, none⟩
      intro text member
      obtain ⟨cell, inRows, inCell⟩ := List.mem_flatMap.mp member
      obtain ⟨cells, inTable, inRow⟩ := List.mem_flatten.mp inRows
      exact all cells inTable cell inRow text inCell
    · rintro ⟨_, all, _⟩ cells inTable cell inRow text inCell
      exact all text (List.mem_flatMap.mpr ⟨cell, List.mem_flatten.mpr ⟨cells, inTable, inRow⟩, inCell⟩)
  | list data =>
    rw [parseBlock]
    apply (returns_bind_iff fun ⟨new, rest⟩ _ => ⟨_, rfl⟩).trans
    rw [parseList_returns_iff, Block.pages, List.forall_mem_map]
    exact ⟨fun all => ⟨trivial, none, all⟩, fun all => all.2.2⟩
  | admonition style lines =>
    rw [parseBlock, returns_map_iff, Block.pages, List.forall_mem_singleton]
    exact ⟨fun one => ⟨trivial, none, one⟩, fun all => all.2.2⟩
  | paragraph lines =>
    rw [parseBlock, returns_map_iff, mapM_returns_iff]
    have one := forall₂_congr fun text (_ : text ∈ lines) => parseText_returns_iff true context text
    rw [one]
    exact ⟨fun all => ⟨trivial, all, none⟩, fun all => all.2.1⟩

theorem parseWiki_returns_iff (depth : Nat) (beginMarker endMarker text : List Char) :
    (∃ elements, parseWiki unicode context (depth + 1) beginMarker endMarker text = .ok elements) ↔
      ∀ block ∈ readBlocks unicode beginMarker endMarker text, block.LevelRead ∧
        (∀ text ∈ block.texts, Readable text) ∧
        ∀ page ∈ block.pages, ∃ elements, parseWiki unicode context depth [] [] page = .ok elements := by
  rw [parseWiki, returns_map_iff, mapM_returns_iff]
  exact forall₂_congr fun block _ => parseBlock_returns_iff block

/-! ## Lists that an item opens again -/

variable {lead word text : List Char}

def OpensList (unicode : Unicode) (text : List Char) : Prop :=
  ∃ data blocks, readBlocks unicode [] [] text = .list data :: blocks

def Stuck (text : List Char) : Prop :=
  ∃ lead word, Begins lead word text ∧ PlainWord word ∧ '\n' ∉ lead ∧ ∃ c ∈ lead, c ≠ ' '

def FromItem (unicode : Unicode) (size : Nat) (datum : Datum) : Prop :=
  ∃ item lead word, datum = listDatum unicode item ∧ Begins lead word item ∧ lead ≠ [] ∧ '\n' ∉ lead ∧
    item.count '\n' ≤ size

theorem readBlocks_first (text : List Char) : ∃ line lines, text.splitOn '\n' = line :: lines ∧
    (text = line ∨ ∃ more, text = line ++ '\n' :: more) ∧
    readBlocks unicode [] [] text = match nextBlock unicode [] line lines with
      | (.stopped, _) => []
      | (block, rest) => block :: blocks unicode [] lines.length rest := by
  obtain ⟨line, lines, same, starts⟩ := splitOn_first '\n' text
  refine ⟨line, lines, same, starts, ?_⟩
  rw [readBlocks, same]
  rfl

theorem fromItem_of_listLines {line : Line} {lines : List Line} (begins : Begins lead word line)
    (nonempty : lead ≠ []) (noNewline : ∀ l ∈ line :: lines, '\n' ∉ l) (topIndent : Nat)
    (inCode : Bool) : ∀ datum ∈ (listLines unicode topIndent inCode line lines).1.map
      (listDatum unicode), FromItem unicode lines.length datum := by
  intro datum member
  obtain ⟨item, inItems, rfl⟩ := List.mem_map.mp member
  rw [List.forall_mem_cons] at noNewline
  have items := itemsOf_listLines unicode topIndent inCode line lines noNewline.2
  have count := items.count item inItems
  rw [List.count_eq_zero.mpr noNewline.1, Nat.zero_add] at count
  have leadIn : ∀ {lead word start : List Char}, Begins lead word start → '\n' ∉ start → '\n' ∉ lead := by
    intro lead word start begins absent inLead
    obtain ⟨rest, same, _⟩ := begins.text_eq
    exact absent (by simp [same, inLead])
  obtain ⟨start, more, rfl, apart, rfl | ⟨inLines, isItem⟩⟩ := items.starts item inItems
  · exact ⟨_, lead, word, rfl, begins.append apart, nonempty, leadIn begins noNewline.1, count⟩
  · obtain ⟨⟨indent, marker⟩, found⟩ := Option.isSome_iff_exists.mp isItem
    obtain ⟨nonempty, begins⟩ := begins_of_listItem found
    exact ⟨_, indent, marker, rfl, begins.append apart, nonempty,
      leadIn begins (noNewline.2 start inLines), count⟩

theorem mem_blocks_cons {endMarker : List Char} {n : Nat} {line : Line} {lines : List Line}
    {block : Block} (member : block ∈ blocks unicode endMarker (n + 1) (line :: lines)) :
    (∃ rest others, nextBlock unicode endMarker line lines = (block, rest) ∧
      blocks unicode endMarker (n + 1) (line :: lines) = block :: others) ∨
    ∃ head rest, nextBlock unicode endMarker line lines = (head, rest) ∧
      block ∈ blocks unicode endMarker n rest := by
  rw [blocks] at member ⊢
  split at member
  · cases member
  · rename_i head rest _ read
    rcases List.mem_cons.mp member with rfl | member
    · exact .inl ⟨rest, _, read, rfl⟩
    · exact .inr ⟨head, rest, read, member⟩

theorem rest_suffix {endMarker : List Char} {line : Line} {lines rest : List Line} {block : Block}
    (noNewline : ∀ l ∈ lines, '\n' ∉ l)
    (read : nextBlock unicode endMarker line lines = (block, rest)) : rest <:+ lines := by
  rcases nextBlock_cases read with ⟨_, _, suffix⟩ | ⟨_, _, _, _, suffix⟩ | ⟨_, _, _, _, _, _, rfl⟩
  · exact suffix
  · exact suffix
  · exact (itemsOf_listLines unicode _ _ line lines noNewline).rest

theorem fromItem_of_blocks {endMarker : List Char} {n : Nat} {lines : List Line}
    (noNewline : ∀ l ∈ lines, '\n' ∉ l) {data : List Datum}
    (member : .list data ∈ blocks unicode endMarker n lines) :
    ∀ datum ∈ data, ∃ size, FromItem unicode size datum := by
  induction n generalizing lines with
  | zero => cases member
  | succ n ih =>
    cases lines with
    | nil => cases member
    | cons line lines =>
      have later := fun l (inLines : l ∈ lines) => noNewline l (List.mem_cons_of_mem line inLines)
      rcases mem_blocks_cons member with ⟨rest, _, read, _⟩ | ⟨head, rest, read, member⟩
      · rcases nextBlock_cases read with ⟨notList, _⟩ | ⟨_, _, same, _⟩ |
          ⟨lead, word, begins, nonempty, _, same, _⟩
        · cases notList
        · cases same
        · cases same
          intro datum member
          exact ⟨_, fromItem_of_listLines begins nonempty noNewline _ _ datum member⟩
      · have suffix := rest_suffix later read
        exact ih (fun l inRest => later l (suffix.subset inRest)) member

theorem mem_of_mem_listed {data : List Datum} {datum : Datum} (member : datum ∈ listed data) :
    datum ∈ data := by
  cases data with
  | nil => exact member
  | cons first data =>
    rw [listed] at member
    exact (List.takeWhile_sublist _).subset member

variable (unicode) in
theorem datum_text_count {item : List Char} (begins : Begins lead word item) :
    (listDatum unicode item).text.count '\n' ≤ item.count '\n' := by
  have sublist := dedent_sublist (listDatum unicode item).indent false
    (splitlines (listDatum unicode item).content)
  rw [splitlines_flatten] at sublist
  apply Nat.le_trans (sublist.count_le '\n')
  obtain ⟨_, content | content⟩ := listDatum_of_begins begins
  · rw [content]
  · have spaces : (List.replicate lead.length ' ').count '\n' = 0 :=
      List.count_eq_zero.mpr fun member => by cases List.eq_of_mem_replicate member
    rw [content, List.count_append, spaces, Nat.zero_add]
    exact (List.dropWhile_sublist _).count_le '\n'

theorem pages_lines {endMarker : List Char} {n : Nat} {lines : List Line} {block : Block}
    (noNewline : ∀ l ∈ lines, '\n' ∉ l) (member : block ∈ blocks unicode endMarker n lines) :
    ∀ page ∈ block.pages, page = [] ∨ page.count '\n' + 1 < lines.length ∨
      page.count '\n' + 1 ≤ lines.length ∧ ∃ data others, block = .list data ∧
        blocks unicode endMarker n lines = .list data :: others := by
  induction n generalizing lines with
  | zero => cases member
  | succ n ih =>
    cases lines with
    | nil => cases member
    | cons line lines =>
      have later := fun l (inLines : l ∈ lines) => noNewline l (List.mem_cons_of_mem line inLines)
      intro page inBlock
      rcases mem_blocks_cons member with ⟨rest, others, read, first⟩ | ⟨head, rest, read, member⟩
      · rcases nextBlock_cases read with ⟨notList, notAdmonition, _⟩ | ⟨style, content, same, starts, _⟩ |
          ⟨lead, word, begins, nonempty, _, same, _⟩
        · cases block with
          | list data => cases notList
          | admonition style content => cases notAdmonition
          | _ => cases inBlock
        · rw [same] at inBlock
          rw [List.mem_singleton.mp inBlock]
          cases content with
          | nil => exact .inl rfl
          | cons l content =>
            have absent : ∀ piece ∈ l :: content, '\n' ∉ piece :=
              fun piece inContent => later piece (starts.subset inContent)
            have count := count_intercalate absent
            have bound := starts.length_le
            rw [List.length_cons] at count bound
            refine .inr (.inl ?_)
            rw [List.length_cons]
            change List.count '\n' (['\n'].intercalate (l :: content)) + 1 < _
            rw [count]
            omega
        · rw [same] at inBlock
          obtain ⟨datum, inList, rfl⟩ := List.mem_map.mp inBlock
          obtain ⟨item, _, _, rfl, begins', _, _, count⟩ :=
            fromItem_of_listLines begins nonempty noNewline _ _ datum (mem_of_mem_listed inList)
          have bound := datum_text_count unicode begins'
          rw [List.length_cons]
          exact .inr (.inr ⟨by omega, _, others, same, by rw [first, same]⟩)
      · have suffix := rest_suffix later read
        have bound := suffix.length_le
        rw [List.length_cons]
        rcases ih (fun l inRest => later l (suffix.subset inRest)) member page inBlock with
          empty | fewer | ⟨fewer, _⟩
        · exact .inl empty
        · exact .inr (.inl (by omega))
        · exact .inr (.inl (by omega))

/-! ## Endless lists -/

theorem begins_of_line {line : Line} (begins : Begins lead word line)
    (starts : text = line ∨ ∃ more, text = line ++ '\n' :: more) : Begins lead word text := by
  rcases starts with rfl | ⟨more, rfl⟩
  · exact begins
  · exact begins.append (apart_cons rfl more)

theorem begins_line {line : Line} (begins : Begins lead word text) (noNewline : '\n' ∉ lead)
    (starts : text = line ∨ ∃ more, text = line ++ '\n' :: more) : Begins lead word line := by
  rcases starts with rfl | ⟨more, rfl⟩
  · exact begins
  · exact begins.of_append noNewline

theorem stuck_of_opensList {size : Nat} {datum : Datum} (fromItem : FromItem unicode size datum)
    (opens : OpensList unicode datum.text) : Stuck datum.text := by
  obtain ⟨item, lead, word, rfl, begins, nonempty, noNewline, _⟩ := fromItem
  obtain ⟨data, others, opens⟩ := opens
  obtain ⟨line, lines, same, starts, read⟩ :=
    readBlocks_first (listDatum unicode item).text
  rw [opens] at read
  split at read
  · cases read
  · rename_i head rest _ found
    cases read
    rcases nextBlock_cases found with ⟨notList, _⟩ | ⟨_, _, isAdmonition, _⟩ |
      ⟨lead', word', begins', nonempty', plain, _⟩
    · cases notList
    · cases isAdmonition
    · have inText := begins_of_line begins' starts
      refine ⟨lead', word', inText, plain, ?_, listDatum_text_lead begins noNewline nonempty inText nonempty'⟩
      intro inLead
      have absent : '\n' ∉ line := not_mem_of_mem_splitOn (s := (listDatum unicode item).text)
        (by rw [same]; exact List.mem_cons_self)
      obtain ⟨rest', same', _⟩ := begins'.text_eq
      exact absent (by simp [same', inLead])

theorem stuck_step (stuck : Stuck text) : ∃ datum data others,
    readBlocks unicode [] [] text = .list (datum :: data) :: others ∧ Stuck datum.text := by
  obtain ⟨lead, word, begins, plain, noNewline, other⟩ := stuck
  have nonempty : lead ≠ [] := by
    rintro rfl
    obtain ⟨c, member, _⟩ := other
    cases member
  obtain ⟨line, lines, same, starts, read⟩ := readBlocks_first text
  have inLine := begins_line begins noNewline starts
  have absent : ∀ l ∈ lines, '\n' ∉ l := fun l member =>
    not_mem_of_mem_splitOn (s := text) (by rw [same]; exact List.mem_cons_of_mem line member)
  obtain ⟨more, items, first, apart⟩ :=
    (itemsOf_listLines unicode lead.length (opensCode line) line lines absent).first
  rw [nextBlock_of_begins inLine nonempty plain, first, List.map_cons] at read
  refine ⟨_, _, _, read, ?_⟩
  obtain ⟨lead', begins', noNewline', other'⟩ :=
    listDatum_text_begins (inLine.append apart) noNewline other
  exact ⟨lead', word, begins', plain, noNewline', other'⟩

theorem not_returns_of_stuck (depth : Nat) (stuck : Stuck text) :
    ¬ ∃ elements, parseWiki unicode context depth [] [] text = .ok elements := by
  induction depth generalizing text with
  | zero =>
    rintro ⟨elements, h⟩
    cases h
  | succ depth ih =>
    rw [parseWiki_returns_iff]
    intro all
    obtain ⟨datum, data, others, read, stuck'⟩ := stuck_step stuck
    have first := all (.list (datum :: data)) (by rw [read]; exact List.mem_cons_self)
    have inList : datum ∈ listed (datum :: data) := by simp [listed]
    exact ih stuck' (first.2.2 _ (List.mem_map.mpr ⟨datum, inList, rfl⟩))

/-! ## Calls -/

/-- A call of `parse_text`, or of `parse_wiki` with the blocks that are read. -/
inductive Call
  | text (line : List Char)
  | page (blocks : List Block)

def Call.next (unicode : Unicode) : Call → List Call
  | .text line => (nextLines line).map .text
  | .page blocks => blocks.flatMap fun block =>
    block.texts.map .text ++ block.pages.map fun page => .page (readBlocks unicode [] [] page)

def Call.Fine (unicode : Unicode) : Call → Prop
  | .text line => IconAlone line
  | .page blocks => ∀ block ∈ blocks, block.LevelRead ∧
      ∀ data, block = .list data → ∀ datum ∈ listed data, ¬ OpensList unicode datum.text

def Parsable (unicode : Unicode) (call : Call) : Prop :=
  ∀ reached, ReflTransGen (fun call next => next ∈ Call.next unicode call) call reached →
    reached.Fine unicode

theorem parsable_iff (call : Call) :
    Parsable unicode call ↔ call.Fine unicode ∧ ∀ next ∈ call.next unicode, Parsable unicode next := by
  constructor
  · intro parsable
    exact ⟨parsable call .refl, fun next member reached later => parsable reached (.head member later)⟩
  · rintro ⟨fine, later⟩ reached reaches
    rcases ReflTransGen.cases_head reaches with rfl | ⟨next, member, reaches⟩
    · exact fine
    · exact later next member reached reaches

theorem parsable_text_iff (line : List Char) : Parsable unicode (.text line) ↔ Readable line := by
  constructor
  · intro parsable reached reaches
    have lifted : ReflTransGen (fun call next => next ∈ Call.next unicode call) (.text line)
        (.text reached) := by
      induction reaches with
      | refl => exact .refl
      | tail _ member ih => exact ih.tail (List.mem_map.mpr ⟨_, member, rfl⟩)
    exact parsable _ lifted
  · intro readable reached reaches
    have isText : ∃ line', reached = .text line' ∧
        ReflTransGen (fun line next => next ∈ nextLines line) line line' := by
      induction reaches with
      | refl => exact ⟨line, rfl, .refl⟩
      | tail _ isNext ih =>
        obtain ⟨line', rfl, before⟩ := ih
        obtain ⟨next, member, rfl⟩ := List.mem_map.mp isNext
        exact ⟨next, rfl, before.tail member⟩
    obtain ⟨line', rfl, before⟩ := isText
    exact readable line' before

theorem parsable_page_iff (blocks : List Block) :
    Parsable unicode (.page blocks) ↔ ∀ block ∈ blocks, block.LevelRead ∧
      (∀ text ∈ block.texts, Readable text) ∧
      (∀ page ∈ block.pages, Parsable unicode (.page (readBlocks unicode [] [] page))) ∧
      ∀ data, block = .list data → ∀ datum ∈ listed data, ¬ OpensList unicode datum.text := by
  rw [parsable_iff]
  constructor
  · rintro ⟨fine, later⟩ block member
    obtain ⟨level, notAgain⟩ := fine block member
    refine ⟨level, ?_, ?_, notAgain⟩
    · intro text inBlock
      rw [← parsable_text_iff]
      exact later _ (List.mem_flatMap.mpr ⟨block, member, List.mem_append_left _
        (List.mem_map.mpr ⟨text, inBlock, rfl⟩)⟩)
    · intro page inBlock
      exact later _ (List.mem_flatMap.mpr ⟨block, member, List.mem_append_right _
        (List.mem_map.mpr ⟨page, inBlock, rfl⟩)⟩)
  · intro all
    refine ⟨fun block member => ⟨(all block member).1, (all block member).2.2.2⟩, ?_⟩
    intro next isNext
    obtain ⟨block, member, isNext⟩ := List.mem_flatMap.mp isNext
    obtain ⟨_, texts, pages, _⟩ := all block member
    rcases List.mem_append.mp isNext with isText | isPage
    · obtain ⟨text, inBlock, rfl⟩ := List.mem_map.mp isText
      exact (parsable_text_iff text).mpr (texts text inBlock)
    · obtain ⟨page, inBlock, rfl⟩ := List.mem_map.mp isPage
      exact pages page inBlock

/-! ## The calls return -/

theorem noNewline_skipToMarker (beginMarker text : List Char) :
    ∀ line ∈ skipToMarker beginMarker (text.splitOn '\n'), '\n' ∉ line := by
  intro line member
  apply not_mem_of_mem_splitOn (s := text)
  rw [skipToMarker] at member
  split at member
  · exact member
  · exact (List.dropWhile_sublist _).subset (List.mem_of_mem_tail member)

theorem parsable_of_returns {depth : Nat} {beginMarker endMarker : List Char}
    (returns : ∃ elements, parseWiki unicode context depth beginMarker endMarker text = .ok elements) :
    Parsable unicode (.page (readBlocks unicode beginMarker endMarker text)) := by
  induction depth generalizing beginMarker endMarker text with
  | zero =>
    obtain ⟨elements, h⟩ := returns
    cases h
  | succ depth ih =>
    rw [parseWiki_returns_iff] at returns
    rw [parsable_page_iff]
    intro block member
    obtain ⟨level, texts, pages⟩ := returns block member
    refine ⟨level, texts, fun page inBlock => ih (pages page inBlock), ?_⟩
    rintro data rfl datum inList opens
    obtain ⟨size, fromItem⟩ := fromItem_of_blocks (noNewline_skipToMarker beginMarker text) member
      datum (mem_of_mem_listed inList)
    exact not_returns_of_stuck depth (stuck_of_opensList fromItem opens)
      (pages _ (List.mem_map.mpr ⟨datum, inList, rfl⟩))

open Classical in
/-- How deep the calls of `parse_wiki` go for a text. -/
noncomputable def rank (unicode : Unicode) (text : List Char) : Nat :=
  if text = [] then 0
  else 2 * (text.count '\n' + 1) + if OpensList unicode text then 1 else 0

variable (unicode) in
theorem rank_le (text : List Char) : rank unicode text ≤ 2 * (text.count '\n' + 1) + 1 := by
  rw [rank]
  split
  · exact Nat.zero_le _
  · split
    · omega
    · omega

theorem rank_of_not_opensList (notOpens : ¬ OpensList unicode text) :
    rank unicode text ≤ 2 * (text.count '\n' + 1) := by
  rw [rank, if_neg notOpens]
  split
  · exact Nat.zero_le _
  · exact Nat.le_refl _

theorem rank_page {endMarker : List Char} {n : Nat} {lines : List Line} {block : Block}
    (noNewline : ∀ l ∈ lines, '\n' ∉ l) (member : block ∈ blocks unicode endMarker n lines)
    (notAgain : ∀ data, block = .list data → ∀ datum ∈ listed data, ¬ OpensList unicode datum.text) :
    ∀ page ∈ block.pages, rank unicode page < 2 * lines.length ∨
      rank unicode page ≤ 2 * lines.length ∧ ∃ data others,
        blocks unicode endMarker n lines = .list data :: others := by
  intro page inBlock
  rcases pages_lines noNewline member page inBlock with rfl | fewer | ⟨fewer, data, others, rfl, first⟩
  · refine .inl ?_
    have nonempty : lines ≠ [] := by
      rintro rfl
      cases n <;> cases member
    rw [rank, if_pos rfl]
    exact Nat.mul_pos (by decide) (List.length_pos_of_ne_nil nonempty)
  · have bound := rank_le unicode page
    exact .inl (by omega)
  · obtain ⟨datum, inList, rfl⟩ := List.mem_map.mp inBlock
    have bound := rank_of_not_opensList (notAgain data rfl datum inList)
    exact .inr ⟨by omega, data, others, first⟩

theorem readBlocks_eq (unicode : Unicode) (text : List Char) : readBlocks unicode [] [] text =
    blocks unicode [] (text.splitOn '\n').length (text.splitOn '\n') := by
  rw [readBlocks, skipToMarker, if_pos (.inl rfl)]

theorem rank_inner {block : Block} (member : block ∈ readBlocks unicode [] [] text)
    (notAgain : ∀ data, block = .list data → ∀ datum ∈ listed data, ¬ OpensList unicode datum.text) :
    ∀ page ∈ block.pages, rank unicode page < rank unicode text := by
  intro page inBlock
  by_cases empty : text = []
  · have skipped : readBlocks unicode [] [] [] = [.skipped] := rfl
    rw [empty, skipped] at member
    rw [List.mem_singleton.mp member] at inBlock
    cases inBlock
  · have opens := readBlocks_eq unicode text
    rw [opens] at member
    have noNewline : ∀ l ∈ text.splitOn '\n', '\n' ∉ l := fun l inText => not_mem_of_mem_splitOn inText
    have size := rank_page noNewline member notAgain page inBlock
    rw [← opens, length_splitOn] at size
    rw [rank.eq_def unicode text, if_neg empty]
    rcases size with fewer | ⟨fewer, first⟩
    · omega
    · have opensHere : OpensList unicode text := first
      rw [if_pos opensHere]
      omega

theorem returns_of_rank {depth : Nat} (deep : rank unicode text < depth)
    (parsable : Parsable unicode (.page (readBlocks unicode [] [] text))) :
    ∃ elements, parseWiki unicode context depth [] [] text = .ok elements := by
  induction depth generalizing text with
  | zero => cases deep
  | succ depth ih =>
    rw [parsable_page_iff] at parsable
    rw [parseWiki_returns_iff]
    intro block member
    obtain ⟨level, texts, pages, notAgain⟩ := parsable block member
    refine ⟨level, texts, fun page inBlock => ih ?_ (pages page inBlock)⟩
    exact Nat.lt_of_lt_of_le (rank_inner member notAgain page inBlock) (Nat.le_of_lt_succ deep)

theorem parseWiki_returns (beginMarker endMarker text : List Char)
    (parsable : Parsable unicode (.page (readBlocks unicode beginMarker endMarker text))) :
    ∃ depth elements, parseWiki unicode context depth beginMarker endMarker text = .ok elements := by
  have noNewline := noNewline_skipToMarker beginMarker text
  rw [readBlocks, parsable_page_iff] at parsable
  refine ⟨2 * (skipToMarker beginMarker (text.splitOn '\n')).length + 2, ?_⟩
  rw [parseWiki_returns_iff]
  intro block member
  obtain ⟨level, texts, pages, notAgain⟩ := parsable block member
  refine ⟨level, texts, fun page inBlock => returns_of_rank ?_ (pages page inBlock)⟩
  rcases rank_page noNewline member notAgain page inBlock with fewer | ⟨fewer, _⟩
  · omega
  · omega

theorem exists_depth_iff (beginMarker endMarker text : List Char) :
    (∃ depth elements, parseWiki unicode context depth beginMarker endMarker text = .ok elements) ↔
      Parsable unicode (.page (readBlocks unicode beginMarker endMarker text)) := by
  constructor
  · rintro ⟨depth, returns⟩
    exact parsable_of_returns returns
  · exact parseWiki_returns beginMarker endMarker text

theorem exists_rank (unicode : Unicode) (texts : List (List Char)) :
    ∃ depth, ∀ text ∈ texts, rank unicode text < depth := by
  induction texts with
  | nil => exact ⟨0, fun text member => by cases member⟩
  | cons first texts ih =>
    obtain ⟨depth, deep⟩ := ih
    refine ⟨depth + rank unicode first + 1, ?_⟩
    rw [List.forall_mem_cons]
    refine ⟨by omega, fun text member => ?_⟩
    have bound := deep text member
    omega

theorem exists_depth_parseList_iff (data : List Datum) :
    (∃ depth result, parseList (parseWiki unicode context depth [] []) data = .ok result) ↔
      ∀ datum ∈ listed data, Parsable unicode (.page (readBlocks unicode [] [] datum.text)) := by
  constructor
  · rintro ⟨depth, returns⟩ datum member
    exact parsable_of_returns ((parseList_returns_iff data).mp returns datum member)
  · intro parsable
    obtain ⟨depth, deep⟩ := exists_rank unicode ((listed data).map Datum.text)
    refine ⟨depth, (parseList_returns_iff data).mpr fun datum member => ?_⟩
    exact returns_of_rank (deep _ (List.mem_map.mpr ⟨datum, member, rfl⟩)) (parsable datum member)

/-- The parsers return exactly if in all calls that are made a line that begins with an icon is the
icon alone, the level of a table of contents is short enough, and the text of an item does not open
a list again. -/
theorem parse_returns_iff (unicode : Unicode) (context : Option Context) (parseLinks : Bool)
    (line : List Char) (data : List Datum) (beginMarker endMarker text : List Char) :
    ((∃ elements, parseText parseLinks context line = .ok elements) ↔
      Parsable unicode (.text line)) ∧
    ((∃ depth result, parseList (parseWiki unicode context depth [] []) data = .ok result) ↔
      ∀ datum ∈ listed data, Parsable unicode (.page (readBlocks unicode [] [] datum.text))) ∧
    ((∃ depth elements, parseWiki unicode context depth beginMarker endMarker text = .ok elements) ↔
      Parsable unicode (.page (readBlocks unicode beginMarker endMarker text))) := by
  refine ⟨?_, exists_depth_parseList_iff data, exists_depth_iff beginMarker endMarker text⟩
  rw [parsable_text_iff]
  exact parseText_returns_iff parseLinks context line

/-! ## Pages that are not parsed -/

def asciiCharacters : Unicode where
  isWord c := c.isAlphanum ∨ c = '_'
  digit c := if c.toNat < 48 then none else if 57 < c.toNat then none else some (c.toNat - 48)
  digit_not_space c isDigit := by
    simp only [isSpace, decide_eq_false_iff_not]
    split at isDigit
    · cases isDigit
    · split at isDigit
      · cases isDigit
      · omega

theorem parse_wiki_not_total :
    (∀ depth, ¬ ∃ elements, parseWiki asciiCharacters none depth [] [] "/!\\ x".toList = .ok elements) ∧
    ∀ depth, ¬ ∃ elements, parseWiki asciiCharacters none depth [] [] "\tx".toList = .ok elements := by
  constructor
  · intro depth returns
    have parsable := parsable_of_returns returns
    have read : readBlocks asciiCharacters [] [] "/!\\ x".toList = [.paragraph ["/!\\ x ".toList]] := rfl
    rw [read, parsable_page_iff] at parsable
    have readable := (parsable _ List.mem_cons_self).2.1 "/!\\ x ".toList List.mem_cons_self
    obtain ⟨icon, member, same⟩ := readable _ .refl ⟨_, List.mem_cons_self, rfl⟩
    have other : wikiIcons.all (fun icon => strip "/!\\ x ".toList ≠ icon.1) = true := rfl
    exact of_decide_eq_true (List.all_eq_true.mp other icon member) same
  · intro depth
    apply not_returns_of_stuck
    have space : ∀ c ∈ "\t".toList, isSpace c = true := List.all_eq_true.mp rfl
    have begins : Begins "\t".toList "x".toList "\tx".toList :=
      ⟨space, List.cons_ne_nil _ _, letters_of_all rfl, [], rfl, nofun⟩
    exact ⟨_, _, begins, ⟨by decide, by decide, by decide⟩, by decide, '\t', List.mem_cons_self, by decide⟩

end Plinth.Wiki
