import Plinth.Model.Wiki.Text

/-!
# The blocks of a page

`doc/scripts/wikiparser.py`, `parse_wiki` and what it calls. Which lines a block takes does not
depend on how they are parsed; the blocks are read first, each with the texts that are parsed for it.
-/

namespace Plinth.Wiki

open Python Exception Text Regex

structure Unicode where
  /-- `\w` -/
  isWord : Char → Bool
  /-- the value of a decimal digit, `\d` -/
  digit : Char → Option Nat
  digit_not_space : ∀ c, (digit c).isSome = true → isSpace c = false

abbrev Line := List Char

/-! ## Tables -/

structure Cell where
  paragraphs : List (List Char)
  align : List Char
  deriving DecidableEq, Repr

/-- `[^>]+>` after the opening -/
def tag (opening : List Char) : Pattern (List Char) := do
  let _ ← literal opening
  let content ← many1 fun c => c ≠ '>'
  let _ ← literal ">".toList
  return content

/-- `re.sub(opening + '[^>]+>', '', content)` -/
def removeTags (opening content : List Char) : List Char :=
  sub (fun _ => do
    let _ ← tag opening
    return []) content

def br : List Char := "<<BR>>".toList

def tableCell (cell : List Char) : Cell :=
  if strip cell = [] then ⟨[], []⟩
  else
    let content := removeTags "<tablestyle=".toList cell
    match match? (tag "<style=".toList) content with
    | none => ⟨split br content, []⟩
    | some style =>
      ⟨split br (removeTags "<style=".toList content),
        if contains "text-align: center".toList style then "center".toList else []⟩

/-- `re.split(r'\|\|', line)[1:-1]` -/
def tableCells (line : Line) : List Cell :=
  ((split "||".toList line).tail.dropLast).map tableCell

/-- `.*<tablestyle=(.*)>.*` -/
def tableStyle : Pattern (List Char) := do
  let _ ← many notNewline
  let _ ← literal "<tablestyle=".toList
  let style ← many notNewline
  let _ ← literal ">".toList
  return style

/-! ## Lists -/

structure Datum where
  listType : ListType
  indent : Nat
  content : List Char
  deriving DecidableEq, Repr

section Lists

variable (unicode : Unicode)

/-- `\*|\.|\d\.|I\.|A\.` -/
def marker : Pattern (List Char) :=
  choice [literal "*".toList, literal ".".toList,
    (do
      let d ← char fun c => (unicode.digit c).isSome
      let _ ← literal ".".toList
      return [d, '.']),
    literal "I.".toList, literal "A.".toList]

/-- `(\s+)(\*|\.|\d\.|I\.|A\.)\s+(.*)` -/
def listItem : Pattern (List Char × List Char) := do
  let indent ← many1 isSpace
  let marker ← marker unicode
  let _ ← many1 isSpace
  let _ ← many notNewline
  return (indent, marker)

def isListItem (line : Line) : Bool :=
  (match? (listItem unicode) line).isSome

def opensCode (line : Line) : Bool :=
  startswith (strip line) "\x7b\x7b\x7b".toList ∧ ¬ contains "\x7d\x7d\x7d".toList line

/-- The items of a list, from the text of the one that is read, and the lines after the list.
`inCode` is said of lines that may not have the expected indentation. -/
def listLines (topIndent : Nat) (inCode : Bool) (item : List Char) :
    List Line → List (List Char) × List Line
  | [] => ([item], [])
  | candidate :: lines =>
    if inCode then
      if strip candidate = "\x7d\x7d\x7d".toList then
        listLines topIndent false (item ++ "\n\x7d\x7d\x7d".toList) lines
      else listLines topIndent true (item ++ '\n' :: candidate) lines
    else if candidate.all isSpace then
      -- Eat up empty lines
      listLines topIndent false (item ++ ['\n']) lines
    else if ¬ startswith candidate (List.replicate topIndent ' ') then
      -- Not part of list
      ([item], candidate :: lines)
    else if isListItem unicode candidate then
      -- New item in list
      let (items, rest) := listLines topIndent false candidate lines
      (item :: items, rest)
    -- More content in same list item
    else if opensCode candidate then
      listLines topIndent true (item ++ '\n' :: candidate) lines
    else if startswith (strip candidate) "\x7b\x7b".toList ∧ item.getLast? ≠ some '\n' then
      -- Add line break before inline image
      listLines topIndent false (item ++ " <<BR>>\n".toList ++ candidate) lines
    else listLines topIndent false (item ++ '\n' :: candidate) lines

def markerType (marker : List Char) : ListType :=
  if marker = ".".toList then .plain
  else if contains "*".toList marker then .bulleted
  else .numbered

/-- What `parse_list` gets for an item; every item begins with white space. -/
def listDatum (line : List Char) : Datum :=
  match match? (listItem unicode) line with
  | some (indent, marker) =>
    ⟨markerType marker, indent.length,
      List.replicate indent.length ' ' ++ lstripChars (marker ++ " ".toList) line⟩
  | none => ⟨.spaced, (line.takeWhile isSpace).length, line⟩

end Lists

def dedent (level : Nat) : Bool → List Line → List Char
  | _, [] => []
  | inCodeBlock, line :: lines =>
    let line :=
      if startswith line (List.replicate level ' ') ∧ ¬ inCodeBlock then line.drop level else line
    let inCodeBlock :=
      if startswith (strip line) "\x7b\x7b\x7b".toList then true
      else if startswith (strip line) "\x7d\x7d\x7d".toList then false
      else inCodeBlock
    line ++ dedent level inCodeBlock lines

/-- `new_content`: the text that is parsed for an item. -/
def Datum.text (datum : Datum) : List Char :=
  dedent datum.indent false (splitlines datum.content)

/-- `add_content` on the last item -/
def addContent (items : List Element) (new : Element) : Except Exception (List Element) :=
  match items.getLast? with
  | some (.listItem content overrideMarker) =>
    .ok (items.dropLast ++ [.listItem (content ++ [new]) overrideMarker])
  | _ => .error (IndexError "list index out of range")

/-- The loop of `parse_list`, over a list of this type at this level, and the data that is left;
`parse` is `parse_wiki`. -/
def listItems (parse : List Char → Run (List Element)) :
    Nat → ListType → Nat → List Element → List Datum → Run (List Element × List Datum)
  | 0, _, _, _, _ => throw .unfinished
  | _ + 1, _, _, items, [] => return (items, [])
  | n + 1, listType, level, items, datum :: data =>
    if level < datum.indent then do
      let (inner, data) ← listItems parse n datum.listType datum.indent [] (datum :: data)
      let items ← raise (addContent items (.list datum.listType inner))
      listItems parse n listType level items data
    else if datum.indent < level then return (items, datum :: data)
    else do
      let content ← parse datum.text
      let overrideMarker := listType = .plain ∨ listType = .spaced
      listItems parse n listType level (items ++ [.listItem content overrideMarker]) data

def parseList (parse : List Char → Run (List Element)) :
    List Datum → Run (Option Element × List Datum)
  | [] => return (none, [])
  | datum :: data => do
      let (items, data) ←
        listItems parse (2 * (datum :: data).length) datum.listType datum.indent [] (datum :: data)
      return (some (.list datum.listType items), data)

/-! ## Blocks -/

inductive Block
  | skipped
  | stopped
  | element (element : Element)
  | tableOfContents (level : List Char)
  | table (rows : List (List Cell)) (style : List Char)
  | list (data : List Datum)
  | admonition (style : List Char) (lines : List Line)
  | paragraph (lines : List Line)

section Blocks

variable (unicode : Unicode) (endMarker : List Char)

/-- `{{{#!wiki\s(.*)` -/
def admonition : Pattern (List Char) := do
  let _ ← literal "\x7b\x7b\x7b#!wiki".toList
  let _ ← char isSpace
  many notNewline

def codeLines (ends : Line → Bool) (lines : List Line) : List Line × List Line :=
  let rest := lines.dropWhile fun line => !ends line
  (lines.takeWhile fun line => !ends line, rest.tail)

def spaceLine (line : Line) : List Char :=
  if contains br line then rstripChars br line else line ++ " ".toList

/-- `end_marker` is at the start of the line. -/
def atEndMarker (line : Line) : Bool :=
  endMarker ≠ [] ∧ startswith (strip line) endMarker

def paragraphBreakers : List (List Char) :=
  ["\x7b\x7b\x7b".toList, "##".toList, "----".toList, "||".toList]

/-- The lines of a paragraph after `line`, and the lines after it. -/
def paragraphLines (line : Line) : List Line → List Line × List Line
  | [] => ([], [])
  | next :: lines =>
    if contains br line ∨ strip next = [] ∨ atEndMarker endMarker next ∨
        paragraphBreakers.any (startswith (strip next)) ∨ isListItem unicode next then
      ([], next :: lines)
    else
      let (more, rest) := paragraphLines next lines
      (next :: more, rest)

/-- `<<TableOfContents(?:\((\d*)\))?>>` -/
def tableOfContents : Pattern (List Char) := do
  let _ ← literal "<<TableOfContents".toList
  let level ← choice [(do
    let _ ← literal "(".toList
    let level ← many fun c => (unicode.digit c).isSome
    let _ ← literal ")".toList
    return level), pure []]
  let _ ← literal ">>".toList
  return level

/-- `(=+) (.+) (=+)` -/
def heading : Pattern (List Char × List Char) := do
  let level ← many1 fun c => c = '='
  let _ ← literal " ".toList
  let content ← many1 notNewline
  let _ ← literal " ".toList
  let _ ← many1 fun c => c = '='
  return (level, content)

/-- `---(-+)` -/
def horizontalRule : Pattern (List Char) := do
  let _ ← literal "---".toList
  many1 fun c => c = '-'

/-- `\/\* (.+) \*\/` -/
def comment : Pattern (List Char) := do
  let _ ← literal "/* ".toList
  let content ← many1 notNewline
  let _ ← literal " */".toList
  return content

/-- `Category(\w+)` -/
def category : Pattern (List Char) := do
  let _ ← literal "Category".toList
  many1 unicode.isWord

/-- `<<Name\((.+)\)>>` -/
def macroCall (name : List Char) : Pattern (List Char) := do
  let _ ← literal ("<<".toList ++ name ++ "(".toList)
  let content ← many1 notNewline
  let _ ← literal ")>>".toList
  return content

def includeMarker (start chars : List Char) (contents : List (List Char)) : List Char :=
  match (contents.filter (startswith · start)).getLast? with
  | some content => rstripChars "\"".toList (lstripChars chars content)
  | none => []

def includePage (contents : List (List Char)) : Element :=
  .includePage (contents.headD []) (includeMarker " from=".toList " from=\"".toList contents.tail)
    (includeMarker " to=".toList " to=\"".toList contents.tail)

def processingInstructions : List (List Char) :=
  ["#format".toList, "#redirect".toList, "#refresh".toList, "#pragma".toList,
    "#deprecated".toList, "#language".toList]

/-- The block of a line that is not of a table, a list or what comes after these. -/
def lineBlock (line : Line) : Option Block :=
  if line ≠ [] ∧ line.all isSpace then some .skipped
  else if atEndMarker endMarker line then some .stopped
  else if startswith (strip line) "## BEGIN_INCLUDE".toList then some (.element .beginInclude)
  else if startswith (strip line) "## END_INCLUDE".toList then some (.element .endInclude)
  else if startswith (strip line) "##".toList then some .skipped
  else if strip line ≠ [] ∧ firstWord line ∈ processingInstructions then some .skipped
  else if let some level := match? (tableOfContents unicode) line then some (.tableOfContents level)
  else if let some (level, content) := match? heading line then
    some (.element (.Heading level.length content))
  else if let some dashes := match? horizontalRule line then
    some (.element (.horizontalRule (dashes.length + 3)))
  else none

def macroBlock (line : Line) : Option Block :=
  if let some name := match? (category unicode) line then some (.element (.category name))
  else if let some name := match? (macroCall "Anchor".toList) line then
    some (.element (.paragraph [.anchor name]))
  else if let some contents := match? (macroCall "Include".toList) line then
    some (.element (includePage (split ",".toList contents)))
  else none

def isRow (line : Line) : Bool :=
  startswith (strip line) "||".toList

def codeBlock (line : Line) (lines : List Line) : Block × List Line :=
  match match? admonition line with
  | some style =>
    let (content, rest) := codeLines (fun line => line = "\x7d\x7d\x7d".toList) lines
    (.admonition style content, rest)
  | none =>
    let (texts, rest) := codeLines (fun line => startswith (strip line) "\x7d\x7d\x7d".toList) lines
    (.element (.codeText ("\n".toList.intercalate texts)), rest)

def nextBlock (line : Line) (lines : List Line) : Block × List Line :=
  if let some block := lineBlock unicode endMarker line then (block, lines)
  else if isRow line then
    let style := stripChars "'\"".toList ((match? tableStyle line).getD [])
    (.table ((line :: lines.takeWhile isRow).map tableCells) style, lines.dropWhile isRow)
  else if (match? (many1 isSpace) line).isSome then
    let topIndent := (line.takeWhile isSpace).length
    let (items, rest) := listLines unicode topIndent (opensCode line) line lines
    (.list (items.map (listDatum unicode)), rest)
  else if let some content := match? comment line then
    (.element (.comment (parsePlainText true content)), lines)
  else if opensCode line then codeBlock line lines
  else if let some block := macroBlock unicode line then (block, lines)
  else if strip line ≠ [] then
    let (more, rest) := paragraphLines unicode endMarker line lines
    (.paragraph ((line :: more).map spaceLine), rest)
  else (.skipped, lines)

def blocks : Nat → List Line → List Block
  | 0, _ => []
  | _ + 1, [] => []
  | n + 1, line :: lines =>
    match nextBlock unicode endMarker line lines with
    | (.stopped, _) => []
    | (block, rest) => block :: blocks n rest

end Blocks

/-! ## The page -/

/-- `int(level)` -/
def parseInt (unicode : Unicode) (level : List Char) : Except Exception Nat :=
  if 4300 < level.length then .error intError
  else .ok (level.foldl (fun n c => 10 * n + (unicode.digit c).getD 0) 0)

def parseCell (context : Option Context) (cell : Cell) : Run Element := do
  let paragraphs ← cell.paragraphs.mapM fun paragraph => do
    return .paragraph (← parseText true context paragraph)
  return .tableItem paragraphs cell.align

def parseTableRow (context : Option Context) (cells : List Cell) : Run Element := do
  return .tableRow (← cells.mapM (parseCell context))

/-- The elements of a block; `parse` is `parse_wiki`. -/
def parseBlock (unicode : Unicode) (context : Option Context)
    (parse : List Char → Run (List Element)) : Block → Run (List Element)
  | .skipped | .stopped => return []
  | .element element => return [element]
  | .tableOfContents [] => return [.tableOfContents none]
  | .tableOfContents level => return [.tableOfContents (some (← raise (parseInt unicode level)))]
  | .table rows style => return [.table (← rows.mapM (parseTableRow context)) style]
  | .list data => do
      let (new, _) ← parseList parse data
      return new.toList
  | .admonition style lines =>
    return [.admonition style (← parse ("\n".toList.intercalate lines))]
  | .paragraph lines => do
      let texts ← lines.mapM (parseText true context)
      return [.paragraph texts.flatten]

def skipToMarker (beginMarker : List Char) (lines : List Line) : List Line :=
  let rest := (lines.dropWhile fun line => !startswith line beginMarker).tail
  if beginMarker = [] ∨ rest = [] then lines else rest

def readBlocks (unicode : Unicode) (beginMarker endMarker text : List Char) : List Block :=
  let lines := skipToMarker beginMarker (text.splitOn '\n')
  blocks unicode endMarker lines.length lines

/-- `parse_wiki`, whose calls of itself go to some depth -/
def parseWiki (unicode : Unicode) (context : Option Context) :
    Nat → List Char → List Char → List Char → Run (List Element)
  | 0, _, _, _ => throw .unfinished
  | depth + 1, beginMarker, endMarker, text => do
      let elements ← (readBlocks unicode beginMarker endMarker text).mapM
        (parseBlock unicode context (parseWiki unicode context depth [] []))
      return elements.flatten

end Plinth.Wiki
