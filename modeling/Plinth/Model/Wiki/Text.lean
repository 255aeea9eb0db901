import Plinth.Lib.Effect
import Plinth.Lib.Python.Regex
import Plinth.Lib.Python.Text
import Plinth.Model.Wiki.Element

/-!
# The text in a line

`doc/scripts/wikiparser.py`, `parse_text` and what it calls: icons, formatted text, links and plain
text. A call that does not end has not come to its end at any depth of calls.
-/

namespace Plinth.Wiki

open Python Exception Text Regex

inductive Stop
  | raises (e : Exception)
  | unfinished

abbrev Run := Except Stop

def raise {α : Type} (result : Except Exception α) : Run α :=
  result.mapError .raises

/-! ## Plain text -/

def isUpper (c : Char) : Bool :=
  'A' ≤ c ∧ c ≤ 'Z'

def isLetter (c : Char) : Bool :=
  isUpper c ∨ 'a' ≤ c ∧ c ≤ 'z'

/-- `[a-z0-9]` -/
def isWordRest (c : Char) : Bool :=
  'a' ≤ c ∧ c ≤ 'z' ∨ '0' ≤ c ∧ c ≤ '9'

/-- `$` -/
def atEnd : Pattern Unit :=
  fun s => if s = [] ∨ s = ['\n'] then [((), s)] else []

/-- `[A-Z][a-z0-9]+` -/
def capitalized : Pattern (List Char) := do
  let c ← char isUpper
  let cs ← many1 isWordRest
  return c :: cs

/-- `([A-Z][a-z0-9]+)+`, of at most so many words -/
def capitalizedWords : Nat → Pattern (List Char)
  | 0 => fails
  | n + 1 => do
      let word ← capitalized
      let words ← choice [capitalizedWords n, pure []]
      return word ++ words

/-- `(?: |^)([A-Z][a-z0-9]+([A-Z][a-z0-9]+)+)(?: |$)`: what comes before the link, the link and the
text after it -/
def wikiLink (size : Nat) (atStart : Bool) : Pattern (List Char × List Char × List Char) := do
  let lead ← choice [literal " ".toList, if atStart then pure [] else fails]
  let first ← capitalized
  let words ← capitalizedWords size
  let rest ← fun s => [(s, s)]
  let _ ← choice [(do let _ ← literal " ".toList), atEnd]
  return (lead, first ++ words, rest)

/-- `(https?://[^<> ]+[^<> .:\(\)])` -/
def urlLink : Pattern (List Char) := do
  let scheme ← literal "http".toList
  let secure ← choice [literal "s".toList, pure []]
  let slashes ← literal "://".toList
  let inner ← many1 fun c => c ∉ "<> ".toList
  let last ← char fun c => c ∉ "<> .:()".toList
  return scheme ++ secure ++ slashes ++ inner ++ [last]

/-- `([^A-Za-z]|^)!`, of which the group is kept -/
def bang (atStart : Bool) : Pattern (List Char) := do
  let before ← choice [(do return [← char fun c => !isLetter c]),
    if atStart then pure [] else fails]
  let _ ← literal "!".toList
  return before

/-- The loop of `parse_plain_text`, which takes at least one character at a time. -/
def plainTexts (parseLinks : Bool) : Nat → List Char → List Element
  | 0, _ => []
  | _ + 1, [] => []
  | n + 1, content =>
    let wikiMatch := if parseLinks then search (wikiLink content.length) true content else none
    let linkMatch := if parseLinks then search (fun _ => urlLink) true content else none
    match linkMatch, wikiMatch with
    | some ([], link, rest), _ => .url link :: plainTexts parseLinks n rest
    | _, some ([], (_, link, rest), _) =>
      .link link [.plainText link] [] :: plainTexts parseLinks n rest
    | linkMatch, wikiMatch =>
      let stop := match wikiMatch with
        | some (before, (lead, _, _), _) => some (before ++ lead).length
        | none => linkMatch.map fun found => found.1.length
      match stop with
      | none => [.plainText (sub bang content)]
      | some stop =>
        .plainText (sub bang (content.take stop)) ::
          if stop = 0 then [] else plainTexts parseLinks n (content.drop stop)

def parsePlainText (parseLinks : Bool) (content : List Char) : List Element :=
  plainTexts parseLinks content.length content

/-! ## Pieces of a line -/

/-- `WIKI_ICONS` -/
def wikiIcons : List (List Char × List Char) :=
  [("/!\\".toList, "alert".toList), ("(./)".toList, "checkmark".toList),
    ("{X}".toList, "icon-error".toList), ("{i}".toList, "icon-info".toList),
    ("{o}".toList, "star_off".toList), ("{*}".toList, "star_on".toList)]

def splitFormatted (text delimiter endDelimiter : List Char) : Option (List Char) × List Char :=
  if startswith text delimiter then
    let text := text.drop delimiter.length
    match find endDelimiter text with
    | some stop => (some (text.take stop), (text.drop stop).drop endDelimiter.length)
    -- `end` is -1: `text[:-1]` and `text[-1:]`
    | none => (some text.dropLast, (text.drop (text.length - 1)).drop endDelimiter.length)
  else (none, text)

def readIcon (line : List Char) : Except Exception (List Element × List Char) :=
  match wikiIcons.find? fun icon => startswith (lstrip line) icon.1 with
  | none => .ok ([], line)
  | some (iconText, _) =>
    match wikiIcons.lookup (strip line) with
    | none => .error (KeyError (.str (String.ofList (strip line))))
    | some iconName =>
      let target := "icons/".toList ++ iconName ++ ".png".toList
      .ok ([.EmbeddedAttachment target [.plainText iconText] "height=26".toList none],
        (lstrip line).drop iconText.length)

def readSmaller (line : List Char) : List Element × List Char :=
  match splitFormatted line "~-".toList "-~".toList with
  | (some (c :: content), rest) => ([.smallerTextWarning], c :: content ++ rest)
  | (_, rest) => ([], rest)

inductive Format
  | bold
  | italic
  | monospace
  | code
  | underline
  | link
  | embedded
  deriving DecidableEq, Repr

def formats : List Format :=
  [.bold, .italic, .monospace, .code, .underline, .link, .embedded]

def Format.delimiter : Format → List Char
  | .bold => "'''".toList
  | .italic => "''".toList
  | .monospace => "`".toList
  | .code => "\x7b\x7b\x7b".toList
  | .underline => "__".toList
  | .link => "[[".toList
  | .embedded => "\x7b\x7b".toList

def Format.endDelimiter : Format → List Char
  | .code => "\x7d\x7d\x7d".toList
  | .link => "]]".toList
  | .embedded => "\x7d\x7d".toList
  | format => format.delimiter

def plainStops : List (List Char) :=
  ["''".toList, "`".toList, "\x7b\x7b".toList, "__".toList, "[[".toList]

/-- `re.split(r"''|`|{{|__|\[\[", line)[0]` -/
def plainPrefix : List Char → List Char
  | [] => []
  | c :: line => if plainStops.any (startswith (c :: line)) then [] else c :: plainPrefix line

inductive Piece
  | formatted (format : Format) (content : List Char)
  | plain (content : List Char)
  deriving DecidableEq, Repr

/-- The piece at the start of a line, and the rest of the line. What is between two delimiters that
follow each other is not a piece, but they are taken from the line. -/
def firstPiece : List Format → List Char → Option (Piece × List Char)
  | [], line =>
    match plainPrefix line with
    | [] => none
    | c :: content => some (.plain (c :: content), line.drop (c :: content).length)
  | format :: formats, line =>
    match splitFormatted line format.delimiter format.endDelimiter with
    | (some (c :: content), rest) => some (.formatted format (c :: content), rest)
    | (_, rest) => firstPiece formats rest

/-! ## Links -/

/-- `get_url_text` -/
def getUrlText (url : List Char) : List Char :=
  let scheme := many1 isLetter
  if (match? (do let _ ← scheme; literal "://".toList) url).isSome ∨ startswith url "#".toList then []
  else if (match? (do let _ ← scheme; literal ":".toList) url).isSome then
    (partition ":".toList url).2
  else url

/-- The text of a link, which may hold an embedded attachment, and what follows it. -/
def linkText (remaining : List Char) : List Char × List Char :=
  if contains "\x7b\x7b".toList remaining ∧ contains "\x7d\x7d".toList remaining then
    let index := (find "\x7d\x7d".toList remaining).getD 0
    let (moreText, rest) := partition "|".toList (remaining.drop (index + 2))
    (remaining.take (index + 1) ++ moreText, rest)
  else partition "|".toList remaining

structure LinkParts where
  target : List Char
  text : List Char
  params : List Char
  deriving DecidableEq, Repr

def linkParts (content : List Char) : LinkParts :=
  let (target, remaining) := partition "|".toList content
  let target := strip target
  if remaining = [] then ⟨target, getUrlText target, []⟩
  else
    let (text, remaining) := linkText remaining
    ⟨target, text, (partition "|".toList remaining).1⟩

def embeddedParts (content : List Char) : LinkParts :=
  let (target, remaining) := partition "|".toList content
  if remaining = [] then ⟨target, [], []⟩
  else
    let (text, remaining) := linkText remaining
    ⟨target, text, (partition "|".toList remaining).1⟩

/-! ## The line -/

/-- The elements of a piece; `parse` is `parse_text`. -/
def parsePiece (parse : Bool → Option Context → List Char → Run (List Element)) (parseLinks : Bool)
    (context : Option Context) : Piece → Run (List Element)
  | .plain content => return parsePlainText parseLinks content
  | .formatted .bold content => return [.boldText (← parse true context content)]
  | .formatted .italic content => return [.italicText (← parse true context content)]
  | .formatted .monospace content => return [.monospaceText content]
  | .formatted .code content => return [.codeText content]
  | .formatted .underline content => return [.underlineText content]
  | .formatted .link content => do
      let parts := linkParts content
      return [.link parts.target (← parse false none (strip parts.text)) parts.params]
  | .formatted .embedded content => do
      let parts := embeddedParts content
      let text ← parse false none (strip parts.text)
      if startswith parts.target "attachment:".toList then
        return [.EmbeddedAttachment (parts.target.drop 11) text parts.params context]
      else return [.embeddedLink parts.target text parts.params]

/-- `parse_text`, whose loop and calls go to some depth -/
def parseTextTo : Nat → Bool → Option Context → List Char → Run (List Element)
  | 0, _, _, _ => throw .unfinished
  | _ + 1, _, _, [] => return []
  | depth + 1, parseLinks, context, line => do
      let (icons, line) ← raise (readIcon line)
      let (warnings, line) := readSmaller line
      match firstPiece formats line with
      | none => return icons ++ warnings
      | some (piece, rest) =>
        let elements ← parsePiece (parseTextTo depth) parseLinks context piece
        return icons ++ warnings ++ elements ++ (← parseTextTo depth parseLinks context rest)

def parseText (parseLinks : Bool) (context : Option Context) (line : List Char) :
    Run (List Element) :=
  parseTextTo (line.length + 1) parseLinks context line

end Plinth.Wiki
