import Mathlib.Data.List.Basic
import Plinth.Lib.Brackets
import Plinth.Lib.Python.Value

/-!
# Elements of a wiki page

`doc/scripts/wikiparser.py`: the elements that the parser makes. A text that is not given, `None`
or empty, is the empty list.
-/

namespace Plinth.Wiki

/-- What is known of the page: `context['name']` and `context['title']`. -/
structure Context where
  name : List Char
  title : List Char
  deriving DecidableEq, Repr

inductive ListType
  | plain
  | bulleted
  | numbered
  | spaced
  deriving DecidableEq, Repr

inductive Element
  | heading (level : Nat) (content : List Char)
  | tableOfContents (maxLevel : Option Nat)
  | plainText (content : List Char)
  | url (content : List Char)
  | italicText (content : List Element)
  | boldText (content : List Element)
  | monospaceText (content : List Char)
  | codeText (content : List Char)
  | underlineText (content : List Char)
  | smallerTextWarning
  | paragraph (content : List Element)
  | link (target : List Char) (text : List Element) (params : List Char)
  | embeddedLink (target : List Char) (text : List Element) (params : List Char)
  | embeddedAttachment (target : List Char) (text : List Element) (params pageTitle : List Char)
  | listItem (content : List Element) (overrideMarker : Bool)
  | list (listType : ListType) (items : List Element)
  | horizontalRule (dashes : Nat)
  | tableItem (content : List Element) (align : List Char)
  | tableRow (items : List Element)
  | table (rows : List Element) (style : List Char)
  | includePage (page fromMarker toMarker : List Char)
  | admonition (style : List Char) (content : List Element)
  | comment (content : List Element)
  | beginInclude
  | endInclude
  | category (name : List Char)
  | anchor (name : List Char)
  deriving Repr

namespace Element

/-- `Heading.__init__` -/
def Heading (level : Nat) (content : List Char) : Element :=
  .heading (min level 5) content

/-- `EmbeddedAttachment.__init__` -/
def EmbeddedAttachment (target : List Char) (text : List Element) (params : List Char)
    (context : Option Context) : Element :=
  let pageTitle := match context with
    | some context => context.title
    | none => []
  .embeddedAttachment target (if text.isEmpty then [.plainText target] else text) params pageTitle

end Element

end Plinth.Wiki

/-!
## Sections of a page

`generate_inner_docbook` of `doc/scripts/wikiparser.py`. What has been written is kept as a list of
pieces, in which a section tag is not a text. Each class of elements has its own `to_docbook`, which
may change the dictionary `context`: it is a parameter.
-/

namespace Plinth.Wiki

open Python Brackets

abbrev Docbook := List (Event Unit (List Char))

def Element.level : Element → Option Nat
  | .heading level _ => some level
  | _ => none

/-- `while sections and element.level <= sections[-1]`; the innermost section comes first. -/
def closeSections (level : Nat) : List Nat → Docbook × List Nat
  | [] => ([], [])
  | last :: sections =>
    if level ≤ last then
      let (docOut, left) := closeSections level sections
      (.closes :: docOut, left)
    else ([], last :: sections)

def beginElement (element : Element) (sections : List Nat) : Docbook × List Nat :=
  match element.level with
  | some level =>
    let (docOut, left) := closeSections level sections
    (docOut ++ [.opens ()], level :: left)
  | none => ([], sections)

section

variable {σ : Type} (toDocbook : Element → σ → Except Exception (Docbook × σ))

def writeElements (sections : List Nat) (context : σ) : List Element → Except Exception Docbook
  | [] => return sections.map fun _ => .closes
  | element :: parsedWiki => do
      let (docOut, sections) := beginElement element sections
      let (written, context) ← toDocbook element context
      let rest ← writeElements sections context parsedWiki
      return docOut ++ written ++ rest

/-- `emptyContext` is the dictionary `{}`. -/
def generateInnerDocbook (emptyContext : σ) (parsedWiki : List Element) (context : Option σ) :
    Except Exception Docbook :=
  writeElements toDocbook [] (context.getD emptyContext) parsedWiki

/-! ## What is to be written -/

/-- The elements with what their `to_docbook` returns, one after the other. -/
def written (context : σ) : List Element → Except Exception (List (Element × Docbook))
  | [] => return []
  | element :: parsedWiki => do
      let (docbook, context) ← toDocbook element context
      return (element, docbook) :: (← written context parsedWiki)

end

def headings (elements : List (Element × Docbook)) : List (Nat × Nat) :=
  (elements.zipIdx.filterMap fun element => element.1.1.level.map fun level =>
    (element.2, level)).reverse

def nearestLower (level : Nat) (earlier : List (Element × Docbook)) : Option (Nat × Nat) :=
  (headings earlier).find? fun heading => heading.2 < level

end Plinth.Wiki
