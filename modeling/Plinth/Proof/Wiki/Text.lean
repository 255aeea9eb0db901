import Mathlib.Logic.Relation
import Plinth.Model.Wiki.Text

/-!
# Lines that can be parsed

Every piece leaves a shorter rest of the line, and is made of shorter texts, so `parse_text` comes
to an end. It raises at a line that begins with an icon and is not an icon.
-/

namespace Plinth.Wiki

open Python Exception Text Regex Effect Relation

/-! ## What a piece leaves of a line -/

theorem splitFormatted_some {text delimiter endDelimiter content rest : List Char}
    (found : splitFormatted text delimiter endDelimiter = (some content, rest)) :
    content.length + rest.length + delimiter.length ≤ text.length := by
  rw [splitFormatted] at found
  split at found
  · rename_i starts
    have bound := (List.isPrefixOf_iff_prefix.mp starts).length_le
    dsimp only at found
    split at found
    · rename_i stop _
      cases found
      simp only [List.length_take, List.length_drop]
      omega
    · cases found
      simp only [List.length_dropLast, List.length_drop]
      omega
  · cases found

theorem splitFormatted_none {text delimiter endDelimiter rest : List Char}
    (found : splitFormatted text delimiter endDelimiter = (none, rest)) : rest = text := by
  rw [splitFormatted] at found
  split at found
  · dsimp only at found
    split at found <;> cases found
  · cases found
    rfl

theorem splitFormatted_length (text delimiter endDelimiter : List Char) :
    (splitFormatted text delimiter endDelimiter).2.length ≤ text.length := by
  cases found : splitFormatted text delimiter endDelimiter with
  | mk content rest =>
    cases content with
    | none =>
      rw [splitFormatted_none found]
    | some content =>
      have bound := splitFormatted_some found
      dsimp only
      omega

theorem readSmaller_length (line : List Char) : (readSmaller line).2.length ≤ line.length := by
  rw [readSmaller]
  cases found : splitFormatted line "~-".toList "-~".toList with
  | mk content rest =>
    rcases content with _ | _ | ⟨c, content⟩
    · rw [splitFormatted_none found]
    · have bound := splitFormatted_some found
      simp only [List.length_nil] at bound
      dsimp only
      omega
    · have bound := splitFormatted_some found
      dsimp only
      rw [List.length_append]
      omega

theorem delimiter_pos (format : Format) : 0 < format.delimiter.length := by
  cases format <;> decide

theorem linkText_length (remaining : List Char) : (linkText remaining).1.length ≤ remaining.length := by
  rw [linkText]
  split
  · have bound := partition_length "|".toList
      (remaining.drop ((find "\x7d\x7d".toList remaining).getD 0 + 2))
    simp only [List.length_append, List.length_take, List.length_drop] at bound ⊢
    omega
  · have bound := partition_length "|".toList remaining
    omega

theorem getUrlText_length (url : List Char) : (getUrlText url).length ≤ url.length := by
  rw [getUrlText]
  split
  · exact Nat.zero_le _
  · split
    · have bound := partition_length ":".toList url
      omega
    · exact Nat.le_refl _

theorem linkParts_length (content : List Char) : (linkParts content).text.length ≤ content.length := by
  have bound := partition_length "|".toList content
  rw [linkParts]
  dsimp only
  split
  · have target := getUrlText_length (strip (partition "|".toList content).1)
    have stripped := strip_length (partition "|".toList content).1
    dsimp only
    omega
  · have text := linkText_length (partition "|".toList content).2
    dsimp only
    omega

theorem embeddedParts_length (content : List Char) :
    (embeddedParts content).text.length ≤ content.length := by
  have bound := partition_length "|".toList content
  rw [embeddedParts]
  dsimp only
  split
  · exact Nat.zero_le _
  · have text := linkText_length (partition "|".toList content).2
    dsimp only
    omega

def Piece.texts : Piece → List (List Char)
  | .formatted .bold content => [content]
  | .formatted .italic content => [content]
  | .formatted .link content => [strip (linkParts content).text]
  | .formatted .embedded content => [strip (embeddedParts content).text]
  | _ => []

theorem texts_length (format : Format) (content : List Char) :
    ∀ text ∈ (Piece.formatted format content).texts, text.length ≤ content.length := by
  intro text member
  cases format with
  | bold => rw [List.mem_singleton.mp member]
  | italic => rw [List.mem_singleton.mp member]
  | monospace => cases member
  | code => cases member
  | underline => cases member
  | link =>
    rw [List.mem_singleton.mp member]
    exact Nat.le_trans (strip_length _) (linkParts_length content)
  | embedded =>
    rw [List.mem_singleton.mp member]
    exact Nat.le_trans (strip_length _) (embeddedParts_length content)

theorem plainPrefix_length (line : List Char) : (plainPrefix line).length ≤ line.length := by
  induction line with
  | nil => exact Nat.le_refl _
  | cons c line ih =>
    rw [plainPrefix]
    split
    · exact Nat.zero_le _
    · exact Nat.succ_le_succ ih

theorem firstPiece_length {formats : List Format} {line rest : List Char} {piece : Piece}
    (found : firstPiece formats line = some (piece, rest)) :
    rest.length < line.length ∧ ∀ text ∈ piece.texts, text.length < line.length := by
  induction formats generalizing line with
  | nil =>
    have bound := plainPrefix_length line
    rw [firstPiece] at found
    split at found
    · cases found
    · rename_i plain
      cases found
      rw [plain, List.length_cons] at bound
      refine ⟨?_, fun text member => (by cases member)⟩
      simp only [List.length_drop, List.length_cons]
      omega
  | cons format formats ih =>
    rw [firstPiece] at found
    split at found
    · rename_i split
      cases found
      have bound := splitFormatted_some split
      have delimiter := delimiter_pos format
      refine ⟨by omega, ?_⟩
      intro text member
      have inner := texts_length format _ text member
      omega
    · rename_i rest' _ split
      have bound := splitFormatted_length line format.delimiter format.endDelimiter
      rw [split] at bound
      obtain ⟨shorter, texts⟩ := ih found
      exact ⟨Nat.lt_of_lt_of_le shorter bound,
        fun text member => Nat.lt_of_lt_of_le (texts text member) bound⟩

/-! ## Icons -/

def IconAlone (line : List Char) : Prop :=
  (∃ icon ∈ wikiIcons, startswith (lstrip line) icon.1 = true) → ∃ icon ∈ wikiIcons, strip line = icon.1

theorem lookup_isSome_iff (icons : List (List Char × List Char)) (text : List Char) :
    (∃ name, icons.lookup text = some name) ↔ ∃ icon ∈ icons, text = icon.1 := by
  induction icons with
  | nil => simp
  | cons icon icons ih =>
    rw [List.lookup_cons, List.exists_mem_cons_iff, ← ih]
    by_cases same : text = icon.1
    · simp [same]
    · simp [same, beq_eq_false_iff_ne.mpr same]

theorem readIcon_returns_iff (line : List Char) :
    (∃ result, readIcon line = .ok result) ↔ IconAlone line := by
  rw [readIcon, IconAlone]
  split
  · rename_i absent
    have none : ¬ ∃ icon ∈ wikiIcons, startswith (lstrip line) icon.1 = true := by
      rintro ⟨icon, member, starts⟩
      exact List.find?_eq_none.mp absent icon member starts
    exact ⟨fun _ present => absurd present none, fun _ => ⟨_, rfl⟩⟩
  · rename_i iconText iconName found
    have present : ∃ icon ∈ wikiIcons, startswith (lstrip line) icon.1 = true :=
      ⟨_, List.mem_of_find?_eq_some found, by simpa using List.find?_some found⟩
    rw [← lookup_isSome_iff]
    constructor
    · rintro ⟨result, h⟩ _
      split at h
      · cases h
      · rename_i name known
        exact ⟨name, known⟩
    · intro alone
      obtain ⟨name, known⟩ := alone present
      rw [known]
      exact ⟨_, rfl⟩

theorem readIcon_length {line rest : List Char} {icons : List Element}
    (h : readIcon line = .ok (icons, rest)) : rest.length ≤ line.length := by
  rw [readIcon] at h
  split at h
  · cases h
    exact Nat.le_refl _
  · split at h
    · cases h
    · cases h
      have bound : (lstrip line).length ≤ line.length := (List.dropWhile_sublist _).length_le
      rw [List.length_drop]
      omega

/-! ## The lines that `parse_text` comes to -/

def nextLines (line : List Char) : List (List Char) :=
  match readIcon line with
  | .error _ => []
  | .ok (_, line) =>
    match firstPiece formats (readSmaller line).2 with
    | none => []
    | some (piece, rest) => rest :: piece.texts

/-- In all lines that `parse_text` comes to, an icon is alone. -/
def Readable (line : List Char) : Prop :=
  ∀ reached, ReflTransGen (fun line next => next ∈ nextLines line) line reached → IconAlone reached

theorem readable_iff (line : List Char) :
    Readable line ↔ IconAlone line ∧ ∀ next ∈ nextLines line, Readable next := by
  constructor
  · intro readable
    exact ⟨readable line .refl, fun next member reached later => readable reached (.head member later)⟩
  · rintro ⟨alone, later⟩ reached reaches
    rcases ReflTransGen.cases_head reaches with rfl | ⟨next, member, reaches⟩
    · exact alone
    · exact later next member reached reaches

theorem nextLines_length {line : List Char} :
    ∀ next ∈ nextLines line, next.length < line.length := by
  intro next member
  rw [nextLines] at member
  split at member
  · cases member
  · rename_i icon
    have iconBound := readIcon_length icon
    have smallerBound := readSmaller_length (by assumption)
    split at member
    · cases member
    · rename_i piece
      obtain ⟨shorter, texts⟩ := firstPiece_length piece
      rcases List.mem_cons.mp member with rfl | member
      · omega
      · have bound := texts next member
        omega

theorem parsePiece_returns_iff {parse : Bool → Option Context → List Char → Run (List Element)}
    {P : List Char → Prop} (parseLinks : Bool) (context : Option Context) (piece : Piece)
    (returns : ∀ text ∈ piece.texts, ∀ parseLinks context,
      (∃ elements, parse parseLinks context text = .ok elements) ↔ P text) :
    (∃ elements, parsePiece parse parseLinks context piece = .ok elements) ↔
      ∀ text ∈ piece.texts, P text := by
  cases piece with
  | plain content => exact ⟨fun _ text member => (by cases member), fun _ => ⟨_, rfl⟩⟩
  | formatted format content =>
    have one : ∀ {text : List Char} {parseLinks context} {rest : List Element → Run (List Element)},
        (Piece.formatted format content).texts = [text] →
        (∀ elements, ∃ result, rest elements = .ok result) →
        ((∃ elements, (parse parseLinks context text >>= rest) = .ok elements) ↔
          ∀ text ∈ (Piece.formatted format content).texts, P text) := by
      intro text parseLinks context rest texts total
      rw [texts] at returns ⊢
      rw [returns_bind_iff fun elements _ => total elements, List.forall_mem_singleton]
      exact returns text List.mem_cons_self parseLinks context
    cases format with
    | bold => exact one rfl fun elements => ⟨_, rfl⟩
    | italic => exact one rfl fun elements => ⟨_, rfl⟩
    | monospace => exact ⟨fun _ text member => (by cases member), fun _ => ⟨_, rfl⟩⟩
    | code => exact ⟨fun _ text member => (by cases member), fun _ => ⟨_, rfl⟩⟩
    | underline => exact ⟨fun _ text member => (by cases member), fun _ => ⟨_, rfl⟩⟩
    | link => exact one rfl fun elements => ⟨_, rfl⟩
    | embedded =>
      apply one rfl
      intro elements
      split
      · exact ⟨_, rfl⟩
      · exact ⟨_, rfl⟩

theorem parseTextTo_returns_iff {depth : Nat} {line : List Char} (deep : line.length < depth)
    (parseLinks : Bool) (context : Option Context) :
    (∃ elements, parseTextTo depth parseLinks context line = .ok elements) ↔ Readable line := by
  induction depth generalizing line parseLinks context with
  | zero => exact absurd deep (Nat.not_lt_zero _)
  | succ depth ih =>
    rw [readable_iff]
    cases line with
    | nil =>
      refine ⟨fun _ => ⟨?_, fun next member => (by cases member)⟩, fun _ => ⟨[], rfl⟩⟩
      exact (readIcon_returns_iff []).mp ⟨([], []), rfl⟩
    | cons c line =>
      have later : ∀ next ∈ nextLines (c :: line), ∀ parseLinks context,
          (∃ elements, parseTextTo depth parseLinks context next = .ok elements) ↔
            Readable next := by
        intro next member parseLinks context
        have bound := nextLines_length next member
        exact ih (by omega) parseLinks context
      rw [← readIcon_returns_iff, parseTextTo]
      · rw [nextLines] at later ⊢
        cases icon : readIcon (c :: line) with
        | error e =>
          constructor
          · rintro ⟨elements, h⟩
            cases h
          · rintro ⟨⟨result, h⟩, _⟩
            cases h
        | ok result =>
          obtain ⟨icons, line'⟩ := result
          rw [icon] at later
          dsimp only at later ⊢
          cases found : firstPiece formats (readSmaller line').2 with
          | none =>
            refine ⟨fun _ => ⟨⟨_, rfl⟩, fun next member => (by cases member)⟩, fun _ => ?_⟩
            refine ⟨icons ++ (readSmaller line').1, ?_⟩
            apply bind_of_ok rfl
            simp only [found]
            rfl
          | some found' =>
            obtain ⟨piece, rest⟩ := found'
            rw [found] at later
            have ofPiece := parsePiece_returns_iff parseLinks context piece
              fun text member => later text (List.mem_cons_of_mem _ member)
            have ofRest := later rest List.mem_cons_self parseLinks context
            rw [List.forall_mem_cons, ← ofPiece, ← ofRest]
            constructor
            · rintro ⟨elements, h⟩
              obtain ⟨_, same, h⟩ := ok_of_bind h
              cases same
              simp only [found] at h
              obtain ⟨ofPiece, first, h⟩ := ok_of_bind h
              obtain ⟨ofRest, second, _⟩ := ok_of_bind h
              exact ⟨⟨_, rfl⟩, ⟨ofRest, second⟩, ofPiece, first⟩
            · rintro ⟨_, ⟨ofRest, second⟩, ofPiece, first⟩
              refine ⟨icons ++ (readSmaller line').1 ++ ofPiece ++ ofRest, ?_⟩
              apply bind_of_ok rfl
              simp only [found]
              apply bind_of_ok first
              exact bind_of_ok second rfl
      · exact List.cons_ne_nil c line

theorem parseText_returns_iff (parseLinks : Bool) (context : Option Context) (line : List Char) :
    (∃ elements, parseText parseLinks context line = .ok elements) ↔ Readable line :=
  parseTextTo_returns_iff (Nat.lt_succ_self _) parseLinks context

end Plinth.Wiki
