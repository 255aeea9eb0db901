import Mathlib.Data.List.Induction
import Plinth.Model.Wiki.Element

/-!
# The sections of a page are nested

The sections that are open after some elements are enough to find, for any level, the last heading
with a lower one.
-/

namespace Plinth.Wiki

open Python Brackets

variable {σ : Type} {toDocbook : Element → σ → Except Exception (Docbook × σ)}

/-! ## The tags with their headings -/

/-- What is written from a position on, in open sections; each section has the position and the
level of its heading. -/
def trace (position : Nat) (sections : List (Nat × Nat)) :
    List (Element × Docbook) → List (Event (Nat × Nat) Docbook)
  | [] => sections.map fun _ => .closes
  | (element, docbook) :: rest =>
    match element.level with
    | some level =>
      (sections.takeWhile fun opened => level ≤ opened.2).map (fun _ => .closes) ++
        .opens (position, level) :: .content docbook ::
        trace (position + 1)
          ((position, level) :: sections.dropWhile fun opened => level ≤ opened.2) rest
    | none => .content docbook :: trace (position + 1) sections rest

theorem closeSections_map (level : Nat) (sections : List (Nat × Nat)) :
    closeSections level (sections.map Prod.snd) =
      ((sections.takeWhile fun opened => level ≤ opened.2).map (fun _ => .closes),
        (sections.dropWhile fun opened => level ≤ opened.2).map Prod.snd) := by
  induction sections with
  | nil => rfl
  | cons opened sections ih =>
    rw [List.map_cons, closeSections]
    by_cases lower : level ≤ opened.2
    · rw [if_pos lower, ih, List.takeWhile_cons_of_pos (by simpa using lower),
        List.dropWhile_cons_of_pos (by simpa using lower)]
      rfl
    · rw [if_neg lower, List.takeWhile_cons_of_neg (by simpa using lower),
        List.dropWhile_cons_of_neg (by simpa using lower)]
      rfl

theorem flatMap_closes {α γ : Type} (opened : List α) :
    (opened.map fun _ => (.closes : Event (Nat × Nat) (List (Event Unit γ)))).flatMap flatten =
      opened.map fun _ => .closes := by
  induction opened with
  | nil => rfl
  | cons a opened ih => exact congrArg _ ih

theorem writeElements_cons (sections : List Nat) (context : σ) (element : Element)
    (elements : List Element) :
    writeElements toDocbook sections context (element :: elements) =
      toDocbook element context >>= fun result =>
        (writeElements toDocbook (beginElement element sections).2 result.2 elements).map
          ((beginElement element sections).1 ++ result.1 ++ ·) := by
  rcases begun : beginElement element sections with ⟨docOut, sections'⟩
  rw [writeElements, begun]
  dsimp only
  cases toDocbook element context with
  | error e => rfl
  | ok result =>
    show (writeElements toDocbook _ _ _ >>= _) = Except.map _ (writeElements toDocbook _ _ _)
    cases writeElements toDocbook sections' result.2 elements with
    | error e => rfl
    | ok rest => rfl

theorem written_cons (context : σ) (element : Element) (elements : List Element) :
    written toDocbook context (element :: elements) =
      toDocbook element context >>= fun result =>
        (written toDocbook result.2 elements).map ((element, result.1) :: ·) := by
  rw [written]
  cases toDocbook element context with
  | error e => rfl
  | ok result =>
    show (written toDocbook _ _ >>= _) = Except.map _ (written toDocbook _ _)
    cases written toDocbook result.2 elements with
    | error e => rfl
    | ok rest => rfl

theorem trace_heading {element : Element} {level : Nat} (isHeading : element.level = some level)
    (position : Nat) (sections : List (Nat × Nat)) (docbook : Docbook)
    (rest : List (Element × Docbook)) :
    trace position sections ((element, docbook) :: rest) =
      (sections.takeWhile fun opened => level ≤ opened.2).map (fun _ => .closes) ++
        .opens (position, level) :: .content docbook ::
        trace (position + 1)
          ((position, level) :: sections.dropWhile fun opened => level ≤ opened.2) rest := by
  rw [trace, isHeading]

theorem trace_other {element : Element} (other : element.level = none) (position : Nat)
    (sections : List (Nat × Nat)) (docbook : Docbook) (rest : List (Element × Docbook)) :
    trace position sections ((element, docbook) :: rest) =
      .content docbook :: trace (position + 1) sections rest := by
  rw [trace, other]

def openedBy (element : Element) (position : Nat) (sections : List (Nat × Nat)) :
    List (Nat × Nat) :=
  match element.level with
  | some level => (position, level) :: sections.dropWhile fun opened => level ≤ opened.2
  | none => sections

theorem flatMap_trace_cons (element : Element) (position : Nat) (sections : List (Nat × Nat))
    (docbook : Docbook) (rest : List (Element × Docbook)) :
    (trace position sections ((element, docbook) :: rest)).flatMap flatten =
      (beginElement element (sections.map Prod.snd)).1 ++ docbook ++
        (trace (position + 1) (openedBy element position sections) rest).flatMap flatten ∧
    (beginElement element (sections.map Prod.snd)).2 =
      (openedBy element position sections).map Prod.snd := by
  rw [beginElement, openedBy]
  cases level : element.level with
  | none =>
    rw [trace_other level, List.flatMap_cons]
    exact ⟨rfl, rfl⟩
  | some level' =>
    rw [trace_heading level, List.flatMap_append, flatMap_closes, List.flatMap_cons,
      List.flatMap_cons]
    dsimp only
    rw [closeSections_map]
    exact ⟨by simp [flatten], rfl⟩

theorem writeElements_eq (position : Nat) (sections : List (Nat × Nat)) (context : σ)
    (elements : List Element) :
    writeElements toDocbook (sections.map Prod.snd) context elements =
      (written toDocbook context elements).map fun elements =>
        (trace position sections elements).flatMap flatten := by
  induction elements generalizing position sections context with
  | nil =>
    have closed : (sections.map Prod.snd).map (fun _ => (.closes : Event Unit (List Char))) =
        (trace position sections []).flatMap flatten := by
      rw [trace, flatMap_closes, List.map_map]
      rfl
    exact congrArg Except.ok closed
  | cons element elements ih =>
    rw [writeElements_cons, written_cons]
    cases toDocbook element context with
    | error e => rfl
    | ok result =>
      have next := flatMap_trace_cons element position sections result.1
      show Except.map _ _ = Except.map _ (Except.map _ _)
      rw [(next []).2, ih (position + 1)]
      cases written toDocbook result.2 elements with
      | error e => rfl
      | ok rest => exact congrArg Except.ok (next rest).1.symm

theorem mem_of_content {position : Nat} {sections : List (Nat × Nat)} {docbook : Docbook}
    {elements : List (Element × Docbook)}
    (member : .content docbook ∈ trace position sections elements) :
    ∃ element ∈ elements, element.2 = docbook := by
  induction elements generalizing position sections with
  | nil =>
    rw [trace, List.mem_map] at member
    obtain ⟨opened, -, ⟨⟩⟩ := member
  | cons first rest ih =>
    obtain ⟨element, written⟩ := first
    cases level : element.level with
    | none =>
      rw [trace_other level, List.mem_cons] at member
      rcases member with same | member
      · exact ⟨_, List.mem_cons_self, (Event.content.inj same).symm⟩
      · obtain ⟨other, inRest, same⟩ := ih member
        exact ⟨other, List.mem_cons_of_mem _ inRest, same⟩
    | some level' =>
      rw [trace_heading level, List.mem_append, List.mem_map, List.mem_cons,
        List.mem_cons] at member
      rcases member with ⟨opened, -, ⟨⟩⟩ | ⟨⟨⟩⟩ | same | member
      · exact ⟨_, List.mem_cons_self, (Event.content.inj same).symm⟩
      · obtain ⟨other, inRest, same⟩ := ih member
        exact ⟨other, List.mem_cons_of_mem _ inRest, same⟩

/-! ## The open sections -/

theorem openAfter_trace (position : Nat) (sections : List (Nat × Nat))
    (elements : List (Element × Docbook)) :
    openAfter sections (trace position sections elements) = some [] := by
  induction elements generalizing position sections with
  | nil =>
    have closed := openAfter_closes (β := Docbook) sections []
    rwa [List.append_nil] at closed
  | cons first rest ih =>
    obtain ⟨element, docbook⟩ := first
    cases level : element.level with
    | none =>
      rw [trace_other level, openAfter_cons]
      exact ih (position + 1) sections
    | some level' =>
      have closed := openAfter_closes (β := Docbook)
        (sections.takeWhile fun opened => level' ≤ opened.2)
        (sections.dropWhile fun opened => level' ≤ opened.2)
      rw [List.takeWhile_append_dropWhile] at closed
      rw [trace_heading level, openAfter_append, closed]
      exact ih (position + 1) _

def Summarizes (sections headings : List (Nat × Nat)) : Prop :=
  ∀ level, sections.find? (·.2 < level) = headings.find? (·.2 < level)

theorem find?_dropWhile {α : Type} {p q : α → Bool} (apart : ∀ a, p a = true → q a = false)
    (l : List α) : (l.dropWhile p).find? q = l.find? q := by
  induction l with
  | nil => rfl
  | cons a l ih =>
    cases dropped : p a with
    | true => rw [List.dropWhile_cons_of_pos dropped, ih, List.find?_cons, apart a dropped]
    | false => rw [List.dropWhile_cons_of_neg (by simp [dropped])]

theorem head?_dropWhile {α : Type} (p : α → Bool) (l : List α) :
    (l.dropWhile p).head? = l.find? fun a => !p a := by
  induction l with
  | nil => rfl
  | cons a l ih =>
    cases dropped : p a with
    | true => rw [List.dropWhile_cons_of_pos dropped, ih, List.find?_cons, dropped]; rfl
    | false =>
      rw [List.dropWhile_cons_of_neg (by simp [dropped]), List.find?_cons, dropped]
      rfl

theorem Summarizes.heading {sections earlier : List (Nat × Nat)}
    (summarizes : Summarizes sections earlier) (position level : Nat) :
    Summarizes ((position, level) :: sections.dropWhile fun opened => level ≤ opened.2)
      ((position, level) :: earlier) := by
  intro lower
  rw [List.find?_cons, List.find?_cons]
  by_cases found : level < lower
  · rw [decide_eq_true found]
  · have apart : ∀ opened : Nat × Nat, decide (level ≤ opened.2) = true →
        decide (opened.2 < lower) = false := by
      intro opened high
      rw [decide_eq_true_eq] at high
      rw [decide_eq_false_iff_not]
      omega
    rw [decide_eq_false found, find?_dropWhile apart]
    exact summarizes lower

theorem Summarizes.parent {sections earlier : List (Nat × Nat)}
    (summarizes : Summarizes sections earlier) (level : Nat) :
    (sections.dropWhile fun opened => level ≤ opened.2).head? =
      earlier.find? fun heading => heading.2 < level := by
  rw [head?_dropWhile, ← summarizes level]
  congr 1
  funext opened
  rw [← decide_not]
  exact decide_eq_decide.mpr (by omega)

theorem headings_append (earlier : List (Element × Docbook)) (element : Element)
    (docbook : Docbook) :
    headings (earlier ++ [(element, docbook)]) =
      (element.level.map fun level => (earlier.length, level)).toList ++ headings earlier := by
  rw [headings, List.zipIdx_append, List.filterMap_append, List.reverse_append]
  cases level : element.level with
  | none => simp [level, headings]
  | some level' => simp [level, headings]

theorem exists_summary (before : List (Element × Docbook)) (rest : List (Element × Docbook)) :
    ∃ earlier sections, Summarizes sections (headings before) ∧
      openAfter [] earlier = some sections ∧
      trace 0 [] (before ++ rest) = earlier ++ trace before.length sections rest := by
  induction before using List.reverseRecOn generalizing rest with
  | nil => exact ⟨[], [], fun _ => rfl, rfl, rfl⟩
  | append_singleton before last ih =>
    obtain ⟨element, docbook⟩ := last
    obtain ⟨earlier, sections, summarizes, opened, split⟩ := ih ((element, docbook) :: rest)
    rw [List.append_assoc, List.singleton_append, split, List.length_append, headings_append]
    cases level : element.level with
    | none =>
      refine ⟨earlier ++ [.content docbook], sections, summarizes, ?_, ?_⟩
      · rw [openAfter_append, opened]
        rfl
      · rw [trace_other level, List.append_assoc]
        rfl
    | some level' =>
      refine ⟨earlier ++ ((sections.takeWhile fun opened => level' ≤ opened.2).map
        (fun _ => .closes) ++ [.opens (before.length, level'), .content docbook]),
        _, summarizes.heading before.length level', ?_, ?_⟩
      · have closed := openAfter_closes (β := Docbook)
          (sections.takeWhile fun opened => level' ≤ opened.2)
          (sections.dropWhile fun opened => level' ≤ opened.2)
        rw [List.takeWhile_append_dropWhile] at closed
        rw [openAfter_append, opened, Option.bind_some, openAfter_append, closed]
        rfl
      · rw [trace_heading level]
        simp

theorem exists_parent (before rest : List (Element × Docbook)) (element : Element)
    (docbook : Docbook) {level : Nat} (isHeading : element.level = some level) :
    ∃ earlier later sections,
      trace 0 [] (before ++ (element, docbook) :: rest) =
        earlier ++ .opens (before.length, level) :: .content docbook :: later ∧
      openAfter [] earlier = some sections ∧ sections.head? = nearestLower level before := by
  obtain ⟨earlier, sections, summarizes, opened, split⟩ :=
    exists_summary before ((element, docbook) :: rest)
  have closed := openAfter_closes (β := Docbook)
    (sections.takeWhile fun opened => level ≤ opened.2)
    (sections.dropWhile fun opened => level ≤ opened.2)
  rw [List.takeWhile_append_dropWhile] at closed
  refine ⟨earlier ++ (sections.takeWhile fun opened => level ≤ opened.2).map (fun _ => .closes),
    trace (before.length + 1)
      ((before.length, level) :: sections.dropWhile fun opened => level ≤ opened.2) rest,
    sections.dropWhile fun opened => level ≤ opened.2, ?_, ?_, summarizes.parent level⟩
  · rw [split, trace_heading isHeading, List.append_assoc]
  · rw [openAfter_append, opened]
    exact closed

theorem sections_balanced {σ : Type}
    (toDocbook : Element → σ → Except Exception (Docbook × σ)) (emptyContext : σ)
    (parsedWiki : List Element) (context : Option σ) :
    (generateInnerDocbook toDocbook emptyContext parsedWiki context =
      (written toDocbook (context.getD emptyContext) parsedWiki).map fun elements =>
        (trace 0 [] elements).flatMap flatten) ∧
    ∀ elements, written toDocbook (context.getD emptyContext) parsedWiki = .ok elements →
      Balanced (trace 0 [] elements) ∧
      ((∀ element ∈ elements, Balanced element.2) →
        Balanced ((trace 0 [] elements).flatMap flatten)) ∧
      ∀ before rest element docbook level, elements = before ++ (element, docbook) :: rest →
        element.level = some level →
        ∃ earlier later sections,
          trace 0 [] elements =
            earlier ++ .opens (before.length, level) :: .content docbook :: later ∧
          openAfter [] earlier = some sections ∧
          sections.head? = nearestLower level before := by
  refine ⟨writeElements_eq 0 [] _ _, ?_⟩
  intro elements _
  refine ⟨openAfter_trace 0 [] elements, ?_, ?_⟩
  · intro balanced
    apply openAfter_flatten _ (openAfter_trace 0 [] elements)
    intro docbook member
    obtain ⟨element, inElements, rfl⟩ := mem_of_content member
    exact balanced element inElements
  · rintro before rest element docbook level rfl isHeading
    exact exists_parent before rest element docbook isHeading

def titles : Element → Unit → Except Exception (Docbook × Unit)
  | .heading _ content, _ => .ok ([.content content], ())
  | _, _ => .ok ([], ())

theorem skipped_levels_nested :
    ∃ earlier later sections,
      trace 0 [] [(.heading 1 ['a'], [.content ['a']]), (.heading 4 ['b'], [.content ['b']]),
        (.heading 3 ['c'], [.content ['c']])] =
        earlier ++ .opens (2, 3) :: .content [.content ['c']] :: later ∧
      openAfter [] earlier = some sections ∧ sections.head? = some (0, 1) :=
  ((sections_balanced titles () [.heading 1 ['a'], .heading 4 ['b'], .heading 3 ['c']] none).2 _
    rfl).2.2 [(.heading 1 ['a'], [.content ['a']]), (.heading 4 ['b'], [.content ['b']])] []
    (.heading 3 ['c']) [.content ['c']] 3 rfl rfl

end Plinth.Wiki
