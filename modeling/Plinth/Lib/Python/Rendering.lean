import Plinth.Lib.Effect
import Plinth.Lib.Python.Format

/-!
# Rules of rendering

Which pieces a format string is rendered from, and what stops the others.
-/

namespace Python.Format

open Exception

/-! ## Reading pieces -/

theorem scanName_shorter {inItem : Bool} {text name rest : List Char} {stop : Char}
    (scanned : scanName inItem text = .ok (name, stop, rest)) : rest.length < text.length := by
  induction text generalizing inItem name with
  | nil => cases inItem <;> cases scanned
  | cons c text ih =>
    cases inItem with
    | true =>
      obtain ⟨⟨name', stop', rest'⟩, found, continued⟩ := Effect.ok_of_bind scanned
      cases continued
      exact Nat.lt_succ_of_lt (ih found)
    | false =>
      rw [scanName] at scanned
      split at scanned
      · cases scanned
      split at scanned
      · cases scanned
        exact Nat.lt_succ_self _
      obtain ⟨⟨name', stop', rest'⟩, found, continued⟩ := Effect.ok_of_bind scanned
      cases continued
      exact Nat.lt_succ_of_lt (ih found)

theorem scanSpec_shorter {level : Nat} {text formatSpec rest : List Char}
    (scanned : scanSpec level text = .ok (formatSpec, rest)) : rest.length < text.length := by
  induction text generalizing level formatSpec with
  | nil => cases scanned
  | cons c text ih =>
    rw [scanSpec] at scanned
    split at scanned
    · cases scanned
      exact Nat.lt_succ_self _
    obtain ⟨⟨formatSpec', rest'⟩, found, continued⟩ := Effect.ok_of_bind scanned
    cases continued
    exact Nat.lt_succ_of_lt (ih found)

theorem scanConversion_shorter {text formatSpec rest : List Char} {conversion : Option Char}
    (scanned : scanConversion text = .ok (conversion, formatSpec, rest)) :
    rest.length < text.length := by
  rcases text with _ | ⟨c, _ | ⟨d, text⟩⟩
  · cases scanned
  · cases scanned
  · rw [scanConversion] at scanned
    split at scanned
    · cases scanned
      simp only [List.length_cons]
      omega
    split at scanned
    · obtain ⟨⟨formatSpec', rest'⟩, found, continued⟩ := Effect.ok_of_bind scanned
      cases continued
      have := scanSpec_shorter found
      simp
      omega
    · cases scanned

theorem scanField_shorter {text rest : List Char} {field : Field}
    (scanned : scanField text = .ok (field, rest)) : rest.length < text.length := by
  obtain ⟨⟨name, stop, after⟩, named, scanned⟩ := Effect.ok_of_bind scanned
  have shorter := scanName_shorter named
  dsimp only at scanned
  split at scanned
  · cases scanned
    exact shorter
  split at scanned
  · obtain ⟨⟨formatSpec, rest'⟩, found, continued⟩ := Effect.ok_of_bind scanned
    cases continued
    exact Nat.lt_trans (scanSpec_shorter found) shorter
  · obtain ⟨⟨conversion, formatSpec, rest'⟩, found, continued⟩ := Effect.ok_of_bind scanned
    cases continued
    exact Nat.lt_trans (scanConversion_shorter found) shorter

theorem scanMarkup_shorter {text rest : List Char} {markup : Markup} (nonempty : text ≠ [])
    (scanned : scanMarkup text = .ok (markup, rest)) : rest.length < text.length := by
  have dropped : (text.dropWhile fun c => !isBrace c).length ≤ text.length :=
    (List.dropWhile_suffix _).length_le
  rw [scanMarkup] at scanned
  rcases remaining : text.dropWhile (fun c => !isBrace c) with _ | ⟨c, _ | ⟨d, after⟩⟩
  · rw [remaining] at scanned
    cases scanned
    exact List.length_pos_of_ne_nil nonempty
  · rw [remaining] at scanned
    cases scanned
  · rw [remaining] at scanned dropped
    simp only [List.length_cons] at dropped
    dsimp only at scanned
    split at scanned
    · cases scanned
      omega
    split at scanned
    · cases scanned
    obtain ⟨⟨field, rest'⟩, found, continued⟩ := Effect.ok_of_bind scanned
    cases continued
    have shorter : rest'.length < (d :: after).length := scanField_shorter found
    rw [List.length_cons] at shorter
    dsimp only
    omega

theorem markupsUpTo_cons (limit : Nat) (c : Char) (text : List Char) :
    markupsUpTo (limit + 1) (c :: text) = match scanMarkup (c :: text) with
      | .error e => [.error e]
      | .ok (markup, rest) => .ok markup :: markupsUpTo limit rest := rfl

theorem markupsUpTo_enough {limit : Nat} {text : List Char} (enough : text.length ≤ limit) :
    markupsUpTo limit text = parse text := by
  induction h : text.length using Nat.strong_induction_on generalizing limit text with
  | _ length ih =>
    subst h
    rcases limit with _ | limit
    · rw [List.length_eq_zero_iff.mp (Nat.le_zero.mp enough)]
      rfl
    rcases text with _ | ⟨c, text⟩
    · rfl
    rw [parse, List.length_cons, markupsUpTo_cons, markupsUpTo_cons]
    rcases scanned : scanMarkup (c :: text) with e | ⟨markup, rest⟩
    · rfl
    have shorter := scanMarkup_shorter (List.cons_ne_nil c text) scanned
    simp only [List.length_cons] at shorter enough
    dsimp only
    rw [ih rest.length (by simpa using shorter) (by omega) rfl,
      ih rest.length (by simpa using shorter) (by omega) rfl]

theorem parse_of_scanMarkup {text rest : List Char} {markup : Markup} (nonempty : text ≠ [])
    (scanned : scanMarkup text = .ok (markup, rest)) : parse text = .ok markup :: parse rest := by
  have shorter := scanMarkup_shorter nonempty scanned
  rcases text with _ | ⟨c, text⟩
  · exact absurd rfl nonempty
  rw [parse, List.length_cons, markupsUpTo_cons, scanned]
  dsimp only
  rw [markupsUpTo_enough]
  exact Nat.le_of_lt_succ shorter

theorem parse_of_scanMarkup_error {text : List Char} {e : Exception} (nonempty : text ≠ [])
    (scanned : scanMarkup text = .error e) : parse text = [.error e] := by
  rcases text with _ | ⟨c, text⟩
  · exact absurd rfl nonempty
  rw [parse, List.length_cons, markupsUpTo_cons, scanned]

/-! ## Rules -/

section Rules

variable {α : Type} (digits : Digits) (objects : Objects α)
  (getField : List Char → Except Exception α)

inductive Renders :
    Nat → Option Nat → List (Except Exception Markup) → String → Option Nat → Prop
  | done {depth auto} : Renders (depth + 1) auto [] "" auto
  | literal {depth auto auto' literal rest text}
      (renders : Renders (depth + 1) auto rest text auto') :
      Renders (depth + 1) auto (.ok ⟨literal, none⟩ :: rest) (String.ofList literal ++ text) auto'
  | field {depth auto auto₁ auto₂ auto₃ literal field name value converted formatSpec shown rest
        text}
      (numbered : number digits auto field.name = .ok (name, auto₁))
      (found : getField name = .ok value)
      (converts : convertField objects value field.conversion = .ok converted)
      (spec : Renders depth auto₁ (parse field.formatSpec) formatSpec auto₂)
      (shows : objects.format converted formatSpec = .ok shown)
      (renders : Renders (depth + 1) auto₂ rest text auto₃) :
      Renders (depth + 1) auto (.ok ⟨literal, some field⟩ :: rest)
        (String.ofList literal ++ shown ++ text) auto₃

inductive Stops : Nat → Option Nat → List (Except Exception Markup) → Exception → Prop
  | deep {auto pieces} : Stops 0 auto pieces (ValueError "Max string recursion exceeded")
  | malformed {depth auto e rest} : Stops (depth + 1) auto (.error e :: rest) e
  | literal {depth auto literal rest e} (stops : Stops (depth + 1) auto rest e) :
      Stops (depth + 1) auto (.ok ⟨literal, none⟩ :: rest) e
  | number {depth auto literal field rest e}
      (numbered : number digits auto field.name = .error e) :
      Stops (depth + 1) auto (.ok ⟨literal, some field⟩ :: rest) e
  | find {depth auto auto₁ literal field name rest e}
      (numbered : Format.number digits auto field.name = .ok (name, auto₁))
      (found : getField name = .error e) :
      Stops (depth + 1) auto (.ok ⟨literal, some field⟩ :: rest) e
  | convert {depth auto auto₁ literal field name value rest e}
      (numbered : Format.number digits auto field.name = .ok (name, auto₁))
      (found : getField name = .ok value)
      (converts : convertField objects value field.conversion = .error e) :
      Stops (depth + 1) auto (.ok ⟨literal, some field⟩ :: rest) e
  | spec {depth auto auto₁ literal field name value converted rest e}
      (numbered : Format.number digits auto field.name = .ok (name, auto₁))
      (found : getField name = .ok value)
      (converts : convertField objects value field.conversion = .ok converted)
      (stops : Stops depth auto₁ (parse field.formatSpec) e) :
      Stops (depth + 1) auto (.ok ⟨literal, some field⟩ :: rest) e
  | «show» {depth auto auto₁ auto₂ literal field name value converted formatSpec rest e}
      (numbered : Format.number digits auto field.name = .ok (name, auto₁))
      (found : getField name = .ok value)
      (converts : convertField objects value field.conversion = .ok converted)
      (spec : Renders digits objects getField depth auto₁ (parse field.formatSpec) formatSpec auto₂)
      (shows : objects.format converted formatSpec = .error e) :
      Stops (depth + 1) auto (.ok ⟨literal, some field⟩ :: rest) e
  | later {depth auto auto₁ auto₂ literal field name value converted formatSpec shown rest e}
      (numbered : Format.number digits auto field.name = .ok (name, auto₁))
      (found : getField name = .ok value)
      (converts : convertField objects value field.conversion = .ok converted)
      (spec : Renders digits objects getField depth auto₁ (parse field.formatSpec) formatSpec auto₂)
      (shows : objects.format converted formatSpec = .ok shown)
      (stops : Stops (depth + 1) auto₂ rest e) :
      Stops (depth + 1) auto (.ok ⟨literal, some field⟩ :: rest) e

def renderPieces (depth : Nat) (auto : Option Nat) (pieces : List (Except Exception Markup)) :
    Except Exception (String × Option Nat) :=
  match depth with
  | 0 => .error (ValueError "Max string recursion exceeded")
  | depth + 1 => renderMarkups digits objects getField (render digits objects getField depth) auto pieces

theorem render_eq (depth : Nat) (auto : Option Nat) (text : List Char) :
    render digits objects getField depth auto text =
      renderPieces digits objects getField depth auto (parse text) := by
  cases depth <;> rfl

variable {digits objects getField}

theorem Renders.result {depth : Nat} {auto auto' : Option Nat}
    {pieces : List (Except Exception Markup)} {text : String}
    (renders : Renders digits objects getField depth auto pieces text auto') :
    renderPieces digits objects getField depth auto pieces = .ok (text, auto') := by
  induction renders with
  | done => rfl
  | literal _ ih =>
    simp only [renderPieces] at ih ⊢
    rw [renderMarkups]
    apply Effect.bind_of_ok rfl
    exact Effect.bind_of_ok ih rfl
  | field numbered found converts _ shows _ specified rendered =>
    simp only [renderPieces] at rendered ⊢
    rw [← render_eq] at specified
    rw [renderMarkups]
    apply Effect.bind_of_ok rfl
    apply Effect.bind_of_ok numbered
    apply Effect.bind_of_ok found
    apply Effect.bind_of_ok converts
    apply Effect.bind_of_ok specified
    apply Effect.bind_of_ok shows
    exact Effect.bind_of_ok rendered rfl

theorem Stops.result {depth : Nat} {auto : Option Nat} {pieces : List (Except Exception Markup)}
    {e : Exception} (stops : Stops digits objects getField depth auto pieces e) :
    renderPieces digits objects getField depth auto pieces = .error e := by
  induction stops with
  | deep => rfl
  | malformed =>
    rw [renderPieces, renderMarkups]
    exact Effect.bind_of_error rfl
  | literal _ ih =>
    simp only [renderPieces] at ih ⊢
    rw [renderMarkups]
    apply Effect.bind_of_ok rfl
    exact Effect.bind_of_error ih
  | number numbered =>
    rw [renderPieces, renderMarkups]
    apply Effect.bind_of_ok rfl
    exact Effect.bind_of_error numbered
  | find numbered found =>
    rw [renderPieces, renderMarkups]
    apply Effect.bind_of_ok rfl
    apply Effect.bind_of_ok numbered
    exact Effect.bind_of_error found
  | convert numbered found converts =>
    rw [renderPieces, renderMarkups]
    apply Effect.bind_of_ok rfl
    apply Effect.bind_of_ok numbered
    apply Effect.bind_of_ok found
    exact Effect.bind_of_error converts
  | spec numbered found converts _ stopped =>
    rw [← render_eq] at stopped
    rw [renderPieces, renderMarkups]
    apply Effect.bind_of_ok rfl
    apply Effect.bind_of_ok numbered
    apply Effect.bind_of_ok found
    apply Effect.bind_of_ok converts
    exact Effect.bind_of_error stopped
  | «show» numbered found converts spec shows =>
    have specified := spec.result
    rw [← render_eq] at specified
    rw [renderPieces, renderMarkups]
    apply Effect.bind_of_ok rfl
    apply Effect.bind_of_ok numbered
    apply Effect.bind_of_ok found
    apply Effect.bind_of_ok converts
    apply Effect.bind_of_ok specified
    exact Effect.bind_of_error shows
  | later numbered found converts spec shows _ stopped =>
    have specified := spec.result
    rw [← render_eq] at specified
    simp only [renderPieces] at stopped ⊢
    rw [renderMarkups]
    apply Effect.bind_of_ok rfl
    apply Effect.bind_of_ok numbered
    apply Effect.bind_of_ok found
    apply Effect.bind_of_ok converts
    apply Effect.bind_of_ok specified
    apply Effect.bind_of_ok shows
    exact Effect.bind_of_error stopped

variable (digits objects getField) in
theorem renders_or_stops (depth : Nat) (auto : Option Nat)
    (pieces : List (Except Exception Markup)) :
    (∃ text auto', Renders digits objects getField depth auto pieces text auto') ∨
      ∃ e, Stops digits objects getField depth auto pieces e := by
  induction depth generalizing auto pieces with
  | zero => exact .inr ⟨_, .deep⟩
  | succ depth deeper =>
    induction pieces generalizing auto with
    | nil => exact .inl ⟨_, _, .done⟩
    | cons piece rest later =>
      rcases piece with e | ⟨literal, field⟩
      · exact .inr ⟨e, .malformed⟩
      cases field with
      | none =>
        rcases later auto with ⟨text, auto', renders⟩ | ⟨e, stops⟩
        · exact .inl ⟨_, _, .literal renders⟩
        · exact .inr ⟨e, .literal stops⟩
      | some field =>
        rcases numbered : number digits auto field.name with e | ⟨name, auto₁⟩
        · exact .inr ⟨e, .number numbered⟩
        rcases found : getField name with e | value
        · exact .inr ⟨e, .find numbered found⟩
        rcases converts : convertField objects value field.conversion with e | converted
        · exact .inr ⟨e, .convert numbered found converts⟩
        rcases deeper auto₁ (parse field.formatSpec) with ⟨formatSpec, auto₂, spec⟩ | ⟨e, stops⟩
        · rcases shows : objects.format converted formatSpec with e | shown
          · exact .inr ⟨e, .show numbered found converts spec shows⟩
          rcases later auto₂ with ⟨text, auto₃, renders⟩ | ⟨e, stops⟩
          · exact .inl ⟨_, _, .field numbered found converts spec shows renders⟩
          · exact .inr ⟨e, .later numbered found converts spec shows stops⟩
        · exact .inr ⟨e, .spec numbered found converts stops⟩

theorem vformat_ok_iff {formatString text : String} :
    vformat digits objects getField formatString = .ok text ↔
      ∃ auto, Renders digits objects getField 3 (some 0) (parse formatString.toList) text auto := by
  rw [vformat, render_eq]
  rcases renders_or_stops digits objects getField 3 (some 0) (parse formatString.toList) with
    ⟨text', auto', renders⟩ | ⟨e, stops⟩
  · rw [renders.result]
    constructor
    · intro h
      cases h
      exact ⟨auto', renders⟩
    · rintro ⟨auto, other⟩
      have := renders.result.symm.trans other.result
      cases this
      rfl
  · rw [stops.result]
    constructor
    · intro h
      cases h
    · rintro ⟨auto, other⟩
      cases stops.result.symm.trans other.result

theorem vformat_error_iff {formatString : String} {e : Exception} :
    vformat digits objects getField formatString = .error e ↔
      Stops digits objects getField 3 (some 0) (parse formatString.toList) e := by
  rw [vformat, render_eq]
  rcases renders_or_stops digits objects getField 3 (some 0) (parse formatString.toList) with
    ⟨text', auto', renders⟩ | ⟨e', stops⟩
  · rw [renders.result]
    constructor
    · intro h
      cases h
    · intro other
      cases renders.result.symm.trans other.result
  · rw [stops.result]
    constructor
    · intro h
      cases h
      exact stops
    · intro other
      cases stops.result.symm.trans other.result
      rfl

end Rules

/-! ## Plain placeholders -/

inductive Segment
  | char (c : Char)
  | placeholder (key : List Char)
  deriving DecidableEq, Repr

def Segment.source : Segment → List Char
  | .char c => if isBrace c then [c, c] else [c]
  | .placeholder key => '\x7b' :: (key ++ ['\x7d'])

def source (segments : List Segment) : List Char :=
  segments.flatMap Segment.source

def Segment.shown (text : List Char → String) : Segment → String
  | .char c => String.singleton c
  | .placeholder key => text key

def substitute (text : List Char → String) : List Segment → String
  | [] => ""
  | segment :: rest => segment.shown text ++ substitute text rest

structure IsPlain (digits : Digits) (key : List Char) : Prop where
  nonempty : key ≠ []
  name : getInteger digits key = .ok none
  simple : ∀ c ∈ key, isBrace c = false ∧ endsName c = false ∧ c ≠ ':' ∧ c ≠ '!'

section Plain

theorem scanMarkup_char {c : Char} (plain : isBrace c = false) (text : List Char) :
    scanMarkup (c :: text) =
      (scanMarkup text).map fun found => (⟨c :: found.1.literal, found.1.field⟩, found.2) := by
  have taken : (c :: text).takeWhile (fun c => !isBrace c) =
      c :: text.takeWhile fun c => !isBrace c := by
    simp [plain]
  have dropped : (c :: text).dropWhile (fun c => !isBrace c) =
      text.dropWhile fun c => !isBrace c := by
    simp [plain]
  rw [scanMarkup, scanMarkup, taken, dropped]
  rcases text.dropWhile fun c => !isBrace c with _ | ⟨d, _ | ⟨d', rest⟩⟩
  · rfl
  · rfl
  · dsimp only
    split
    · rfl
    split
    · rfl
    rcases scanField (d' :: rest) with e | ⟨field, rest⟩ <;> rfl

theorem scanMarkup_escape {c : Char} (brace : isBrace c = true) (text : List Char) :
    scanMarkup (c :: c :: text) = .ok (⟨[c], none⟩, text) := by
  simp [scanMarkup, brace]

theorem scanName_plain {key : List Char} {digits : Digits} (plain : IsPlain digits key)
    (text : List Char) : scanName false (key ++ '\x7d' :: text) = .ok (key, '\x7d', text) := by
  have simple := plain.simple
  clear plain
  induction key with
  | nil => rfl
  | cons c key ih =>
    obtain ⟨brace, ends, colon, bang⟩ := simple c List.mem_cons_self
    simp only [isBrace, decide_eq_false_iff_not, not_or] at brace
    simp only [endsName, decide_eq_false_iff_not, not_or] at ends
    rw [List.cons_append, scanName, if_neg brace.1, if_neg]
    · rw [decide_eq_false ends.2]
      exact Effect.bind_of_ok (ih fun d member => simple d (List.mem_cons_of_mem _ member)) rfl
    · rintro (h | h | h)
      · exact brace.2 h
      · exact colon h
      · exact bang h

theorem scanMarkup_placeholder {key : List Char} {digits : Digits} (plain : IsPlain digits key)
    (text : List Char) :
    scanMarkup ('\x7b' :: (key ++ '\x7d' :: text)) = .ok (⟨[], some ⟨key, [], none⟩⟩, text) := by
  rcases key with _ | ⟨c, key⟩
  · exact absurd rfl plain.nonempty
  have ordinary := (plain.simple c List.mem_cons_self).1
  simp only [isBrace, decide_eq_false_iff_not, not_or] at ordinary
  have field : scanField (c :: key ++ '\x7d' :: text) = .ok (⟨c :: key, [], none⟩, text) := by
    apply Effect.bind_of_ok (scanName_plain plain text)
    rfl
  rw [List.cons_append] at field ⊢
  rw [scanMarkup]
  simp only [show isBrace '\x7b' = true from rfl, Bool.not_true, List.takeWhile_cons,
    List.dropWhile_cons, Bool.false_eq_true, if_false]
  rw [if_neg (Ne.symm ordinary.1), if_neg (by decide)]
  exact Effect.bind_of_ok field rfl

variable {α : Type} {digits : Digits} {objects : Objects α}
  {getField : List Char → Except Exception α}

theorem number_plain {auto : Option Nat} {key : List Char} (plain : IsPlain digits key)
    (manual : auto = none ∨ auto = some 0) :
    ∃ auto', number digits auto key = .ok (key, auto') ∧ (auto' = none ∨ auto' = some 0) := by
  simp only [number, if_neg plain.nonempty]
  split
  · rcases manual with rfl | rfl
    · exact ⟨none, rfl, .inl rfl⟩
    · exact ⟨none, rfl, .inl rfl⟩
  · exact ⟨auto, rfl, manual⟩

theorem Renders.char {depth : Nat} {auto auto' : Option Nat} {text : List Char} {shown : String}
    {c : Char} (ordinary : isBrace c = false)
    (renders : Renders digits objects getField (depth + 1) auto (parse text) shown auto') :
    Renders digits objects getField (depth + 1) auto (parse (c :: text))
      (String.singleton c ++ shown) auto' := by
  have joined : ∀ literal, String.ofList (c :: literal) = String.singleton c ++ String.ofList literal := by
    intro literal
    apply String.ext
    simp
  rcases text with _ | ⟨d, text⟩
  · cases renders
    have scanned : scanMarkup [c] = .ok (⟨[c], none⟩, []) := by
      rw [scanMarkup_char ordinary]
      rfl
    rw [parse_of_scanMarkup (List.cons_ne_nil c []) scanned]
    exact .literal .done
  · have scanned := scanMarkup_char ordinary (d :: text)
    rcases tail : scanMarkup (d :: text) with e | ⟨⟨literal, field⟩, rest⟩
    · rw [parse_of_scanMarkup_error (List.cons_ne_nil d text) tail] at renders
      cases renders
    · rw [tail] at scanned
      rw [parse_of_scanMarkup (List.cons_ne_nil d text) tail] at renders
      rw [parse_of_scanMarkup (List.cons_ne_nil c _) scanned]
      cases renders with
      | literal renders =>
        rw [← String.append_assoc, ← joined]
        exact .literal renders
      | field numbered found converts spec shows renders =>
        rw [← String.append_assoc, ← String.append_assoc, ← joined]
        exact .field numbered found converts spec shows renders

theorem renders_substitute {text : List Char → String} {value : List Char → α} {depth : Nat}
    {auto : Option Nat} {segments : List Segment}
    (plain : ∀ key, .placeholder key ∈ segments → IsPlain digits key)
    (found : ∀ key, .placeholder key ∈ segments → getField key = .ok (value key))
    (shown : ∀ key, .placeholder key ∈ segments → objects.format (value key) "" = .ok (text key))
    (manual : auto = none ∨ auto = some 0) :
    ∃ auto', Renders digits objects getField (depth + 2) auto (parse (source segments))
      (substitute text segments) auto' := by
  induction segments generalizing auto with
  | nil => exact ⟨auto, .done⟩
  | cons segment segments ih =>
    have later : ∀ {auto}, auto = none ∨ auto = some 0 → ∃ auto',
        Renders digits objects getField (depth + 2) auto (parse (source segments))
          (substitute text segments) auto' := by
      intro auto manual
      exact ih (fun key member => plain key (List.mem_cons_of_mem _ member))
        (fun key member => found key (List.mem_cons_of_mem _ member))
        (fun key member => shown key (List.mem_cons_of_mem _ member)) manual
    rw [source, List.flatMap_cons, ← source, substitute]
    cases segment with
    | char c =>
      obtain ⟨auto', renders⟩ := later manual
      rw [Segment.source]
      split
      · rename_i brace
        have scanned := scanMarkup_escape brace (source segments)
        rw [List.cons_append, List.cons_append, List.nil_append,
          parse_of_scanMarkup (List.cons_ne_nil _ _) scanned]
        exact ⟨auto', .literal renders⟩
      · rename_i ordinary
        exact ⟨auto', renders.char (eq_false_of_ne_true ordinary)⟩
    | placeholder key =>
      have member : Segment.placeholder key ∈ Segment.placeholder key :: segments :=
        List.mem_cons_self
      obtain ⟨auto₁, numbered, manual⟩ := number_plain (plain key member) manual
      obtain ⟨auto', renders⟩ := later manual
      have scanned := scanMarkup_placeholder (plain key member) (source segments)
      rw [Segment.source, List.cons_append, List.append_assoc, List.cons_append,
        List.nil_append, parse_of_scanMarkup (List.cons_ne_nil _ _) scanned]
      refine ⟨auto', ?_⟩
      exact .field numbered (found key member) rfl .done (shown key member) renders

end Plain

end Python.Format
