import Plinth.Lib.Python.Rendering
import Plinth.Model.Messages
import Mathlib.Data.List.TakeWhile

/-! # Which messages are displayed -/

namespace Plinth

open Python Exception Format

namespace Display

variable (env : Display)

def fields (data : List (Value × Value)) : List Char → Except Exception Value :=
  SafeFormatter.getField env.digits env.objects [] fun key => lookup key data

inductive Shows (template : String) (data : List (Value × Value)) : String → Prop
  | rendered {text auto}
      (renders : Renders env.digits env.objects (env.fields data) 3 (some 0)
        (parse template.toList) text auto) : Shows template data text
  | unfinished {e}
      (stops : Stops env.digits env.objects (env.fields data) 3 (some 0) (parse template.toList) e)
      (missing : e.isinstance .keyError ∨ e.isinstance .attributeError) :
      Shows template data template

def CanShow (template : String) (data : List (Value × Value)) : Prop :=
  ∃ text, env.Shows template data text

theorem formatted_iff {template text : String} {data : List (Value × Value)} :
    env.formatted template data = .ok text ↔ env.Shows template data text := by
  have returned : ∀ text', SafeFormatter.vformat env.digits env.objects []
      (fun key => lookup key data) template = .ok text' ↔
        ∃ auto, Renders env.digits env.objects (env.fields data) 3 (some 0)
          (parse template.toList) text' auto := fun text' => vformat_ok_iff
  have raised : ∀ e, SafeFormatter.vformat env.digits env.objects []
      (fun key => lookup key data) template = .error e ↔
        Stops env.digits env.objects (env.fields data) 3 (some 0) (parse template.toList) e :=
    fun e => vformat_error_iff
  rw [formatted]
  constructor
  · intro shown
    split at shown
    · rename_i text' result
      obtain ⟨auto, renders⟩ := (returned text').mp result
      cases shown
      exact .rendered renders
    · rename_i e result
      split at shown
      · cases shown
        exact .unfinished ((raised e).mp result) ‹_›
      · cases shown
  · intro shows
    cases shows with
    | rendered renders => rw [(returned text).mpr ⟨_, renders⟩]
    | unfinished stops missing =>
      rw [(raised _).mpr stops]
      exact if_pos missing

def Substitutes (data : List (Value × Value)) (template shown : String) : Prop :=
  ∃ (segments : List Segment) (value : List Char → Value) (text : List Char → String),
    template = String.ofList (source segments) ∧
    shown = substitute text segments ∧
    ∀ key, .placeholder key ∈ segments → IsPlain env.digits key ∧
      lookup (String.ofList key) data = some (value key) ∧
      env.objects.format (value key) "" = .ok (text key)

theorem fields_plain {data : List (Value × Value)} {key : List Char} {value : Value}
    (plain : IsPlain env.digits key) (found : lookup (String.ofList key) data = some value) :
    env.fields data key = .ok value := by
  have ends : ∀ c ∈ key, !endsName c := by
    intro c member
    rw [(plain.simple c member).2.1]
    rfl
  have taken : key.takeWhile (fun c => !endsName c) = key := List.takeWhile_eq_self_iff.mpr ends
  have dropped : key.dropWhile (fun c => !endsName c) = [] := List.dropWhile_eq_nil_iff.mpr ends
  have result : Format.getField env.digits env.objects
      (fun key => .ok (SafeFormatter.getValue env.objects [] (fun key => lookup key data) key))
      key = .ok value := by
    rw [Format.getField, taken, dropped]
    apply Effect.bind_of_ok (a := Sum.inr (String.ofList key))
    · rw [indexOrName, plain.name]
      rfl
    · simp [SafeFormatter.getValue, found, accessRest, bind, Except.bind]
  rw [fields, SafeFormatter.getField, result]

theorem formatted_of_substitutes {data : List (Value × Value)} {template shown : String}
    (substitutes : env.Substitutes data template shown) :
    env.formatted template data = .ok shown := by
  obtain ⟨segments, value, text, rfl, rfl, plain⟩ := substitutes
  have found : ∀ key, .placeholder key ∈ segments → env.fields data key = .ok (value key) := by
    intro key member
    obtain ⟨simple, present, _⟩ := plain key member
    exact env.fields_plain simple present
  have renders : ∃ auto, Renders env.digits env.objects (env.fields data) 3 (some 0)
      (parse (source segments)) (substitute text segments) auto :=
    renders_substitute (fun key member => (plain key member).1) found
      (fun key member => (plain key member).2.2) (.inr rfl)
  obtain ⟨auto, renders⟩ := renders
  rw [← String.toList_ofList (l := source segments)] at renders
  exact env.formatted_iff.mpr (.rendered renders)

end Display

/-! ## Operations -/

namespace DisplayedOperation

def HasData (operation : DisplayedOperation) (env : Display) (data : List (Value × Value)) : Prop :=
  (operation.appId = "" ∧ data = operation.messageData env) ∨
    operation.appId ≠ "" ∧ ∃ appName, env.appName operation.appId = .ok appName ∧
      data = operation.messageData env ++ [(.str "app_name", appName)]

theorem translatedMessage_of_data {operation : DisplayedOperation} {env : Display}
    {data : List (Value × Value)} (has : operation.HasData env data) :
    operation.translatedMessage env = env.formatted (env.gettext operation.message) data := by
  rcases has with ⟨noApp, rfl⟩ | ⟨app, appName, found, rfl⟩
  · rw [translatedMessage, if_pos noApp]
  · rw [translatedMessage, if_neg app]
    exact Effect.bind_of_ok found rfl

theorem data_of_translatedMessage {operation : DisplayedOperation} {env : Display} {text : String}
    (translated : operation.translatedMessage env = .ok text) :
    ∃ data, operation.HasData env data := by
  by_cases noApp : operation.appId = ""
  · exact ⟨_, .inl ⟨noApp, rfl⟩⟩
  · rw [translatedMessage, if_neg noApp] at translated
    obtain ⟨appName, found, _⟩ := Effect.ok_of_bind translated
    exact ⟨_, .inr ⟨noApp, appName, found, rfl⟩⟩

theorem translatedMessage_returns_iff (operation : DisplayedOperation) (env : Display) :
    (∃ text, operation.translatedMessage env = .ok text) ↔
      ∃ data, operation.HasData env data ∧ env.CanShow (env.gettext operation.message) data := by
  constructor
  · rintro ⟨text, translated⟩
    obtain ⟨data, has⟩ := data_of_translatedMessage translated
    rw [translatedMessage_of_data has] at translated
    exact ⟨data, has, text, env.formatted_iff.mp translated⟩
  · rintro ⟨data, has, text, shows⟩
    exact ⟨text, (translatedMessage_of_data has).trans (env.formatted_iff.mpr shows)⟩

end DisplayedOperation

/-! ## Notifications -/

namespace Notification

variable (env : Display)

inductive Translates (string : String) (data : List (Value × Value)) : Option String → Prop
  | empty (noString : string = "") : Translates string data none
  | unformatted (someString : string ≠ "") (noData : data = []) :
      Translates string data (some (env.gettext string))
  | formatted {text} (someString : string ≠ "") (someData : data ≠ [])
      (shows : env.Shows (env.gettext string) data text) : Translates string data (some text)

mutual

inductive TranslatesValue (data : List (Value × Value)) : Value → Value → Prop
  | text {s text} (marked : translatePrefix.toList.isPrefixOf s.toList = true)
      (translates : Translates env (String.ofList (s.toList.drop translatePrefix.length)) data text) :
      TranslatesValue data (.str s) (ofText text)
  | dict {items items'} (translates : TranslatesDict data items items') :
      TranslatesValue data (.dict items) (.dict items')
  | other {value} (unmarked : ∀ s, value = .str s →
      translatePrefix.toList.isPrefixOf s.toList = false) (noDict : ∀ items, value ≠ .dict items) :
      TranslatesValue data value value

inductive TranslatesDict (data : List (Value × Value)) :
    List (Value × Value) → List (Value × Value) → Prop
  | nil : TranslatesDict data [] []
  | cons {key value value' rest rest'} (translates : TranslatesValue data value value')
      (later : TranslatesDict data rest rest') :
      TranslatesDict data ((key, value) :: rest) ((key, value') :: rest')

end

structure CanDisplay (note : Note) (data : List (Value × Value)) : Prop where
  dict : TranslatesDict env note.data note.data data
  actions : ∀ action ∈ note.actions, ∀ text, action.text = some text →
    ∃ text', Translates env text data text'
  title : ∃ text, Translates env note.title data text
  message : ∃ text, Translates env note.message data text

theorem translate_iff {string : String} {data : List (Value × Value)} {result : Option String} :
    translate env string data = .ok result ↔ Translates env string data result := by
  rw [translate]
  constructor
  · intro translated
    split at translated
    · cases translated
      exact .empty ‹_›
    split at translated
    · cases translated
      exact .unformatted ‹_› (List.isEmpty_iff.mp ‹_›)
    · rename_i someString someData
      rcases shown : env.formatted (env.gettext string) data with e | text
      · rw [shown] at translated
        cases translated
      · rw [shown] at translated
        cases translated
        apply Translates.formatted someString _ (env.formatted_iff.mp shown)
        exact fun noData => someData (List.isEmpty_iff.mpr noData)
  · intro translates
    cases translates with
    | empty noString => rw [if_pos noString]
    | unformatted someString noData => rw [if_neg someString, if_pos (List.isEmpty_iff.mpr noData)]
    | formatted someString someData shows =>
      rw [if_neg someString, if_neg fun noData => someData (List.isEmpty_iff.mp noData),
        env.formatted_iff.mpr shows]
      rfl

mutual

theorem translateValue_iff (data : List (Value × Value)) (value value' : Value) :
    translateValue env data value = .ok value' ↔ TranslatesValue env data value value' := by
  cases value with
  | str s =>
    rw [translateValue]
    split
    · rename_i marked
      constructor
      · intro translated
        rcases found : translate env (String.ofList (s.toList.drop translatePrefix.length)) data
          with e | text
        · rw [found] at translated
          cases translated
        · rw [found] at translated
          cases translated
          exact .text marked ((translate_iff env).mp found)
      · intro translates
        cases translates with
        | text _ translates => rw [(translate_iff env).mpr translates]; rfl
        | other unmarked => rw [unmarked s rfl] at marked; cases marked
    · rename_i unmarked
      constructor
      · intro translated
        cases translated
        apply TranslatesValue.other
        · intro s' same
          cases same
          exact eq_false_of_ne_true unmarked
        · intro items
          exact Value.noConfusion
      · intro translates
        cases translates with
        | text marked => exact absurd marked unmarked
        | other => rfl
  | dict items =>
    rw [translateValue]
    constructor
    · intro translated
      rcases found : translateDict env data items with e | items'
      · rw [found] at translated
        cases translated
      · rw [found] at translated
        cases translated
        exact .dict ((translateDict_iff data items items').mp found)
    · intro translates
      cases translates with
      | dict translates => rw [(translateDict_iff data items _).mpr translates]; rfl
      | other _ noDict => exact absurd rfl (noDict items)
  | _ =>
    constructor
    · intro translated
      cases translated
      exact .other (fun _ => Value.noConfusion) fun _ => Value.noConfusion
    · intro translates
      cases translates
      rfl

theorem translateDict_iff (data items items' : List (Value × Value)) :
    translateDict env data items = .ok items' ↔ TranslatesDict env data items items' := by
  cases items with
  | nil =>
    constructor
    · intro translated
      cases translated
      exact .nil
    · intro translates
      cases translates
      rfl
  | cons item rest =>
    obtain ⟨key, value⟩ := item
    rw [translateDict]
    constructor
    · intro translated
      obtain ⟨value', found, translated⟩ := Effect.ok_of_bind translated
      obtain ⟨rest', later, translated⟩ := Effect.ok_of_bind translated
      cases translated
      exact .cons ((translateValue_iff data value value').mp found)
        ((translateDict_iff data rest rest').mp later)
    · intro translates
      cases translates with
      | cons translates later =>
        apply Effect.bind_of_ok ((translateValue_iff data value _).mpr translates)
        exact Effect.bind_of_ok ((translateDict_iff data rest _).mpr later) rfl

end

theorem displayAction_returns_iff {data : List (Value × Value)} {action : Action} :
    (∃ displayed, displayAction env data action = .ok displayed) ↔
      ∀ text, action.text = some text → ∃ text', Translates env text data text' := by
  rw [displayAction]
  cases action.text with
  | none =>
    constructor
    · rintro _ text ⟨⟩
    · intro _
      exact ⟨_, rfl⟩
  | some text =>
    constructor
    · rintro ⟨displayed, h⟩ _ ⟨⟩
      obtain ⟨text', translated, _⟩ := Effect.ok_of_bind h
      exact ⟨text', (translate_iff env).mp translated⟩
    · intro h
      obtain ⟨text', translates⟩ := h text rfl
      exact ⟨_, Effect.bind_of_ok ((translate_iff env).mpr translates) rfl⟩

theorem displayContext_returns_iff {note : Note} :
    (∃ context, displayContext env note = .ok context) ↔ ∃ data, CanDisplay env note data := by
  have actions_iff : ∀ data, (∃ actions, note.actions.mapM (displayAction env data) = .ok actions) ↔
      ∀ action ∈ note.actions, ∀ text, action.text = some text →
        ∃ text', Translates env text data text' := by
    intro data
    rw [Effect.mapM_returns_iff]
    simp only [displayAction_returns_iff]
  constructor
  · rintro ⟨context, h⟩
    obtain ⟨data, dict, h⟩ := Effect.ok_of_bind h
    obtain ⟨actions, displayed, h⟩ := Effect.ok_of_bind h
    obtain ⟨title, titled, h⟩ := Effect.ok_of_bind h
    obtain ⟨message, messaged, _⟩ := Effect.ok_of_bind h
    exact ⟨data, (translateDict_iff env _ _ _).mp dict, (actions_iff data).mp ⟨actions, displayed⟩,
      ⟨title, (translate_iff env).mp titled⟩, message, (translate_iff env).mp messaged⟩
  · rintro ⟨data, dict, actions, ⟨title, titled⟩, message, messaged⟩
    obtain ⟨actions, displayed⟩ := (actions_iff data).mpr actions
    refine ⟨⟨title, message, actions, data⟩, ?_⟩
    apply Effect.bind_of_ok ((translateDict_iff env _ _ _).mpr dict)
    apply Effect.bind_of_ok displayed
    apply Effect.bind_of_ok ((translate_iff env).mpr titled)
    exact Effect.bind_of_ok ((translate_iff env).mpr messaged) rfl

theorem getDisplayContext_returns_iff {notes : List Note} :
    (∃ contexts, getDisplayContext env notes = .ok contexts) ↔
      ∀ note ∈ notes, ∃ data, CanDisplay env note data := by
  rw [getDisplayContext, Effect.mapM_returns_iff]
  simp only [displayContext_returns_iff]

end Notification

def plainDisplay : Display where
  digits :=
    { decimal := fun c => if c.isDigit then some (c.toNat - '0'.toNat) else none
      isdigit := Char.isDigit }
  objects :=
    { ofStr := .str
      getattr := fun value name => .error (AttributeError
        ("'" ++ value.className ++ "' object has no attribute '" ++ name ++ "'"))
      getitem := fun value key => match key with
        | .inl _ => .error (IndexError "string index out of range")
        | .inr key => getItem value key
      str := fun value => match value with
        | .str s => .ok s
        | value => .ok value.className
      repr := fun value => .ok value.className
      ascii := fun value => .ok value.className
      format := fun value formatSpec => match value with
        | .str s => if formatSpec = "" then .ok s else .error (ValueError "Invalid format specifier")
        | value => .error (TypeError ("unsupported format string passed to " ++ value.className)) }
  gettext := id
  appName := fun appId => .ok (.str appId)

/-- The app failed to uninstall with a `SyntaxError`. -/
def failedUninstall : DisplayedOperation where
  opId := "ttrss-uninstall"
  appId := "ttrss"
  showMessage := true
  showNotification := true
  state := .completed
  exception := some "unmatched '\x7d'"
  thread := .ended
  name := "Uninstalling app"
  progress := some "Error uninstalling app: unmatched '\x7d'"

end Plinth
