import Plinth.Lib.Python.Format
import Plinth.Model.Operation

/-!
# Messages for display

`SafeFormatter` of `plinth/utils.py`, the translated message of `plinth/operation.py` and the
display of notifications of `plinth/notification.py`.
-/

namespace Plinth

open Python Exception Format

/-! ## The formatter -/

namespace SafeFormatter

variable {α : Type} (digits : Digits) (objects : Objects α) (args : List α)
  (kwargs : String → Option α)

def getValue : Nat ⊕ String → α
  | .inl index => args[index]?.getD (objects.ofStr ("?" ++ toString index ++ "?"))
  | .inr name => (kwargs name).getD (objects.ofStr ("?" ++ name ++ "?"))

def getField (fieldName : List Char) : Except Exception α :=
  match Format.getField digits objects (fun key => .ok (getValue objects args kwargs key))
      fieldName with
  | .ok value => .ok value
  | .error e =>
    if e.isinstance .attributeError ∨ e.isinstance .typeError then
      .ok (objects.ofStr ("?" ++ String.ofList fieldName ++ "?"))
    else .error e

def vformat (formatString : String) : Except Exception String :=
  Format.vformat digits objects (getField digits objects args kwargs) formatString

end SafeFormatter

/-- What the display of messages uses of Python, Django and the registered apps. -/
structure Display where
  digits : Digits
  objects : Objects Value
  gettext : String → String
  /-- `App.get(app_id).info.name` -/
  appName : String → Except Exception Value

namespace Display

variable (env : Display)

/-- A template with the data put in, or as it is when a key or an attribute is missing. -/
def formatted (template : String) (data : List (Value × Value)) : Except Exception String :=
  match SafeFormatter.vformat env.digits env.objects [] (fun key => lookup key data) template with
  | .ok text => .ok text
  | .error e =>
    if e.isinstance .keyError ∨ e.isinstance .attributeError then .ok template else .error e

end Display

/-! ## Operations -/

structure DisplayedOperation extends Operation where
  name : String
  /-- `_message` -/
  progress : Option String

namespace DisplayedOperation

def message (self : DisplayedOperation) : String :=
  match self.progress with
  | some progress => if progress = "" then stateMessage else progress
  | none => stateMessage
where
  stateMessage : String :=
    match self.exception, self.state with
    | some _, _ => "Error: \x7bname\x7d: \x7bexception\x7d"
    | none, .waiting => "Waiting to start: \x7bname\x7d"
    | none, .running => "\x7bname\x7d"
    | none, .completed => "Finished: \x7bname\x7d"

def messageData (self : DisplayedOperation) (env : Display) : List (Value × Value) :=
  [(.str "name", .str (env.gettext self.name)),
    (.str "exception", .str (self.exception.getD "None"))]

def translatedMessage (self : DisplayedOperation) (env : Display) : Except Exception String := do
  let message := env.gettext self.message
  if self.appId = "" then env.formatted message (self.messageData env)
  else do
    let appName ← env.appName self.appId
    env.formatted message (self.messageData env ++ [(.str "app_name", appName)])

end DisplayedOperation

/-! ## Notifications -/

namespace Notification

structure Action where
  text : Option String
  others : List (Value × Value)

structure Note where
  title : String
  message : String
  actions : List Action
  «data» : List (Value × Value)

structure DisplayedAction where
  text : Option (Option String)
  others : List (Value × Value)

structure Context where
  title : Option String
  message : Option String
  actions : List DisplayedAction
  «data» : List (Value × Value)

variable (env : Display)

/-- `_translate`, with an empty dictionary for no data. -/
def translate (string : String) (data : List (Value × Value)) : Except Exception (Option String) :=
  if string = "" then .ok none
  else if data.isEmpty then .ok (some (env.gettext string))
  else some <$> env.formatted (env.gettext string) data

def translatePrefix : String := "translate:"

def ofText : Option String → Value
  | some text => .str text
  | none => .none

mutual

def translateValue (data : List (Value × Value)) : Value → Except Exception Value
  | .str s =>
    if translatePrefix.toList.isPrefixOf s.toList then
      ofText <$> translate env (String.ofList (s.toList.drop translatePrefix.length)) data
    else .ok (.str s)
  | .dict items => .dict <$> translateDict data items
  | value => .ok value

def translateDict (data : List (Value × Value)) :
    List (Value × Value) → Except Exception (List (Value × Value))
  | [] => .ok []
  | (key, value) :: rest => do
      let value ← translateValue data value
      return (key, value) :: (← translateDict data rest)

end

def displayAction (data : List (Value × Value)) (action : Action) :
    Except Exception DisplayedAction :=
  match action.text with
  | none => .ok ⟨none, action.others⟩
  | some text => do
      let text ← translate env text data
      return ⟨some text, action.others⟩

/-- One turn of the loop of `get_display_context`, before the body is rendered. -/
def displayContext (note : Note) : Except Exception Context := do
  let data ← translateDict env note.data note.data
  let actions ← note.actions.mapM (displayAction env data)
  let title ← translate env note.title data
  let message ← translate env note.message data
  return { title, message, actions, data }

def getDisplayContext (notes : List Note) : Except Exception (List Context) :=
  notes.mapM (displayContext env)

end Notification

end Plinth
