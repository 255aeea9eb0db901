import Mathlib.Data.List.Basic

/-!
# Brackets

A text with labelled opening brackets, closing brackets and contents, read with the stack of the
brackets that are open.
-/

namespace Brackets

variable {α β γ : Type}

inductive Event (α β : Type)
  | opens (a : α)
  | closes
  | content (b : β)
  deriving DecidableEq, Repr

def step : List α → Event α β → Option (List α)
  | stack, .opens a => some (a :: stack)
  | _ :: stack, .closes => some stack
  | [], .closes => none
  | stack, .content _ => some stack

def openAfter (stack : List α) (events : List (Event α β)) : Option (List α) :=
  events.foldlM step stack

def Balanced (events : List (Event α β)) : Prop :=
  openAfter [] events = some []

theorem openAfter_cons (stack : List α) (event : Event α β) (events : List (Event α β)) :
    openAfter stack (event :: events) = (step stack event).bind (openAfter · events) :=
  rfl

theorem openAfter_append (stack : List α) (first second : List (Event α β)) :
    openAfter stack (first ++ second) = (openAfter stack first).bind (openAfter · second) :=
  List.foldlM_append

theorem openAfter_closes (stack rest : List α) :
    openAfter (stack ++ rest) (stack.map fun _ => (.closes : Event α β)) = some rest := by
  induction stack with
  | nil => rfl
  | cons a stack ih => exact ih

theorem openAfter_around {stack stack' : List α} {events : List (Event α β)}
    (ran : openAfter stack events = some stack') (around : List α) :
    openAfter (stack ++ around) events = some (stack' ++ around) := by
  induction events generalizing stack with
  | nil =>
    cases ran
    rfl
  | cons event events ih =>
    obtain ⟨middle, moved, ran⟩ := Option.bind_eq_some_iff.mp ran
    have moved' : step (stack ++ around) event = some (middle ++ around) := by
      cases event with
      | opens a =>
        cases moved
        rfl
      | content b =>
        cases moved
        rfl
      | closes =>
        cases stack with
        | nil => cases moved
        | cons a stack =>
          cases moved
          rfl
    rw [openAfter_cons, moved']
    exact ih ran

theorem Balanced.openAfter {events : List (Event α β)} (balanced : Balanced events)
    (stack : List α) : openAfter stack events = some stack :=
  openAfter_around balanced stack

def flatten : Event α (List (Event Unit γ)) → List (Event Unit γ)
  | .opens _ => [.opens ()]
  | .closes => [.closes]
  | .content written => written

theorem openAfter_flatten {stack stack' : List α} {events : List (Event α (List (Event Unit γ)))}
    (balanced : ∀ written, .content written ∈ events → Balanced written)
    (ran : openAfter stack events = some stack') :
    openAfter (stack.map fun _ => ()) (events.flatMap flatten) = some (stack'.map fun _ => ()) := by
  induction events generalizing stack with
  | nil =>
    cases ran
    rfl
  | cons event events ih =>
    obtain ⟨middle, moved, ran⟩ := Option.bind_eq_some_iff.mp ran
    have rest := ih (fun written member => balanced written (List.mem_cons_of_mem _ member)) ran
    rw [List.flatMap_cons, openAfter_append]
    cases event with
    | opens a =>
      cases moved
      exact rest
    | content written =>
      cases moved
      rw [flatten, (balanced written List.mem_cons_self).openAfter]
      exact rest
    | closes =>
      cases stack with
      | nil => cases moved
      | cons a stack =>
        cases moved
        exact rest

end Brackets
