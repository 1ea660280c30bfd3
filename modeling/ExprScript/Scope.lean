import ExprScript.Value

/-!
# Scopes

Variables live in frames. Every `let`, every call and every round of a loop opens one and closes it
again; a name means its innermost binding, whoever opened the frame it is in.

* `Binding`: a value and the position of its iteration cursor;
* `Frame`, `Scopes`: the variables of one frame, and the open frames, innermost first;
* `Scopes.find?`, `Scopes.define`, `Scopes.setCursor`.
-/

namespace ExprScript

/-- A variable: its value, and the element that a vector's cursor stands at once it has moved. -/
structure Binding where
  value : Value
  cursor : Option Nat

/-- The variables of one frame, in the order of their first binding. -/
abbrev Frame := List (String × Binding)

namespace Frame

/-- Binds a name, in place if it is bound already. -/
def insert (name : String) (b : Binding) : Frame → Frame
  | [] => [(name, b)]
  | entry :: rest =>
    if entry.1 = name then (name, b) :: rest else entry :: insert name b rest

/-- The frame in which names are bound to values one after the other. -/
def ofList (entries : List (String × Value)) : Frame :=
  entries.foldl (fun frame e => insert e.1 ⟨e.2, none⟩ frame) []

end Frame

/-- The open frames, innermost first. -/
abbrev Scopes := List Frame

namespace Scopes

/-- The innermost binding of a name. -/
def find? (scopes : Scopes) (name : String) : Option Binding :=
  scopes.findSome? fun frame => frame.lookup name

/-- Binds a name in the innermost frame, and opens one if there is none. A new binding replaces one
of the same frame, cursor and all. -/
def define (scopes : Scopes) (name : String) (value : Value) : Scopes :=
  match scopes with
  | [] => [Frame.insert name ⟨value, none⟩ []]
  | frame :: rest => Frame.insert name ⟨value, none⟩ frame :: rest

/-- Moves the cursor of the innermost binding of a name. -/
def setCursor (name : String) (position : Nat) : Scopes → Scopes
  | [] => []
  | frame :: rest =>
    match frame.lookup name with
    | some b => Frame.insert name { b with cursor := some position } frame :: rest
    | none => frame :: setCursor name position rest

end Scopes

end ExprScript
