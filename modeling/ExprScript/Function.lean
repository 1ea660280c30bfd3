import ExprScript.Expr
import ExprScript.Ty

/-!
# Functions

* `FunctionDef`: a declared function with the types that were inferred for it;
* `FunctionTable`: the functions of a session in the order of their declaration; `find?`,
  `contains` and `declare`, which never replaces an entry.
-/

namespace ExprScript

/-- A declared function. A parameter without a type is not checked. -/
structure FunctionDef where
  name : String
  params : List String
  paramTypes : List Ty
  returnType : Ty
  body : Expr
  column : Nat

/-- The functions of a session, first declared first. -/
structure FunctionTable where
  entries : List FunctionDef

namespace FunctionTable

/-- The table of a new session. -/
def empty : FunctionTable := ⟨[]⟩

/-- The function of a name. -/
def find? (table : FunctionTable) (name : String) : Option FunctionDef :=
  table.entries.find? fun f => f.name = name

/-- Whether a name is taken. -/
def contains (table : FunctionTable) (name : String) : Bool := (table.find? name).isSome

/-- Adds a function, unless its name is taken. -/
def declare (table : FunctionTable) (f : FunctionDef) : FunctionTable :=
  if table.contains f.name then table else ⟨table.entries ++ [f]⟩

end FunctionTable

end ExprScript
