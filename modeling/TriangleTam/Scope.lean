import TriangleTam.Tree.TypeDenoter

/-! # Scopes

  The names that can be used at a point of a program: a stack of scopes, of
  which the innermost is searched first. The outermost scope, that of the
  standard declarations, is never closed.
-/

namespace TriangleTam

/-- The names of one scope and their bindings, newest first. -/
abbrev Scope := List (String × BindingId)

/-- The open scopes. There is always one. -/
structure Scopes where
  innermost : Scope := []
  /-- The scopes around it, from the inside out. -/
  outer     : List Scope := []
  deriving DecidableEq, Repr

namespace Scopes

/-- The outermost scope alone, without names. -/
def empty : Scopes := {}

/-- How many scopes are open inside the outermost. -/
def level (scopes : Scopes) : Nat := scopes.outer.length

def enclose (scopes : Scopes) : Scopes := ⟨[], scopes.innermost :: scopes.outer⟩

def close (scopes : Scopes) : Scopes :=
  match scopes.outer with
  | [] => scopes
  | scope :: others => ⟨scope, others⟩

/-- The name is bound in the innermost scope. -/
def declares (scopes : Scopes) (name : String) : Bool :=
  (scopes.innermost.lookup name).isSome

/-- Bind a name in the innermost scope, whether or not it is bound there. -/
def enter (scopes : Scopes) (name : String) (id : BindingId) : Scopes :=
  { scopes with innermost := (name, id) :: scopes.innermost }

/-- The binding of a name: the latest in the innermost scope that has one. -/
def find? (scopes : Scopes) (name : String) : Option BindingId :=
  (scopes.innermost :: scopes.outer).findSome? fun scope => scope.lookup name

end Scopes

end TriangleTam
