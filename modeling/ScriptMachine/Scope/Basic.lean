import ScriptMachine.Value.Basic

/-!
# Scopes

A scope binds names to values and may have a parent. A name is looked up in the scope, then in
its parent and so on; the nearest binding wins. Scopes are shared, and an ancestor never changes
once a scope is made, so a scope simply lists its ancestors.

* `Scopes.find?` looks a name up along the chain.
* `Scopes.put` assigns to the nearest binding and binds the name in the scope itself if there is
  none.
* `Scopes.define` and `Scopes.delete` act on the scope alone.
-/

namespace ScriptMachine

/-- The bindings of a scope, in order of definition, and its ancestors, nearest first. -/
structure Scope where
  bindings : List (String × Value) := []
  ancestors : List (Id .scope) := []
  deriving Inhabited

namespace Scope

/-- The value bound to a name. -/
def find? (s : Scope) (name : String) : Option Value := s.bindings.lookup name

/-- Whether a name is bound. -/
def has (s : Scope) (name : String) : Bool := s.bindings.any (·.1 == name)

/-- Bind a name in a list of bindings: in place if it is bound, else at the end. -/
def assign (name : String) (v : Value) : List (String × Value) → List (String × Value)
  | [] => [(name, v)]
  | b :: rest => if b.1 == name then (name, v) :: rest else b :: assign name v rest

/-- Bind a name. -/
def define (s : Scope) (name : String) (v : Value) : Scope :=
  { s with bindings := assign name v s.bindings }

/-- Remove the binding of a name. -/
def delete (s : Scope) (name : String) : Scope :=
  { s with bindings := s.bindings.filter (·.1 != name) }

/-- The bound names, in order of definition. -/
def names (s : Scope) : List String := s.bindings.map (·.1)

/-- The nearest ancestor. -/
def parent? (s : Scope) : Option (Id .scope) := s.ancestors.head?

/-- What a developer sees of a scope. -/
def inspect (s : Scope) : String :=
  "Scope \x7b names: [" ++ ", ".intercalate (s.names.map Text.quote) ++ s!"], has_parent: " ++
    s!"{s.parent?.isSome} \x7d"

end Scope

/-- All scopes. -/
abbrev Scopes := Table .scope Scope

namespace Scopes

/-- A new scope, with a parent or without one. -/
def create (t : Scopes) (parent : Option (Id .scope)) : Id .scope × Scopes :=
  let ancestors := match parent with
    | some p => p :: (t.get p).ancestors
    | none => []
  t.insert { ancestors }

/-- A scope and its ancestors, nearest first. -/
def chain (t : Scopes) (s : Id .scope) : List (Id .scope) := s :: (t.get s).ancestors

/-- The value of a name, along the chain. -/
def find? (t : Scopes) (s : Id .scope) (name : String) : Option Value :=
  (t.chain s).findSome? fun owner => (t.get owner).find? name

/-- The nearest scope of the chain that binds a name. -/
def owner? (t : Scopes) (s : Id .scope) (name : String) : Option (Id .scope) :=
  (t.chain s).find? fun owner => (t.get owner).has name

/-- Whether a name has a value along the chain. -/
def has (t : Scopes) (s : Id .scope) (name : String) : Bool := (t.owner? s name).isSome

/-- Bind a name in a scope, hiding what its ancestors bind. -/
def define (t : Scopes) (s : Id .scope) (name : String) (v : Value) : Scopes :=
  t.modify s (·.define name v)

/-- Assign to the nearest binding of a name, or bind it in the scope if there is none. -/
def put (t : Scopes) (s : Id .scope) (name : String) (v : Value) : Scopes :=
  t.define ((t.owner? s name).getD s) name v

/-- Remove a binding from a scope, answering its value. -/
def delete (t : Scopes) (s : Id .scope) (name : String) : Option Value × Scopes :=
  ((t.get s).find? name, t.modify s (·.delete name))

end Scopes

end ScriptMachine
