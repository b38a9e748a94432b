/-!
# Identities

Some things are shared: two values may be the same object, two handles the same context. Such a
thing is known by an identity, and its state lives in a table of the store. Identities of
different nouns cannot be mixed up.
-/

namespace ScriptMachine

/-- What an identity stands for. -/
inductive Noun where
  | scope | rope | routine | executable | hostFunction | generator | continuation | resumption
  | context | factory | policy | listener | controller | loader | tree | thread
  deriving DecidableEq, Repr

/-- The identity of a thing: its place in the order of creation. -/
structure Id (noun : Noun) where
  index : Nat
  deriving DecidableEq, Repr, Inhabited

/-- The states of all things of one noun, by identity. -/
structure Table (noun : Noun) (α : Type) where
  entries : Array α := #[]
  deriving Inhabited

namespace Table

variable {noun : Noun} {α : Type}

/-- The state of a thing, if the table knows it. -/
def get? (t : Table noun α) (id : Id noun) : Option α := t.entries[id.index]?

/-- The state of a thing; one that was never created has the default state. -/
def get [Inhabited α] (t : Table noun α) (id : Id noun) : α := (t.get? id).getD default

/-- The identity that the next thing will have. -/
def next (t : Table noun α) : Id noun := ⟨t.entries.size⟩

/-- A new thing in its first state. -/
def insert (t : Table noun α) (a : α) : Id noun × Table noun α :=
  (t.next, ⟨t.entries.push a⟩)

/-- Change the state of a thing. -/
def modify (t : Table noun α) (id : Id noun) (f : α → α) : Table noun α :=
  ⟨t.entries.modify id.index f⟩

/-- Replace the state of a thing. -/
def set (t : Table noun α) (id : Id noun) (a : α) : Table noun α := t.modify id fun _ => a

theorem get?_insert (t : Table noun α) (a : α) (id : Id noun) :
    (t.insert a).2.get? id = if id = t.next then some a else t.get? id := by
  cases id with
  | mk i =>
    simp only [insert, get?, next, Id.mk.injEq, Array.getElem?_push]

theorem get?_modify (t : Table noun α) (id other : Id noun) (f : α → α) :
    (t.modify id f).get? other = if other = id then (t.get? other).map f else t.get? other := by
  cases id with
  | mk i =>
    cases other with
    | mk j =>
      simp only [modify, get?, Id.mk.injEq, Array.getElem?_modify]
      by_cases h : i = j
      · simp [h]
      · simp [h, Ne.symm h]

end Table

/-- Data of the embedder that is carried along without being looked at: security domains,
states attached to continuations, extensions of contexts. -/
inductive Payload where
  | text (s : String)
  | integer (n : Int)
  /-- Data that nobody can name the type of. -/
  | unknown
  deriving DecidableEq, Repr

/-- The text of a payload that is one. -/
def Payload.text? : Payload → Option String
  | .text s => some s
  | _ => none

/-- The number of a payload that is one. -/
def Payload.integer? : Payload → Option Int
  | .integer n => some n
  | _ => none

end ScriptMachine
