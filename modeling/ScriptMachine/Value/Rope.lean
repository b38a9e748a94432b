import ScriptMachine.Identity

/-!
# Ropes

A string value is flat or the concatenation of two strings that has not been carried out yet.
Ropes share their pieces. The flat text of a concatenation is computed when it is first asked
for and remembered by the identity of the rope; pieces are not remembered along the way.

`Rope.text` says what a rope stands for. `Rope.flatten` finds that text with a list of pending
pieces, so that long chains of concatenations need no deep recursion.
-/

namespace ScriptMachine

/-- A string, possibly not concatenated yet. The byte length is that of the whole text, counted
in 64 bits. -/
inductive Rope where
  | flat (s : String)
  | join (id : Id .rope) (left right : Rope)
with
  /-- The length in bytes. -/
  @[computed_field] byteLength : Rope → UInt64
    | .flat s => UInt64.ofNat s.utf8ByteSize
    | .join _ left right => left.byteLength + right.byteLength

instance : Inhabited Rope := ⟨.flat ""⟩

/-- The texts of the ropes that have been flattened. -/
abbrev FlatTexts := Table .rope (Option String)

/-- A computation that may flatten ropes and make new ones. -/
abbrev Flattening := StateM FlatTexts

namespace Rope

/-- The text that a rope stands for. -/
def text : Rope → String
  | .flat s => s
  | .join _ left right => left.text ++ right.text

/-- Number of pieces and concatenations. -/
def size : Rope → Nat
  | .flat _ => 1
  | .join _ left right => left.size + right.size + 1

/-- Number of pieces and concatenations of several ropes. -/
def sizeAll : List Rope → Nat
  | [] => 0
  | r :: rest => r.size + sizeAll rest

/-- Whether a rope has no text, going by its length. -/
def isEmpty : Rope → Bool
  | .flat s => s.isEmpty
  | r => r.byteLength == 0

/-- Whether a rope is a concatenation. -/
def isJoin : Rope → Bool
  | .flat _ => false
  | .join _ _ _ => true

/-- Append the texts of the pending pieces, in order. A concatenation that was flattened before
is not taken apart again. -/
def gather (texts : FlatTexts) : List Rope → String → String
  | [], out => out
  | .flat s :: pending, out => gather texts pending (out ++ s)
  | .join id left right :: pending, out =>
    match texts.get id with
    | some s => gather texts pending (out ++ s)
    | none => gather texts (left :: right :: pending) out
termination_by pending => sizeAll pending
decreasing_by all_goals simp only [sizeAll, size]; omega

/-- The text remembered for a concatenation. -/
def flattened? (texts : FlatTexts) : Rope → Option String
  | .flat _ => none
  | .join id _ _ => texts.get id

/-- The text of a rope, remembered if it had to be put together. -/
def flatten : Rope → Flattening String
  | .flat s => pure s
  | .join id left right => do
    let texts ← get
    match texts.get id with
    | some s => pure s
    | none =>
      let s := gather texts [left, right] ""
      set (texts.set id (some s))
      pure s

/-- A new concatenation. -/
def concat (left right : Rope) : Flattening Rope :=
  modifyGet fun texts =>
    let (id, texts) := texts.insert none
    (.join id left right, texts)

end Rope

end ScriptMachine
