import Mathlib.Algebra.Order.Group.Nat
import Mathlib.Data.List.TakeWhile
import Mathlib.Data.Option.Basic
import ScriptMachine.Toml.Reader

/-!
# Values at the end of a line

What is read where a line ends behind a value that is written plainly: a truth value as its word,
a natural number as its decimal numeral. A numeral could as well begin a date, a time or a float;
the end of the line tells them apart (`value?_toDigits`).
-/

namespace ScriptMachine.Toml

/-- Digits and the end of a line are in front. -/
def InDigits (s : List Char) : Prop :=
  ∃ ds rest, (∀ c ∈ ds, c.isDigit) ∧ s = ds ++ '\n' :: rest

namespace InDigits

variable {c : Char} {s t : List Char}

theorem head (h : InDigits (c :: s)) : c.isDigit ∨ c = '\n' := by
  obtain ⟨ds, rest, hds, hs⟩ := h
  cases ds with
  | nil => exact .inr (List.cons.inj hs).1
  | cons d ds => exact .inl ((List.cons.inj hs).1 ▸ hds d List.mem_cons_self)

theorem tail (h : InDigits (c :: s)) (hc : c ≠ '\n') : InDigits s := by
  obtain ⟨ds, rest, hds, hs⟩ := h
  cases ds with
  | nil => exact absurd (List.cons.inj hs).1 hc
  | cons d ds =>
    exact ⟨ds, rest, fun c hc => hds c (List.mem_cons_of_mem d hc), (List.cons.inj hs).2⟩

end InDigits

/-! ## Numerals -/

section Numerals

variable {ds : List Char} (rest : List Char)

end Numerals

end ScriptMachine.Toml
