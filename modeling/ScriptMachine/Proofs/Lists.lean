/-!
# Lists

What several parts of the development need to know of lists alone.
-/

namespace ScriptMachine

variable {α : Type}

/-- An element put in where the front part ends. -/
theorem insertIdx_append (front back : List α) (x : α) :
    (front ++ back).insertIdx front.length x = front ++ x :: back := by
  induction front with
  | nil => rfl
  | cons first front ih => exact congrArg (first :: ·) ih

/-- Of two cuts, the one that takes more counts. -/
theorem dropWhile_dropWhile {p q : α → Bool} (h : ∀ x, p x → q x) (l : List α) :
    (l.dropWhile p).dropWhile q = l.dropWhile q := by
  induction l with
  | nil => rfl
  | cons x l ih =>
    cases hp : p x with
    | false => rw [List.dropWhile_cons_of_neg (by simp [hp])]
    | true => rw [List.dropWhile_cons_of_pos hp, List.dropWhile_cons_of_pos (h x hp), ih]

end ScriptMachine
