import ScriptMachine.Proofs.Tree.Instructions

/-!
# The height of the operand stack in compiled code

Compiled code goes from one instruction to the next, so how many operands there are at a position
can be told from the instructions before it (`Routine.heightAt`). Each instruction finds its
operands, a return finds one, and at the boundaries of statements there are none:
`Compile.IsBody.fits` and `Compile.IsBody.heightAt_boundary`.
-/

namespace ScriptMachine

open Compile

/-! ## Operands of instructions -/

namespace Instruction

/-- How many operands an instruction looks at. -/
def pops : Instruction → Nat
  | .call count => count.toNat + 2
  | .ret | .throw | .yield | .jumpIfFalse _ => 1
  | .jump _ | .enterTry _ _ | .exitTry | .endFinally => 0
  | i => i.taken

/-- How many operands there are in place of those when the next instruction is reached. -/
def pushes : Instruction → Nat
  | .call _ | .yield => 1
  | .ret | .throw | .jump _ | .jumpIfFalse _ | .enterTry _ _ | .exitTry | .endFinally => 0
  | i => i.left

theorem pops_of_isStraight {i : Instruction} (h : i.isStraight = true) : i.pops = i.taken := by
  cases i with
  | jump | jumpIfFalse | enterTry | exitTry | call | ret | yield | endFinally | throw => cases h
  | _ => rfl

theorem pushes_of_isStraight {i : Instruction} (h : i.isStraight = true) : i.pushes = i.left := by
  cases i with
  | jump | jumpIfFalse | enterTry | exitTry | call | ret | yield | endFinally | throw => cases h
  | _ => rfl

end Instruction

/-- The height after instructions that each go on to the next. -/
def heightAfter (is : List Instruction) (height : Nat) : Nat :=
  is.foldl (fun n i => n - i.pops + i.pushes) height

/-- The height of the operand stack at a position. -/
def Routine.heightAt (r : Routine) (position : Nat) : Nat :=
  heightAfter (r.code.toList.take position) 0

theorem heightAfter_append (is js : List Instruction) (n : Nat) :
    heightAfter (is ++ js) n = heightAfter js (heightAfter is n) :=
  List.foldl_append

theorem Routine.heightAt_succ {r : Routine} {position : Nat} {i : Instruction}
    (h : r.code[position]? = some i) :
    r.heightAt (position + 1) = r.heightAt position - i.pops + i.pushes := by
  have hi : r.code.toList[position]? = some i := by
    rw [Array.getElem?_toList]
    exact h
  rw [heightAt, List.take_add_one, hi, heightAfter_append]
  rfl

/-! ## Instructions that find their operands -/

/-- From one height to another each instruction finds its operands, and a return finds one. -/
def Fits : List Instruction → Nat → Nat → Prop
  | [], n, k => n = k
  | i :: is, n, k => i.pops ≤ n ∧ (i = .ret → n = 1) ∧ Fits is (n - i.pops + i.pushes) k

namespace Fits

variable {is js : List Instruction} {n k l : Nat}

theorem append (h : Fits is n k) (h' : Fits js k l) : Fits (is ++ js) n l := by
  induction is generalizing n with
  | nil =>
    cases h
    exact h'
  | cons i is ih =>
    obtain ⟨hpops, hret, hrest⟩ := h
    exact ⟨hpops, hret, ih hrest⟩

theorem heightAfter_eq (h : Fits is n k) : heightAfter is n = k := by
  induction is generalizing n with
  | nil => exact h
  | cons i is ih => exact ih h.2.2

/-- An instruction finds its operands where it stands. -/
theorem getElem? (h : Fits is n k) {p : Nat} {i : Instruction} (hi : is[p]? = some i) :
    i.pops ≤ heightAfter (is.take p) n ∧ (i = .ret → heightAfter (is.take p) n = 1) := by
  induction is generalizing n p with
  | nil => cases hi
  | cons j is ih =>
    obtain ⟨hpops, hret, hrest⟩ := h
    cases p with
    | zero =>
      cases hi
      exact ⟨hpops, hret⟩
    | succ p => exact ih hrest hi

end Fits

/-- Statements that are executed from the first instruction to the last. -/
def Statement.IsLinear : Statement → Prop
  | .empty | .straight _ _ | .call _ => True
  | .sequence first second => first.IsLinear ∧ second.IsLinear
  | _ => False

/-- A balanced statement without jumps finds its operands. -/
theorem Statement.Balanced.fits {s : Statement} {n k : Nat} (h : s.Balanced n k)
    (hlinear : s.IsLinear) (p : Nat) : Fits (s.layout p) n k := by
  induction h generalizing p with
  | empty => rfl
  | straight i hi n =>
    have hpops := Instruction.pops_of_isStraight hi
    have hpushes := Instruction.pushes_of_isStraight hi
    refine ⟨by omega, ?_, ?_⟩
    · rintro rfl
      cases hi
    · show _ = _
      omega
  | sequence hfirst hsecond ihfirst ihsecond =>
    exact (ihfirst hlinear.1 p).append (ihsecond hlinear.2 _)
  | call count n =>
    refine ⟨Nat.le_add_right _ _, nofun, ?_⟩
    show _ = _
    simp only [Instruction.pops, Instruction.pushes]
    omega
  | branch | throw | ret | tryCatch | tryFinally | tryCatchFinally => cases hlinear

namespace Node

variable {locals : Locals}

theorem isLinear_expressions {ns : List Node}
    (h : ∀ n ∈ ns, (n.expression locals).IsLinear) : (expressions locals ns).IsLinear := by
  induction ns with
  | nil =>
    rw [expressions]
    trivial
  | cons n rest ih =>
    obtain ⟨hn, hrest⟩ := List.forall_mem_cons.mp h
    rw [expressions]
    exact ⟨hn, ih hrest⟩

theorem IsExpression.isLinear {n : Node} (h : n.IsExpression) :
    (n.expression locals).IsLinear := by
  induction h with
  | number | text | ident =>
    rw [expression]
    trivial
  | assign _ _ name rest hvalue ih =>
    rw [expression]
    exact ⟨ih, trivial, trivial⟩
  | binary _ _ op rest hleft hright ihleft ihright =>
    rw [expression]
    exact ⟨ihleft, ihright, trivial⟩
  | call _ _ hlength hcallee hargs ihcallee ihargs =>
    rw [expression]
    exact ⟨ihcallee, trivial, isLinear_expressions ihargs, trivial⟩

/-- An expression leaves one operand. -/
theorem IsExpression.fits {n : Node} (h : n.IsExpression) (p : Nat) :
    Fits ((n.expression locals).layout p) 0 1 :=
  (h.balanced locals 0).fits h.isLinear p

theorem fits_statements {ns : List Node}
    (h : ∀ n ∈ ns, ∀ p, Fits ((n.statement locals).layout p) 0 0) (p : Nat) :
    Fits ((statements locals ns).layout p) 0 0 := by
  induction ns generalizing p with
  | nil =>
    rw [statements]
    rfl
  | cons n rest ih =>
    obtain ⟨hn, hrest⟩ := List.forall_mem_cons.mp h
    rw [statements]
    exact (hn p).append (ih hrest _)

/-- A statement leaves no operand, and returns with one. -/
theorem IsStatement.fits {n : Node} (h : n.IsStatement) (p : Nat) :
    Fits ((n.statement locals).layout p) 0 0 := by
  induction h generalizing p with
  | expression _ _ rest hvalue =>
    rw [statement]
    exact (hvalue.fits p).append ⟨Nat.le_refl 1, nofun, rfl⟩
  | ret =>
    rw [statement]
    exact ⟨Nat.le_refl 0, nofun, Nat.le_refl 1, fun _ => rfl, rfl⟩
  | retValue _ _ rest hvalue =>
    rw [statement]
    exact (hvalue.fits p).append ⟨Nat.le_refl 1, fun _ => rfl, rfl⟩
  | block _ _ hbody ih =>
    rw [statement]
    exact fits_statements ih p

end Node

namespace Compile

theorem isLinear_bindings (level : Level) (locals : Locals) (names : List String) (index : Nat) :
    (bindings level locals names index).IsLinear := by
  induction names generalizing index with
  | nil => trivial
  | cons name rest ih =>
    refine ⟨trivial, ?_, ih _⟩
    cases level <;> trivial

theorem fits_bindings (level : Level) (locals : Locals) (names : List String) (index p : Nat) :
    Fits ((bindings level locals names index).layout p) 0 0 :=
  (balanced_bindings level locals names index).fits (isLinear_bindings level locals names index) p

variable {strict : Bool} {level : Level} {body : List Node} {r : Routine}

/-- Every instruction of a compiled body finds its operands. -/
theorem IsBody.fits (h : IsBody strict level body r) : Fits r.code.toList 0 0 := by
  rw [h.code, List.toList_toArray, bodyStatement]
  exact (fits_bindings ..).append
    (Node.fits_statements (fun n hn => (h.statements n hn).fits) _)

end Compile

/-! ## Boundaries of statements -/

/-- A position at which a statement that is laid out at `p` begins or ends, or one in it. -/
inductive Node.HasBoundary (locals : Locals) : Node → Nat → Nat → Prop
  | start (n : Node) (p : Nat) : HasBoundary locals n p p
  | finish (n : Node) (p : Nat) : HasBoundary locals n p (p + (n.statement locals).size)
  | within {n : Node} {position length p q : Nat} (before after : List Node)
      (h : HasBoundary locals n (p + (Node.statements locals before).size) q) :
      HasBoundary locals ⟨position, length, .block, before ++ n :: after⟩ p q

/-- A position between the bindings of the functions declared in a body, or at which one of its
other statements begins or ends, at any depth. -/
inductive Compile.IsBoundary (level : Level) (body : List Node) : Nat → Prop
  | binding {i : Nat} (hi : i ≤ (declaredNames body).length) : IsBoundary level body (2 * i)
  | statement {n : Node} {q : Nat} (before after : List Node)
      (hbody : body.filter (!isFunction ·) = before ++ n :: after)
      (h : n.HasBoundary (level.locals (declaredNames body).toArray)
        (2 * (declaredNames body).length +
          (Node.statements (level.locals (declaredNames body).toArray) before).size) q) :
      IsBoundary level body q

namespace Node

variable {locals : Locals}

/-- Where a statement stands among others. -/
theorem layout_statements (before : List Node) (n : Node) (after : List Node) (p : Nat) :
    (statements locals (before ++ n :: after)).layout p =
      (statements locals before).layout p ++
        ((n.statement locals).layout (p + (statements locals before).size) ++
          (statements locals after).layout
            (p + (statements locals before).size + (n.statement locals).size)) := by
  induction before generalizing p with
  | nil =>
    rw [List.nil_append, statements, statements]
    rfl
  | cons m before ih =>
    rw [List.cons_append, statements, Statement.layout, ih, statements, Statement.layout,
      List.append_assoc, Statement.size, Nat.add_assoc p]

/-- Behind statements that leave no operand, in one that has none at a position, there is none. -/
theorem heightAfter_take_statements {before after : List Node} {n : Node}
    (hbefore : ∀ m ∈ before, ∀ p, Fits ((m.statement locals).layout p) 0 0) {p q : Nat}
    (hstart : p + (statements locals before).size ≤ q)
    (hend : q ≤ p + (statements locals before).size + (n.statement locals).size)
    (h : heightAfter (((n.statement locals).layout (p + (statements locals before).size)).take
      (q - (p + (statements locals before).size))) 0 = 0) :
    heightAfter (((statements locals (before ++ n :: after)).layout p).take (q - p)) 0 = 0 := by
  have hsplit : q - p = ((statements locals before).layout p).length +
      (q - (p + (statements locals before).size)) := by
    rw [Statement.length_layout]
    omega
  have hinside : q - (p + (statements locals before).size) ≤
      ((n.statement locals).layout (p + (statements locals before).size)).length := by
    rw [Statement.length_layout]
    omega
  rw [layout_statements, hsplit, List.take_length_add_append, heightAfter_append,
    (fits_statements hbefore p).heightAfter_eq, List.take_append_of_le_length hinside, h]

theorem size_statements_le (before : List Node) (n : Node) (after : List Node) :
    (statements locals before).size + (n.statement locals).size ≤
      (statements locals (before ++ n :: after)).size := by
  have hlength := congrArg List.length (@layout_statements locals before n after 0)
  simp only [List.length_append, Statement.length_layout] at hlength
  omega

/-- There are no operands at the boundaries of a statement. -/
theorem HasBoundary.heightAfter_eq {n : Node} {p q : Nat} (h : n.HasBoundary locals p q)
    (hn : n.IsStatement) : p ≤ q ∧ q ≤ p + (n.statement locals).size ∧
      heightAfter (((n.statement locals).layout p).take (q - p)) 0 = 0 := by
  induction h with
  | start n p =>
    refine ⟨Nat.le_refl p, Nat.le_add_right p _, ?_⟩
    rw [Nat.sub_self]
    rfl
  | finish n p =>
    refine ⟨Nat.le_add_right p _, Nat.le_refl _, ?_⟩
    rw [Nat.add_sub_cancel_left, ← Statement.length_layout (n.statement locals) p, List.take_length]
    exact (hn.fits p).heightAfter_eq
  | @within n position length p q before after h ih =>
    have hstatements : ∀ m ∈ before ++ n :: after, m.IsStatement := by
      cases hn with
      | block _ _ hbody => exact hbody
    -- the statements of the block that come before leave no operand
    obtain ⟨hstart, hend, hheight⟩ := ih (hstatements n (by simp))
    have hsize := @size_statements_le locals before n after
    rw [statement]
    refine ⟨by omega, by omega, ?_⟩
    exact heightAfter_take_statements
      (fun m hm => (hstatements m (List.mem_append_left _ hm)).fits) hstart hend hheight

end Node

namespace Compile

variable {strict : Bool} {level : Level} {body : List Node} {r : Routine}

theorem size_bindings (level : Level) (locals : Locals) (names : List String) (index : Nat) :
    (bindings level locals names index).size = 2 * names.length := by
  induction names generalizing index with
  | nil => rfl
  | cons name rest ih =>
    have hbinding : (binding level locals name).size = 1 := by cases level <;> rfl
    simp only [bindings, Statement.size, ih, hbinding, List.length_cons]
    omega

theorem layout_bindings (level : Level) (locals : Locals) (names rest : List String)
    (index p : Nat) :
    (bindings level locals (names ++ rest) index).layout p =
      (bindings level locals names index).layout p ++
        (bindings level locals rest (index + names.length)).layout (p + 2 * names.length) := by
  induction names generalizing index p with
  | nil => rfl
  | cons name names ih =>
    have hbinding : (binding level locals name).size = 1 := by cases level <;> rfl
    have hindex : index + 1 + names.length = index + (names.length + 1) := by omega
    have hp : p + 1 + 1 + 2 * names.length = p + 2 * (names.length + 1) := by omega
    simp only [List.cons_append, bindings, Statement.layout, Statement.size, hbinding, ih,
      List.length_cons, hindex, hp, List.append_assoc]

/-- The functions of a body are bound one after the other, and the operand of each is gone. -/
theorem heightAfter_take_bindings (level : Level) (locals : Locals) {names : List String} {i : Nat}
    (hi : i ≤ names.length) (index p : Nat) :
    heightAfter (((bindings level locals names index).layout p).take (2 * i)) 0 = 0 := by
  have hlength : 2 * i = ((bindings level locals (names.take i) index).layout p).length := by
    rw [Statement.length_layout, size_bindings, List.length_take, Nat.min_eq_left hi]
  have hsplit := layout_bindings level locals (names.take i) (names.drop i) index p
  rw [List.take_append_drop] at hsplit
  rw [hsplit, hlength, List.take_left]
  exact (fits_bindings level locals (names.take i) index p).heightAfter_eq

/-- There are no operands at the boundaries of the statements of a body. -/
theorem IsBody.heightAt_boundary (h : IsBody strict level body r) {q : Nat}
    (hq : IsBoundary level body q) : r.heightAt q = 0 := by
  have hsize := size_bindings level (level.locals (declaredNames body).toArray)
    (declaredNames body) 0
  have hcode : r.code.toList = (bindings level (level.locals (declaredNames body).toArray)
      (declaredNames body) 0).layout 0 ++ (Node.statements (level.locals
        (declaredNames body).toArray) (body.filter (!isFunction ·))).layout
          (2 * (declaredNames body).length) := by
    rw [h.code, List.toList_toArray, bodyStatement, Statement.layout, hsize, Nat.zero_add]
  rw [Routine.heightAt, hcode]
  cases hq with
  | binding hi =>
    rw [List.take_append_of_le_length]
    · exact heightAfter_take_bindings _ _ hi 0 0
    · rw [Statement.length_layout, hsize]
      omega
  | @statement n q before after hbody hboundary =>
    -- the bindings leave no operand, and the position is in the statements behind them
    have hstatements := h.statements
    rw [hbody] at hstatements ⊢
    obtain ⟨hstart, hend, hheight⟩ := hboundary.heightAfter_eq (hstatements n (by simp))
    have hsplit : q = ((bindings level (level.locals (declaredNames body).toArray)
        (declaredNames body) 0).layout 0).length + (q - 2 * (declaredNames body).length) := by
      rw [Statement.length_layout, hsize]
      omega
    rw [hsplit, List.take_length_add_append, heightAfter_append,
      (fits_bindings ..).heightAfter_eq]
    exact Node.heightAfter_take_statements
      (fun m hm => (hstatements m (List.mem_append_left _ hm)).fits) hstart hend hheight

end Compile

end ScriptMachine
