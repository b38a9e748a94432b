import ScriptMachine.Proofs.Tree.OwnNames

/-!
# The instructions of compiled code

A compiled body has few kinds of instructions (`Compile.IsEmitted`): it never jumps, yields or
throws, and has no handlers. Slots and nested functions are those that the body has.
-/

namespace ScriptMachine

open Compile

namespace Compile

/-- The instructions that a body at a level may have if it declares these functions. -/
inductive IsEmitted (level : Level) (declared : List String) : Instruction → Prop
  | number (x : Float) : IsEmitted level declared (.number x)
  | text (s : String) : IsEmitted level declared (.text s)
  | undefined : IsEmitted level declared .undefined
  | use (u : Use) : IsEmitted level declared (u.instruction (level.locals declared.toArray))
  | define {name : String} (hlevel : level = .script) (hname : name ∈ declared) :
      IsEmitted level declared (.defineName name)
  | pop : IsEmitted level declared .pop
  | dup : IsEmitted level declared .dup
  | binary (op : BinaryOp) : IsEmitted level declared (.binary op)
  | closure {index : Nat} (hindex : index < declared.length) :
      IsEmitted level declared (.closure (UInt16.ofNat index))
  | call (count : UInt16) : IsEmitted level declared (.call count)
  | ret : IsEmitted level declared .ret

variable {level : Level} {declared : List String}

theorem isEmitted_loadName (name : String) :
    IsEmitted level declared (loadName (level.locals declared.toArray) name) := by
  rw [loadName_eq]
  exact .use (.read name)

theorem isEmitted_storeName (name : String) :
    IsEmitted level declared (storeName (level.locals declared.toArray) name) := by
  rw [storeName_eq]
  exact .use (.write name)

/-- All instructions of a statement, wherever it is laid out, are of a kind. -/
def Emits (P : Instruction → Prop) (s : Statement) : Prop := ∀ p, ∀ i ∈ s.layout p, P i

namespace Emits

variable {P : Instruction → Prop} {s t : Statement}

theorem empty : Emits P .empty := by
  intro p i hi
  cases hi

theorem straight {i : Instruction} (h : i.isStraight = true) (hi : P i) :
    Emits P (.straight i h) := by
  intro p j hj
  rw [List.mem_singleton.mp hj]
  exact hi

theorem call {count : UInt16} (h : P (.call count)) : Emits P (.call count) := by
  intro p j hj
  rw [List.mem_singleton.mp hj]
  exact h

theorem ret (h : P .ret) : Emits P .ret := by
  intro p j hj
  rw [List.mem_singleton.mp hj]
  exact h

theorem sequence (hs : Emits P s) (ht : Emits P t) : Emits P (.sequence s t) := by
  intro p i hi
  rcases List.mem_append.mp hi with hi | hi
  · exact hs _ i hi
  · exact ht _ i hi

end Emits

end Compile

namespace Node

variable {level : Level} {declared : List String}

theorem emits_expressions {P : Instruction → Prop} {locals : Locals} {ns : List Node}
    (h : ∀ n ∈ ns, Emits P (n.expression locals)) : Emits P (expressions locals ns) := by
  induction ns with
  | nil =>
    rw [expressions]
    exact .empty
  | cons n rest ih =>
    obtain ⟨hn, hrest⟩ := List.forall_mem_cons.mp h
    rw [expressions]
    exact hn.sequence (ih hrest)

theorem emits_statements {P : Instruction → Prop} {locals : Locals} {ns : List Node}
    (h : ∀ n ∈ ns, Emits P (n.statement locals)) : Emits P (statements locals ns) := by
  induction ns with
  | nil =>
    rw [statements]
    exact .empty
  | cons n rest ih =>
    obtain ⟨hn, hrest⟩ := List.forall_mem_cons.mp h
    rw [statements]
    exact hn.sequence (ih hrest)

theorem IsExpression.emits {n : Node} (h : n.IsExpression) :
    Emits (IsEmitted level declared) (n.expression (level.locals declared.toArray)) := by
  induction h with
  | number _ _ x =>
    rw [expression]
    exact .straight _ (.number x)
  | text _ _ s =>
    rw [expression]
    exact .straight _ (.text s)
  | ident _ _ name =>
    rw [expression]
    exact .straight _ (isEmitted_loadName name)
  | assign _ _ name rest hvalue ih =>
    rw [expression]
    exact ih.sequence (.sequence (.straight _ .dup) (.straight _ (isEmitted_storeName name)))
  | binary _ _ op rest hleft hright ihleft ihright =>
    rw [expression]
    exact ihleft.sequence (ihright.sequence (.straight _ (.binary op)))
  | call _ _ hlength hcallee hargs ihcallee ihargs =>
    rw [expression]
    exact ihcallee.sequence
      (.sequence (.straight _ .undefined) ((emits_expressions ihargs).sequence (.call (.call _))))

theorem IsStatement.emits {n : Node} (h : n.IsStatement) :
    Emits (IsEmitted level declared) (n.statement (level.locals declared.toArray)) := by
  induction h with
  | expression _ _ rest hvalue =>
    rw [statement]
    exact hvalue.emits.sequence (.straight _ .pop)
  | ret =>
    rw [statement]
    exact .sequence (.straight _ .undefined) (.ret .ret)
  | retValue _ _ rest hvalue =>
    rw [statement]
    exact hvalue.emits.sequence (.ret .ret)
  | block _ _ hbody ih =>
    rw [statement]
    exact emits_statements ih

end Node

namespace Compile

variable {level : Level} {declared : List String}

/-- The functions are bound from an index on; those before are bound already. -/
theorem emits_bindings {names : List String} {index : Nat}
    (hnames : ∀ name ∈ names, name ∈ declared)
    (hindex : index + names.length ≤ declared.length) :
    Emits (IsEmitted level declared)
      (bindings level (level.locals declared.toArray) names index) := by
  induction names generalizing index with
  | nil => exact .empty
  | cons name rest ih =>
    obtain ⟨hname, hrest⟩ := List.forall_mem_cons.mp hnames
    rw [List.length_cons] at hindex
    have hbinding : Emits (IsEmitted level declared)
        (binding level (level.locals declared.toArray) name) := by
      cases level with
      | script => exact .straight _ (.define rfl hname)
      | function params => exact .straight _ (isEmitted_storeName name)
    exact .sequence (.straight _ (.closure (by omega)))
      (hbinding.sequence (ih hrest (by omega)))

theorem emits_bodyStatement {body : List Node}
    (h : ∀ n ∈ body.filter (!isFunction ·), n.IsStatement) :
    Emits (IsEmitted level declared) (bodyStatement level body declared) :=
  (emits_bindings (fun _ => id) (Nat.le_of_eq (Nat.zero_add _))).sequence
    (Node.emits_statements fun n hn => (h n hn).emits)

/-- What the code of a compiled body consists of. -/
theorem IsBody.isEmitted {strict : Bool} {body : List Node} {r : Routine}
    (h : IsBody strict level body r) {i : Instruction} (hi : i ∈ r.code) :
    IsEmitted level (declaredNames body) i := by
  rw [h.code, List.mem_toArray] at hi
  exact emits_bodyStatement h.statements 0 i hi

end Compile

end ScriptMachine
