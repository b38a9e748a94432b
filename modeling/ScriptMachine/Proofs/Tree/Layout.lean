import Mathlib.Data.List.Forall2
import ScriptMachine.Proofs.Structured.Statement
import ScriptMachine.Tree.Compile

/-!
# A compiled tree is a laid out statement

The compiler emits instructions one by one; the statement that they lay out is given here for
every node that compiles, and `Compile.function_eq` says so of whole functions: their code, their
slots and the functions nested in them.
-/

namespace ScriptMachine

/-! ## Statements of nodes -/

namespace Compile

theorem isStraight_loadName (locals : Locals) (name : String) :
    (loadName locals name).isStraight = true := by
  unfold loadName
  split <;> rfl

theorem isStraight_storeName (locals : Locals) (name : String) :
    (storeName locals name).isStraight = true := by
  unfold storeName
  split <;> rfl

end Compile

namespace Node

open Compile

mutual

/-- What an expression is compiled to. -/
def expression (locals : Locals) (n : Node) : Statement :=
  match n with
  | ⟨_, _, .number x, _⟩ => .straight (.number x) rfl
  | ⟨_, _, .text s, _⟩ => .straight (.text s) rfl
  | ⟨_, _, .ident name, _⟩ => .straight (loadName locals name) (isStraight_loadName locals name)
  | ⟨_, _, .assign name, value :: _⟩ =>
    .sequence (expression locals value)
      (.sequence (.straight .dup rfl)
        (.straight (storeName locals name) (isStraight_storeName locals name)))
  | ⟨_, _, .binary op, left :: right :: _⟩ =>
    .sequence (expression locals left)
      (.sequence (expression locals right) (.straight (.binary op) rfl))
  | ⟨_, _, .call, callee :: args⟩ =>
    .sequence (expression locals callee)
      (.sequence (.straight .undefined rfl)
        (.sequence (expressions locals args) (.call (UInt16.ofNat args.length))))
  | _ => .empty

/-- What several expressions are compiled to. -/
def expressions (locals : Locals) (ns : List Node) : Statement :=
  match ns with
  | [] => .empty
  | n :: rest => .sequence (expression locals n) (expressions locals rest)

end

mutual

/-- What a statement is compiled to. -/
def statement (locals : Locals) (n : Node) : Statement :=
  match n with
  | ⟨_, _, .expressionStatement, value :: _⟩ =>
    .sequence (expression locals value) (.straight .pop rfl)
  | ⟨_, _, .ret, value :: _⟩ => .sequence (expression locals value) .ret
  | ⟨_, _, .ret, []⟩ => .sequence (.straight .undefined rfl) .ret
  | ⟨_, _, .block, body⟩ => statements locals body
  | _ => .empty

/-- What several statements are compiled to. -/
def statements (locals : Locals) (ns : List Node) : Statement :=
  match ns with
  | [] => .empty
  | n :: rest => .sequence (statement locals n) (statements locals rest)

end

/-- Nodes that compile to an expression. Children that no kind asks for do not matter. -/
inductive IsExpression : Node → Prop
  | number (position length : Nat) (x : Float) (children : List Node) :
      IsExpression ⟨position, length, .number x, children⟩
  | text (position length : Nat) (s : String) (children : List Node) :
      IsExpression ⟨position, length, .text s, children⟩
  | ident (position length : Nat) (name : String) (children : List Node) :
      IsExpression ⟨position, length, .ident name, children⟩
  | assign (position length : Nat) (name : String) {value : Node} (rest : List Node)
      (hvalue : IsExpression value) :
      IsExpression ⟨position, length, .assign name, value :: rest⟩
  | binary (position length : Nat) (op : BinaryOp) {left right : Node} (rest : List Node)
      (hleft : IsExpression left) (hright : IsExpression right) :
      IsExpression ⟨position, length, .binary op, left :: right :: rest⟩
  | call (position length : Nat) {callee : Node} {args : List Node}
      (hlength : args.length < operandRange) (hcallee : IsExpression callee)
      (hargs : ∀ n ∈ args, IsExpression n) :
      IsExpression ⟨position, length, .call, callee :: args⟩

/-- Nodes that compile to a statement. -/
inductive IsStatement : Node → Prop
  | expression (position length : Nat) {value : Node} (rest : List Node)
      (hvalue : IsExpression value) :
      IsStatement ⟨position, length, .expressionStatement, value :: rest⟩
  | ret (position length : Nat) : IsStatement ⟨position, length, .ret, []⟩
  | retValue (position length : Nat) {value : Node} (rest : List Node)
      (hvalue : IsExpression value) : IsStatement ⟨position, length, .ret, value :: rest⟩
  | block (position length : Nat) {body : List Node} (hbody : ∀ n ∈ body, IsStatement n) :
      IsStatement ⟨position, length, .block, body⟩

end Node

namespace Compile

/-- What binding a declared function is compiled to. -/
def binding (level : Level) (locals : Locals) (name : String) : Statement :=
  match level with
  | .script => .straight (.defineName name) rfl
  | .function _ => .straight (storeName locals name) (isStraight_storeName locals name)

/-- What binding declared functions is compiled to, from an index on. -/
def bindings (level : Level) (locals : Locals) : List String → Nat → Statement
  | [], _ => .empty
  | name :: rest, index =>
    .sequence (.straight (.closure (UInt16.ofNat index)) rfl)
      (.sequence (binding level locals name) (bindings level locals rest (index + 1)))

/-- What a body that declares functions is compiled to. -/
def bodyStatement (level : Level) (body : List Node) (declared : List String) : Statement :=
  let locals := level.locals declared.toArray
  .sequence (bindings level locals declared 0)
    (Node.statements locals (body.filter (!isFunction ·)))

end Compile

/-! ## Emitted instructions -/

theorem Assembler.emitAll_append (a : Assembler) (is js : List Instruction) :
    a.emitAll (is ++ js) = (a.emitAll is).emitAll js :=
  List.foldl_append

theorem Assembler.emitAll_eq (a : Assembler) (is : List Instruction) :
    a.emitAll is = { a with code := a.code ++ is.toArray } := by
  induction is generalizing a with
  | nil => simp [emitAll]
  | cons i is ih =>
    have hcons : a.emitAll (i :: is) = (a.emit i).emitAll is := rfl
    rw [hcons, ih, emit]
    simp

/-- The instructions of a statement were emitted, wherever they come to stand. -/
def Statement.EmittedTo (s : Statement) (a a' : Assembler) : Prop :=
  ∀ p, a' = a.emitAll (s.layout p)

namespace Statement.EmittedTo

variable {s t : Statement} {a a₁ a₂ : Assembler}

theorem straight {i : Instruction} (h : i.isStraight = true) (a : Assembler) :
    (Statement.straight i h).EmittedTo a (a.emit i) :=
  fun _ => rfl

theorem call (count : UInt16) (a : Assembler) :
    (Statement.call count).EmittedTo a (a.emit (.call count)) :=
  fun _ => rfl

theorem ret (a : Assembler) : Statement.ret.EmittedTo a (a.emit .ret) := fun _ => rfl

theorem sequence (hs : s.EmittedTo a a₁) (ht : t.EmittedTo a₁ a₂) :
    (Statement.sequence s t).EmittedTo a a₂ := by
  intro p
  rw [Statement.layout, Assembler.emitAll_append, ← hs p, ← ht (p + s.size)]

end Statement.EmittedTo

namespace Compile

theorem operand?_eq_some {n : Nat} {operand : UInt16} (h : operand? n = some operand) :
    n < operandRange ∧ operand = UInt16.ofNat n := by
  unfold operand? at h
  split at h
  · next hn =>
    cases h
    exact ⟨hn, rfl⟩
  · cases h

mutual

theorem emitted_expression {locals : Locals} :
    ∀ (n : Node) {a a' : Assembler}, expression locals n a = .ok a' →
      n.IsExpression ∧ (n.expression locals).EmittedTo a a'
  | ⟨position, length, kind, children⟩, a, a', h => by
    cases kind with
    | number x =>
      rw [expression] at h
      cases h
      rw [Node.expression]
      exact ⟨.number _ _ _ _, .straight rfl a⟩
    | text s =>
      rw [expression] at h
      cases h
      rw [Node.expression]
      exact ⟨.text _ _ _ _, .straight rfl a⟩
    | ident name =>
      rw [expression] at h
      cases h
      rw [Node.expression]
      exact ⟨.ident _ _ _ _, .straight _ a⟩
    | assign name =>
      cases children with
      | nil =>
        rw [expression] at h
        cases h
      | cons value rest =>
        rw [expression] at h
        split at h
        · cases h
        · next a₁ hvalue =>
          cases h
          obtain ⟨hvalue, hemitted⟩ := emitted_expression value hvalue
          rw [Node.expression]
          exact ⟨.assign _ _ _ rest hvalue,
            hemitted.sequence (.sequence (.straight rfl a₁) (.straight _ _))⟩
    | binary op =>
      rcases children with _ | ⟨left, _ | ⟨right, rest⟩⟩
      · rw [expression] at h
        cases h
      · rw [expression] at h
        split at h <;> cases h
      · rw [expression] at h
        split at h
        · cases h
        · next a₁ hleft =>
          split at h
          · cases h
          · next a₂ hright =>
            cases h
            obtain ⟨hleft, hemitted⟩ := emitted_expression left hleft
            obtain ⟨hright, hemitted'⟩ := emitted_expression right hright
            rw [Node.expression]
            exact ⟨.binary _ _ _ rest hleft hright,
              hemitted.sequence (hemitted'.sequence (.straight rfl a₂))⟩
    | call =>
      cases children with
      | nil =>
        rw [expression] at h
        cases h
      | cons callee args =>
        rw [expression] at h
        split at h
        · cases h
        · next count hcount =>
          split at h
          · cases h
          · next a₁ hcallee =>
            split at h
            · cases h
            · next a₂ hargs =>
              cases h
              obtain ⟨hlength, rfl⟩ := operand?_eq_some hcount
              obtain ⟨hcallee, hemitted⟩ := emitted_expression callee hcallee
              obtain ⟨hargs, hemitted'⟩ := emitted_expressions args hargs
              rw [Node.expression]
              exact ⟨.call _ _ hlength hcallee hargs,
                hemitted.sequence (.sequence (.straight rfl a₁) (hemitted'.sequence (.call _ a₂)))⟩
    | expressionStatement | ret | block | function name params =>
      simp only [expression] at h
      cases h

theorem emitted_expressions {locals : Locals} :
    ∀ (ns : List Node) {a a' : Assembler}, expressions locals ns a = .ok a' →
      (∀ n ∈ ns, n.IsExpression) ∧ (Node.expressions locals ns).EmittedTo a a'
  | [], a, a', h => by
    rw [expressions] at h
    cases h
    exact ⟨nofun, fun _ => rfl⟩
  | n :: rest, a, a', h => by
    rw [expressions] at h
    split at h
    · cases h
    · next a₁ hn =>
      obtain ⟨hn, hemitted⟩ := emitted_expression n hn
      obtain ⟨hrest, hemitted'⟩ := emitted_expressions rest h
      exact ⟨List.forall_mem_cons.mpr ⟨hn, hrest⟩, hemitted.sequence hemitted'⟩

end

mutual

theorem emitted_statement {locals : Locals} :
    ∀ (n : Node) {a a' : Assembler}, statement locals n a = .ok a' →
      n.IsStatement ∧ (n.statement locals).EmittedTo a a'
  | ⟨position, length, kind, children⟩, a, a', h => by
    cases kind with
    | expressionStatement =>
      cases children with
      | nil =>
        rw [statement] at h
        cases h
      | cons value rest =>
        rw [statement] at h
        split at h
        · cases h
        · next a₁ hvalue =>
          cases h
          obtain ⟨hvalue, hemitted⟩ := emitted_expression value hvalue
          rw [Node.statement]
          exact ⟨.expression _ _ rest hvalue, hemitted.sequence (.straight rfl a₁)⟩
    | ret =>
      cases children with
      | nil =>
        rw [statement] at h
        cases h
        rw [Node.statement]
        exact ⟨.ret _ _, .sequence (.straight rfl a) (.ret _)⟩
      | cons value rest =>
        rw [statement] at h
        split at h
        · cases h
        · next a₁ hvalue =>
          cases h
          obtain ⟨hvalue, hemitted⟩ := emitted_expression value hvalue
          rw [Node.statement]
          exact ⟨.retValue _ _ rest hvalue, hemitted.sequence (.ret a₁)⟩
    | block =>
      rw [statement] at h
      rw [Node.statement]
      obtain ⟨hbody, hemitted⟩ := emitted_statements children h
      exact ⟨.block _ _ hbody, hemitted⟩
    | function | number | text | ident | assign | binary | call =>
      simp only [statement] at h
      cases h

theorem emitted_statements {locals : Locals} :
    ∀ (ns : List Node) {a a' : Assembler}, statements locals ns a = .ok a' →
      (∀ n ∈ ns, n.IsStatement) ∧ (Node.statements locals ns).EmittedTo a a'
  | [], a, a', h => by
    rw [statements] at h
    cases h
    exact ⟨nofun, fun _ => rfl⟩
  | n :: rest, a, a', h => by
    rw [statements] at h
    split at h
    · cases h
    · next a₁ hn =>
      obtain ⟨hn, hemitted⟩ := emitted_statement n hn
      obtain ⟨hrest, hemitted'⟩ := emitted_statements rest h
      exact ⟨List.forall_mem_cons.mpr ⟨hn, hrest⟩, hemitted.sequence hemitted'⟩

end

theorem emitted_bindings {level : Level} {locals : Locals} {names : List String} {index : Nat}
    {a a' : Assembler} (h : bindFunctions level locals names index a = .ok a') :
    (bindings level locals names index).EmittedTo a a' := by
  induction names generalizing index a with
  | nil =>
    cases h
    exact fun _ => rfl
  | cons name rest ih =>
    unfold bindFunctions at h
    split at h
    · cases h
    · next operand hoperand =>
      obtain ⟨-, rfl⟩ := operand?_eq_some hoperand
      have hclosure := Statement.EmittedTo.straight
        (i := .closure (UInt16.ofNat index)) rfl a
      cases level with
      | script => exact hclosure.sequence ((Statement.EmittedTo.straight rfl _).sequence (ih h))
      | function params =>
        exact hclosure.sequence ((Statement.EmittedTo.straight _ _).sequence (ih h))

theorem length_of_bindFunctions {level : Level} {locals : Locals} {names : List String}
    {index : Nat} {a a' : Assembler} (h : bindFunctions level locals names index a = .ok a')
    (hindex : index ≤ operandRange) : index + names.length ≤ operandRange := by
  induction names generalizing index a with
  | nil => exact hindex
  | cons name rest ih =>
    unfold bindFunctions at h
    split at h
    · cases h
    · next operand hoperand =>
      obtain ⟨hlt, -⟩ := operand?_eq_some hoperand
      have hrest := ih h (Nat.succ_le_of_lt hlt)
      rw [List.length_cons]
      omega

/-! ## Compiled bodies -/

/-- What an assembler without labels builds. -/
theorem build_eq {a : Assembler} {r : Routine} (hlabels : a.fixups = #[])
    (h : a.build = .ok r) : r = a.routine a.code := by
  unfold Assembler.build at h
  simp only [hlabels, Assembler.resolve] at h
  exact (Assembler.accept_eq_ok_iff.mp h).2.symm

theorem build_eq_ok {a : Assembler} {r : Routine} (hfixups : a.fixups = #[])
    (hr : a.routine a.code = r) (hvalid : r.Valid) : a.build = .ok r := by
  rw [Assembler.build, hfixups]
  exact Assembler.accept_eq_ok_iff.mpr ⟨hr ▸ hvalid, hr⟩

/-- The instructions of a body that is emitted are those of a laid out statement. -/
theorem emitted_body {level : Level} {body : List Node} {a a₁ a₂ : Assembler}
    {declared : Array String} (hcode : a.code = #[])
    (hbind : bindFunctions level (level.locals declared) declared.toList 0 a = .ok a₁)
    (hstatements :
      Compile.statements (level.locals declared) (body.filter (!isFunction ·)) a₁ = .ok a₂) :
    declared.size ≤ operandRange ∧ (∀ n ∈ body.filter (!isFunction ·), n.IsStatement) ∧
      a₂ = { a with code := ((bodyStatement level body declared.toList).layout 0).toArray } := by
  obtain ⟨hbody, hemitted⟩ := emitted_statements _ hstatements
  have hsize := length_of_bindFunctions hbind (Nat.zero_le _)
  rw [Nat.zero_add, Array.length_toList] at hsize
  refine ⟨hsize, hbody, ?_⟩
  have hall : (bodyStatement level body declared.toList).EmittedTo a a₂ := by
    rw [bodyStatement, Array.toArray_toList]
    exact (emitted_bindings hbind).sequence hemitted
  have ha₂ := hall 0
  rw [Assembler.emitAll_eq, hcode, Array.empty_append] at ha₂
  exact ha₂

/-- A finished body is a laid out statement. -/
theorem finish_eq {level : Level} {body : List Node} {a : Assembler} {declared : Array String}
    {r : Routine} (hfixups : a.fixups = #[]) (hcode : a.code = #[])
    (h : finish level body a declared = .ok r) :
    declared.size ≤ operandRange ∧ (∀ n ∈ body.filter (!isFunction ·), n.IsStatement) ∧
      r = a.routine ((bodyStatement level body declared.toList).layout 0).toArray := by
  simp only [finish] at h
  split at h
  · cases h
  · next a₁ hbind =>
    split at h
    · cases h
    · next a₂ hstatements =>
      split at h
      · cases h
      · next r' hbuild =>
        cases h
        obtain ⟨hsize, hbody, rfl⟩ := emitted_body hcode hbind hstatements
        exact ⟨hsize, hbody, build_eq (a := { a with
          code := ((bodyStatement level body declared.toList).layout 0).toArray }) hfixups hbuild⟩

/-- The names of the functions that a body declares, in order. -/
def declaredNames (body : List Node) : List String :=
  body.filterMap fun n =>
    match n.kind with
    | .function name _ => some name
    | _ => none

/-- Compile a declared function. -/
def function (strict : Bool) (n : Node) : Except CompileError Routine :=
  match n with
  | ⟨_, _, .function name params, body⟩ =>
    match nestFunctions strict (.function params) body (startRoutine strict params (.function name))
      #[] with
    | .error e => .error e
    | .ok (a, declared) => finish (.function params) body a declared
  | ⟨position, _, kind, _⟩ => .error (.unsupported kind position)

/-- The parameters of a body. -/
def Level.params : Level → List String
  | .script => []
  | .function params => params

/-- The variables of a body that declares functions. -/
def Level.vars : Level → List String → Array (String × Bool)
  | .script, _ => #[]
  | .function _, declared => (declared.map (·, false)).toArray

/-- The nested functions of a body are compiled in order. -/
theorem nestFunctions_eq {strict : Bool} {level : Level} :
    ∀ (body : List Node) {a a' : Assembler} {declared declared' : Array String},
      nestFunctions strict level body a declared = .ok (a', declared') →
      ∃ routines, List.Forall₂ (fun n r => function strict n = .ok r) (body.filter isFunction)
          routines ∧
        declared' = declared ++ (declaredNames body).toArray ∧
        a' = { a with
          nested := a.nested ++ routines.toArray
          vars := a.vars ++ level.vars (declaredNames body) }
  | [], a, a', declared, declared', h => by
    rw [nestFunctions] at h
    cases h
    refine ⟨[], .nil, by simp [declaredNames], ?_⟩
    cases level <;> simp [Level.vars, declaredNames]
  | ⟨position, length, kind, children⟩ :: rest, a, a', declared, declared', h => by
    cases kind with
    | function name params =>
      unfold nestFunctions at h
      dsimp only at h
      split at h
      · cases h
      · next inner names hinner =>
        split at h
        · cases h
        · next r hr =>
          have hfunction : function strict ⟨position, length, .function name params, children⟩ =
              .ok r := by
            simp only [function, hinner, hr]
          obtain ⟨routines, hroutines, rfl, rfl⟩ := nestFunctions_eq rest h
          refine ⟨r :: routines, .cons hfunction hroutines, ?_, ?_⟩
          · simp [declaredNames]
          · cases level <;> simp [Level.vars, declaredNames, Assembler.nest, Assembler.var]
    | _ =>
      unfold nestFunctions at h
      exact nestFunctions_eq rest h

theorem startRoutine_eq (strict : Bool) (params : List String) (a : Assembler)
    (hstrict : a.isStrict = false) :
    startRoutine strict params a =
      { a with isStrict := strict, params := a.params ++ params.toArray } := by
  have hfold (b : Assembler) : params.foldl Assembler.param b =
      { b with params := b.params ++ params.toArray } := by
    induction params generalizing b with
    | nil => simp
    | cons name rest ih => simp [ih, Assembler.param]
  rw [startRoutine, hfold]
  cases strict with
  | true => rfl
  | false =>
    obtain ⟨⟩ := a
    subst hstrict
    rfl

/-- What a body of a script or a function is compiled to. -/
structure IsBody (strict : Bool) (level : Level) (body : List Node) (r : Routine) : Prop where
  isGenerator : r.isGenerator = false
  isStrict : r.isStrict = strict
  paramCount : r.paramCount = level.params.length
  declared : (declaredNames body).length ≤ operandRange
  names : r.names.toList = level.locals (declaredNames body).toArray
  statements : ∀ n ∈ body.filter (!isFunction ·), n.IsStatement
  code : r.code = ((bodyStatement level body (declaredNames body)).layout 0).toArray
  nested : List.Forall₂ (fun n r => function strict n = .ok r) (body.filter isFunction) r.nested

/-- What the compiler makes of a body whose functions are nested. -/
theorem isBody_routine {strict : Bool} {level : Level} {body : List Node} {a a' : Assembler}
    {declared : Array String}
    (hnest : nestFunctions strict level body (startRoutine strict level.params a) #[] =
      .ok (a', declared)) (ha : ∃ kind name, a = { kind, name })
    (hsize : declared.size ≤ operandRange)
    (hstatements : ∀ n ∈ body.filter (!isFunction ·), n.IsStatement) :
    IsBody strict level body
      (a'.routine ((bodyStatement level body declared.toList).layout 0).toArray) := by
  obtain ⟨kind, name, rfl⟩ := ha
  obtain ⟨routines, hroutines, rfl, rfl⟩ := nestFunctions_eq body hnest
  rw [startRoutine_eq _ _ _ rfl]
  refine ⟨rfl, rfl, ?_, ?_, ?_, hstatements, ?_, ?_⟩
  · simp [Assembler.routine]
  · simpa using hsize
  · cases level with
    | script => simp [Assembler.routine, Level.params, Level.vars, Level.locals]
    | function params =>
      simp [Assembler.routine, Level.params, Level.vars, Level.locals, Function.comp_def]
  · simp [Assembler.routine]
  · simpa [Assembler.routine] using hroutines

/-- Nesting functions adds no code, and leaves the kind and the labels as they were. -/
theorem nested_fields {strict : Bool} {level : Level} {body : List Node} {a a' : Assembler}
    {declared : Array String}
    (hnest : nestFunctions strict level body (startRoutine strict level.params a) #[] =
      .ok (a', declared)) (ha : ∃ kind name, a = { kind, name }) :
    a'.fixups = #[] ∧ a'.code = #[] ∧ a'.kind = a.kind := by
  obtain ⟨kind, name, rfl⟩ := ha
  obtain ⟨routines, -, -, rfl⟩ := nestFunctions_eq body hnest
  rw [startRoutine_eq _ _ _ rfl]
  exact ⟨rfl, rfl, rfl⟩

/-- What the compiler makes of a body. -/
theorem isBody_of_finish {strict : Bool} {level : Level} {body : List Node} {a a' : Assembler}
    {declared : Array String} {r : Routine}
    (hnest : nestFunctions strict level body (startRoutine strict level.params a) #[] =
      .ok (a', declared)) (hfinish : finish level body a' declared = .ok r)
    (ha : ∃ kind name, a = { kind, name }) : IsBody strict level body r ∧ r.kind = a.kind := by
  obtain ⟨hfixups, hcode, hkind⟩ := nested_fields hnest ha
  obtain ⟨hsize, hstatements, rfl⟩ := finish_eq hfixups hcode hfinish
  exact ⟨isBody_routine hnest ha hsize hstatements, hkind⟩

theorem isBody_function {strict : Bool} {position length : Nat} {name : String}
    {params : List String} {body : List Node} {r : Routine}
    (h : function strict ⟨position, length, .function name params, body⟩ = .ok r) :
    IsBody strict (.function params) body r := by
  simp only [function] at h
  split at h
  · cases h
  · next a declared hnest => exact (isBody_of_finish hnest h ⟨_, _, rfl⟩).1

theorem isBody_compile {strict : Bool} {t : SourceTree} {r : Routine}
    (h : t.compile strict = .ok r) :
    IsBody strict .script t.statements.toList r ∧ r.isScript = true := by
  simp only [SourceTree.compile] at h
  split at h
  · cases h
  · next a declared hnest =>
    obtain ⟨hbody, hkind⟩ := isBody_of_finish hnest h ⟨_, _, rfl⟩
    refine ⟨hbody, ?_⟩
    rw [Routine.isScript, hkind]
    rfl

end Compile

end ScriptMachine
