import ScriptMachine.Proofs.Tree.Instructions

/-!
# Which trees compile

A tree compiles if and only if its bodies are well formed (`Compile.IsWellFormed`), the body of
the script and those of all functions in it. A tree that does not compile is refused for a node
that is not supported or malformed, never because the code that was emitted for it is not valid:
`SourceTree.compile_accepts`.
-/

namespace ScriptMachine

open Compile

variable {strict : Bool}

/-! ## Well-formed trees -/

/-- Bodies of functions declared in order and of statements, where the body of each function is
well formed and there are not too many functions. -/
inductive Compile.IsWellFormed : List Node → Prop
  | intro {body : List Node} (hcount : (body.filter isFunction).length ≤ operandRange)
      (hfunction : ∀ (position length : Nat) (name : String) (params : List String)
        (children : List Node), ⟨position, length, .function name params, children⟩ ∈ body →
          IsWellFormed children)
      (hstatement : ∀ n ∈ body, isFunction n = false → n.IsStatement) : IsWellFormed body

/-- The error says what is wrong with the tree. -/
def CompileError.IsRefusal : CompileError → Prop
  | .build _ => False
  | _ => True

theorem CompileError.IsRefusal.message {e : CompileError} (h : e.IsRefusal) :
    ∃ rest, e.message = "Unsupported " ++ rest ∨ e.message = "Malformed " ++ rest := by
  cases e with
  | unsupported kind position => exact ⟨_, Or.inl (String.append_assoc ..)⟩
  | malformed kind position m =>
    refine ⟨kind.word ++ (s!" at offset {position}: " ++ m.message), Or.inr ?_⟩
    rw [CompileError.message, String.append_assoc, String.append_assoc]
  | tooManyFunctions =>
    exact ⟨"function at offset 0: too many nested functions", Or.inr (by decide)⟩
  | build e => cases h

/-! ## What is well formed compiles -/

namespace Compile

theorem operand?_of_lt {n : Nat} (h : n < operandRange) : operand? n = some (UInt16.ofNat n) :=
  if_pos h

variable {locals : Locals}

theorem compiles_expressions {ns : List Node}
    (h : ∀ n ∈ ns, ∀ a, ∃ a', expression locals n a = .ok a') (a : Assembler) :
    ∃ a', expressions locals ns a = .ok a' := by
  induction ns generalizing a with
  | nil => exact ⟨a, by rw [expressions]⟩
  | cons n rest ih =>
    obtain ⟨hn, hrest⟩ := List.forall_mem_cons.mp h
    obtain ⟨a₁, h₁⟩ := hn a
    obtain ⟨a₂, h₂⟩ := ih hrest a₁
    exact ⟨a₂, by simp only [expressions, h₁, h₂]⟩

theorem compiles_expression {n : Node} (h : n.IsExpression) (a : Assembler) :
    ∃ a', expression locals n a = .ok a' := by
  induction h generalizing a with
  | number | text | ident => exact ⟨_, by rw [expression]⟩
  | assign _ _ name rest hvalue ih =>
    obtain ⟨a₁, h₁⟩ := ih a
    exact ⟨_, by simp only [expression, h₁]; rfl⟩
  | binary _ _ op rest hleft hright ihleft ihright =>
    obtain ⟨a₁, h₁⟩ := ihleft a
    obtain ⟨a₂, h₂⟩ := ihright a₁
    exact ⟨_, by simp only [expression, h₁, h₂]; rfl⟩
  | call _ _ hlength hcallee hargs ihcallee ihargs =>
    obtain ⟨a₁, h₁⟩ := ihcallee a
    obtain ⟨a₂, h₂⟩ := compiles_expressions ihargs (a₁.emit .undefined)
    exact ⟨_, by simp only [expression, operand?_of_lt hlength, h₁, h₂]; rfl⟩

theorem compiles_statements {ns : List Node}
    (h : ∀ n ∈ ns, ∀ a, ∃ a', statement locals n a = .ok a') (a : Assembler) :
    ∃ a', statements locals ns a = .ok a' := by
  induction ns generalizing a with
  | nil => exact ⟨a, by rw [statements]⟩
  | cons n rest ih =>
    obtain ⟨hn, hrest⟩ := List.forall_mem_cons.mp h
    obtain ⟨a₁, h₁⟩ := hn a
    obtain ⟨a₂, h₂⟩ := ih hrest a₁
    exact ⟨a₂, by simp only [statements, h₁, h₂]⟩

theorem compiles_statement {n : Node} (h : n.IsStatement) (a : Assembler) :
    ∃ a', statement locals n a = .ok a' := by
  induction h generalizing a with
  | expression _ _ rest hvalue | retValue _ _ rest hvalue =>
    obtain ⟨a₁, h₁⟩ := @compiles_expression locals _ hvalue a
    exact ⟨_, by simp only [statement, h₁]; rfl⟩
  | ret => exact ⟨_, by rw [statement]⟩
  | block _ _ hbody ih =>
    obtain ⟨a₁, h₁⟩ := compiles_statements ih a
    exact ⟨a₁, by simp only [statement, h₁]⟩

theorem compiles_bindings {level : Level} {names : List String} {index : Nat}
    (h : index + names.length ≤ operandRange) (a : Assembler) :
    ∃ a', bindFunctions level locals names index a = .ok a' := by
  induction names generalizing index a with
  | nil => exact ⟨a, rfl⟩
  | cons name rest ih =>
    rw [List.length_cons] at h
    have hindex : index < operandRange := by omega
    simp only [bindFunctions, operand?_of_lt hindex]
    exact ih (by omega) _

/-! ## What is refused -/

-- An error is raised at the node itself or is that of an operand, so the cases are the branches of
-- the compiler.
mutual

theorem refuses_expression :
    ∀ (n : Node) {a : Assembler} {e : CompileError}, expression locals n a = .error e →
      e.IsRefusal
  | ⟨position, length, kind, children⟩, a, e, h => by
    cases kind with
    | number | text | ident =>
      rw [expression] at h
      cases h
    | assign name =>
      cases children with
      | nil =>
        rw [expression] at h
        cases h
        trivial
      | cons value rest =>
        rw [expression] at h
        split at h
        · next hvalue =>
          cases h
          exact refuses_expression value hvalue
        · cases h
    | binary op =>
      rcases children with _ | ⟨left, _ | ⟨right, rest⟩⟩
      · rw [expression] at h
        cases h
        trivial
      · rw [expression] at h
        split at h
        · next hleft =>
          cases h
          exact refuses_expression left hleft
        · cases h
          trivial
      · rw [expression] at h
        split at h
        · next hleft =>
          cases h
          exact refuses_expression left hleft
        · split at h
          · next hright =>
            cases h
            exact refuses_expression right hright
          · cases h
    | call =>
      cases children with
      | nil =>
        rw [expression] at h
        cases h
        trivial
      | cons callee args =>
        rw [expression] at h
        split at h
        · cases h
          trivial
        · split at h
          · next hcallee =>
            cases h
            exact refuses_expression callee hcallee
          · split at h
            · next hargs =>
              cases h
              exact refuses_expressions args hargs
            · cases h
    | expressionStatement | ret | block | function =>
      simp only [expression] at h
      cases h
      trivial

theorem refuses_expressions :
    ∀ (ns : List Node) {a : Assembler} {e : CompileError}, expressions locals ns a = .error e →
      e.IsRefusal
  | [], a, e, h => by
    rw [expressions] at h
    cases h
  | n :: rest, a, e, h => by
    rw [expressions] at h
    split at h
    · next hn =>
      cases h
      exact refuses_expression n hn
    · exact refuses_expressions rest h

end

mutual

theorem refuses_statement :
    ∀ (n : Node) {a : Assembler} {e : CompileError}, statement locals n a = .error e →
      e.IsRefusal
  | ⟨position, length, kind, children⟩, a, e, h => by
    cases kind with
    | expressionStatement =>
      cases children with
      | nil =>
        rw [statement] at h
        cases h
        trivial
      | cons value rest =>
        rw [statement] at h
        split at h
        · next hvalue =>
          cases h
          exact refuses_expression value hvalue
        · cases h
    | ret =>
      cases children with
      | nil =>
        rw [statement] at h
        cases h
      | cons value rest =>
        rw [statement] at h
        split at h
        · next hvalue =>
          cases h
          exact refuses_expression value hvalue
        · cases h
    | block =>
      rw [statement] at h
      exact refuses_statements children h
    | function | number | text | ident | assign | binary | call =>
      simp only [statement] at h
      cases h
      trivial

theorem refuses_statements :
    ∀ (ns : List Node) {a : Assembler} {e : CompileError}, statements locals ns a = .error e →
      e.IsRefusal
  | [], a, e, h => by
    rw [statements] at h
    cases h
  | n :: rest, a, e, h => by
    rw [statements] at h
    split at h
    · next hn =>
      cases h
      exact refuses_statement n hn
    · exact refuses_statements rest h

end

theorem refuses_bindings {level : Level} {names : List String} {index : Nat} {a : Assembler}
    {e : CompileError} (h : bindFunctions level locals names index a = .error e) :
    e.IsRefusal := by
  induction names generalizing index a with
  | nil => cases h
  | cons name rest ih =>
    unfold bindFunctions at h
    split at h
    · cases h
      trivial
    · exact ih h

/-! ## What is emitted is valid -/

variable {level : Level} {body : List Node} {r : Routine}

/-- The instructions of a body are in order if the body has the slots and the functions. -/
theorem IsEmitted.flaw?_eq_none {declared : List String} {i : Instruction}
    (h : IsEmitted level declared i) {x : Extent}
    (hslots : (level.locals declared.toArray).length ≤ x.slots)
    (hnested : declared.length ≤ x.nested) (hcount : declared.length ≤ operandRange)
    (position : Nat) : x.flaw? position i = none := by
  cases h with
  | use u => exact u.flaw?_instruction hslots position
  | @closure index hindex =>
    have hnat : (UInt16.ofNat index).toNat = index :=
      Nat.mod_eq_of_lt (Nat.lt_of_lt_of_le hindex hcount)
    have hexists : ¬ x.nested ≤ index := Nat.not_le.mpr (Nat.lt_of_lt_of_le hindex hnested)
    simp only [Extent.flaw?, hnat, if_neg hexists]
  | _ => rfl

theorem length_declaredNames (body : List Node) :
    (declaredNames body).length = (body.filter isFunction).length := by
  induction body with
  | nil => rfl
  | cons n rest ih =>
    obtain ⟨position, length, kind, children⟩ := n
    cases kind with
    | function name params =>
      rw [List.filter_cons_of_pos rfl, List.length_cons, ← ih]
      rfl
    | _ => exact ih

theorem IsBody.flaw?_eq_none (h : IsBody strict level body r)
    (hconst : r.isConst.size = r.names.size) : r.flaw? = none := by
  have hnames : r.names.size = (level.locals (declaredNames body).toArray).length := by
    rw [← h.names, Array.length_toList]
  have hparams : ¬ r.names.size < r.paramCount := by
    rw [hnames, h.paramCount]
    cases level <;> simp [Level.locals, Level.params]
  have hnested : (declaredNames body).length = r.nested.length := by
    rw [length_declaredNames, h.nested.length_eq]
  have hgenerator : ¬ (r.isGenerator && r.isScript) = true := by simp [h.isGenerator]
  rw [Routine.flaw?, if_neg hparams, if_neg (fun hne => hne hconst), if_neg hgenerator]
  simp only [List.findSome?_eq_none_iff]
  rintro ⟨i, position⟩ hmem
  have hi : i ∈ r.code := Array.mem_toList_iff.mp (List.fst_mem_of_mem_zipIdx hmem)
  exact (h.isEmitted hi).flaw?_eq_none (Nat.le_of_eq hnames.symm) (Nat.le_of_eq hnested)
    h.declared position

theorem IsBody.valid (h : IsBody strict level body r) (hconst : r.isConst.size = r.names.size)
    (hnested : ∀ f ∈ r.nested, f.Valid) : r.Valid := by
  rw [Routine.Valid, Routine.defect?_eq, h.flaw?_eq_none hconst]
  exact (Routine.firstDefect?_eq_none_iff _).mpr hnested

theorem valid_of_finish {a : Assembler} {declared : Array String}
    (h : finish level body a declared = .ok r) : r.Valid := by
  simp only [finish] at h
  split at h
  · cases h
  · split at h
    · cases h
    · split at h
      · cases h
      · next hbuild =>
        cases h
        exact Assembler.valid_of_build hbuild

theorem valid_of_function {n : Node} (h : function strict n = .ok r) : r.Valid := by
  unfold function at h
  split at h
  · split at h
    · cases h
    · exact valid_of_finish h
  · cases h

/-! ## Bodies and trees -/

/-- A body whose instructions are emitted is built. -/
theorem builds {a a₁ a₂ a₃ : Assembler} {declared : Array String}
    (hnest : nestFunctions strict level body (startRoutine strict level.params a) #[] =
      .ok (a₁, declared)) (ha : ∃ kind name, a = { kind, name })
    (hbind : bindFunctions level (level.locals declared) declared.toList 0 a₁ = .ok a₂)
    (hstatements :
      Compile.statements (level.locals declared) (body.filter (!isFunction ·)) a₂ = .ok a₃) :
    ∃ r, a₃.build = .ok r := by
  obtain ⟨hfixups, hcode, -⟩ := nested_fields hnest ha
  obtain ⟨hsize, hbody, rfl⟩ := emitted_body hcode hbind hstatements
  have hroutine := isBody_routine hnest ha hsize hbody
  -- the body itself is valid for what it consists of, and those nested in it were built before
  refine ⟨_, build_eq_ok hfixups rfl (hroutine.valid ?_ ?_)⟩
  · simp [Assembler.routine]
  · intro f hf
    obtain ⟨i, hi, rfl⟩ := List.mem_iff_getElem.mp hf
    have hi' : i < (body.filter isFunction).length := hroutine.nested.length_eq ▸ hi
    exact valid_of_function (hroutine.nested.get hi' hi)

variable {a a' : Assembler} {declared : Array String}

theorem compiles_finish
    (hnest : nestFunctions strict level body (startRoutine strict level.params a) #[] =
      .ok (a', declared)) (ha : ∃ kind name, a = { kind, name })
    (h : IsWellFormed body) : ∃ r, finish level body a' declared = .ok r := by
  obtain ⟨hcount, -, hstatement⟩ := h
  have hdeclared : declared = (declaredNames body).toArray := by
    obtain ⟨-, -, h, -⟩ := nestFunctions_eq body hnest
    simpa using h
  subst hdeclared
  rw [← length_declaredNames] at hcount
  obtain ⟨a₁, hbind⟩ : ∃ a₁, bindFunctions level (level.locals (declaredNames body).toArray)
      (declaredNames body) 0 a' = .ok a₁ := compiles_bindings (by omega) a'
  have hbody : ∀ n ∈ body.filter (!isFunction ·), n.IsStatement := by
    intro n hn
    obtain ⟨hn, hnot⟩ := List.mem_filter.mp hn
    exact hstatement n hn (by simpa using hnot)
  obtain ⟨a₂, hstatements⟩ := compiles_statements (fun n hn => @compiles_statement
    (level.locals (declaredNames body).toArray) n (hbody n hn)) a₁
  obtain ⟨r, hbuild⟩ := builds hnest ha hbind hstatements
  exact ⟨r, finish_eq_ok hbind hstatements hbuild⟩

theorem refuses_finish {e : CompileError}
    (hnest : nestFunctions strict level body (startRoutine strict level.params a) #[] =
      .ok (a', declared)) (ha : ∃ kind name, a = { kind, name })
    (h : finish level body a' declared = .error e) : e.IsRefusal := by
  simp only [finish] at h
  split at h
  · next hbind =>
    cases h
    exact refuses_bindings hbind
  · next hbind =>
    split at h
    · next hstatements =>
      cases h
      exact refuses_statements _ hstatements
    · next hstatements =>
      obtain ⟨r, hbuild⟩ := builds hnest ha hbind hstatements
      rw [hbuild] at h
      cases h

/-- Nesting goes through the functions of a body in order, and fails at one that does not
compile. -/
theorem nestFunctions_cons (n : Node) (rest : List Node) (a : Assembler)
    (declared : Array String) :
    (∃ a' declared', nestFunctions strict level (n :: rest) a declared =
        nestFunctions strict level rest a' declared') ∨
    ∃ e, nestFunctions strict level (n :: rest) a declared = .error e ∧ isFunction n = true ∧
      function strict n = .error e := by
  generalize hresult : nestFunctions strict level (n :: rest) a declared = result
  obtain ⟨position, length, kind, children⟩ := n
  cases kind with
  | function name params =>
    unfold nestFunctions at hresult
    dsimp only at hresult
    split at hresult
    · next e he => exact Or.inr ⟨e, hresult.symm, rfl, by simp only [function, he]⟩
    · next inner names hinner =>
      split at hresult
      · next e he => exact Or.inr ⟨e, hresult.symm, rfl, by simp only [function, hinner, he]⟩
      · exact Or.inl ⟨_, _, hresult.symm⟩
  | _ =>
    unfold nestFunctions at hresult
    exact Or.inl ⟨a, declared, hresult.symm⟩

theorem compiles_nestFunctions
    (h : ∀ n ∈ body, isFunction n = true → ∃ r, function strict n = .ok r) (a : Assembler)
    (declared : Array String) :
    ∃ a' declared', nestFunctions strict level body a declared = .ok (a', declared') := by
  induction body generalizing a declared with
  | nil => exact ⟨a, declared, by rw [nestFunctions]⟩
  | cons n rest ih =>
    obtain ⟨hn, hrest⟩ := List.forall_mem_cons.mp h
    rcases nestFunctions_cons n rest a declared with ⟨a', declared', heq⟩ | ⟨e, -, hfunction, he⟩
    · rw [heq]
      exact ih hrest a' declared'
    · obtain ⟨r, hr⟩ := hn hfunction
      rw [hr] at he
      cases he

theorem exists_refused {e : CompileError} {a : Assembler} {declared : Array String}
    (h : nestFunctions strict level body a declared = .error e) :
    ∃ n ∈ body, isFunction n = true ∧ function strict n = .error e := by
  induction body generalizing a declared with
  | nil =>
    rw [nestFunctions] at h
    cases h
  | cons n rest ih =>
    rcases nestFunctions_cons n rest a declared with ⟨a', declared', heq⟩ | ⟨e', heq, hn, he⟩
    · rw [heq] at h
      obtain ⟨m, hm, hrefused⟩ := ih h
      exact ⟨m, List.mem_cons_of_mem _ hm, hrefused⟩
    · rw [heq] at h
      cases h
      exact ⟨n, List.mem_cons_self .., hn, he⟩

theorem compiles_function {position length : Nat} {name : String} {params : List String}
    {children : List Node} (h : IsWellFormed children) :
    ∃ r, function strict ⟨position, length, .function name params, children⟩ = .ok r := by
  induction h generalizing position length name params with
  | @intro body hcount hfunction hstatement ih =>
    have hnested : ∀ n ∈ body, isFunction n = true → ∃ r, function strict n = .ok r := by
      rintro ⟨position, length, kind, children⟩ hn hfunction
      cases kind with
      | function name params => exact ih _ _ _ _ _ hn
      | _ => cases hfunction
    obtain ⟨a, declared, hnest⟩ : ∃ a declared, nestFunctions strict (.function params) body
        (startRoutine strict params (.function name)) #[] = .ok (a, declared) :=
      compiles_nestFunctions hnested _ _
    obtain ⟨r, hr⟩ := compiles_finish hnest ⟨_, _, rfl⟩ (.intro hcount hfunction hstatement)
    exact ⟨r, by simp only [function, hnest, hr]⟩

/-- What holds of a body whenever it holds of the bodies in it holds of all. -/
theorem body_induction {P : List Node → Prop}
    (h : ∀ body, (∀ n ∈ body, P n.children) → P body) (body : List Node) : P body :=
  h body fun n _ => body_induction h n.children
termination_by body
decreasing_by
  have hmem : sizeOf n < sizeOf body := List.sizeOf_lt_of_mem ‹_›
  cases n with
  | mk position length kind children =>
    simp only [Node.mk.sizeOf_spec] at hmem ⊢
    omega

/-- A function is refused for what is wrong in its body, or in the body of a function in it. -/
theorem refuses_function (children : List Node) {position length : Nat} {name : String}
    {params : List String} {e : CompileError}
    (h : function strict ⟨position, length, .function name params, children⟩ = .error e) :
    e.IsRefusal := by
  induction children using body_induction generalizing position length name params with
  | h body ih =>
    simp only [function] at h
    split at h
    · next hnest =>
      cases h
      obtain ⟨⟨position', length', kind, inner⟩, hn, hfunction, hrefused⟩ := exists_refused hnest
      cases kind with
      | function name' params' => exact ih _ hn hrefused
      | _ => cases hfunction
    · next hnest => exact refuses_finish hnest ⟨_, _, rfl⟩ h

/-- A body that compiles is well formed if the functions declared in it are. -/
theorem IsBody.isWellFormed (h : IsBody strict level body r)
    (hfunction : ∀ (position length : Nat) (name : String) (params : List String)
      (children : List Node) (f : Routine),
        ⟨position, length, .function name params, children⟩ ∈ body →
          function strict ⟨position, length, .function name params, children⟩ = .ok f →
            IsWellFormed children) : IsWellFormed body := by
  refine .intro ?_ ?_ ?_
  · rw [← length_declaredNames]
    exact h.declared
  · intro position length name params children hn
    obtain ⟨f, -, hf⟩ := h.exists_nested hn rfl
    exact hfunction _ _ _ _ _ f hn hf
  · intro n hn hnot
    exact h.statements n (List.mem_filter.mpr ⟨hn, by simpa using hnot⟩)

theorem isWellFormed_of_function (children : List Node) {position length : Nat} {name : String}
    {params : List String} {f : Routine}
    (h : function strict ⟨position, length, .function name params, children⟩ = .ok f) :
    IsWellFormed children := by
  induction children using body_induction generalizing position length name params f with
  | h body ih =>
    apply (isBody_function h).isWellFormed
    intro _ _ _ _ _ f' hn hf'
    exact ih _ hn hf'

end Compile

/-- The compiler accepts the trees whose bodies are well formed, and no others: the statements of
the script and, in it and in every function, function declarations that are not too many and
statements, where a block has statements only and every operand that a node needs is an
expression. What it makes of them is valid code. Any other tree is refused because a node is not
supported or malformed; it never happens that what was emitted is not valid. -/
theorem SourceTree.compile_accepts (strict : Bool) (t : SourceTree) :
    ((∃ r, t.compile strict = .ok r) ↔ IsWellFormed t.statements.toList) ∧
      (∀ r, t.compile strict = .ok r → r.Valid) ∧
      ∀ e, t.compile strict = .error e → e.IsRefusal ∧
        ∃ rest, e.message = "Unsupported " ++ rest ∨ e.message = "Malformed " ++ rest := by
  have hscript : ∃ kind name, Assembler.script = { kind, name } := ⟨_, _, rfl⟩
  refine ⟨⟨?_, ?_⟩, ?_, ?_⟩
  · rintro ⟨r, hr⟩
    apply (isBody_compile hr).1.isWellFormed
    intro _ _ _ _ children f _ hf
    exact isWellFormed_of_function children hf
  · intro h
    obtain ⟨hcount, hfunction, hstatement⟩ := h
    have hnested : ∀ n ∈ t.statements.toList, isFunction n = true →
        ∃ r, function strict n = .ok r := by
      rintro ⟨position, length, kind, children⟩ hn hkind
      cases kind with
      | function name params => exact compiles_function (hfunction _ _ _ _ _ hn)
      | _ => cases hkind
    obtain ⟨a, declared, hnest⟩ : ∃ a declared, nestFunctions strict .script
        t.statements.toList (startRoutine strict [] .script) #[] = .ok (a, declared) :=
      compiles_nestFunctions hnested _ _
    obtain ⟨r, hr⟩ := compiles_finish hnest hscript (.intro hcount hfunction hstatement)
    exact ⟨r, by simp only [SourceTree.compile, hnest, hr]⟩
  · intro r hr
    simp only [SourceTree.compile] at hr
    split at hr
    · cases hr
    · exact valid_of_finish hr
  · intro e he
    have hrefusal : e.IsRefusal := by
      simp only [SourceTree.compile] at he
      split at he
      · next hnest =>
        cases he
        obtain ⟨⟨position, length, kind, children⟩, -, hfunction, hrefused⟩ := exists_refused hnest
        cases kind with
        | function name params => exact refuses_function children hrefused
        | _ => cases hfunction
      · next hnest => exact refuses_finish hnest hscript he
    exact ⟨hrefusal, hrefusal.message⟩

end ScriptMachine
