import ScriptMachine.Proofs.Machine.World

/-!
# Statements

Structured code for the instruction set, and how it is laid out as instructions.
`Statement.Balanced` is the discipline on operands: a statement leaves alone what was beneath
its own operands, so a try statement can cut the stack back to where it was.
-/

namespace ScriptMachine

/-- Whether an instruction of one frame leaves its position and its try statements alone. -/
def Instruction.isStraight : Instruction → Bool
  | .jump _ | .jumpIfFalse _ | .enterTry _ _ | .exitTry => false
  | i => i.isOwn

theorem Instruction.isOwn_of_isStraight {i : Instruction} (h : i.isStraight = true) :
    i.isOwn = true := by
  cases i with
  | jump | jumpIfFalse | enterTry | exitTry => cases h
  | _ => exact h

/-- How many operands a straight-line instruction takes. -/
def Instruction.taken : Instruction → Nat
  | .storeName _ | .defineName _ | .storeLocal _ | .pop | .dup | .not => 1
  | .binary _ => 2
  | _ => 0

/-- How many operands a straight-line instruction leaves in place of those that it takes. -/
def Instruction.left : Instruction → Nat
  | .storeName _ | .defineName _ | .storeLocal _ | .pop => 0
  | .dup => 2
  | _ => 1

/-- Structured code. -/
inductive Statement where
  | empty
  | straight (i : Instruction) (h : i.isStraight = true)
  | sequence (first second : Statement)
  /-- Pop a condition and go on with one of two statements. -/
  | branch (yes no : Statement)
  | call (argumentCount : UInt16)
  | throw
  | ret
  | tryCatch (body handler : Statement)
  | tryFinally (body cleanup : Statement)
  | tryCatchFinally (body handler cleanup : Statement)

namespace Statement

/-- Number of instructions. -/
def size : Statement → Nat
  | empty => 0
  | straight _ _ | call _ | throw | ret => 1
  | sequence first second => first.size + second.size
  | branch yes no => yes.size + no.size + 2
  | tryCatch body handler => body.size + handler.size + 3
  | tryFinally body cleanup => body.size + cleanup.size + 4
  | tryCatchFinally body handler cleanup => body.size + handler.size + cleanup.size + 5

/-- The instructions at a position. -/
def layout : Statement → Nat → List Instruction
  | empty, _ => []
  | straight i _, _ => [i]
  | sequence first second, p => first.layout p ++ second.layout (p + first.size)
  | branch yes no, p =>
    let otherwise := p + yes.size + 2
    .jumpIfFalse otherwise :: (yes.layout (p + 1) ++
      .jump (otherwise + no.size) :: no.layout otherwise)
  | call count, _ => [.call count]
  | throw, _ => [.throw]
  | ret, _ => [.ret]
  | tryCatch body handler, p =>
    let catchAt := p + body.size + 3
    .enterTry (some catchAt) none :: (body.layout (p + 1) ++
      .exitTry :: .jump (catchAt + handler.size) :: handler.layout catchAt)
  | tryFinally body cleanup, p =>
    let finallyAt := p + body.size + 3
    .enterTry none (some finallyAt) :: (body.layout (p + 1) ++
      .exitTry :: .jump finallyAt :: (cleanup.layout finallyAt ++ [.endFinally]))
  | tryCatchFinally body handler cleanup, p =>
    let catchAt := p + body.size + 3
    let finallyAt := catchAt + handler.size + 1
    .enterTry (some catchAt) (some finallyAt) :: (body.layout (p + 1) ++
      .exitTry :: .jump finallyAt :: (handler.layout catchAt ++
        .exitTry :: (cleanup.layout finallyAt ++ [.endFinally])))

/-- The statement finds a number of operands of its own, leaves another number of them if it
completes normally, and never looks beneath. A try statement starts without any: its body and its
handler come to the same operands, its cleanup to none. -/
inductive Balanced : Statement → Nat → Nat → Prop
  | empty (n : Nat) : Balanced .empty n n
  | straight (i : Instruction) (h : i.isStraight = true) (n : Nat) :
      Balanced (.straight i h) (i.taken + n) (i.left + n)
  | sequence {first second : Statement} {n k l : Nat} (hfirst : Balanced first n k)
      (hsecond : Balanced second k l) : Balanced (.sequence first second) n l
  | branch {yes no : Statement} {n k : Nat} (hyes : Balanced yes n k) (hno : Balanced no n k) :
      Balanced (.branch yes no) (n + 1) k
  | call (count : UInt16) (n : Nat) : Balanced (.call count) (count.toNat + 2 + n) (n + 1)
  | throw (n k : Nat) : Balanced .throw (n + 1) k
  | ret (n k : Nat) : Balanced .ret (n + 1) k
  | tryCatch {body handler : Statement} {k : Nat} (n : Nat) (hbody : Balanced body 0 k)
      (hhandler : Balanced handler 1 k) : Balanced (.tryCatch body handler) n (k + n)
  | tryFinally {body cleanup : Statement} {k : Nat} (n : Nat) (hbody : Balanced body 0 k)
      (hcleanup : Balanced cleanup 0 0) : Balanced (.tryFinally body cleanup) n (k + n)
  | tryCatchFinally {body handler cleanup : Statement} {k : Nat} (n : Nat)
      (hbody : Balanced body 0 k) (hhandler : Balanced handler 1 k)
      (hcleanup : Balanced cleanup 0 0) :
      Balanced (.tryCatchFinally body handler cleanup) n (k + n)

theorem length_layout (s : Statement) (p : Nat) : (s.layout p).length = s.size := by
  induction s generalizing p with
  | empty | straight | call | throw | ret => rfl
  | sequence first second ihfirst ihsecond =>
    simp only [layout, size, List.length_append, ihfirst, ihsecond]
  | branch yes no ihyes ihno =>
    simp only [layout, size, List.length_append, List.length_cons, ihyes, ihno]
    omega
  | tryCatch body handler ihbody ihhandler =>
    simp only [layout, size, List.length_append, List.length_cons, ihbody, ihhandler]
    omega
  | tryFinally body cleanup ihbody ihcleanup =>
    simp only [layout, size, List.length_append, List.length_cons, List.length_nil, ihbody,
      ihcleanup]
    omega
  | tryCatchFinally body handler cleanup ihbody ihhandler ihcleanup =>
    simp only [layout, size, List.length_append, List.length_cons, List.length_nil, ihbody,
      ihhandler, ihcleanup]
    omega

end Statement

/-- The code has these instructions from a position on. -/
def Holds (code : Array Instruction) : Nat → List Instruction → Prop
  | _, [] => True
  | p, i :: rest => code[p]? = some i ∧ Holds code (p + 1) rest

namespace Holds

variable {code : Array Instruction} {p : Nat} {i : Instruction} {is js : List Instruction}

theorem head (h : Holds code p (i :: is)) : code[p]? = some i := h.1

theorem tail (h : Holds code p (i :: is)) : Holds code (p + 1) is := h.2

theorem append_iff : Holds code p (is ++ js) ↔ Holds code p is ∧ Holds code (p + is.length) js := by
  induction is generalizing p with
  | nil => simp [Holds]
  | cons i is ih =>
    simp only [List.cons_append, Holds, ih, List.length_cons]
    rw [and_assoc, Nat.add_assoc, Nat.add_comm 1]

/-- Code holds all of itself. -/
theorem self (before is : List Instruction) :
    Holds (before ++ is).toArray before.length is := by
  induction is generalizing before with
  | nil => trivial
  | cons i is ih =>
    constructor
    · simp
    · have h := ih (before ++ [i])
      rw [List.append_assoc, List.length_append] at h
      exact h

theorem layout_append {s : Statement} (h : Holds code p (s.layout p ++ is)) :
    Holds code p (s.layout p) ∧ Holds code (p + s.size) is := by
  rw [append_iff, Statement.length_layout] at h
  exact h

end Holds

end ScriptMachine
