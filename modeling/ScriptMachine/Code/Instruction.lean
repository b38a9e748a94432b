import ScriptMachine.Number.Rendering
import ScriptMachine.Text.Quoted

/-!
# Instructions

The instruction set of the stack machine. Operands live on a stack of their own for each call;
parameters and declared variables live in numbered local slots; every other name is looked up
in the scope of the call.

A statement with handlers is laid out like this, where `C` and `F` are code positions:

```text
    enterTry catch C finally F
    protected body
    exitTry
    jump F
C:  catch body, with the thrown value on the stack
    exitTry                 only when there is a finally block
F:  finally body
    endFinally              goes on with what led into the finally block
```
-/

namespace ScriptMachine

/-- Operators that take two operands. -/
inductive BinaryOp where
  | add | sub | mul | div | lt | strictEq
  deriving DecidableEq, Repr

/-- One instruction. -/
inductive Instruction where
  | undefined
  | null
  | bool (b : Bool)
  | number (x : Float)
  | text (s : String)
  /-- Push the value of a name of the scope. -/
  | loadName (name : String)
  /-- Pop and assign to a name of the scope; strict code may not create one this way. -/
  | storeName (name : String)
  /-- Pop and bind a name in the innermost scope. -/
  | defineName (name : String)
  | loadLocal (slot : UInt16)
  | storeLocal (slot : UInt16)
  | loadThis
  | pop
  | dup
  | binary (op : BinaryOp)
  | not
  | jump (target : Nat)
  /-- Pop, and jump if the value is falsy. -/
  | jumpIfFalse (target : Nat)
  /-- Push a function made from the nested routine with this index. -/
  | closure (index : UInt16)
  /-- Call; the operands are the callee, the receiver and then the arguments. -/
  | call (argumentCount : UInt16)
  | ret
  /-- Suspend a generator, handing out the popped value. -/
  | yield
  | enterTry (catchAt finallyAt : Option Nat)
  | exitTry
  | endFinally
  | throw
  deriving BEq, Repr

/-- The word for an operator in listings. -/
def BinaryOp.listing : BinaryOp → String
  | .add => "Add"
  | .sub => "Sub"
  | .mul => "Mul"
  | .div => "Div"
  | .lt => "Lt"
  | .strictEq => "StrictEq"

/-- A code position that may be missing, as listings write it. -/
def targetListing : Option Nat → String
  | some target => s!"Some({target})"
  | none => "None"

/-- An instruction as listings write it. -/
def Instruction.listing : Instruction → String
  | .undefined => "Undefined"
  | .null => "Null"
  | .bool b => s!"Bool({b})"
  | .number x => "Number(" ++ Number.renderLiteral x ++ ")"
  | .text s => "Str(" ++ Text.quote s ++ ")"
  | .loadName name => "LoadName(" ++ Text.quote name ++ ")"
  | .storeName name => "StoreName(" ++ Text.quote name ++ ")"
  | .defineName name => "DefineName(" ++ Text.quote name ++ ")"
  | .loadLocal slot => s!"LoadLocal({slot})"
  | .storeLocal slot => s!"StoreLocal({slot})"
  | .loadThis => "LoadThis"
  | .pop => "Pop"
  | .dup => "Dup"
  | .binary op => op.listing
  | .not => "Not"
  | .jump target => s!"Jump({target})"
  | .jumpIfFalse target => s!"JumpIfFalse({target})"
  | .closure index => s!"Closure({index})"
  | .call count => s!"Call({count})"
  | .ret => "Return"
  | .yield => "Yield"
  | .enterTry catchAt finallyAt =>
    "EnterTry \x7b catch: " ++ targetListing catchAt ++ ", finally: " ++ targetListing finallyAt ++
      " \x7d"
  | .exitTry => "ExitTry"
  | .endFinally => "EndFinally"
  | .throw => "Throw"

end ScriptMachine
