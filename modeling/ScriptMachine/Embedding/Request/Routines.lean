import ScriptMachine.Embedding.Answer
import ScriptMachine.Embedding.Draft

/-!
# Requests about routines and executables
-/

namespace ScriptMachine.Embedding

/-- A request about a routine that has a name. -/
inductive RoutineAction where
  | listing
  | validate
  | declares (name : String)
  | same (other : String)

/-- Something to do with an executable. -/
inductive ExecutableAction where
  | report
  | slot (index : Nat)
  | routine
  | inspect
  /-- Make a function from a nested routine. -/
  | nested (index : Nat) (keep : Option String)

/-- Where the code of a new executable comes from. -/
inductive CodeSource where
  | draft (d : Draft)
  | routine (name : String)

/-- A request about routines and executables. -/
inductive RoutineRequest where
  | build (d : Draft) (keep : Option String)
  | act (routine : String) (a : RoutineAction)
  /-- Make an executable; without a kind it is of the kind of the code. -/
  | create (source : CodeSource) (kind : Option RoutineKind) (domain : Option String)
      (keep : Option String)
  | inspect (executable : String) (a : ExecutableAction)

namespace RoutineRequest

open Attempt

/-- Ask a query about code. -/
def query (q : CodeQuery) : Attempt q.Reply := ask (.code q)

/-- The routine with a name. -/
def routine (name : String) : Attempt SharedRoutine := find "data" Session.routines name

/-- Build a draft. -/
def built (d : Draft) : Attempt SharedRoutine :=
  match d.build with
  | .ok r => query (.share r)
  | .error e => throw (.fault (.invalidArgument (.build e)))

/-- Give a name to an executable, if there is one. -/
def keepExecutable : Option String → Executable → Attempt Unit :=
  keep fun f s => { s with executables := f s.executables }

/-- Give a name to a routine, if there is one. -/
def keepRoutine : Option String → SharedRoutine → Attempt Unit :=
  keep fun f s => { s with routines := f s.routines }

/-- Do something with a routine. -/
def carryOut (r : Routine) : RoutineAction → Attempt (Answer Record)
  | .listing => return .text r.listing
  | .validate =>
    match r.validate with
    | .ok () => return .nothing
    | .error d => throw (.fault (.invalidArgument (.build (.defect d))))
  | .declares name => return .flag (r.declares name)
  | .same other => do return .flag (r.same (← routine other).routine)

/-- Do something with an executable. -/
def carryOutOn (e : Executable) : ExecutableAction → Attempt (Answer Record)
  | .report => return .executable e
  | .slot index => return .slot e.routine.names[index]? e.routine.isConst[index]?
  | .routine => return .routine e.routine
  | .inspect => return .text e.inspect
  | .nested index keep => do
    let f ← unlessFault (← query (.nested e index))
    keepExecutable keep f
    return .executable f

/-- The code of a new executable. -/
def source : CodeSource → Attempt SharedRoutine
  | .draft d => built d
  | .routine name => routine name

/-- Carry out the request. -/
def perform : RoutineRequest → Attempt (Answer Record)
  | build d keep => do
    let r ← built d
    keepRoutine keep r
    return .routine r.routine
  | act name a => do carryOut (← routine name).routine a
  | create from? kind domain keep => do
    let r ← source from?
    let e ← unlessFault (← query (.create (kind.getD r.routine.kind) r (domain.map .text)))
    keepExecutable keep e
    return .executable e
  | inspect name a => do carryOutOn (← find "unit" Session.executables name) a

end RoutineRequest

end ScriptMachine.Embedding
