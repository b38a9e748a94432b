import ScriptMachine.Machine.Program

/-!
# The stack of activities

What is under way beneath the code that runs: host programs that wait for a reply, activations
that wait for a callee, and the guards that put the bookkeeping back. Each task takes the result
of the one above it and gives a result to the one below, so the kinds of results along a stack
fit by construction.
-/

namespace ScriptMachine

/-- An activity that waits for a result of one kind and then gives one of another. -/
inductive Task (σ : Type) : Kind → Kind → Type where
  /-- A host program waits for a reply. -/
  | program {α κ : Kind} (k : α.Result → Program σ κ) : Task σ α κ
  /-- The top call of a context ends here. -/
  | clearTopCall (c : Id .context) : Task σ .completion .completion
  /-- The top call accepts captures as it did before. -/
  | restoreCaptures (c : Id .context) (previous : Bool) : Task σ .completion .completion
  /-- A string that the outermost call gives is made flat. -/
  | flattenResult : Task σ .completion .completion
  /-- An activation waits for a callee. -/
  | called (a : Activation) : Task σ .completion .exit
  /-- An activation waits for the instruction observer. -/
  | observed (a : Activation) : Task σ .verdict .exit
  /-- The call of an executable ends with its activation. -/
  | callEnd : Task σ .exit .completion
  /-- A generator goes back to being suspended, or finishes. -/
  | bodyEnd (g : Generator) : Task σ .exit .step
  /-- Whether the generator is done is kept aside. -/
  | recordStep (r : Id .resumption) : Task σ .step .completion
  /-- The value of the outermost call is a step of a generator. -/
  | reportStep (r : Id .resumption) : Task σ .completion .step
  /-- A context that was made is bound to the thread. -/
  | bindMade : Task σ .made .entered
  /-- Listeners are told about an event, one after the other. -/
  | notifying (event : ContextEvent) (c : Id .context) (rest : List (Id .listener)) :
      Task σ .done .done
  | entered (c : Id .context) : Task σ .done .entered
  | left : Task σ .done .left
  /-- The body of a bracket runs once the context is bound. -/
  | bracketBody (body : Id .context → Program σ .done) : Task σ .entered .left
  /-- The binding of a bracket is dropped. -/
  | release : Task σ .done .left
  /-- A bracket ends well even if there was no binding left to drop. -/
  | released : Task σ .left .left
  /-- A panic goes on after the binding of a bracket was dropped. -/
  | repanic : Task σ .left .left
  /-- A panic ends here. -/
  | guarded : Task σ .done .guarded

/-- Tasks from the top: the first takes a result of kind `κ`, the last gives one of kind
`goal`. -/
inductive Stack (σ : Type) : Kind → Kind → Type where
  | nil {κ : Kind} : Stack σ κ κ
  | cons {α β goal : Kind} (t : Task σ α β) (rest : Stack σ β goal) : Stack σ α goal

/-- What runs at the moment, on top of a stack. -/
inductive State (σ : Type) (goal : Kind) where
  | running {κ : Kind} (p : Program σ κ) (s : Stack σ κ goal)
  /-- Something is about to be called. -/
  | calling (f : Callable) (site : CallSite) (s : Stack σ .completion goal)
  /-- An activation is about to count an instruction. -/
  | counting (a : Activation) (s : Stack σ .exit goal)
  /-- An activation is about to carry out an instruction. -/
  | executing (a : Activation) (s : Stack σ .exit goal)
  /-- A result goes to the task on top. -/
  | returning {κ : Kind} (result : κ.Result) (s : Stack σ κ goal)
  /-- A panic goes through the tasks. -/
  | panicking {κ : Kind} (s : Stack σ κ goal)
  /-- A panic met another one on its way; nothing can go on. -/
  | crashed

/-- How a run ended. -/
inductive Ending (goal : Kind) where
  | result (x : goal.Result)
  | panicked
  | crashed

/-- The end of a run, if nothing is left to do. -/
def State.ending? {σ : Type} {goal : Kind} : State σ goal → Option (Ending goal)
  | .returning result .nil => some (.result result)
  | .panicking .nil => some .panicked
  | .crashed => some .crashed
  | _ => none

end ScriptMachine
