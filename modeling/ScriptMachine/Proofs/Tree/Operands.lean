import ScriptMachine.Proofs.Tree.Execution
import ScriptMachine.Proofs.Tree.Frames

/-!
# The operands of frames that run compiled code

In any run, of any host and any threads, a frame that runs compiled code has at each position the
number of operands that `Routine.heightAt` tells, whenever it is about to execute, and one less
while it waits for the value of a call: `SourceTree.operands_of_compiled`. So the undefined that
an instruction finds beneath the last operand is never used.
-/

namespace ScriptMachine

open Compile

variable {σ : Type} {goal : Kind}

/-! ## Operands that an instruction finds -/

namespace Frame

/-- A frame with more operands beneath its own. -/
def onto (f : Frame) (beneath : List Value) : Frame :=
  { f with operands := f.operands ++ beneath }

/-- A frame has what an instruction takes from it: it takes nothing that was beneath. -/
structure Provides (f : Frame) (i : Instruction) : Prop where
  height : i.pops ≤ f.height
  call : ∀ count, i = .call count → ∃ args receiver callee rest,
    args.length = count.toNat ∧ f.operands = args ++ receiver :: callee :: rest
  ret : i = .ret → ∃ v, f.operands = [v]
  perform : i.isStraight = true → ∀ {σ : Type} (beneath : List Value) (m : Store σ),
    (f.onto beneath).perform i m =
      ((f.perform i m).1, (f.perform i m).2.1.onto beneath, (f.perform i m).2.2)

variable {f : Frame} {i : Instruction}

/-- A straight-line instruction that finds its operands does the same whatever is beneath. -/
theorem perform_onto (hi : i.isStraight = true) (h : i.taken ≤ f.height) (beneath : List Value)
    (m : Store σ) : (f.onto beneath).perform i m =
      ((f.perform i m).1, (f.perform i m).2.1.onto beneath, (f.perform i m).2.2) := by
  -- with the operands that are taken named, no default is ever chosen
  have hcons : 1 ≤ f.height → ∃ v rest, f.operands = v :: rest := by
    intro hone
    obtain ⟨v, rest, heq, -⟩ := exists_cons (Nat.sub_add_cancel hone).symm
    exact ⟨v, rest, heq⟩
  cases i with
  | undefined | null | bool | number | text | loadLocal | loadThis => rfl
  | loadName name =>
    simp only [Frame.perform, onto]
    split <;> rfl
  | closure index =>
    simp only [Frame.perform, onto]
    split <;> rfl
  | storeName name =>
    obtain ⟨v, rest, heq⟩ := hcons h
    simp only [Frame.perform, onto, pop, heq, List.cons_append, List.headD_cons, List.tail_cons]
    split <;> rfl
  | defineName | storeLocal | pop | dup | not =>
    obtain ⟨v, rest, heq⟩ := hcons h
    simp only [Frame.perform, onto, pop, push, top?, setLocal, heq, List.cons_append,
      List.headD_cons, List.tail_cons, List.head?_cons, Option.getD_some]
  | binary op =>
    obtain ⟨w, _, heq, hlength⟩ := exists_cons (Nat.sub_add_cancel (Nat.le_of_succ_le h)).symm
    obtain ⟨v, rest, rfl, -⟩ := exists_cons (n := f.height - 2) (hlength.trans (by
      rw [Instruction.taken] at h
      omega))
    simp only [Frame.perform, applyBinary, onto, pop, push, heq, List.cons_append,
      List.headD_cons, List.tail_cons]
  | _ => cases hi

theorem provides (hpops : i.pops ≤ f.height) (hret : i = .ret → f.height = 1) : f.Provides i where
  height := hpops
  call := by
    rintro count rfl
    have hlength : (f.operands.drop count.toNat).length = f.height - (count.toNat + 2) + 1 + 1 := by
      rw [List.length_drop]
      rw [Instruction.pops] at hpops
      show f.height - count.toNat = _
      omega
    obtain ⟨receiver, _, hdrop, hcons⟩ := exists_cons hlength
    obtain ⟨callee, rest, rfl, -⟩ := exists_cons hcons
    refine ⟨f.operands.take count.toNat, receiver, callee, rest, ?_, ?_⟩
    · rw [List.length_take]
      rw [Instruction.pops] at hpops
      show min _ f.height = _
      omega
    · rw [← hdrop, List.take_append_drop]
  ret h := List.length_eq_one_iff.mp (hret h)
  perform hi _ beneath m := by
    rw [Instruction.pops_of_isStraight hi] at hpops
    exact perform_onto hi hpops beneath m

end Frame

/-! ## The rule of heights -/

namespace Frame

/-- A frame has the operands of its position. -/
structure IsLevel (f : Frame) : Prop where
  position : f.position ≤ f.body.routine.code.size
  height : f.height = f.body.routine.heightAt f.position

/-- A frame has the operands of its position but one. -/
structure IsOwed (f : Frame) : Prop where
  position : f.position ≤ f.body.routine.code.size
  height : f.height + 1 = f.body.routine.heightAt f.position

theorem isLevel_enter (e : Executable) (scope : Id .scope) (receiver : Value) (args : List Value) :
    (Frame.enter e scope receiver args).IsLevel :=
  ⟨Nat.zero_le _, by simp [Frame.enter, height, Routine.heightAt, heightAfter]⟩

theorem IsOwed.push (f : Frame) (h : f.IsOwed) (v : Value) : (f.push v).IsLevel :=
  ⟨h.position, h.height⟩

end Frame

namespace Compile

/-- Frames that run compiled code have the operands of their positions, but for one that is owed
while they wait. -/
def heightRule : FrameRule :=
  codeRule Routine.IsCompiled (fun _ => id) Frame.IsLevel Frame.IsOwed Frame.isLevel_enter
    Frame.IsOwed.push

variable {f : Frame} {i : Instruction}

theorem isLevel_perform (hcompiled : f.body.routine.IsCompiled) (hf : f.IsLevel)
    (hi : f.body.routine.code[f.position]? = some i) (hstraight : i.isStraight = true)
    {g : Frame} (hg : g = { f with position := f.position + 1 }) {m : Store σ}
    (hok : (g.perform i m).1 = .ok ()) : (g.perform i m).2.1.IsLevel := by
  obtain ⟨hpops, -⟩ := hcompiled.operands hi
  have hnext := Routine.heightAt_succ hi
  obtain ⟨hsize, -⟩ := Array.getElem?_eq_some_iff.mp hi
  rw [← hf.height, Instruction.pops_of_isStraight hstraight] at hpops hnext
  rw [Instruction.pushes_of_isStraight hstraight] at hnext
  -- all operands count as the frame's own, since nothing of another frame is beneath them
  have hown : f.operands.length = i.taken + (f.height - i.taken) :=
    (Nat.add_sub_cancel' hpops).symm
  subst hg
  obtain ⟨own, locals, hperformed, hlength⟩ := Frame.perform_stays
    (f := { f with position := f.position + 1 }) hstraight (List.append_nil _).symm hown m
  rw [hperformed]
  refine ⟨hsize, ?_⟩
  show (own ++ []).length = f.body.routine.heightAt (f.position + 1)
  rw [List.append_nil, hlength hok, hnext, Nat.add_comm]

theorem isOwed_afterCall (hcompiled : f.body.routine.IsCompiled) (hf : f.IsLevel) {count : UInt16}
    (hi : f.body.routine.code[f.position]? = some (.call count)) :
    (Frame.afterCall { f with position := f.position + 1 } count.toNat).IsOwed := by
  obtain ⟨hpops, -⟩ := hcompiled.operands hi
  have hnext := Routine.heightAt_succ hi
  obtain ⟨hsize, -⟩ := Array.getElem?_eq_some_iff.mp hi
  rw [← hf.height] at hpops hnext
  have hown : f.operands.length = count.toNat + 2 + (f.height - (count.toNat + 2)) :=
    (Nat.add_sub_cancel' hpops).symm
  obtain ⟨rest, hrest, hoperands, -⟩ := Frame.stays_afterCall
    (f := { f with position := f.position + 1 }) (List.append_nil _).symm hown
  refine ⟨hsize, ?_⟩
  show (Frame.afterCall _ count.toNat).operands.length + 1 = _
  rw [hoperands, List.append_nil, hrest]
  exact hnext.symm

theorem isClosed_heightRule (σ : Type) : heightRule.IsClosed σ := by
  intro m f i hready hi
  refine allows_codeRule hready hi ?_ ?_
  · intro hcompiled hf hstraight g hg hok
    exact isLevel_perform hcompiled hf hi hstraight hg hok
  · rintro hcompiled hf count rfl
    exact isOwed_afterCall hcompiled hf hi

end Compile

/-! ## Every state of every run -/

/-- The heights of the operand stack in compiled code: there are no operands at the boundaries of
statements and at the end, and one at a return. -/
structure Compile.IsMeasured (level : Level) (body : List Node) (r : Routine) : Prop where
  boundary {q : Nat} (hq : IsBoundary level body q) : r.heightAt q = 0
  finish : r.heightAt r.code.size = 0
  ret {q : Nat} (hq : r.code[q]? = some .ret) : r.heightAt q = 1

theorem Compile.IsBody.isMeasured {strict : Bool} {level : Level} {body : List Node} {r : Routine}
    (h : IsBody strict level body r) : IsMeasured level body r where
  boundary := h.heightAt_boundary
  finish := by
    rw [Routine.heightAt, ← Array.length_toList, List.take_length]
    exact h.fits.heightAfter_eq
  ret hq := (Routine.IsCompiled.operands ⟨_, _, _, h⟩ hq).2 rfl

/-- Take a tree that compiles, a body in it and the routine that the body becomes, with the height
of the operand stack at each position of its code. In any run that begins with nothing, with any
host code and any threads, let a frame of the routine be the innermost frame of an activation. If
the activation is about to execute, then the frame has the operands of its position, and what the
next instruction takes is there. If the frame has called something that is no interpreted function
and waits for its value, then it has one operand less, and gets the value. -/
theorem SourceTree.operands_of_compiled {strict : Bool} {t : SourceTree} {script r : Routine}
    (hcompiled : t.compile strict = .ok script) (hr : script.IsPart r) (host : Host σ) (state : σ)
    {events : List (System.Event σ)} (hevents : ∀ e ∈ events, e.IsHostCode) :
    (∃ level body, t.HasBody level body ∧ IsBody strict level body r ∧
      IsMeasured level body r) ∧
    ∀ (thread : Id .thread) (job : Job σ),
      ((System.idle (Store.initial state)).run host events).jobs thread = some job →
      ∀ (a : Activation) (f : Frame) (callers : List Frame), a.frames = f :: callers →
        f.body.routine = r →
        (job.state.Executes a →
          f.position ≤ r.code.size ∧ f.height = r.heightAt f.position ∧
          ∀ i g, f.fetch? = some (i, g) → g.Provides i) ∧
        (job.state.Awaits a →
          f.position ≤ r.code.size ∧ f.height + 1 = r.heightAt f.position) := by
  obtain ⟨level, body, hhas, hbody⟩ := exists_isBody hcompiled hr
  refine ⟨⟨level, body, hhas, hbody, hbody.isMeasured⟩, ?_⟩
  intro thread job hjob a f callers hframes hroutine
  subst hroutine
  have hiscompiled : f.body.routine.IsCompiled := ⟨strict, level, body, hbody⟩
  obtain ⟨hobeys, -⟩ := (System.obeys_run (isClosed_heightRule σ) host state hevents).jobs
    thread job hjob
  constructor
  · intro ha
    have hready := hobeys.ready ha
    rw [hframes] at hready
    have hlevel : f.IsLevel := (hready.1 hiscompiled).2
    refine ⟨hlevel.position, hlevel.height, ?_⟩
    intro i g hfetch
    obtain ⟨hi, rfl⟩ := Frame.fetch?_eq_some_iff.mp hfetch
    obtain ⟨hpops, hret⟩ := hiscompiled.operands hi
    rw [← hlevel.height] at hpops hret
    exact Frame.provides (f := { f with position := f.position + 1 }) hpops hret
  · intro ha
    have hwaits := hobeys.waits ha
    rw [hframes] at hwaits
    have howed : f.IsOwed := ((List.forall_mem_cons.mp hwaits).1 hiscompiled).2
    exact ⟨howed.position, howed.height⟩

/-- Make a context and a scope with a host function, and run the script that compares what the
function gives with itself. -/
def Program.comparing : Program Unit .completion :=
  .ask (.context (.create ⟨0⟩)) fun c =>
    .ask (.scope (.create none)) fun s =>
      .ask (.newHostFunction "id") fun h =>
        .ask (.scope (.define s "id" (.hostFunction h))) fun _ =>
          .act (.execute comparingScript c s) .finish

/-- A thread begins to run the script, and comes so far. -/
def System.comparing (steps : Nat) : System Unit :=
  (idle (Store.initial ())).run firstHost
    (.begins ⟨0⟩ Program.comparing :: List.replicate steps (.steps ⟨0⟩))

/-- Before the call of the host function the script has the operands of both calls; while the host
function runs it has those of the outer call but the argument, which it waits for. -/
theorem SourceTree.operands_of_comparing :
    (∃ job a f callers, (System.comparing 22).jobs ⟨0⟩ = some job ∧ job.state.Executes a ∧
      a.frames = f :: callers ∧ f.body.routine = comparingRoutine ∧ f.position = 7 ∧
      f.height = 5 ∧ ∃ g, f.fetch? = some (.call 1, g) ∧ g.Provides (.call 1)) ∧
    ∃ job a f callers, (System.comparing 24).jobs ⟨0⟩ = some job ∧ job.state.Awaits a ∧
      a.frames = f :: callers ∧ f.body.routine = comparingRoutine ∧ f.position = 8 ∧
      f.height + 1 = 3 := by
  have hevents (steps : Nat) : ∀ e ∈ System.Event.begins ⟨0⟩ Program.comparing ::
      List.replicate steps (.steps ⟨0⟩), e.IsHostCode := by
    intro e he
    rcases List.mem_cons.mp he with rfl | he
    · exact nofun
    · rw [List.eq_of_mem_replicate he]
      trivial
  have hoperands (steps : Nat) := (operands_of_compiled compile_comparing (.inl rfl) firstHost ()
    (hevents steps)).2 ⟨0⟩
  constructor
  · obtain ⟨job, a, f, callers, hjob, ha, hframes, hroutine, hposition⟩ :
        ∃ job a f callers, (System.comparing 22).jobs ⟨0⟩ = some job ∧ job.state.Executes a ∧
          a.frames = f :: callers ∧ f.body.routine = comparingRoutine ∧ f.position = 7 :=
      ⟨_, _, _, _, rfl, .executing _, rfl, rfl, rfl⟩
    obtain ⟨-, hheight, hprovides⟩ :=
      (hoperands 22 job hjob a f callers hframes hroutine).1 ha
    refine ⟨job, a, f, callers, hjob, ha, hframes, hroutine, hposition, ?_, ?_⟩
    · rw [hheight, hposition]
      rfl
    · have hfetch : f.fetch? = some (.call 1, { f with position := f.position + 1 }) := by
        rw [Frame.fetch?, hroutine, hposition]
        rfl
      exact ⟨_, hfetch, hprovides _ _ hfetch⟩
  · obtain ⟨job, a, f, callers, hjob, ha, hframes, hroutine, hposition⟩ :
        ∃ job a f callers, (System.comparing 24).jobs ⟨0⟩ = some job ∧ job.state.Awaits a ∧
          a.frames = f :: callers ∧ f.body.routine = comparingRoutine ∧ f.position = 8 :=
      ⟨_, _, _, _, rfl, .top _, rfl, rfl, rfl⟩
    obtain ⟨-, hheight⟩ := (hoperands 24 job hjob a f callers hframes hroutine).2 ha
    refine ⟨job, a, f, callers, hjob, ha, hframes, hroutine, hposition, ?_⟩
    rw [hheight, hposition]
    rfl

end ScriptMachine
