import ScriptMachine.Proofs.Capture.Transparency
import ScriptMachine.Proofs.Ropes.Machine

/-!
# Ropes are as good as flat strings

A run is followed side by side with a run of the machine that makes a flat string wherever `+`
makes a concatenation. They go in step: `Config.run_alike_runEager` says that at every moment the
same instruction is about to be carried out on the same operands, host functions are called with
the same arguments, the same names are bound to the same values, and both end alike, where the
same means the same up to the form of strings (`Value.flat`). What was flattened before on either
side, and which ropes share pieces, does not matter.
-/

namespace ScriptMachine

variable {σ : Type} {goal : Kind} {S : Labellings → σ → σ → Prop} {W W' : Labellings}

/-! ## What is seen of a configuration -/

/-- The value with a flat string in place of a rope. -/
def Value.flat : Value → Value
  | .string r => .text r.text
  | v => v

/-- The circumstances of a call, with flat strings. -/
def CallSite.flat (site : CallSite) : CallSite :=
  { site with receiver := site.receiver.flat, args := site.args.map Value.flat }

theorem Value.Alike.flat_eq {v w : Value} (h : v.Alike W w) : v.flat = w.flat := by
  cases h with
  | string h => exact congrArg Value.text h.text
  | plain h => rfl

theorem ValuesAlike.map_flat {l k : List Value} (h : ValuesAlike W l k) :
    l.map Value.flat = k.map Value.flat := by
  induction h with
  | nil => rfl
  | cons h _ ih => rw [List.map_cons, List.map_cons, h.flat_eq, ih]

theorem CallSite.Alike.flat_eq {s t : CallSite} (h : s.Alike W t) : s.flat = t.flat := by
  simp only [CallSite.flat, h.context, h.scope, h.receiver.flat_eq, h.args.map_flat]

/-- Both have come to the same kind of end, with alike results. -/
inductive Ending.Alike (W : Labellings) : Ending goal → Ending goal → Prop
  | result {x y : goal.Result} (h : ResultAlike W goal x y) :
      Ending.Alike W (.result x) (.result y)
  | panicked : Ending.Alike W .panicked .panicked
  | crashed : Ending.Alike W .crashed .crashed

namespace Config

/-- The frame that is about to carry out an instruction. -/
def workingFrame? (X : Config σ goal) : Option Frame :=
  match X.state with
  | .executing a _ => a.frames.head?
  | _ => none

/-- The instruction that is about to be carried out. -/
def fetched? (X : Config σ goal) : Option Instruction :=
  X.workingFrame?.bind fun f => f.fetch?.map (·.1)

/-- The operands that it finds, up to the form of strings. -/
def flatOperands? (X : Config σ goal) : Option (List Value) :=
  X.workingFrame?.map fun f => f.operands.map Value.flat

/-- The host function that is about to be called, and its arguments up to the form of strings. -/
def hostCall? (X : Config σ goal) : Option (HostFunction × CallSite) :=
  match X.state with
  | .calling (.hostFunction f) site _ => some (f, site.flat)
  | _ => none

/-- What can be seen of two configurations without looking at how strings are made. -/
structure LooksLike (X Y : Config σ goal) : Prop where
  instruction : X.fetched? = Y.fetched?
  operands : X.flatOperands? = Y.flatOperands?
  hostCall : X.hostCall? = Y.hostCall?
  scopes : ∀ s name, (X.store.scopes.find? s name).map Value.flat =
    (Y.store.scopes.find? s name).map Value.flat

namespace Alike

variable {X Y : Config σ goal}

theorem workingFrame (h : X.Alike S W Y) :
    Option.Rel (Frame.Alike W) X.workingFrame? Y.workingFrame? := by
  obtain ⟨m, state⟩ := X
  obtain ⟨m', state'⟩ := Y
  cases h.state with
  | executing ha hs =>
    simp only [workingFrame?, List.head?_eq_getElem?]
    exact rel_getElem? ha.frames 0
  | running | calling | counting | returning | panicking | crashed => exact .none

theorem ending (h : X.Alike S W Y) : Option.Rel (Ending.Alike W) X.ending? Y.ending? := by
  obtain ⟨m, state⟩ := X
  obtain ⟨m', state'⟩ := Y
  cases h.state with
  | returning hx hs =>
    cases hs with
    | nil => exact .some (.result hx)
    | cons ht hs => exact .none
  | panicking hs =>
    cases hs with
    | nil => exact .some .panicked
    | cons ht hs => exact .none
  | crashed => exact .some .crashed
  | running | calling | counting | executing => exact .none

theorem looksLike (h : X.Alike S W Y) : X.LooksLike Y where
  instruction := by
    have hframe := h.workingFrame
    unfold fetched?
    revert hframe
    generalize X.workingFrame? = f, Y.workingFrame? = g
    rintro (hfg | _)
    · have hfetch := hfg.fetch
      simp only [Option.bind_some]
      revert hfetch
      generalize Frame.fetch? _ = x, Frame.fetch? _ = y
      rintro (hxy | _)
      · exact congrArg some hxy.1
      · rfl
    · rfl
  operands := by
    have hframe := h.workingFrame
    unfold flatOperands?
    revert hframe
    generalize X.workingFrame? = f, Y.workingFrame? = g
    rintro (hfg | _)
    · exact congrArg some (ValuesAlike.map_flat hfg.operands)
    · rfl
  hostCall := by
    obtain ⟨m, state⟩ := X
    obtain ⟨m', state'⟩ := Y
    cases h.state with
    | calling hf hsite hs =>
      cases hf with
      | hostFunction f => exact congrArg (fun site => some (f, site)) hsite.flat_eq
      | executable | resumption | continuation => rfl
    | running | counting | executing | returning | panicking | crashed => rfl
  scopes s name := by
    have hfind := Scopes.alike_find h.store.scopes s name
    revert hfind
    generalize X.store.scopes.find? s name = x, Y.store.scopes.find? s name = y
    rintro (hv | _)
    · exact congrArg some hv.flat_eq
    · rfl

end Alike

/-! ## Runs -/

variable {host : Host σ} {thread : Id .thread}

/-- The run on one side and the eager run on the other stay alike. -/
theorem Alike.run (hhost : host.Indifferent S) {X Y : Config σ goal} (h : X.Alike S W Y)
    (hshort : ∀ k, ∀ text ∈ (X.run host thread k).joined?, IsShort text) (n : Nat) :
    ∃ W', W ≤ W' ∧ (X.run host thread n).Alike S W' (Y.runEager host thread n) := by
  induction n generalizing X Y W with
  | zero => exact ⟨W, le_rfl, h⟩
  | succ n ih =>
    have hnext : ∃ V, W ≤ V ∧ (X.step host thread).Alike S V (Y.stepEager host thread) :=
      h.step hhost (hshort 0)
    obtain ⟨V, hV, hstep⟩ := hnext
    obtain ⟨W', hW', hrun⟩ := ih hstep fun k => hshort (k + 1)
    exact ⟨W', hV.trans hW', hrun⟩

/-- Ropes are as good as flat strings. Take a host that does not tell them apart and two
configurations that are the same but for the form of their strings: scopes, frames, suspended
computations and host code may hold ropes on one side and flat strings or other ropes on the
other, flattened or not. Let one go its way, making no string of 2^64 bytes or more, and the
other with every concatenation by `+` carried out at once.

At every moment they are again the same but for the form of strings. They carry out the same
instructions on the same operands, so conditions, numbers and equalities come out the same; host
functions are called with the same arguments; names are bound to the same values; and when one
ends the other ends with the same result, thrown value or error. -/
theorem run_alike_runEager (hhost : host.Indifferent S) {X Y : Config σ goal}
    (h : X.Alike S W Y)
    (hshort : ∀ k, ∀ text ∈ (X.run host thread k).joined?, IsShort text) (n : Nat) :
    (X.run host thread n).LooksLike (Y.runEager host thread n) ∧
      ∃ W', W ≤ W' ∧ (X.run host thread n).Alike S W' (Y.runEager host thread n) ∧
        Option.Rel (Ending.Alike W') (X.run host thread n).ending?
          (Y.runEager host thread n).ending? := by
  obtain ⟨W', hle, hrun⟩ := h.run hhost hshort n
  exact ⟨hrun.looksLike, W', hle, hrun, hrun.ending⟩

/-! ## A rope that is doubled -/

/-- A function that adds the variable `x` to itself. -/
def doublingCall : Executable where
  id := ⟨0⟩
  shared := ⟨⟨⟨0⟩, []⟩,
    { name := none
      kind := .function
      isGenerator := false
      isStrict := false
      isExpression := true
      paramCount := 0
      names := #[]
      isConst := #[]
      code := #[.loadName "x", .dup, .binary .add, .ret]
      nested := [] }⟩
  security := none
  valid := by decide

/-- A host whose functions and policies do nothing of note. -/
def indifferentHost : Host Unit := uniformHost fun _ => .finish (κ := .completion) (.ok .undefined)

/-- A store in which a string is bound to `x`, with some remembered texts. -/
def boundTo (x : Rope) (texts : FlatTexts) : Store Unit :=
  { oneContext with scopes := ⟨#[{ bindings := [("x", .string x)] }]⟩, texts }

/-- The function is called where `x` is bound to a string. -/
def doubling (x : Rope) (texts : FlatTexts) : Config Unit .completion :=
  ⟨boundTo x texts, .calling (.executable doublingCall) ⟨⟨0⟩, ⟨0⟩, .undefined, []⟩ .nil⟩

/-- A concatenation that was not carried out. -/
def pieces : Rope := .join ⟨0⟩ (.flat "a") (.flat "b")

theorem indifferent_indifferentHost : indifferentHost.Indifferent fun _ _ _ => True where
  monotone _ _ _ _ _ _ := trivial
  run _ _ _ _ _ := .finish (.ok (.plain rfl))
  makeContext _ _ _ := .finish rfl
  outermost W p f f' site site' hf hsite := by
    refine .act (.call hf hsite) fun W' hle o o' ho => ?_
    cases ho with
    | ok hv =>
      refine .ask (.flatten hv) fun V hV v v' hv' => ?_
      exact .finish (.ok hv')
    | error he => exact .finish (.error he)
  observe _ _ _ _ := .finish rfl
  hasFeature _ _ _ _ _ _ _ := rfl
  notify _ _ _ _ := .finish rfl
  resolve _ _ _ _ _ _ := ⟨rfl, trivial⟩

/-- The concatenation on one side stands for its text; there is none on the other. -/
def piecesLabelled : Labellings := (fun id => if id = ⟨0⟩ then some "ab" else none, fun _ => none)

/-- On one side `x` is a concatenation, on the other a flat string. -/
theorem alike_doubling : (doubling pieces ⟨#[none]⟩).Alike (fun _ _ _ => True) piecesLabelled
    (doubling (.flat "ab") {}) := by
  have hpieces : pieces.Alike piecesLabelled (.flat "ab") :=
    ⟨by decide +kernel, ⟨by decide +kernel, by decide +kernel, trivial, trivial⟩, trivial⟩
  have hempty : ∀ {noun : Noun} {α : Type} (R : α → α → Prop),
      Table.Alike R ({} : Table noun α) {} := fun R => ⟨rfl, fun id => .none⟩
  refine ⟨?_, .calling (.executable doublingCall) ⟨rfl, rfl, .plain rfl, .nil⟩ .nil⟩
  refine ⟨⟨rfl, ?_⟩, ?_, ?_, hempty _, hempty _, hempty _, rfl, rfl, rfl, rfl, rfl, trivial⟩
  · intro id
    by_cases h : id = ⟨0⟩
    · subst h
      exact .some ⟨.cons ⟨rfl, .string hpieces⟩ .nil, rfl⟩
    · have hne : id.index ≠ 0 := fun hzero => h (congrArg Id.mk hzero)
      obtain ⟨d, hd⟩ := Nat.exists_eq_succ_of_ne_zero hne
      rw [Table.get?, Table.get?, hd]
      exact .none
  · intro id text htext
    by_cases h : id = ⟨0⟩
    · subst h
      exact .inl rfl
    · rw [show piecesLabelled.1 id = none from if_neg h] at htext
      cases htext
  · intro id text htext
    cases htext

/-- One side doubles a concatenation and the other a flat string, by the same instruction, and
both calls end with the same text. -/
theorem looksLike_doubling :
    ((doubling pieces ⟨#[none]⟩).run indifferentHost ⟨0⟩ 7).LooksLike
        ((doubling (.flat "ab") {}).runEager indifferentHost ⟨0⟩ 7) ∧
      ((doubling pieces ⟨#[none]⟩).run indifferentHost ⟨0⟩ 7).fetched? = some (.binary .add) ∧
      ∃ W, Option.Rel (Ending.Alike W) ((doubling pieces ⟨#[none]⟩).run indifferentHost ⟨0⟩ 13).ending?
        ((doubling (.flat "ab") {}).runEager indifferentHost ⟨0⟩ 13).ending? ∧
      ((doubling pieces ⟨#[none]⟩).run indifferentHost ⟨0⟩ 13).ending?.isSome := by
  have hend : ((doubling pieces ⟨#[none]⟩).run indifferentHost ⟨0⟩ 13).ending?.isSome := by
    decide +kernel
  have hbefore : ∀ k ≤ 13, ∀ text ∈ ((doubling pieces ⟨#[none]⟩).run indifferentHost ⟨0⟩ k).joined?,
      IsShort text := by
    decide +kernel
  have hshort : ∀ k, ∀ text ∈ ((doubling pieces ⟨#[none]⟩).run indifferentHost ⟨0⟩ k).joined?,
      IsShort text :=
    forall_run_of_ending (P := fun X => ∀ text ∈ X.joined?, IsShort text) indifferentHost ⟨0⟩
      hend hbefore
  obtain ⟨hlooks, -⟩ := run_alike_runEager indifferent_indifferentHost alike_doubling hshort 7
  obtain ⟨-, W, -, -, hending⟩ :=
    run_alike_runEager indifferent_indifferentHost alike_doubling hshort 13
  exact ⟨hlooks, rfl, W, hending, hend⟩

end Config

end ScriptMachine
