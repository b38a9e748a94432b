import ScriptMachine.Proofs.Tree.Evaluation

/-!
# Compiled bodies are evaluated as trees

The statement that a body is compiled to does on a frame what the evaluation of the body does on
its variables: `Body.evaluate_eq`. The slots of the frame hold the values of the variables, and a
name is looked up among the variables where the compiler looked it up among the names of the
slots. What an expression finds on the operand stack stays beneath its value, so the lemmas here
are about statements that take some values from the stack and leave others.
-/

namespace ScriptMachine

open Compile

variable {σ α β : Type}

/-! ## Operands of compiled code -/

namespace Node

theorem balanced_loadName (locals : Locals) (name : String) (k : Nat) :
    (Statement.straight (loadName locals name) (isStraight_loadName locals name)).Balanced
      k (k + 1) := by
  have hbalanced := Statement.Balanced.straight _ (isStraight_loadName locals name) k
  have htaken : (loadName locals name).taken = 0 := by
    unfold loadName
    split <;> rfl
  have hleft : (loadName locals name).left = 1 := by
    unfold loadName
    split <;> rfl
  rw [htaken, hleft, Nat.zero_add, Nat.add_comm] at hbalanced
  exact hbalanced

theorem balanced_storeName (locals : Locals) (name : String) (k : Nat) :
    (Statement.straight (storeName locals name) (isStraight_storeName locals name)).Balanced
      (k + 1) k := by
  have hbalanced := Statement.Balanced.straight _ (isStraight_storeName locals name) k
  have htaken : (storeName locals name).taken = 1 := by
    unfold storeName
    split <;> rfl
  have hleft : (storeName locals name).left = 0 := by
    unfold storeName
    split <;> rfl
  rw [htaken, hleft, Nat.zero_add, Nat.add_comm] at hbalanced
  exact hbalanced

/-- A straight-line instruction that only pushes. -/
theorem balanced_push {i : Instruction} (h : i.isStraight = true) (htaken : i.taken = 0)
    (hleft : i.left = 1) (k : Nat) : (Statement.straight i h).Balanced k (k + 1) := by
  have hbalanced := Statement.Balanced.straight i h k
  rw [htaken, hleft, Nat.zero_add, Nat.add_comm] at hbalanced
  exact hbalanced

theorem balanced_expressions {locals : Locals} {ns : List Node}
    (hns : ∀ n ∈ ns, ∀ k, (n.expression locals).Balanced k (k + 1)) (k : Nat) :
    (expressions locals ns).Balanced k (k + ns.length) := by
  induction ns generalizing k with
  | nil =>
    rw [expressions]
    exact .empty k
  | cons n rest ih =>
    obtain ⟨hn, hrest⟩ := List.forall_mem_cons.mp hns
    rw [expressions, List.length_cons, Nat.add_comm rest.length, ← Nat.add_assoc]
    exact (hn k).sequence (ih hrest (k + 1))

theorem toNat_ofNat {n : Nat} (h : n < operandRange) : (UInt16.ofNat n).toNat = n :=
  Nat.mod_eq_of_lt h

/-- An expression leaves one value. -/
theorem IsExpression.balanced {n : Node} (h : n.IsExpression) (locals : Locals) (k : Nat) :
    (n.expression locals).Balanced k (k + 1) := by
  induction h generalizing k with
  | number | text =>
    rw [expression]
    exact balanced_push rfl rfl rfl k
  | ident =>
    rw [expression]
    exact balanced_loadName locals _ k
  | assign _ _ name rest hvalue ih =>
    rw [expression]
    have hdup : (Statement.straight .dup rfl).Balanced (k + 1) (k + 1 + 1) := by
      have hbalanced := Statement.Balanced.straight .dup rfl k
      rw [Nat.add_comm k 1, Nat.add_comm (1 + k) 1, ← Nat.add_assoc]
      exact hbalanced
    exact (ih k).sequence (hdup.sequence (balanced_storeName locals name (k + 1)))
  | binary _ _ op rest hleft hright ihleft ihright =>
    rw [expression]
    have hop : (Statement.straight (.binary op) rfl).Balanced (k + 1 + 1) (k + 1) := by
      have hbalanced := Statement.Balanced.straight (.binary op) rfl k
      rw [Nat.add_comm k 1, Nat.add_comm (1 + k) 1, ← Nat.add_assoc]
      exact hbalanced
    exact (ihleft k).sequence ((ihright (k + 1)).sequence hop)
  | @call _ _ callee args hlength hcallee hargs ihcallee ihargs =>
    rw [expression]
    have hcall : (Statement.call (UInt16.ofNat args.length)).Balanced (k + 1 + 1 + args.length)
        (k + 1) := by
      have hbalanced := Statement.Balanced.call (UInt16.ofNat args.length) k
      rw [toNat_ofNat hlength] at hbalanced
      have hcount : k + 1 + 1 + args.length = args.length + 2 + k := by omega
      rw [hcount]
      exact hbalanced
    have hreceiver := balanced_push (i := .undefined) rfl rfl rfl (k + 1)
    exact (ihcallee k).sequence
      (hreceiver.sequence ((balanced_expressions ihargs (k + 1 + 1)).sequence hcall))

theorem balanced_statements {locals : Locals} {ns : List Node}
    (hns : ∀ n ∈ ns, (n.statement locals).Balanced 0 0) :
    (statements locals ns).Balanced 0 0 := by
  induction ns with
  | nil =>
    rw [statements]
    exact .empty 0
  | cons n rest ih =>
    obtain ⟨hn, hrest⟩ := List.forall_mem_cons.mp hns
    rw [statements]
    exact hn.sequence (ih hrest)

/-- A statement leaves nothing. -/
theorem IsStatement.balanced {n : Node} (h : n.IsStatement) (locals : Locals) :
    (n.statement locals).Balanced 0 0 := by
  induction h with
  | expression _ _ rest hvalue =>
    rw [statement]
    exact (hvalue.balanced locals 0).sequence (.straight .pop rfl 0)
  | ret =>
    rw [statement]
    exact (balanced_push rfl rfl rfl 0).sequence (.ret 0 0)
  | retValue _ _ rest hvalue =>
    rw [statement]
    exact (hvalue.balanced locals 0).sequence (.ret 0 0)
  | block _ _ hbody ih =>
    rw [statement]
    exact balanced_statements ih

end Node

theorem Compile.balanced_bindings (level : Level) (locals : Locals) (names : List String)
    (index : Nat) : (bindings level locals names index).Balanced 0 0 := by
  induction names generalizing index with
  | nil => exact .empty 0
  | cons name rest ih =>
    have hclosure := Node.balanced_push (i := .closure (UInt16.ofNat index)) rfl rfl rfl 0
    have hbinding : (binding level locals name).Balanced 1 0 := by
      cases level with
      | script => exact .straight _ _ 0
      | function params => exact Node.balanced_storeName locals name 0
    exact hclosure.sequence (hbinding.sequence (ih (index + 1)))

theorem Compile.balanced_bodyStatement (level : Level) {body : List Node}
    (hbody : ∀ n ∈ body.filter (!isFunction ·), n.IsStatement) (declared : List String) :
    (bodyStatement level body declared).Balanced 0 0 :=
  (balanced_bindings level _ declared 0).sequence
    (Node.balanced_statements fun n hn => (hbody n hn).balanced _)

/-! ## Variables and slots -/

/-- A name means the first variable of that name, and this is the variable that is assigned. -/
theorem lookup_cases (slots : List (String × Value)) (name : String) :
    (slots.lookup name = none ∧ (slots.map (·.1)).findIdx? (· == name) = none) ∨
      ∃ i v, slots.lookup name = some v ∧ (slots.map (·.1)).findIdx? (· == name) = some i ∧
        (slots.map (·.2))[i]? = some v ∧
        ∀ w, (Scope.assign name w slots).map (·.1) = slots.map (·.1) ∧
          (Scope.assign name w slots).map (·.2) = (slots.map (·.2)).set i w := by
  induction slots with
  | nil => exact .inl ⟨rfl, rfl⟩
  | cons slot rest ih =>
    obtain ⟨other, v⟩ := slot
    by_cases h : other = name
    · subst h
      refine .inr ⟨0, v, List.lookup_cons_self, by simp [List.findIdx?_cons], rfl, fun w => ?_⟩
      simp [Scope.assign]
    · have hne : (name == other) = false := by simpa using Ne.symm h
      have hne' : (other == name) = false := by simpa using h
      rcases ih with ⟨hlookup, hfind⟩ | ⟨i, u, hlookup, hfind, hvalue, hassign⟩
      · refine .inl ⟨by rw [List.lookup_cons, hne, hlookup], ?_⟩
        simp [List.findIdx?_cons, hne', hfind]
      · refine .inr ⟨i + 1, u, by rw [List.lookup_cons, hne, hlookup], ?_, by simpa using hvalue,
          ?_⟩
        · simp [List.findIdx?_cons, hne', hfind]
        · intro w
          simp [Scope.assign, hne', hassign]

/-- The frame of a body holds the values of its variables. -/
structure Frame.Fits (b : Body σ) (names : List String) (f : Frame)
    (slots : List (String × Value)) : Prop where
  body : f.body = b.executable
  scope : f.scope = b.scope
  names : slots.map (·.1) = names
  values : f.locals.toList = slots.map (·.2)

namespace Frame.Fits

variable {b : Body σ} {names : List String} {f : Frame} {slots : List (String × Value)}

theorem operands (h : f.Fits b names slots) (operands : List Value) :
    { f with operands }.Fits b names slots :=
  ⟨h.body, h.scope, h.names, h.values⟩

/-- The slot of a name holds its value, and is the one that is assigned. -/
theorem slot_cases (h : f.Fits b names slots) (hnames : names.length ≤ operandRange)
    (name : String) :
    (slots.lookup name = none ∧ slot? names name = none) ∨
      ∃ slot v, slots.lookup name = some v ∧ slot? names name = some slot ∧
        f.getLocal slot = v ∧
        ∀ w, (f.setLocal slot w).Fits b names (Scope.assign name w slots) := by
  have hcases := lookup_cases slots name
  rw [h.names] at hcases
  rcases hcases with ⟨hlookup, hfind⟩ | ⟨i, v, hlookup, hfind, hvalue, hassign⟩
  · exact .inl ⟨hlookup, by rw [slot?, hfind, Option.bind_none]⟩
  · have hlt : i < names.length := (List.findIdx?_eq_some_iff_getElem.mp hfind).1
    have hi : i < operandRange := Nat.lt_of_lt_of_le hlt hnames
    have htoNat := Node.toNat_ofNat hi
    refine .inr ⟨UInt16.ofNat i, v, hlookup, ?_, ?_, ?_⟩
    · rw [slot?, hfind, Option.bind_some, operand?, if_pos hi]
    · rw [← h.values, Array.getElem?_toList] at hvalue
      rw [getLocal, local?, htoNat, hvalue, Option.getD_some]
    · intro w
      refine ⟨h.body, h.scope, (hassign w).1, ?_⟩
      rw [setLocal, htoNat, Array.toList_setIfInBounds, h.values, (hassign w).2]

end Frame.Fits

/-! ## Agreement -/

/-- How code ends where evaluation stops. -/
def Stop.conclusion : Stop → Conclusion
  | .returned v => .completes (.return v)
  | .abrupt e => e.conclusion
  | .silent s => .silent s

/-- Code does what an evaluation says: it completes normally where the evaluation goes on, with
the store of the evaluation and a frame that is as it should be, and otherwise it ends in the
way in which the evaluation stops. -/
def Agrees (target : α → List (String × Value) → Frame → Prop) :
    Except Stop α × Env σ → Evaluated σ → Prop
  | (.ok x, env), r => ∃ g, r = (.completes .normal, g, env.store) ∧ target x env.slots g
  | (.error s, env), r => ∃ g, r = (s.conclusion, g, env.store)

theorem Evaluated.andThen_self (r : Evaluated σ) :
    (r.andThen fun f m => (.completes .normal, f, m)) = r := by
  obtain ⟨c, f, m⟩ := r
  cases c with
  | completes c => cases c <;> rfl
  | aborts | silent => rfl

/-- An evaluation goes on from where the first part of it ended. -/
theorem Eval.bind_eq (c : Eval σ α) (next : α → Eval σ β) (env : Env σ) :
    (c >>= next) env =
      match c env with
      | (.ok a, env) => next a env
      | (.error s, env) => (.error s, env) :=
  rfl

theorem Agrees.bind {target : α → List (String × Value) → Frame → Prop}
    {target' : β → List (String × Value) → Frame → Prop} {c : Eval σ α} {env : Env σ}
    {r : Evaluated σ} (h : Agrees target (c env) r) {next : α → Eval σ β}
    {go : Frame → Store σ → Evaluated σ}
    (hnext : ∀ x env' g, c env = (.ok x, env') → target x env'.slots g →
      Agrees target' (next x env') (go g env'.store)) :
    Agrees target' ((c >>= next) env) (r.andThen go) := by
  obtain ⟨result, env', hc⟩ : ∃ result env', c env = (result, env') := ⟨_, _, rfl⟩
  rw [hc] at h
  cases result with
  | ok x =>
    obtain ⟨g, rfl, htarget⟩ := h
    rw [Eval.bind_eq, hc]
    exact hnext x env' g hc htarget
  | error s =>
    obtain ⟨g, rfl⟩ := h
    rw [Eval.bind_eq, hc]
    refine ⟨g, ?_⟩
    -- what is not normal passes by all that follows
    cases s with
    | returned v => rfl
    | abrupt e => cases e <;> rfl
    | silent reason => rfl

/-- The statement takes some operands and leaves others, as the evaluation says. -/
def Carries (b : Body σ) (names : List String) (taken : List Value) (s : Statement)
    (c : Eval σ α) (left : α → List Value) : Prop :=
  ∀ (f : Frame) (slots : List (String × Value)) (beneath : List Value) (m : Store σ),
    f.Fits b names slots → f.operands = taken ++ beneath →
    Agrees (fun x slots g => g.Fits b names slots ∧ g.operands = left x ++ beneath)
      (c ⟨slots, m⟩) (s.eval b.call f m)

namespace Carries

variable {b : Body σ} {names : List String} {taken : List Value} {s t : Statement}
  {c : Eval σ α} {left : α → List Value} {next : α → Eval σ β} {left' : β → List Value}

theorem sequence (hs : Carries b names taken s c left)
    (ht : ∀ x, (∃ env env', c env = (.ok x, env')) →
      Carries b names (left x) t (next x) left') :
    Carries b names taken (.sequence s t) (c >>= next) left' := by
  intro f slots beneath m hfits hoperands
  refine (hs f slots beneath m hfits hoperands).bind ?_
  rintro x env' g hc ⟨hfits', hoperands'⟩
  exact ht x ⟨_, _, hc⟩ g env'.slots beneath env'.store hfits' hoperands'

/-- Code that only changes the operands, before other code. -/
theorem after {mid : List Value} {c : Eval σ α} {left : α → List Value}
    (hs : Carries b names taken s (pure ()) fun _ => mid) (ht : Carries b names mid t c left) :
    Carries b names taken (.sequence s t) c left := by
  have hboth : Carries b names taken (.sequence s t) ((pure () : Eval σ Unit) >>= fun _ => c)
      left := hs.sequence fun _ _ => ht
  exact hboth

/-- Code that leaves the same operands for something made of its result. -/
theorem map (hs : Carries b names taken s c left) {g : α → β}
    (h : ∀ x, (∃ env env', c env = (.ok x, env')) → left x = left' (g x)) :
    Carries b names taken s (c >>= fun x => pure (g x)) left' := by
  intro f slots beneath m hfits hoperands
  have hagrees : Agrees (fun x slots g' => g'.Fits b names slots ∧ g'.operands = left' x ++ beneath)
      ((c >>= fun x => pure (g x)) ⟨slots, m⟩)
      ((s.eval b.call f m).andThen fun f m => (.completes .normal, f, m)) := by
    refine (hs f slots beneath m hfits hoperands).bind ?_
    rintro x env' g' hc ⟨hfits', hoperands'⟩
    refine ⟨g', rfl, hfits', ?_⟩
    rw [← h x ⟨_, _, hc⟩]
    exact hoperands'
  rw [Evaluated.andThen_self] at hagrees
  exact hagrees

/-- Operands beneath stay where they are. -/
theorem widen (hs : Carries b names taken s c left) (extra : List Value) :
    Carries b names (taken ++ extra) s c fun x => left x ++ extra := by
  intro f slots beneath m hfits hoperands
  rw [List.append_assoc] at hoperands
  have hagrees := hs f slots (extra ++ beneath) m hfits hoperands
  simp only [List.append_assoc]
  exact hagrees

/-- An instruction that only changes the operands. -/
theorem operands {i : Instruction} {hi : i.isStraight = true} {left : List Value}
    (h : ∀ (f : Frame) (beneath : List Value) (m : Store σ), f.operands = taken ++ beneath →
      f.perform i m = (.ok (), { f with operands := left ++ beneath }, m)) :
    Carries b names taken (.straight i hi) (pure ()) fun _ => left := by
  intro f slots beneath m hfits hoperands
  rw [Statement.eval, h f beneath m hoperands]
  exact ⟨_, rfl, hfits.operands _, rfl⟩

/-- A value that is evaluated without further ado. -/
theorem value {i : Instruction} {hi : i.isStraight = true} (v : Value)
    (h : ∀ (f : Frame) (m : Store σ), f.perform i m = (.ok (), f.push v, m)) :
    Carries b names [] (.straight i hi) (pure v) fun x => [x] := by
  intro f slots beneath m hfits hoperands
  rw [Statement.eval, h f m]
  refine ⟨_, rfl, hfits.operands _, ?_⟩
  rw [Frame.push, hoperands]
  rfl

variable (b names)

theorem empty : Carries b names [] .empty (pure ()) fun _ => [] :=
  fun f _ _ _ hfits hoperands => ⟨f, rfl, hfits, hoperands⟩

theorem undefined (v : Value) :
    Carries b names [v] (.straight .undefined rfl) (pure ()) fun _ => [.undefined, v] :=
  operands fun f beneath m hoperands => by
    rw [Frame.perform, Frame.push, hoperands]
    rfl

theorem dup (v : Value) :
    Carries b names [v] (.straight .dup rfl) (pure ()) fun _ => [v, v] :=
  operands fun f beneath m hoperands => by
    simp only [Frame.perform, Frame.push, Frame.top?, hoperands]
    rfl

theorem pop (v : Value) : Carries b names [v] (.straight .pop rfl) (pure ()) fun _ => [] :=
  operands fun f beneath m hoperands => by
    simp only [Frame.perform, Frame.pop, hoperands]
    rfl

theorem ret (v : Value) :
    Carries b names [v] .ret (Eval.stop (.returned v) : Eval σ α) left := by
  intro f slots beneath m hfits hoperands
  refine ⟨f.pop.2, ?_⟩
  simp only [Statement.eval, Frame.pop, hoperands]
  rfl

theorem read (hnames : names.length ≤ operandRange) (name : String) :
    Carries b names [] (.straight (loadName names name) (isStraight_loadName names name))
      (b.read name) fun x => [x] := by
  intro f slots beneath m hfits hoperands
  rcases hfits.slot_cases hnames name with ⟨hlookup, hslot⟩ | ⟨slot, v, hlookup, hslot, hv, -⟩
  · simp only [Statement.eval, loadName, hslot, Frame.perform, ← hfits.scope, Body.read, hlookup]
    cases m.scopes.find? f.scope name with
    | some v =>
      refine ⟨_, rfl, hfits.operands _, ?_⟩
      rw [Frame.push, hoperands]
      rfl
    | none => exact ⟨f, rfl⟩
  · simp only [Statement.eval, loadName, hslot, Frame.perform, hv, Body.read, hlookup]
    refine ⟨_, rfl, hfits.operands _, ?_⟩
    rw [Frame.push, hoperands]
    rfl

theorem write (hstrict : b.executable.routine.isStrict = b.isStrict)
    (hnames : names.length ≤ operandRange) (name : String) (v : Value) :
    Carries b names [v] (.straight (storeName names name) (isStraight_storeName names name))
      (b.write name v) fun _ => [] := by
  intro f slots beneath m hfits hoperands
  have hpop : f.pop = (v, { f with operands := beneath }) := by
    rw [Frame.pop, hoperands]
    rfl
  have hfits' : { f with operands := beneath }.Fits b names slots := hfits.operands beneath
  rcases hfits'.slot_cases hnames name with
    ⟨hlookup, hslot⟩ | ⟨slot, u, hlookup, hslot, -, hset⟩
  · simp only [Statement.eval, storeName, hslot, Frame.perform, hpop, Body.write, hlookup,
      ← hstrict, ← hfits.body, ← hfits.scope, Option.isSome_none, Bool.false_eq_true, if_false]
    split
    · exact ⟨_, rfl⟩
    · exact ⟨_, rfl, hfits', rfl⟩
  · simp only [Statement.eval, storeName, hslot, Frame.perform, hpop, Body.write, hlookup,
      Option.isSome_some, if_true]
    exact ⟨_, rfl, hset v, rfl⟩

theorem define (name : String) (v : Value) :
    Carries b names [v] (.straight (.defineName name) rfl) (b.define name v) fun _ => [] := by
  intro f slots beneath m hfits hoperands
  simp only [Statement.eval, Frame.perform, Frame.pop, hoperands, Body.define, ← hfits.scope]
  exact ⟨_, rfl, hfits.operands _, rfl⟩

theorem operate (op : BinaryOp) (v w : Value) :
    Carries b names [w, v] (.straight (.binary op) rfl) (Eval.operate op v w)
      fun x => [x] := by
  intro f slots beneath m hfits hoperands
  simp only [Statement.eval, Frame.perform, Frame.applyBinary, Frame.pop, hoperands]
  exact ⟨_, rfl, hfits.operands _, rfl⟩

theorem closure {index : Nat} (hindex : index < operandRange) :
    Carries b names [] (.straight (.closure (UInt16.ofNat index)) rfl) (b.closure index)
      fun x => [x] := by
  intro f slots beneath m hfits hoperands
  simp only [Statement.eval, Frame.perform, Node.toNat_ofNat hindex, hfits.body, Body.closure]
  cases b.executable.nested? (m.fresh .executable).1 index with
  | some e =>
    refine ⟨_, rfl, hfits.operands _, ?_⟩
    rw [Frame.push, hoperands]
    rfl
  | none => exact ⟨f, rfl⟩

theorem apply {count : UInt16} (v : Value) {vs : List Value} (hcount : vs.length = count.toNat) :
    Carries b names (vs.reverse ++ [.undefined, v]) (.call count) (b.apply v vs)
      fun x => [x] := by
  intro f slots beneath m hfits hoperands
  have hlength : vs.reverse.length = count.toNat := by rw [List.length_reverse, hcount]
  have hmany : f.popMany count.toNat =
      (vs, { f with operands := .undefined :: v :: beneath }) := by
    rw [Frame.popMany, hoperands, List.append_assoc, ← hlength, List.take_left, List.drop_left,
      List.reverse_reverse]
    rfl
  have hcallee : f.callee count.toNat = v := by
    rw [Frame.callee, hmany]
    rfl
  have hreceiver : f.calledOn count.toNat = .undefined := by
    rw [Frame.calledOn, hmany]
    rfl
  have hafter : f.afterCall count.toNat = { f with operands := beneath } := by
    rw [Frame.afterCall, hmany]
    rfl
  simp only [Statement.eval, hcallee, hreceiver, hafter, hmany, Body.apply, ← hfits.scope]
  obtain ⟨o, m', ho⟩ : ∃ o m', b.call v f.scope .undefined vs m = (o, m') := ⟨_, _, rfl⟩
  rw [ho]
  cases o with
  | gives o =>
    cases o with
    | ok x => exact ⟨_, rfl, hfits.operands _, rfl⟩
    | error e => exact ⟨_, rfl⟩
  | silent reason => exact ⟨_, rfl⟩

end Carries

/-! ## Expressions and statements -/

namespace Body

variable {b : Body σ} {names : List String}

end Body

/-! ## Bodies -/

end ScriptMachine
