import ScriptMachine.Proofs.Structured.Statement

/-!
# The meaning of statements

Structured code, evaluated directly. `Statement.eval` works on the operands and slots of a frame
and looks neither at its position nor at its try statements: what is thrown goes to the handler
around it, a cleanup runs once for each exit, and a completion of the cleanup that is not normal
takes the place of the one that was pending.

A function that is such a statement is evaluated where it is called; `Bodies.calls` goes down
with the number of frames that are left, so evaluation always ends.
-/

namespace ScriptMachine

variable {σ : Type}

/-- Why a call is not described to its end. -/
inductive Silence where
  /-- The callee never gives a value and never throws one. -/
  | unanswered
  /-- The callee is none of those that are described. -/
  | foreign

/-- What becomes of a call. -/
inductive CallEnd where
  | gives (o : Outcome)
  | silent (s : Silence)

/-- What becomes of calls of a callee in a scope, with a receiver and arguments. -/
abbrev Calls (σ : Type) : Type :=
  Value → Id .scope → Value → List Value → Store σ → CallEnd × Store σ

/-- How code ends. -/
inductive Conclusion where
  | completes (c : Completion)
  /-- All running code is left. -/
  | aborts (e : Abrupt) (h : e.isCatchable = false)
  | silent (s : Silence)

/-- How code ends at an error. -/
def Abrupt.conclusion : Abrupt → Conclusion
  | .thrown v => .completes (.throw v)
  | .suspended p => .aborts (.suspended p) rfl
  | .aborted reason => .aborts (.aborted reason) rfl
  | .fault f => .aborts (.fault f) rfl

/-- What becomes of the call of a function whose body ends like this. -/
def Conclusion.callEnd : Conclusion → CallEnd
  | .completes .normal => .gives (.ok .undefined)
  | .completes (.throw v) => .gives (.error (.thrown v))
  | .completes (.return v) => .gives (.ok v)
  | .aborts e _ => .gives (.error e)
  | .silent s => .silent s

/-- How code ends, its frame and the store afterwards. -/
abbrev Evaluated (σ : Type) : Type := Conclusion × Frame × Store σ

/-- The operands that a cleanup finds beneath its own: if the completion is not normal, those
before the try statement. -/
def Completion.operands (now before : List Value) : Completion → List Value
  | .normal => now
  | .throw _ | .return _ => before

namespace Evaluated

/-- Go on after code that completes. -/
def bind (r : Evaluated σ) (next : Completion → Frame → Store σ → Evaluated σ) : Evaluated σ :=
  match r with
  | (.completes c, f, m) => next c f m
  | r => r

/-- Go on after code that completes normally. -/
def andThen (r : Evaluated σ) (next : Frame → Store σ → Evaluated σ) : Evaluated σ :=
  r.bind fun c f m =>
    match c with
    | .normal => next f m
    | c => (.completes c, f, m)

/-- Handle what is thrown: the operands are again those before the try statement, and the thrown
value is on top. -/
def handle (operands : List Value) (handler : Frame → Store σ → Evaluated σ)
    (r : Evaluated σ) : Evaluated σ :=
  r.bind fun c f m =>
    match c with
    | .throw v => handler ({ f with operands }.push v) m
    | c => (.completes c, f, m)

/-- Run a cleanup before code completes. If the cleanup itself does not complete normally, that
is how the whole ends. -/
def cleanUp (operands : List Value) (cleanup : Frame → Store σ → Evaluated σ)
    (r : Evaluated σ) : Evaluated σ :=
  r.bind fun c f m =>
    (cleanup { f with operands := c.operands f.operands operands } m).andThen fun f m =>
      (.completes c, f, m)

end Evaluated

namespace Frame

/-- The callee of a call. -/
def callee (f : Frame) (count : Nat) : Value := (f.popMany count).2.pop.2.pop.1

/-- The receiver of a call. -/
def calledOn (f : Frame) (count : Nat) : Value := (f.popMany count).2.pop.1

/-- The frame of a call without the operands that the call takes. -/
def afterCall (f : Frame) (count : Nat) : Frame := (f.popMany count).2.pop.2.pop.2

/-- A frame goes on after its call. -/
def answered (f : Frame) : CallEnd × Store σ → Evaluated σ
  | (.gives (.ok v), m) => (.completes .normal, f.push v, m)
  | (.gives (.error e), m) => (e.conclusion, f, m)
  | (.silent s, m) => (.silent s, f, m)

end Frame

/-- Evaluate a statement on a frame. -/
def Statement.eval (call : Calls σ) : Statement → Frame → Store σ → Evaluated σ
  | .empty, f, m => (.completes .normal, f, m)
  | .straight i _, f, m =>
    match f.perform i m with
    | (.ok (), f, m) => (.completes .normal, f, m)
    | (.error e, f, m) => (e.conclusion, f, m)
  | .sequence first second, f, m => (first.eval call f m).andThen (second.eval call)
  | .branch yes no, f, m =>
    let (v, f) := f.pop
    if v.isTruthy then yes.eval call f m else no.eval call f m
  | .call count, f, m =>
    let n := count.toNat
    (f.afterCall n).answered (call (f.callee n) f.scope (f.calledOn n) (f.popMany n).1 m)
  | .throw, f, m =>
    let (v, f) := f.pop
    (.completes (.throw v), f, m)
  | .ret, f, m =>
    let (v, f) := f.pop
    (.completes (.return v), f, m)
  | .tryCatch body handler, f, m => (body.eval call f m).handle f.operands (handler.eval call)
  | .tryFinally body cleanup, f, m => (body.eval call f m).cleanUp f.operands (cleanup.eval call)
  | .tryCatchFinally body handler cleanup, f, m =>
    ((body.eval call f m).handle f.operands (handler.eval call)).cleanUp f.operands
      (cleanup.eval call)

/-! ## Calls -/

namespace Calls

/-- Nothing is known about any callee, however many frames are left. -/
def foreign (_room : Nat) : Calls σ := fun _ _ _ _ m => (.silent .foreign, m)

/-- Calls of interpreted functions by one account; by another one those of generator functions,
which run nothing, and of host functions. Nothing else can be called. -/
def dispatch (function : Executable → Id .scope → Value → List Value → Store σ → CallEnd × Store σ)
    (others : Calls σ) : Calls σ := fun callee scope receiver args m =>
  match callee with
  | .executable e =>
    if e.routine.isGenerator then others (.executable e) scope receiver args m
    else function e scope receiver args m
  | .hostFunction h => others (.hostFunction h) scope receiver args m
  | v =>
    let (text, m) := m.flattening v.display
    (.gives (.error (.typeError (text ++ " is not a function"))), m)

end Calls

/-- Functions that are laid out statements. -/
structure Bodies where
  of? : Executable → Option Statement
  laid : ∀ e s, of? e = some s → e.routine.code = (s.layout 0).toArray
  balanced : ∀ e s, of? e = some s → ∃ k, s.Balanced 0 k

/-- What becomes of calls while there is room for a number of frames more; `others` answers for
callees that are no statements. -/
def Bodies.calls (bodies : Bodies) (limit : Nat) (others : Nat → Calls σ) : Nat → Calls σ
  | 0 =>
    .dispatch (fun _ _ _ _ m => (.gives (.error (.fault (.stackOverflow limit))), m)) (others 0)
  | room + 1 =>
    .dispatch
      (fun e scope receiver args m =>
        match bodies.of? e with
        | some s =>
          let (c, _, m) := s.eval (bodies.calls limit others room)
            (Frame.enter e scope receiver args) m
          (c.callEnd, m)
        | none => others (room + 1) (.executable e) scope receiver args m)
      (others (room + 1))

/-! ## Operand balance -/

/-- A frame after code that leaves alone all operands beneath some: only operands and slots
differ, and if the code was done there is a number of operands of its own. -/
def Frame.Stays (beneath : List Value) (isDone : Prop) (k : Nat) (f g : Frame) : Prop :=
  ∃ own locals, g = { f with operands := own ++ beneath, locals } ∧ (isDone → own.length = k)

namespace Frame

variable {beneath own : List Value} {k : Nat} {f g h : Frame}

theorem Stays.body {done : Prop} (hs : f.Stays beneath done k g) : g.body = f.body := by
  obtain ⟨own, locals, rfl, -⟩ := hs
  rfl

theorem Stays.trans {done done' : Prop} {l : Nat} (hs : f.Stays beneath done k g)
    (hs' : g.Stays beneath done' l h) : f.Stays beneath done' l h := by
  obtain ⟨own, locals, rfl, -⟩ := hs
  obtain ⟨own', locals', rfl, hl⟩ := hs'
  exact ⟨own', locals', rfl, hl⟩

/-- Operands of the frame itself that code leaves alone count as its own afterwards. -/
theorem Stays.widen {done : Prop} (hs : f.Stays (own ++ beneath) done k g) :
    f.Stays beneath done (k + own.length) g := by
  obtain ⟨results, locals, rfl, hk⟩ := hs
  refine ⟨results ++ own, locals, by rw [List.append_assoc], ?_⟩
  intro h
  rw [List.length_append, hk h]

/-- Operands that are put back to what they were. -/
theorem Stays.restore {done done' : Prop} {l : Nat} (hs : f.Stays beneath done k g)
    (hl : own.length = l) : f.Stays beneath done' l { g with operands := own ++ beneath } := by
  obtain ⟨results, locals, rfl, -⟩ := hs
  exact ⟨own, locals, rfl, fun _ => hl⟩

theorem stays_push {done : Prop} (hf : f.operands = own ++ beneath) (hk : own.length + 1 = k)
    (v : Value) : f.Stays beneath done k (f.push v) := by
  refine ⟨v :: own, f.locals, ?_, fun _ => hk⟩
  simp [push, hf]

theorem operands_pop {v : Value} (hf : f.operands = v :: own ++ beneath) :
    f.pop.2.operands = own ++ beneath := by
  simp [pop, hf]

theorem stays_pop {done : Prop} {v : Value} (hf : f.operands = v :: own ++ beneath)
    (hk : own.length = k) : f.Stays beneath done k f.pop.2 := by
  refine ⟨own, f.locals, ?_, fun _ => hk⟩
  rw [← operands_pop hf]
  rfl

theorem exists_cons {n : Nat} (h : own.length = n + 1) :
    ∃ v rest, own = v :: rest ∧ rest.length = n := by
  cases own with
  | nil => cases h
  | cons v rest => exact ⟨v, rest, rfl, Nat.succ.inj h⟩

theorem stays_afterCall {count n : Nat} (hf : f.operands = own ++ beneath)
    (hn : own.length = count + 2 + n) :
    ∃ rest, rest.length = n ∧ (f.afterCall count).operands = rest ++ beneath ∧
      f.Stays beneath True n (f.afterCall count) := by
  have hmany : (f.popMany count).2.operands = own.drop count ++ beneath := by
    simp only [popMany, hf]
    exact List.drop_append_of_le_length (by omega)
  have hlength : (own.drop count).length = n + 1 + 1 := by
    rw [List.length_drop]
    omega
  obtain ⟨receiver, _, hown, hcons⟩ := exists_cons hlength
  obtain ⟨callee, rest, rfl, hrest⟩ := exists_cons hcons
  rw [hown] at hmany
  have hafter : (f.afterCall count).operands = rest ++ beneath :=
    operands_pop (operands_pop hmany)
  refine ⟨rest, hrest, hafter, rest, f.locals, ?_, fun _ => hrest⟩
  rw [← hafter]
  rfl

/-- A straight-line instruction takes its operands and leaves its results. -/
theorem perform_stays {i : Instruction} (hi : i.isStraight = true) {n : Nat}
    (hf : f.operands = own ++ beneath) (hn : own.length = i.taken + n) (m : Store σ) :
    f.Stays beneath ((f.perform i m).1 = .ok ()) (i.left + n) (f.perform i m).2.1 := by
  rw [Nat.add_comm] at hn
  cases i with
  | undefined | null | bool | number | text | loadLocal | loadThis =>
    exact stays_push hf (by rw [hn, Nat.add_comm]; rfl) _
  | loadName name =>
    simp only [perform]
    split
    · exact stays_push hf (by rw [hn, Nat.add_comm]; rfl) _
    · refine ⟨own, f.locals, ?_, ?_⟩
      · rw [← hf]
      · rintro ⟨⟩
  | closure index =>
    simp only [perform]
    split
    · exact stays_push hf (by rw [hn, Nat.add_comm]; rfl) _
    · refine ⟨own, f.locals, ?_, ?_⟩
      · rw [← hf]
      · rintro ⟨⟩
  | storeName name =>
    obtain ⟨v, rest, rfl, hrest⟩ := exists_cons hn
    simp only [perform, pop, hf, List.cons_append, List.tail_cons]
    split
    · refine ⟨rest, f.locals, rfl, ?_⟩
      rintro ⟨⟩
    · exact ⟨rest, f.locals, rfl, fun _ => by rw [hrest, Instruction.left, Nat.zero_add]⟩
  | defineName | pop =>
    obtain ⟨v, rest, rfl, hrest⟩ := exists_cons hn
    exact stays_pop hf (by rw [hrest, Instruction.left, Nat.zero_add])
  | storeLocal slot =>
    obtain ⟨v, rest, rfl, hrest⟩ := exists_cons hn
    refine ⟨rest, f.locals.setIfInBounds slot.toNat v, ?_, fun _ => ?_⟩
    · simp only [perform, Frame.pop, setLocal, hf, List.cons_append, List.tail_cons,
        List.headD_cons]
    · rw [hrest, Instruction.left, Nat.zero_add]
  | dup =>
    obtain ⟨v, rest, rfl, hrest⟩ := exists_cons hn
    refine stays_push hf ?_ _
    rw [List.length_cons, hrest, Instruction.left]
    omega
  | not =>
    obtain ⟨v, rest, rfl, hrest⟩ := exists_cons hn
    have hpop : f.Stays beneath True n f.pop.2 := stays_pop hf hrest
    refine hpop.trans (stays_push (operands_pop hf) ?_ _)
    show rest.length + 1 = 1 + n
    omega
  | binary op =>
    obtain ⟨w, _, rfl, hcons⟩ := exists_cons hn
    obtain ⟨v, rest, rfl, hrest⟩ := exists_cons hcons
    have hpop : f.Stays beneath True (v :: rest).length f.pop.2 := stays_pop hf rfl
    have hpop' : f.pop.2.Stays beneath True n f.pop.2.pop.2 := stays_pop (operands_pop hf) hrest
    refine (hpop.trans hpop').trans (stays_push (operands_pop (operands_pop hf)) ?_ _)
    show rest.length + 1 = 1 + n
    omega
  | _ => cases hi

end Frame

namespace Evaluated

variable {c : Completion} {f g : Frame} {m m' : Store σ}

theorem bind_self (r : Evaluated σ) : (r.bind fun c f m => (.completes c, f, m)) = r := by
  unfold bind
  split <;> rfl

theorem bind_completes {r : Evaluated σ} {next : Completion → Frame → Store σ → Evaluated σ}
    (h : r.bind next = (.completes c, g, m')) :
    ∃ d f m, r = (.completes d, f, m) ∧ next d f m = (.completes c, g, m') := by
  unfold bind at h
  split at h
  · next d f m => exact ⟨d, f, m, rfl, h⟩
  · next hr => exact absurd h (hr _ _ _)

/-- Code that completes did so by its first or by its second part. -/
theorem andThen_completes {r : Evaluated σ} {next : Frame → Store σ → Evaluated σ}
    (h : r.andThen next = (.completes c, g, m')) :
    (c ≠ .normal ∧ r = (.completes c, g, m')) ∨
      ∃ f m, r = (.completes .normal, f, m) ∧ next f m = (.completes c, g, m') := by
  obtain ⟨d, f, m, rfl, h⟩ := bind_completes h
  cases d with
  | normal => exact .inr ⟨f, m, rfl, h⟩
  | throw v =>
    cases h
    exact .inl ⟨nofun, rfl⟩
  | «return» v =>
    cases h
    exact .inl ⟨nofun, rfl⟩

/-- A try statement that completes did so by its body or by its handler. -/
theorem handle_completes {operands : List Value} {handler : Frame → Store σ → Evaluated σ}
    {r : Evaluated σ} (h : r.handle operands handler = (.completes c, g, m')) :
    r = (.completes c, g, m') ∨
      ∃ v f m, r = (.completes (.throw v), f, m) ∧
        handler ({ f with operands }.push v) m = (.completes c, g, m') := by
  obtain ⟨d, f, m, rfl, h⟩ := bind_completes h
  cases d with
  | throw v => exact .inr ⟨v, f, m, rfl, h⟩
  | normal => exact .inl h
  | «return» v => exact .inl h

/-- A try statement with a cleanup completes as its body or handler did, unless the cleanup
completes otherwise. -/
theorem cleanUp_completes {operands : List Value} {cleanup : Frame → Store σ → Evaluated σ}
    {r : Evaluated σ} (h : r.cleanUp operands cleanup = (.completes c, g, m')) :
    ∃ d f m, r = (.completes d, f, m) ∧ ∃ e,
      cleanup { f with operands := d.operands f.operands operands } m = (.completes e, g, m') ∧
        (e = .normal ∧ c = d ∨ e ≠ .normal ∧ c = e) := by
  obtain ⟨d, f, m, rfl, h⟩ := bind_completes h
  refine ⟨d, f, m, rfl, ?_⟩
  rcases andThen_completes h with ⟨hc, h⟩ | ⟨f', m'', h, hd⟩
  · exact ⟨c, h, .inr ⟨hc, rfl⟩⟩
  · cases hd
    exact ⟨.normal, h, .inl ⟨rfl, rfl⟩⟩

/-- A handler starts on the operands before the try statement, with the thrown value on top. -/
theorem stays_handle {k : Nat} {handler : Frame → Store σ → Evaluated σ} {r : Evaluated σ}
    (hbody : ∀ {c g m}, r = (.completes c, g, m) → f.Stays f.operands (c = .normal) k g)
    (hhandler : ∀ {h v m c g m'}, h.operands = [v] ++ f.operands →
      handler h m = (.completes c, g, m') → h.Stays f.operands (c = .normal) k g)
    (h : r.handle f.operands handler = (.completes c, g, m')) :
    f.Stays f.operands (c = .normal) k g := by
  rcases handle_completes h with h | ⟨v, f₁, m₁, hr, h⟩
  · exact hbody h
  · have hstart : f.Stays f.operands True 1 ({ f₁ with operands := f.operands }.push v) :=
      (hbody hr).restore List.length_singleton
    exact hstart.trans (hhandler rfl h)

/-- A cleanup comes and goes without operands of its own. -/
theorem stays_cleanUp {k : Nat} {cleanup : Frame → Store σ → Evaluated σ} {r : Evaluated σ}
    (hbody : ∀ {c g m}, r = (.completes c, g, m) → f.Stays f.operands (c = .normal) k g)
    (hcleanup : ∀ {h m c g m'}, cleanup h m = (.completes c, g, m') →
      h.Stays h.operands (c = .normal) 0 g)
    (h : r.cleanUp f.operands cleanup = (.completes c, g, m')) :
    f.Stays f.operands (c = .normal) k g := by
  obtain ⟨d, f₁, m₁, hr, e, h, hc⟩ := cleanUp_completes h
  obtain ⟨results, locals, rfl, hk⟩ := hbody hr
  obtain ⟨own, locals', rfl, hown⟩ := hcleanup h
  rcases hc with ⟨rfl, rfl⟩ | ⟨he, rfl⟩
  · obtain rfl : own = [] := List.eq_nil_of_length_eq_zero (hown rfl)
    cases c with
    | normal => exact ⟨results, locals', rfl, hk⟩
    | throw v => exact ⟨[], locals', rfl, nofun⟩
    | «return» v => exact ⟨[], locals', rfl, nofun⟩
  · cases d with
    | normal => exact ⟨own ++ results, locals', by simp [Completion.operands], fun h => absurd h he⟩
    | throw v => exact ⟨own, locals', rfl, fun h => absurd h he⟩
    | «return» v => exact ⟨own, locals', rfl, fun h => absurd h he⟩

end Evaluated

theorem Abrupt.conclusion_ne_normal (e : Abrupt) : e.conclusion ≠ .completes .normal := by
  cases e with
  | thrown v => rintro ⟨⟩
  | _ => rintro ⟨⟩

/-- What a statement leaves behind when it completes, by any completion. -/
theorem Statement.Balanced.stays {s : Statement} {n k : Nat} (hs : s.Balanced n k)
    (call : Calls σ) {f g : Frame} {own beneath : List Value} (hf : f.operands = own ++ beneath)
    (hn : own.length = n) {m m' : Store σ} {c : Completion}
    (h : s.eval call f m = (.completes c, g, m')) : f.Stays beneath (c = .normal) k g := by
  induction hs generalizing f g own beneath m m' c with
  | empty n =>
    cases h
    exact ⟨own, f.locals, by rw [← hf], fun _ => hn⟩
  | straight i hi n =>
    have hstays := Frame.perform_stays hi hf hn m
    obtain ⟨r, g', m₁, hr⟩ : ∃ r g' m₁, f.perform i m = (r, g', m₁) := ⟨_, _, _, rfl⟩
    simp only [eval, hr] at h hstays
    obtain ⟨results, locals, rfl, hk⟩ := hstays
    cases r with
    | ok u =>
      cases h
      exact ⟨results, locals, rfl, fun _ => hk rfl⟩
    | error e =>
      injection h with hconclusion h
      injection h with hg hm
      subst hg
      refine ⟨results, locals, rfl, ?_⟩
      rintro rfl
      exact absurd hconclusion e.conclusion_ne_normal
  | sequence hfirst hsecond ihfirst ihsecond =>
    rcases Evaluated.andThen_completes h with ⟨hc, h⟩ | ⟨f₁, m₁, hr, h⟩
    · obtain ⟨results, locals, rfl, -⟩ := ihfirst hf hn h
      exact ⟨results, locals, rfl, fun hnormal => absurd hnormal hc⟩
    · obtain ⟨results, locals, hf₁, hk⟩ := ihfirst hf hn hr
      have hsecond := ihsecond (congrArg Frame.operands hf₁) (hk rfl) h
      exact (ihfirst hf hn hr).trans hsecond
  | branch hyes hno ihyes ihno =>
    obtain ⟨v, rest, rfl, hrest⟩ := Frame.exists_cons hn
    have hpop : f.Stays beneath True rest.length f.pop.2 := Frame.stays_pop hf rfl
    simp only [eval] at h
    split at h
    · exact hpop.trans (ihyes (Frame.operands_pop hf) hrest h)
    · exact hpop.trans (ihno (Frame.operands_pop hf) hrest h)
  | call count n =>
    obtain ⟨rest, hrest, hafter, hcalled⟩ := Frame.stays_afterCall hf hn
    simp only [eval, Frame.answered] at h
    split at h
    · cases h
      exact hcalled.trans (Frame.stays_push hafter (by rw [hrest]) _)
    · next e m₁ hcall =>
      injection h with hconclusion h
      injection h with hg hm
      subst hg
      obtain ⟨results, locals, hf₁, -⟩ := hcalled
      refine ⟨results, locals, hf₁, ?_⟩
      rintro rfl
      exact absurd hconclusion e.conclusion_ne_normal
    · cases h
  | throw n k =>
    obtain ⟨v, rest, rfl, hrest⟩ := Frame.exists_cons hn
    cases h
    have hpop : f.Stays beneath True rest.length f.pop.2 := Frame.stays_pop hf rfl
    obtain ⟨results, locals, heq, -⟩ := hpop
    exact ⟨results, locals, heq, fun hnormal => by cases hnormal⟩
  | ret n k =>
    obtain ⟨v, rest, rfl, hrest⟩ := Frame.exists_cons hn
    cases h
    have hpop : f.Stays beneath True rest.length f.pop.2 := Frame.stays_pop hf rfl
    obtain ⟨results, locals, heq, -⟩ := hpop
    exact ⟨results, locals, heq, fun hnormal => by cases hnormal⟩
  | tryCatch n hbody hhandler ihbody ihhandler =>
    subst hn
    apply Frame.Stays.widen
    rw [← hf]
    exact Evaluated.stays_handle (fun hr => ihbody (List.nil_append _).symm rfl hr)
      (fun hh hr => ihhandler hh rfl hr) h
  | tryFinally n hbody hcleanup ihbody ihcleanup =>
    subst hn
    apply Frame.Stays.widen
    rw [← hf]
    exact Evaluated.stays_cleanUp (fun hr => ihbody (List.nil_append _).symm rfl hr)
      (fun hr => ihcleanup (List.nil_append _).symm rfl hr) h
  | tryCatchFinally n hbody hhandler hcleanup ihbody ihhandler ihcleanup =>
    subst hn
    apply Frame.Stays.widen
    rw [← hf]
    refine Evaluated.stays_cleanUp ?_ (fun hr => ihcleanup (List.nil_append _).symm rfl hr) h
    intro c g m hr
    exact Evaluated.stays_handle (fun hr => ihbody (List.nil_append _).symm rfl hr)
      (fun hh hr => ihhandler hh rfl hr) hr

end ScriptMachine
