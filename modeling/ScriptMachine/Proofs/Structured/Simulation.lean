import ScriptMachine.Proofs.Structured.Journey

/-!
# Statements run as they are evaluated

A statement is run at a `Place`: in the innermost frame of an activation, amid try statements and
cleanups that are under way. Its end is routed as the evaluation says, by whatever try statements
the place has. The invariant is in `Place.nested` and `Place.Ends`: a cleanup under way was
entered inside no more try statements than are active, and one that a statement leaves behind
was entered inside all of those that are active around it, so it is abandoned with the first of
them that is left.
-/

namespace ScriptMachine

variable {σ : Type}

/-- Where a statement of the innermost frame of an activation is. -/
structure Place where
  activation : Activation
  callers : List Frame
  handlers : List Handler
  cleanups : List Cleanup
  nested : ∀ x ∈ cleanups, x.depth ≤ handlers.length

namespace Place

variable (P : Place)

/-- The statement is at a position. -/
def start (f : Frame) (position : Nat) : Flow :=
  .next (P.activation.running (f.placed position P.handlers P.cleanups) P.callers)

/-- Code of the statement completed at a position and left cleanups behind. -/
def ended (f : Frame) (position : Nat) (pending : List Cleanup) (c : Completion) : Flow :=
  (P.activation.running (f.placed position P.handlers (pending ++ P.cleanups)) P.callers).proceed c

/-- Inside another try statement. -/
def inTry (h : Handler) : Place :=
  { P with
    handlers := h :: P.handlers
    nested := fun x hx => Nat.le_succ_of_le (P.nested x hx) }

/-- Inside a cleanup that a completion led into. -/
def inCleanup (c : Completion) : Place :=
  { P with
    cleanups := ⟨c, P.handlers.length⟩ :: P.cleanups
    nested := List.forall_mem_cons.mpr ⟨Nat.le_refl _, P.nested⟩ }

/-- How the statement is left: normally at its end, and otherwise anywhere. -/
def Ends (done : Nat) (c : Completion) (f : Frame) (flow : Flow) : Prop :=
  ∃ position pending, (c = .normal → position = done ∧ pending = []) ∧
    (∀ x ∈ pending, P.handlers.length ≤ x.depth) ∧ flow = P.ended f position pending c

/-- How a try statement goes on at its cleanup. -/
def Enters (operands : List Value) (finallyAt : Nat) (c : Completion) (f : Frame) (flow : Flow) :
    Prop :=
  flow = (P.inCleanup c).start { f with operands := c.operands f.operands operands } finallyAt

theorem ends_normal (f : Frame) (done : Nat) : P.Ends done .normal f (P.start f done) :=
  ⟨done, [], fun _ => ⟨rfl, rfl⟩, nofun, rfl⟩

theorem ends_abrupt (f : Frame) (done position : Nat) {c : Completion} (hc : c ≠ .normal) :
    P.Ends done c f (P.ended f position [] c) :=
  ⟨position, [], fun h => absurd h hc, fun _ hx => absurd hx List.not_mem_nil, rfl⟩

theorem Ends.start_eq {P : Place} {done : Nat} {f : Frame} {flow : Flow}
    (h : P.Ends done .normal f flow) : flow = P.start f done := by
  obtain ⟨position, pending, hnormal, -, rfl⟩ := h
  obtain ⟨rfl, rfl⟩ := hnormal rfl
  rfl

/-- An end that is not normal does not depend on where the statement would have ended. -/
theorem Ends.of_ne {P : Place} {done : Nat} {c : Completion} {f : Frame} {flow : Flow}
    (h : P.Ends done c f flow) (hc : c ≠ .normal) (other : Nat) : P.Ends other c f flow := by
  obtain ⟨position, pending, -, hpending, rfl⟩ := h
  exact ⟨position, pending, fun h => absurd h hc, hpending, rfl⟩

/-- A cleanup that does not complete normally is left behind. -/
theorem Ends.abandon {P : Place} {entered : Completion} {done : Nat} {c : Completion} {f : Frame}
    {flow : Flow} (h : (P.inCleanup entered).Ends done c f flow) (hc : c ≠ .normal) (other : Nat) :
    P.Ends other c f flow := by
  obtain ⟨position, pending, -, hpending, rfl⟩ := h
  refine ⟨position, pending ++ [⟨entered, P.handlers.length⟩], fun h => absurd h hc, ?_, ?_⟩
  · intro x hx
    rw [List.mem_append, List.mem_singleton] at hx
    rcases hx with hx | rfl
    · exact hpending x hx
    · exact Nat.le_refl _
  · simp only [ended, inCleanup, List.append_assoc, List.singleton_append]

theorem within {pending : List Cleanup} {h : Handler}
    (hpending : ∀ x ∈ pending, (P.inTry h).handlers.length ≤ x.depth) :
    Frame.Within P.handlers pending P.cleanups :=
  ⟨fun x hx => hpending x hx, P.nested⟩

end Place

/-! ## Meeting an evaluation -/

namespace Journey

variable (J : Journey σ)

/-- A flow comes to what an evaluation says, with its completions at certain flows. -/
def Meets (start : Flow) (m : Store σ) (target : Completion → Frame → Flow → Prop) :
    Evaluated σ → Prop
  | (.completes c, g, m') => ∃ flow, target c g flow ∧ J.Leads start m flow m'
  | (.aborts e _, _, m') => J.Leads start m (.leave (.error e)) m'
  | (.silent .unanswered, _, _) => J.Strays start m
  | (.silent .foreign, _, _) => True

variable {J} {start next : Flow} {m m' : Store σ} {r : Evaluated σ}
  {target target' : Completion → Frame → Flow → Prop}

theorem Meets.of_leads (hlead : J.Leads start m next m') (h : J.Meets next m' target r) :
    J.Meets start m target r := by
  obtain ⟨c, g, m₁⟩ := r
  cases c with
  | completes c =>
    obtain ⟨flow, htarget, hflow⟩ := h
    exact ⟨flow, htarget, J.trans hlead hflow⟩
  | aborts e h' => exact J.trans hlead h
  | silent s =>
    cases s with
    | unanswered => exact J.strays hlead h
    | foreign => trivial

/-- Code that goes on from where its first part completes. -/
theorem Meets.bind (h : J.Meets start m target r)
    {next : Completion → Frame → Store σ → Evaluated σ}
    (hnext : ∀ c g m' flow, r = (.completes c, g, m') → target c g flow →
      J.Meets flow m' target' (next c g m')) :
    J.Meets start m target' (r.bind next) := by
  obtain ⟨c, g, m₁⟩ := r
  cases c with
  | completes c =>
    obtain ⟨flow, htarget, hflow⟩ := h
    exact (hnext c g m₁ flow rfl htarget).of_leads hflow
  | aborts e h' => exact h
  | silent s =>
    cases s with
    | unanswered => exact h
    | foreign => trivial

/-- Code that is over where it begins. -/
theorem meets_completes {c : Completion} {g : Frame} (h : target c g start) :
    J.Meets start m target (.completes c, g, m) :=
  ⟨start, h, J.refl start m⟩

/-- What becomes of a call, with the frame that called. -/
def Answers (J : Journey σ) (start : Flow) (m : Store σ) (a : Activation) (f : Frame)
    (callers : List Frame) : CallEnd × Store σ → Prop
  | (.gives (.ok v), m') => J.Leads start m (.next (a.running (f.push v) callers)) m'
  | (.gives (.error (.thrown v)), m') => J.Leads start m ((a.running f callers).throw v) m'
  | (.gives (.error e), m') => J.Leads start m (.leave (.error e)) m'
  | (.silent .unanswered, _) => J.Strays start m
  | (.silent .foreign, _) => True

theorem Answers.of_leads {a : Activation} {f : Frame} {callers : List Frame}
    {x : CallEnd × Store σ} (hlead : J.Leads start m next m')
    (h : J.Answers next m' a f callers x) : J.Answers start m a f callers x := by
  obtain ⟨o, m₁⟩ := x
  cases o with
  | gives o =>
    cases o with
    | ok v => exact J.trans hlead h
    | error e => cases e <;> exact J.trans hlead h
  | silent s =>
    cases s with
    | unanswered => exact J.strays hlead h
    | foreign => trivial

/-- What becomes of a call, with the frames that wait for it, if there are any. -/
def Leaves (J : Journey σ) (start : Flow) (m : Store σ) (a : Activation) (callers : List Frame) :
    CallEnd × Store σ → Prop
  | (.gives (.ok v), m') => J.Leads start m (a.complete callers v) m'
  | (.gives (.error (.thrown v)), m') =>
    J.Leads start m ({ a with frames := callers }.throw v) m'
  | (.gives (.error e), m') => J.Leads start m (.leave (.error e)) m'
  | (.silent .unanswered, _) => J.Strays start m
  | (.silent .foreign, _) => True

/-- A frame that waits for a call gets its answer. -/
theorem Leaves.answers {a : Activation} {f : Frame} {callers : List Frame}
    {x : CallEnd × Store σ} (h : J.Leaves start m a (f :: callers) x) :
    J.Answers start m a f callers x := by
  obtain ⟨o, m₁⟩ := x
  cases o with
  | gives o =>
    cases o with
    | ok v => exact h
    | error e => cases e <;> exact h
  | silent s => cases s <;> exact h

end Journey

/-- The journey makes of calls what is said of them, for an activation with a number of frames
beneath the one that calls. -/
def Calls.Sound (J : Journey σ) (a : Activation) (depth : Nat) (call : Calls σ) : Prop :=
  ∀ (f : Frame) (callers : List Frame) (count : UInt16) (m : Store σ), callers.length = depth →
    f.body.routine.code[f.position]? = some (.call count) →
    J.Answers (.next (a.running f callers)) m a
      ({ f with position := f.position + 1 }.afterCall count.toNat) callers
      (call (f.callee count.toNat) f.scope (f.calledOn count.toNat) (f.popMany count.toNat).1 m)

theorem Calls.sound_foreign (J : Journey σ) (a : Activation) (depth room : Nat) :
    (Calls.foreign room).Sound J a depth :=
  fun _ _ _ _ _ _ => trivial

namespace Journey

variable {J : Journey σ} {P : Place} {f g : Frame} {m m' : Store σ} {r : Evaluated σ}
  {own beneath : List Value} {p : Nat} {i : Instruction}

/-! ## Instructions at a place -/

theorem leads_placed (hJ : P.activation.context = J.context)
    (hi : f.body.routine.code[p]? = some i) (hown : i.isOwn = true) {Q : Place} {q : Nat}
    (hQ : Q.activation = P.activation ∧ Q.callers = P.callers)
    (h : (f.placed (p + 1) P.handlers P.cleanups).perform i m =
      (.ok (), g.placed q Q.handlers Q.cleanups, m')) :
    J.Leads (P.start f p) m (Q.start g q) m' := by
  have hlead : J.Leads (P.start f p) m
      (.next (P.activation.running (g.placed q Q.handlers Q.cleanups) P.callers)) m' :=
    J.leads_own hJ hi hown h
  unfold Place.start
  rw [hQ.1, hQ.2]
  exact hlead

theorem leads_jump (hJ : P.activation.context = J.context) {target : Nat}
    (hi : f.body.routine.code[p]? = some (.jump target)) (m : Store σ) :
    J.Leads (P.start f p) m (P.start f target) m :=
  leads_placed hJ hi rfl ⟨rfl, rfl⟩ rfl

theorem leads_enterTry (hJ : P.activation.context = J.context) {catchAt finallyAt : Option Nat}
    (hi : f.body.routine.code[p]? = some (.enterTry catchAt finallyAt)) (m : Store σ) :
    J.Leads (P.start f p) m
      ((P.inTry ⟨catchAt, finallyAt, f.operands.length⟩).start f (p + 1)) m :=
  leads_placed hJ hi rfl ⟨rfl, rfl⟩ rfl

theorem leads_exitTry_catch (hJ : P.activation.context = J.context) {catchAt : Option Nat}
    {height : Nat} (hi : f.body.routine.code[p]? = some .exitTry) (m : Store σ) :
    J.Leads ((P.inTry ⟨catchAt, none, height⟩).start f p) m (P.start f (p + 1)) m :=
  leads_placed (P := P.inTry ⟨catchAt, none, height⟩) hJ hi rfl ⟨rfl, rfl⟩ rfl

theorem leads_exitTry_cleanup (hJ : P.activation.context = J.context) {catchAt : Option Nat}
    {height finallyAt : Nat} (hi : f.body.routine.code[p]? = some .exitTry) (m : Store σ) :
    J.Leads ((P.inTry ⟨catchAt, some finallyAt, height⟩).start f p) m
      ((P.inCleanup .normal).start f (p + 1)) m :=
  leads_placed (P := P.inTry ⟨catchAt, some finallyAt, height⟩) hJ hi rfl ⟨rfl, rfl⟩ rfl

theorem leads_branch (hJ : P.activation.context = J.context) {target : Nat}
    (hi : f.body.routine.code[p]? = some (.jumpIfFalse target)) (m : Store σ) :
    J.Leads (P.start f p) m
      (P.start f.pop.2 (if f.pop.1.isTruthy then p + 1 else target)) m := by
  apply leads_placed hJ hi rfl ⟨rfl, rfl⟩
  by_cases h : f.pop.1.isTruthy = true
  · have h' : (f.placed (p + 1) P.handlers P.cleanups).pop.1.isTruthy = true := h
    simp only [Frame.perform, h, h', if_true]
    rfl
  · have h' : ¬ (f.placed (p + 1) P.handlers P.cleanups).pop.1.isTruthy = true := h
    simp only [Frame.perform, h, h']
    rfl

/-- After a cleanup the completion that led into it goes on. -/
theorem leads_endFinally (hJ : P.activation.context = J.context) {c : Completion}
    (hi : f.body.routine.code[p]? = some .endFinally) (m : Store σ) :
    J.Leads ((P.inCleanup c).start f p) m (P.ended f (p + 1) [] c) m := by
  apply J.leads_perform hJ hi
  cases c with
  | normal | throw | «return» => rfl

/-! ## Leaving a try statement -/

/-- The body of a try statement without a cleanup: what it throws goes to the handler, and all
else passes by. -/
theorem Meets.handle {start : Flow} {exitAt catchAt done : Nat}
    (h : J.Meets start m ((P.inTry ⟨some catchAt, none, beneath.length⟩).Ends exitAt) r)
    (hstays : ∀ {c g m'}, r = (.completes c, g, m') →
      g.body = f.body ∧ ∃ own, g.operands = own ++ beneath)
    (hexit : ∀ g m', g.body = f.body →
      J.Leads ((P.inTry ⟨some catchAt, none, beneath.length⟩).start g exitAt) m'
        (P.start g done) m')
    {handler : Frame → Store σ → Evaluated σ}
    (hhandler : ∀ {g v} m', g.body = f.body → g.operands = [v] ++ beneath →
      J.Meets (P.start g catchAt) m' (P.Ends done) (handler g m')) :
    J.Meets start m (P.Ends done) (r.handle beneath handler) := by
  apply h.bind
  intro c g m' flow hr hflow
  obtain ⟨hbody, own, hoperands⟩ := hstays hr
  cases c with
  | normal =>
    obtain rfl := hflow.start_eq
    exact (meets_completes (P.ends_normal g done)).of_leads (hexit g m' hbody)
  | throw v =>
    obtain ⟨position, pending, -, hpending, rfl⟩ := hflow
    have hroute := Frame.routeThrow_catch (p := position) hoperands (P.within hpending) v catchAt
    have hthrow : (P.inTry ⟨some catchAt, none, beneath.length⟩).ended g position pending
        (.throw v) = P.start ({ g with operands := beneath }.push v) catchAt :=
      P.activation.throw_of_handled P.callers v hroute
    rw [hthrow]
    exact hhandler m' hbody rfl
  | «return» v =>
    obtain ⟨position, pending, -, hpending, rfl⟩ := hflow
    have hroute := Frame.routeReturn_catch (f := g) (p := position) (P.within hpending) v
      (some catchAt) beneath.length
    have hreturn : (P.inTry ⟨some catchAt, none, beneath.length⟩).ended g position pending
        (.return v) = P.ended g position [] (.return v) :=
      P.activation.returnValue_congr P.callers v hroute
    rw [hreturn]
    exact meets_completes ⟨position, [], nofun, nofun, rfl⟩

/-- Code that goes on from its normal end to another position. -/
theorem Meets.onward {start : Flow} {exitAt done : Nat} (h : J.Meets start m (P.Ends exitAt) r)
    (hexit : ∀ g m', r = (.completes .normal, g, m') →
      J.Leads (P.start g exitAt) m' (P.start g done) m') :
    J.Meets start m (P.Ends done) r := by
  rw [← r.bind_self]
  apply h.bind
  intro c g m' flow hr hflow
  by_cases hc : c = .normal
  · subst hc
    obtain rfl := hflow.start_eq
    exact (meets_completes (P.ends_normal g done)).of_leads (hexit g m' hr)
  · exact meets_completes (hflow.of_ne hc done)

/-- A return inside a try statement with a cleanup leads into the cleanup. -/
theorem ended_return {catchAt : Option Nat} {finallyAt position : Nat} {pending : List Cleanup}
    (hoperands : g.operands = own ++ beneath)
    (hpending : ∀ x ∈ pending, (P.inTry ⟨catchAt, some finallyAt, beneath.length⟩).handlers.length ≤
      x.depth) (v : Value) :
    P.Enters beneath finallyAt (.return v) g
      ((P.inTry ⟨catchAt, some finallyAt, beneath.length⟩).ended g position pending (.return v)) :=
  P.activation.returnValue_of_cleanup P.callers v
    (Frame.routeReturn_cleanup (p := position) hoperands (P.within hpending) v catchAt finallyAt)

/-- A throw inside a try statement without a catch block leads into the cleanup. -/
theorem ended_throw {finallyAt position : Nat} {pending : List Cleanup}
    (hoperands : g.operands = own ++ beneath)
    (hpending : ∀ x ∈ pending, (P.inTry ⟨none, some finallyAt, beneath.length⟩).handlers.length ≤
      x.depth) (v : Value) :
    P.Enters beneath finallyAt (.throw v) g
      ((P.inTry ⟨none, some finallyAt, beneath.length⟩).ended g position pending (.throw v)) :=
  P.activation.throw_of_handled P.callers v
    (Frame.routeThrow_cleanup (p := position) hoperands (P.within hpending) v finallyAt)

/-- A throw inside a try statement with a catch block and a cleanup leads to the handler, which
the cleanup stays around. -/
theorem ended_throw_both {catchAt finallyAt position : Nat} {pending : List Cleanup}
    (hoperands : g.operands = own ++ beneath)
    (hpending : ∀ x ∈ pending,
      (P.inTry ⟨some catchAt, some finallyAt, beneath.length⟩).handlers.length ≤ x.depth)
    (v : Value) :
    (P.inTry ⟨some catchAt, some finallyAt, beneath.length⟩).ended g position pending (.throw v) =
      (P.inTry ⟨none, some finallyAt, beneath.length⟩).start
        ({ g with operands := beneath }.push v) catchAt :=
  P.activation.throw_of_handled P.callers v
    (Frame.routeThrow_both (p := position) hoperands (P.within hpending) v catchAt finallyAt)

/-- Code in a try statement with a cleanup and no catch block: every completion leads into the
cleanup. -/
theorem Meets.enters {start : Flow} {exitAt finallyAt : Nat}
    (h : J.Meets start m ((P.inTry ⟨none, some finallyAt, beneath.length⟩).Ends exitAt) r)
    (hstays : ∀ {c g m'}, r = (.completes c, g, m') →
      g.body = f.body ∧ ∃ own, g.operands = own ++ beneath)
    (hexit : ∀ g m', g.body = f.body →
      J.Leads ((P.inTry ⟨none, some finallyAt, beneath.length⟩).start g exitAt) m'
        ((P.inCleanup .normal).start g finallyAt) m') :
    J.Meets start m (P.Enters beneath finallyAt) r := by
  rw [← r.bind_self]
  apply h.bind
  intro c g m' flow hr hflow
  obtain ⟨hbody, own, hoperands⟩ := hstays hr
  cases c with
  | normal =>
    obtain rfl := hflow.start_eq
    exact (meets_completes rfl).of_leads (hexit g m' hbody)
  | throw v =>
    obtain ⟨position, pending, -, hpending, rfl⟩ := hflow
    exact meets_completes (ended_throw hoperands hpending v)
  | «return» v =>
    obtain ⟨position, pending, -, hpending, rfl⟩ := hflow
    exact meets_completes (ended_return hoperands hpending v)

/-- The body of a try statement with a catch block and a cleanup. -/
theorem Meets.handle_enters {start : Flow} {exitAt catchAt finallyAt : Nat}
    (h : J.Meets start m
      ((P.inTry ⟨some catchAt, some finallyAt, beneath.length⟩).Ends exitAt) r)
    (hstays : ∀ {c g m'}, r = (.completes c, g, m') →
      g.body = f.body ∧ ∃ own, g.operands = own ++ beneath)
    (hexit : ∀ g m', g.body = f.body →
      J.Leads ((P.inTry ⟨some catchAt, some finallyAt, beneath.length⟩).start g exitAt) m'
        ((P.inCleanup .normal).start g finallyAt) m')
    {handler : Frame → Store σ → Evaluated σ}
    (hhandler : ∀ {g v} m', g.body = f.body → g.operands = [v] ++ beneath →
      J.Meets ((P.inTry ⟨none, some finallyAt, beneath.length⟩).start g catchAt) m'
        (P.Enters beneath finallyAt) (handler g m')) :
    J.Meets start m (P.Enters beneath finallyAt) (r.handle beneath handler) := by
  apply h.bind
  intro c g m' flow hr hflow
  obtain ⟨hbody, own, hoperands⟩ := hstays hr
  cases c with
  | normal =>
    obtain rfl := hflow.start_eq
    exact (meets_completes rfl).of_leads (hexit g m' hbody)
  | throw v =>
    obtain ⟨position, pending, -, hpending, rfl⟩ := hflow
    rw [ended_throw_both hoperands hpending]
    exact hhandler m' hbody rfl
  | «return» v =>
    obtain ⟨position, pending, -, hpending, rfl⟩ := hflow
    exact meets_completes (ended_return hoperands hpending v)

/-- The cleanup of a try statement: if it completes normally, the completion that led into it goes
on, and otherwise it is abandoned along with that completion. -/
theorem Meets.cleanUp (hJ : P.activation.context = J.context) {start : Flow} {finallyAt exitAt : Nat}
    (h : J.Meets start m (P.Enters beneath finallyAt) r)
    (hbody : ∀ {c g m'}, r = (.completes c, g, m') → g.body = f.body)
    {cleanup : Frame → Store σ → Evaluated σ}
    (hcleanup : ∀ {g} m' c, g.body = f.body →
      J.Meets ((P.inCleanup c).start g finallyAt) m' ((P.inCleanup c).Ends exitAt) (cleanup g m') ∧
        ∀ {d h m''}, cleanup g m' = (.completes d, h, m'') → h.body = g.body)
    (hend : f.body.routine.code[exitAt]? = some .endFinally) :
    J.Meets start m (P.Ends (exitAt + 1)) (r.cleanUp beneath cleanup) := by
  apply h.bind
  intro c g m' flow hr hflow
  have hsame : g.body = f.body := hbody hr
  have hg : { g with operands := c.operands g.operands beneath }.body = f.body := hsame
  obtain ⟨hmeets, hkeeps⟩ := hcleanup m' c hg
  obtain rfl : flow = _ := hflow
  apply hmeets.bind
  intro d h m₁ flow hd hflow
  have hh : h.body = f.body := (hkeeps hd).trans hg
  cases d with
  | normal =>
    obtain rfl := hflow.start_eq
    have hends : P.Ends (exitAt + 1) c h (P.ended h (exitAt + 1) [] c) :=
      ⟨exitAt + 1, [], fun _ => ⟨rfl, rfl⟩, nofun, rfl⟩
    exact (meets_completes hends).of_leads (leads_endFinally hJ (hh ▸ hend) m₁)
  | throw v => exact meets_completes (hflow.abandon nofun (exitAt + 1))
  | «return» v => exact meets_completes (hflow.abandon nofun (exitAt + 1))

end Journey

/-! ## The simulation -/

theorem Frame.Stays.body_operands {done : Prop} {beneath : List Value} {k : Nat} {f g : Frame}
    (h : f.Stays beneath done k g) : g.body = f.body ∧ ∃ own, g.operands = own ++ beneath := by
  obtain ⟨own, locals, rfl, -⟩ := h
  exact ⟨rfl, own, rfl⟩

namespace Statement

open Journey

variable {J : Journey σ} {call : Calls σ} {P : Place} {f : Frame} {p : Nat} {m : Store σ}

theorem meets_straight (hJ : P.activation.context = J.context) {i : Instruction}
    (hi : i.isStraight = true) (hcode : f.body.routine.code[p]? = some i) :
    J.Meets (P.start f p) m (P.Ends (p + 1)) ((straight i hi).eval call f m) := by
  have hown := Instruction.isOwn_of_isStraight hi
  have hplaced := Frame.perform_placed hi f (p + 1) P.handlers P.cleanups m
  obtain ⟨r, g, m', hr⟩ : ∃ r g m', f.perform i m = (r, g, m') := ⟨_, _, _, rfl⟩
  simp only [eval, hr] at hplaced ⊢
  cases r with
  | ok u => exact ⟨_, P.ends_normal g (p + 1), leads_placed hJ hcode hown ⟨rfl, rfl⟩ hplaced⟩
  | error e =>
    have hperform := P.activation.perform_of_isOwn (f := f.placed (p + 1) P.handlers P.cleanups)
      P.callers hown m
    rw [hplaced] at hperform
    have hlead {flow : Flow}
        (h : Activation.failed ((P.activation.running (g.placed (p + 1) P.handlers P.cleanups)
          P.callers).fail e m') = (.flow flow, m')) : J.Leads (P.start f p) m flow m' :=
      J.leads_perform hJ hcode (hperform.trans h)
    cases e with
    | thrown v =>
      have hne : Completion.throw v ≠ .normal := fun h => by cases h
      exact ⟨_, P.ends_abrupt g (p + 1) (p + 1) hne, hlead rfl⟩
    | suspended pending => exact absurd rfl (Frame.perform_ne_suspended hr pending)
    | aborted reason => exact hlead rfl
    | fault fault => exact hlead rfl

theorem meets_call (hcall : call.Sound J P.activation P.callers.length) {count : UInt16}
    (hcode : f.body.routine.code[p]? = some (.call count)) :
    J.Meets (P.start f p) m (P.Ends (p + 1)) ((Statement.call count).eval call f m) := by
  have hanswers := hcall (f.placed p P.handlers P.cleanups) P.callers count m rfl hcode
  obtain ⟨r, m', hr⟩ : ∃ r m', call (f.callee count.toNat) f.scope (f.calledOn count.toNat)
    (f.popMany count.toNat).1 m = (r, m') := ⟨_, _, rfl⟩
  have hplaced : call ((f.placed p P.handlers P.cleanups).callee count.toNat)
      (f.placed p P.handlers P.cleanups).scope
      ((f.placed p P.handlers P.cleanups).calledOn count.toNat)
      ((f.placed p P.handlers P.cleanups).popMany count.toNat).1 m = (r, m') := hr
  rw [hplaced] at hanswers
  simp only [eval, hr]
  cases r with
  | gives o =>
    cases o with
    | ok v => exact ⟨_, P.ends_normal ((f.afterCall count.toNat).push v) (p + 1), hanswers⟩
    | error e =>
      cases e with
      | thrown v =>
        have hne : Completion.throw v ≠ .normal := fun h => by cases h
        exact ⟨_, P.ends_abrupt (f.afterCall count.toNat) (p + 1) (p + 1) hne, hanswers⟩
      | suspended pending => exact hanswers
      | aborted reason => exact hanswers
      | fault fault => exact hanswers
  | silent s =>
    cases s with
    | unanswered => exact hanswers
    | foreign => trivial

/-- A statement with a number of operands of its own runs as it is evaluated, wherever it is. -/
def Meets (J : Journey σ) (call : Calls σ) (s : Statement) (n : Nat) : Prop :=
  ∀ {P : Place} {f : Frame} {p : Nat} {m : Store σ} {own beneath : List Value},
    P.activation.context = J.context → call.Sound J P.activation P.callers.length →
    f.operands = own ++ beneath → own.length = n → Holds f.body.routine.code p (s.layout p) →
    J.Meets (P.start f p) m (P.Ends (p + s.size)) (s.eval call f m)

variable {n k l : Nat}

theorem Meets.sequence {first second : Statement} (hfirst : first.Balanced n k)
    (hmeets₁ : first.Meets J call n) (hmeets₂ : second.Meets J call k) :
    (Statement.sequence first second).Meets J call n := by
  intro P f p m own beneath hJ hcall hf hn hcode
  obtain ⟨hcode₁, hcode₂⟩ := hcode.layout_append
  apply (hmeets₁ hJ hcall hf hn hcode₁).bind
  intro c g m' flow hr hflow
  have hbody := (hfirst.stays call hf hn hr).body
  obtain ⟨results, locals, hg, hk⟩ := hfirst.stays call hf hn hr
  by_cases hc : c = .normal
  · subst hc
    obtain rfl := hflow.start_eq
    rw [← hbody] at hcode₂
    have hsecond := hmeets₂ (m := m') hJ hcall (congrArg Frame.operands hg) (hk rfl) hcode₂
    rw [Nat.add_assoc] at hsecond
    exact hsecond
  · cases c with
    | normal => exact absurd rfl hc
    | throw v => exact meets_completes (hflow.of_ne hc _)
    | «return» v => exact meets_completes (hflow.of_ne hc _)

theorem Meets.branch {yes no : Statement} (hyes : yes.Balanced n k)
    (hmeetsYes : yes.Meets J call n) (hmeetsNo : no.Meets J call n) :
    (Statement.branch yes no).Meets J call (n + 1) := by
  intro P f p m own beneath hJ hcall hf hn hcode
  obtain ⟨v, rest, rfl, hrest⟩ := Frame.exists_cons hn
  have hpop := Frame.operands_pop hf
  obtain ⟨hcode₁, hcode₂⟩ := hcode.tail.layout_append
  have hlead := leads_branch hJ hcode.head m
  have hdone : p + yes.size + 2 + no.size = p + (Statement.branch yes no).size := by
    simp only [size]
    omega
  simp only [eval]
  by_cases hv : f.pop.1.isTruthy = true
  · simp only [hv, if_true] at hlead ⊢
    refine (Meets.onward (hmeetsYes hJ hcall hpop hrest hcode₁) ?_).of_leads hlead
    intro g m' hr
    have hbody := (hyes.stays call hpop hrest hr).body
    have hjump := leads_jump hJ (hbody ▸ hcode₂.head) m'
    rw [← hdone]
    exact hjump
  · simp only [hv] at hlead ⊢
    have hat : p + 1 + yes.size + 1 = p + yes.size + 2 := by omega
    have hno := hmeetsNo (m := m) hJ hcall hpop hrest (hat ▸ hcode₂.tail)
    rw [hdone] at hno
    exact hno.of_leads hlead

theorem Meets.tryCatch {body handler : Statement} (hbody : body.Balanced 0 k)
    (hmeetsBody : body.Meets J call 0) (hmeetsHandler : handler.Meets J call 1) :
    (Statement.tryCatch body handler).Meets J call n := by
  intro P f p m own beneath hJ hcall hf hn hcode
  obtain ⟨hcode₁, hexit⟩ := hcode.tail.layout_append
  have hat : p + 1 + body.size + 1 + 1 = p + body.size + 3 := by omega
  have hcode₂ := hexit.tail.tail
  rw [hat] at hcode₂
  have hdone : p + body.size + 3 + handler.size = p + (Statement.tryCatch body handler).size := by
    simp only [size]
    omega
  rw [← hdone]
  have hbegin := hmeetsBody (m := m)
    (P := P.inTry ⟨some (p + body.size + 3), none, f.operands.length⟩)
    hJ hcall (List.nil_append _).symm rfl hcode₁
  refine (hbegin.handle (f := f) ?_ ?_ ?_).of_leads (leads_enterTry hJ hcode.head m)
  · exact fun hr => (hbody.stays call (List.nil_append _).symm rfl hr).body_operands
  · intro g m' hg
    exact J.trans (leads_exitTry_catch hJ (hg ▸ hexit.head) m')
      (leads_jump hJ (hg ▸ hexit.tail.head) m')
  · intro g v m' hg hoperands
    exact hmeetsHandler hJ hcall hoperands rfl (hg ▸ hcode₂)

theorem Meets.tryFinally {body cleanup : Statement} (hbody : body.Balanced 0 k)
    (hcleanup : cleanup.Balanced 0 0) (hmeetsBody : body.Meets J call 0)
    (hmeetsCleanup : cleanup.Meets J call 0) :
    (Statement.tryFinally body cleanup).Meets J call n := by
  intro P f p m own beneath hJ hcall hf hn hcode
  obtain ⟨hcode₁, hexit⟩ := hcode.tail.layout_append
  have hat : p + 1 + body.size + 1 + 1 = p + body.size + 3 := by omega
  have hcode₂ := hexit.tail.tail
  rw [hat] at hcode₂
  obtain ⟨hcode₂, hend⟩ := hcode₂.layout_append
  have hdone : p + body.size + 3 + cleanup.size + 1 =
      p + (Statement.tryFinally body cleanup).size := by
    simp only [size]
    omega
  rw [← hdone]
  have hbegin := hmeetsBody (m := m)
    (P := P.inTry ⟨none, some (p + body.size + 3), f.operands.length⟩)
    hJ hcall (List.nil_append _).symm rfl hcode₁
  have hstays {c g m'} (hr : body.eval call f m = (.completes c, g, m')) :=
    (hbody.stays call (List.nil_append _).symm rfl hr).body_operands
  have henters := hbegin.enters hstays fun g m' hg =>
    J.trans (leads_exitTry_cleanup hJ (hg ▸ hexit.head) m')
      (leads_jump (P := P.inCleanup .normal) hJ (hg ▸ hexit.tail.head) m')
  refine (henters.cleanUp hJ (fun hr => (hstays hr).1) ?_ hend.head).of_leads
    (leads_enterTry hJ hcode.head m)
  intro g m' c hg
  constructor
  · exact hmeetsCleanup (P := P.inCleanup c) hJ hcall (List.nil_append _).symm rfl (hg ▸ hcode₂)
  · exact fun hr => (hcleanup.stays call (List.nil_append _).symm rfl hr).body

theorem Meets.tryCatchFinally {body handler cleanup : Statement} (hbody : body.Balanced 0 k)
    (hhandler : handler.Balanced 1 k) (hcleanup : cleanup.Balanced 0 0)
    (hmeetsBody : body.Meets J call 0) (hmeetsHandler : handler.Meets J call 1)
    (hmeetsCleanup : cleanup.Meets J call 0) :
    (Statement.tryCatchFinally body handler cleanup).Meets J call n := by
  intro P f p m own beneath hJ hcall hf hn hcode
  obtain ⟨hcode₁, hexit⟩ := hcode.tail.layout_append
  have hat : p + 1 + body.size + 1 + 1 = p + body.size + 3 := by omega
  have hcode₂ := hexit.tail.tail
  rw [hat] at hcode₂
  obtain ⟨hcode₂, hexit'⟩ := hcode₂.layout_append
  obtain ⟨hcode₃, hend⟩ := hexit'.tail.layout_append
  have hdone : p + body.size + 3 + handler.size + 1 + cleanup.size + 1 =
      p + (Statement.tryCatchFinally body handler cleanup).size := by
    simp only [size]
    omega
  rw [← hdone]
  have hbegin := hmeetsBody (m := m)
    (P := P.inTry ⟨some (p + body.size + 3), some (p + body.size + 3 + handler.size + 1),
      f.operands.length⟩)
    hJ hcall (List.nil_append _).symm rfl hcode₁
  have hstays {c g m'} (hr : body.eval call f m = (.completes c, g, m')) :=
    (hbody.stays call (List.nil_append _).symm rfl hr).body_operands
  -- The handler still runs inside the try statement, for its cleanup only.
  have hcaught {g : Frame} {v : Value} (m' : Store σ) (hg : g.body = f.body)
      (hoperands : g.operands = [v] ++ f.operands) :
      J.Meets
        ((P.inTry ⟨none, some (p + body.size + 3 + handler.size + 1), f.operands.length⟩).start g
          (p + body.size + 3)) m'
        (P.Enters f.operands (p + body.size + 3 + handler.size + 1)) (handler.eval call g m') := by
    have hcatch := hmeetsHandler (m := m')
      (P := P.inTry ⟨none, some (p + body.size + 3 + handler.size + 1), f.operands.length⟩)
      hJ hcall hoperands rfl (hg ▸ hcode₂)
    apply hcatch.enters
    · exact fun hr => (hhandler.stays call hoperands rfl hr).body_operands
    · intro h m'' hh
      exact leads_exitTry_cleanup hJ (hh ▸ hg ▸ hexit'.head) m''
  have henters := hbegin.handle_enters hstays
    (fun g m' hg => J.trans (leads_exitTry_cleanup hJ (hg ▸ hexit.head) m')
      (leads_jump (P := P.inCleanup .normal) hJ (hg ▸ hexit.tail.head) m')) hcaught
  refine (henters.cleanUp (f := f) hJ ?_ ?_ hend.head).of_leads (leads_enterTry hJ hcode.head m)
  · intro c g m' hr
    have hstays := Evaluated.stays_handle
      (fun hr => hbody.stays call (List.nil_append _).symm rfl hr)
      (fun hh hr => hhandler.stays call hh rfl hr) hr
    exact hstays.body
  · intro g m' c hg
    constructor
    · exact hmeetsCleanup (P := P.inCleanup c) hJ hcall (List.nil_append _).symm rfl (hg ▸ hcode₃)
    · exact fun hr => (hcleanup.stays call (List.nil_append _).symm rfl hr).body

/-- A balanced statement runs as it is evaluated, wherever it is. -/
theorem Balanced.meets {s : Statement} (hs : s.Balanced n k) : s.Meets J call n := by
  induction hs with
  | empty n => exact fun _ _ _ _ _ => meets_completes (Place.ends_normal _ _ _)
  | straight i hi n => exact fun hJ _ _ _ hcode => meets_straight hJ hi hcode.head
  | sequence hfirst _ ihfirst ihsecond => exact Meets.sequence hfirst ihfirst ihsecond
  | branch hyes _ ihyes ihno => exact Meets.branch hyes ihyes ihno
  | call count n => exact fun _ hcall _ _ hcode => meets_call hcall hcode.head
  | throw n k =>
    intro P f p m own beneath hJ hcall hf hn hcode
    have hlead : J.Leads (P.start f p) m (P.ended f.pop.2 (p + 1) [] (.throw f.pop.1)) m :=
      J.leads_perform hJ hcode.head rfl
    have hne : Completion.throw f.pop.1 ≠ .normal := fun h => by cases h
    exact ⟨_, P.ends_abrupt f.pop.2 (p + 1) (p + 1) hne, hlead⟩
  | ret n k =>
    intro P f p m own beneath hJ hcall hf hn hcode
    have hlead : J.Leads (P.start f p) m (P.ended f.pop.2 (p + 1) [] (.return f.pop.1)) m :=
      J.leads_perform hJ hcode.head rfl
    have hne : Completion.return f.pop.1 ≠ .normal := fun h => by cases h
    exact ⟨_, P.ends_abrupt f.pop.2 (p + 1) (p + 1) hne, hlead⟩
  | tryCatch n hbody _ ihbody ihhandler => exact Meets.tryCatch hbody ihbody ihhandler
  | tryFinally n hbody hcleanup ihbody ihcleanup =>
    exact Meets.tryFinally hbody hcleanup ihbody ihcleanup
  | tryCatchFinally n hbody hhandler hcleanup ihbody ihhandler ihcleanup =>
    exact Meets.tryCatchFinally hbody hhandler hcleanup ihbody ihhandler ihcleanup

end Statement

end ScriptMachine
