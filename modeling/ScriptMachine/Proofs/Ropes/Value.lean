import Mathlib.Order.Basic
import ScriptMachine.Value.Basic

/-!
# Values up to the form of their strings

Two values are alike if they are the same or strings with the same text, whatever pieces the
strings are made of. A concatenation is known by its identity, and what is remembered for that
identity has to be its text; a `Labelling` says which identities stand for which texts, one for
each of the two tables of remembered texts. Labellings grow as concatenations are made.

No operator tells alike values apart, and `Value.add` makes the same as the operator
`Value.addEager` that carries its concatenation out at once.
-/

namespace ScriptMachine

/-! ## Labellings -/

/-- The texts that concatenations stand for, by identity. -/
def Labelling := Id .rope → Option String

namespace Labelling

/-- A labelling that says as much about the identities that are labelled already. -/
instance : Preorder Labelling where
  le ρ τ := ∀ id s, ρ id = some s → τ id = some s
  le_refl _ _ _ h := h
  le_trans _ _ _ h h' id s hs := h' id s (h id s hs)

/-- Label one more identity. -/
def assign (ρ : Labelling) (id : Id .rope) (s : String) : Labelling :=
  fun other => if other = id then some s else ρ other

variable {ρ τ : Labelling} {id : Id .rope} {s : String}

@[simp] theorem assign_self (ρ : Labelling) (id : Id .rope) (s : String) :
    ρ.assign id s id = some s := if_pos rfl

theorem le_assign (h : ρ id = none) (s : String) : ρ ≤ ρ.assign id s := by
  intro other t ht
  have hne : other ≠ id := by
    rintro rfl
    rw [h] at ht
    cases ht
  exact (if_neg hne).trans ht

end Labelling

/-- What is remembered is right: a labelled identity was given out, and either nothing is
remembered for it yet or its label. -/
def FlatTexts.Sound (ρ : Labelling) (t : FlatTexts) : Prop :=
  ∀ id s, ρ id = some s → t.get? id = some none ∨ t.get? id = some (some s)

namespace FlatTexts.Sound

variable {ρ : Labelling} {t : FlatTexts}

theorem get (h : FlatTexts.Sound ρ t) {id : Id .rope} {s : String} (hs : ρ id = some s) :
    t.get id = none ∨ t.get id = some s := by
  unfold Table.get
  rcases h id s hs with hid | hid
  · rw [hid]
    exact Or.inl rfl
  · rw [hid]
    exact Or.inr rfl

theorem set (h : FlatTexts.Sound ρ t) {id : Id .rope} {s : String} (hs : ρ id = some s) :
    FlatTexts.Sound ρ (t.set id (some s)) := by
  intro other u hu
  rw [Table.set, Table.get?_modify]
  by_cases heq : other = id
  · subst heq
    rw [hs] at hu
    cases hu
    rw [if_pos rfl]
    rcases h other s hs with hid | hid <;> rw [hid] <;> exact Or.inr rfl
  · rw [if_neg heq]
    exact h other u hu

/-- The identity that a concatenation is given next has no label yet. -/
theorem next (h : FlatTexts.Sound ρ t) : ρ t.next = none := by
  cases hs : ρ t.next with
  | none => rfl
  | some s =>
    have hnone : t.get? t.next = none := Array.getElem?_size
    rcases h t.next s hs with hid | hid <;> rw [hnone] at hid <;> cases hid

theorem insert (h : FlatTexts.Sound ρ t) (s : String) :
    FlatTexts.Sound (ρ.assign t.next s) (t.insert none).2 := by
  intro id u hu
  rw [Table.get?_insert]
  by_cases heq : id = t.next
  · rw [if_pos heq]
    exact Or.inl rfl
  · rw [if_neg heq]
    exact h id u ((if_neg heq).symm.trans hu)

end FlatTexts.Sound

/-! ## Ropes -/

/-- A string that is short enough for its length to be counted in 64 bits. -/
def IsShort (s : String) : Prop := s.utf8ByteSize < UInt64.size

instance (s : String) : Decidable (IsShort s) := Nat.decLt s.utf8ByteSize UInt64.size

/-- Every concatenation that a rope is made of is labelled with its text. -/
def Rope.Known (ρ : Labelling) : Rope → Prop
  | .flat _ => True
  | .join id left right => ρ id = some (left.text ++ right.text) ∧ left.Known ρ ∧ right.Known ρ

/-- Every concatenation that a rope is made of is labelled with its text, which is short enough
to be counted. -/
def Rope.Labelled (ρ : Labelling) : Rope → Prop
  | .flat _ => True
  | .join id left right =>
    ρ id = some (left.text ++ right.text) ∧ IsShort (left.text ++ right.text) ∧
      left.Labelled ρ ∧ right.Labelled ρ

namespace Rope

variable {ρ τ : Labelling} {t : FlatTexts}

theorem Known.mono {r : Rope} (h : r.Known ρ) (hle : ρ ≤ τ) : r.Known τ := by
  induction r with
  | flat s => trivial
  | join id left right ihl ihr =>
    obtain ⟨hid, hleft, hright⟩ := h
    exact ⟨hle id _ hid, ihl hleft, ihr hright⟩

theorem Labelled.known {r : Rope} (h : r.Labelled ρ) : r.Known ρ := by
  induction r with
  | flat s => trivial
  | join id left right ihl ihr =>
    obtain ⟨hid, -, hleft, hright⟩ := h
    exact ⟨hid, ihl hleft, ihr hright⟩

theorem Labelled.mono {r : Rope} (h : r.Labelled ρ) (hle : ρ ≤ τ) : r.Labelled τ := by
  induction r with
  | flat s => trivial
  | join id left right ihl ihr =>
    obtain ⟨hid, hsmall, hleft, hright⟩ := h
    exact ⟨hle id _ hid, hsmall, ihl hleft, ihr hright⟩

theorem byteLength_eq (r : Rope) : r.byteLength = UInt64.ofNat r.text.utf8ByteSize := by
  induction r with
  | flat s => rfl
  | join id left right ihl ihr =>
    show left.byteLength + right.byteLength = _
    rw [ihl, ihr, ← UInt64.ofNat_add, text, String.utf8ByteSize_append]

/-- Going by the length is going by the text. -/
theorem Labelled.isEmpty_eq {r : Rope} (h : r.Labelled ρ) : r.isEmpty = r.text.isEmpty := by
  cases r with
  | flat s => rfl
  | join id left right =>
    obtain ⟨-, hsmall, -, -⟩ := h
    show ((Rope.join id left right).byteLength == 0) = _
    have hzero : UInt64.ofNat (left.text ++ right.text).utf8ByteSize = 0 ↔
        (left.text ++ right.text).utf8ByteSize = 0 := by
      rw [← UInt64.toNat_inj, UInt64.toNat_ofNat_of_lt' hsmall]
      rfl
    rw [byteLength_eq, Bool.eq_iff_iff, beq_iff_eq]
    exact hzero.trans (by simp [text, String.utf8ByteSize_eq_zero_iff])

/-- The text of pending pieces, in order. -/
def textAll (pending : List Rope) : String := (pending.map text).foldr (· ++ ·) ""

/-- What is gathered is the text of the pieces, whatever was remembered. The induction follows
the pending pieces; a concatenation that is taken apart leaves its pieces pending. -/
theorem gather_eq (ht : FlatTexts.Sound ρ t) (pending : List Rope) (out : String)
    (h : ∀ r ∈ pending, r.Known ρ) :
    gather t pending out = out ++ textAll pending := by
  induction pending, out using gather.induct t with
  | case1 out => simp [gather, textAll]
  | case2 s pending out ih =>
    rw [gather, ih fun r hr => h r (List.mem_cons_of_mem _ hr)]
    simp [textAll, text, String.append_assoc]
  | case3 id left right pending out s hs ih =>
    obtain ⟨hid, -, -⟩ := h _ (List.mem_cons_self ..)
    have htext : s = left.text ++ right.text := by
      rcases ht.get hid with hnone | hsome
      · rw [hs] at hnone
        cases hnone
      · rw [hs] at hsome
        exact Option.some.inj hsome
    rw [gather, hs]
    show gather t pending (out ++ s) = _
    rw [ih fun r hr => h r (List.mem_cons_of_mem _ hr), htext]
    simp [textAll, text, String.append_assoc]
  | case4 id left right pending out hnone ih =>
    obtain ⟨-, hleft, hright⟩ := h _ (List.mem_cons_self ..)
    have hpieces : ∀ r ∈ left :: right :: pending, r.Known ρ := by
      simp only [List.mem_cons]
      rintro r (rfl | rfl | hr)
      · exact hleft
      · exact hright
      · exact h r (List.mem_cons_of_mem _ hr)
    rw [gather, hnone]
    show gather t (left :: right :: pending) out = _
    rw [ih hpieces]
    simp [textAll, text, String.append_assoc]

theorem flatten_of_some {id : Id .rope} {s : String} (hs : t.get id = some s)
    (left right : Rope) : (Rope.join id left right).flatten t = (s, t) := by
  simp only [Rope.flatten, bind, StateT.bind, get, getThe, MonadStateOf.get, StateT.get, pure, hs]
  rfl

theorem flatten_of_none {id : Id .rope} (hnone : t.get id = none) (left right : Rope) :
    (Rope.join id left right).flatten t =
      (gather t [left, right] "", t.set id (some (gather t [left, right] ""))) := by
  simp only [Rope.flatten, bind, StateT.bind, get, getThe, MonadStateOf.get, StateT.get, pure,
    hnone]
  rfl

/-- Flattening gives the text, whatever was remembered, and remembers only right texts. -/
theorem Known.flatten {r : Rope} (h : r.Known ρ) (ht : FlatTexts.Sound ρ t) :
    (r.flatten t).1 = r.text ∧ FlatTexts.Sound ρ (r.flatten t).2 := by
  cases r with
  | flat s => exact ⟨rfl, ht⟩
  | join id left right =>
    obtain ⟨hid, hleft, hright⟩ := h
    rcases ht.get hid with hnone | hsome
    · have hgather : gather t [left, right] "" = left.text ++ right.text := by
        rw [gather_eq ht [left, right] "" (by simp [hleft, hright])]
        simp [textAll]
      rw [flatten_of_none hnone, hgather]
      exact ⟨rfl, ht.set hid⟩
    · rw [flatten_of_some hsome]
      exact ⟨rfl, ht⟩

theorem Labelled.flatten {r : Rope} (h : r.Labelled ρ) (ht : FlatTexts.Sound ρ t) :
    (r.flatten t).1 = r.text ∧ FlatTexts.Sound ρ (r.flatten t).2 :=
  h.known.flatten ht

theorem Known.join {left right : Rope} (hleft : left.Known ρ) (hright : right.Known ρ)
    (ht : FlatTexts.Sound ρ t) :
    (Rope.join t.next left right).Known (ρ.assign t.next (left.text ++ right.text)) := by
  have hle := Labelling.le_assign ht.next (left.text ++ right.text)
  exact ⟨Labelling.assign_self .., hleft.mono hle, hright.mono hle⟩

/-- A new concatenation is labelled with its text. -/
theorem Labelled.join {left right : Rope} (hleft : left.Labelled ρ) (hright : right.Labelled ρ)
    (ht : FlatTexts.Sound ρ t) (hshort : IsShort (left.text ++ right.text)) :
    (Rope.join t.next left right).Labelled (ρ.assign t.next (left.text ++ right.text)) := by
  have hle := Labelling.le_assign ht.next (left.text ++ right.text)
  exact ⟨Labelling.assign_self .., hshort, hleft.mono hle, hright.mono hle⟩

end Rope

/-! ## Computations on ropes -/

/-- The labellings of two tables of remembered texts. -/
abbrev Labellings := Labelling × Labelling

/-- Two computations that give results of a relation from any right tables, and leave the tables
right. -/
def Flattening.Alike (W : Labellings) {α β : Type} (R : α → β → Prop) (c : Flattening α)
    (d : Flattening β) : Prop :=
  ∀ t u, FlatTexts.Sound W.1 t → FlatTexts.Sound W.2 u →
    R (c t).1 (d u).1 ∧ FlatTexts.Sound W.1 (c t).2 ∧ FlatTexts.Sound W.2 (d u).2

namespace Flattening.Alike

variable {W : Labellings} {α β γ δ : Type} {R : α → β → Prop} {T : γ → δ → Prop}

theorem pure {a : α} {b : β} (h : R a b) :
    Flattening.Alike W R (Pure.pure a) (Pure.pure b) :=
  fun _ _ ht hu => ⟨h, ht, hu⟩

theorem bind {c : Flattening α} {d : Flattening β} {f : α → Flattening γ} {g : β → Flattening δ}
    (h : Flattening.Alike W R c d) (hf : ∀ a b, R a b → Flattening.Alike W T (f a) (g b)) :
    Flattening.Alike W T (c >>= f) (d >>= g) := by
  intro t u ht hu
  obtain ⟨hab, ht', hu'⟩ := h t u ht hu
  exact hf _ _ hab _ _ ht' hu'

end Flattening.Alike

/-- The same of computations that also make concatenations, which are labelled then. -/
def Flattening.AlikeLater (W : Labellings) {α β : Type} (R : Labellings → α → β → Prop)
    (c : Flattening α) (d : Flattening β) : Prop :=
  ∀ t u, FlatTexts.Sound W.1 t → FlatTexts.Sound W.2 u → ∃ W', W ≤ W' ∧
    R W' (c t).1 (d u).1 ∧ FlatTexts.Sound W'.1 (c t).2 ∧ FlatTexts.Sound W'.2 (d u).2

theorem Flattening.Alike.later {W : Labellings} {α β : Type} {R : Labellings → α → β → Prop}
    {c : Flattening α} {d : Flattening β} (h : Flattening.Alike W (R W) c d) :
    Flattening.AlikeLater W R c d :=
  fun t u ht hu => ⟨W, le_rfl, h t u ht hu⟩

/-! ## Values -/

/-- Ropes with the same text. -/
structure Rope.Alike (W : Labellings) (r s : Rope) : Prop where
  text : r.text = s.text
  left : r.Labelled W.1
  right : s.Labelled W.2

/-- The same value, or strings with the same text. -/
inductive Value.Alike (W : Labellings) : Value → Value → Prop
  | string {r s : Rope} (h : r.Alike W s) : Value.Alike W (.string r) (.string s)
  | plain {v : Value} (h : v.isString = false) : Value.Alike W v v

variable {W W' : Labellings}

theorem Rope.Alike.mono {r s : Rope} (h : r.Alike W s) (hle : W ≤ W') : r.Alike W' s :=
  ⟨h.text, h.left.mono hle.1, h.right.mono hle.2⟩

theorem Rope.alike_flat (W : Labellings) (s : String) : (Rope.flat s).Alike W (.flat s) :=
  ⟨rfl, trivial, trivial⟩

theorem Rope.Alike.flatten {r s : Rope} (h : r.Alike W s) :
    Flattening.Alike W Eq r.flatten s.flatten := by
  intro t u ht hu
  obtain ⟨hr, ht'⟩ := h.left.flatten ht
  obtain ⟨hs, hu'⟩ := h.right.flatten hu
  exact ⟨by rw [hr, hs, h.text], ht', hu'⟩

namespace Value

theorem alike_text (W : Labellings) (s : String) : (Value.text s).Alike W (.text s) :=
  .string (Rope.alike_flat W s)

theorem text_toRope (v : Value) : v.toRope.text = v.plainText := by
  cases v <;> rfl

/-- What a value is made of is labelled. -/
def Labelled (ρ : Labelling) (v : Value) : Prop := ∀ r, v = .string r → r.Labelled ρ

/-- The text of a value, whatever was remembered. -/
theorem Labelled.display {ρ : Labelling} {v : Value} (h : v.Labelled ρ) {t : FlatTexts}
    (ht : FlatTexts.Sound ρ t) :
    (v.display t).1 = v.plainText ∧ FlatTexts.Sound ρ (v.display t).2 := by
  cases v with
  | string r => exact (h r rfl).flatten ht
  | _ => exact ⟨rfl, ht⟩

namespace Alike

variable {v w v' w' : Value}

theorem left (h : v.Alike W v') : v.Labelled W.1 := by
  rintro r rfl
  cases h with
  | string h => exact h.left
  | plain h => cases h

theorem right (h : v.Alike W v') : v'.Labelled W.2 := by
  rintro r rfl
  cases h with
  | string h => exact h.right
  | plain h => cases h

theorem mono (h : v.Alike W v') (hle : W ≤ W') : v.Alike W' v' := by
  cases h with
  | string h => exact .string (h.mono hle)
  | plain h => exact .plain h

theorem isString (h : v.Alike W v') : v.isString = v'.isString := by
  cases h <;> rfl

theorem plainText (h : v.Alike W v') : v.plainText = v'.plainText := by
  cases h with
  | string h => exact h.text
  | plain h => rfl

theorem toRope (h : v.Alike W v') : v.toRope.Alike W v'.toRope := by
  cases h with
  | string h => exact h
  | plain h =>
    cases v with
    | string s => cases h
    | _ => exact Rope.alike_flat W _

theorem isTruthy (h : v.Alike W v') : v.isTruthy = v'.isTruthy := by
  cases h with
  | string h =>
    show (!_) = (!_)
    rw [h.left.isEmpty_eq, h.right.isEmpty_eq, h.text]
  | plain h => rfl

theorem display (h : v.Alike W v') : Flattening.Alike W Eq v.display v'.display := by
  intro t u ht hu
  obtain ⟨hv, ht'⟩ := h.left.display ht
  obtain ⟨hv', hu'⟩ := h.right.display hu
  exact ⟨by rw [hv, hv', h.plainText], ht', hu'⟩

theorem toNumber (h : v.Alike W v') : Flattening.Alike W Eq v.toNumber v'.toNumber := by
  cases h with
  | string h =>
    apply h.flatten.bind
    rintro s _ rfl
    exact .pure rfl
  | plain h =>
    cases v with
    | string s => cases h
    | _ => exact .pure rfl

theorem flatten (h : v.Alike W v') :
    Flattening.Alike W (Value.Alike W) v.flatten v'.flatten := by
  cases h with
  | string h =>
    apply h.flatten.bind
    rintro s _ rfl
    exact .pure (alike_text W s)
  | plain h =>
    cases v with
    | string s => cases h
    | _ => exact .pure (.plain rfl)

theorem strictEquals (h : v.Alike W v') (hw : w.Alike W w') :
    Flattening.Alike W Eq (v.strictEquals w) (v'.strictEquals w') := by
  cases h with
  | string h =>
    cases hw with
    | string hw =>
      apply h.flatten.bind
      rintro s _ rfl
      apply hw.flatten.bind
      rintro u _ rfl
      exact .pure rfl
    | plain hw =>
      cases w with
      | string s => cases hw
      | _ => exact .pure rfl
  | plain h =>
    cases hw with
    | string hw =>
      cases v with
      | string s => cases h
      | _ => exact .pure rfl
    | plain hw =>
      cases v with
      | string s => cases h
      | _ =>
        cases w with
        | string s => cases hw
        | _ => exact .pure rfl

theorem equals (h : v.Alike W v') (hw : w.Alike W w') :
    Flattening.Alike W Eq (v.equals w) (v'.equals w') := by
  have hstrict := h.strictEquals hw
  cases h with
  | string h => exact hstrict
  | plain h =>
    cases v with
    | number x =>
      cases hw with
      | string hw => exact hstrict
      | plain hw =>
        cases w with
        | number y => exact .pure rfl
        | _ => exact hstrict
    | _ => exact hstrict

end Alike

/-! ## Concatenation -/

/-- The operator `+` with the concatenation carried out at once. -/
def addEager (v w : Value) : Flattening Value := do
  if v.isString || w.isString then return .text ((← v.display) ++ (← w.display))
  else return .number ((← v.toNumber) + (← w.toNumber))

/-- The text of the concatenation that `+` makes of two values, if it makes one. -/
def joined? (v w : Value) : Option String :=
  if v.isString || w.isString then some (v.plainText ++ w.plainText) else none

namespace Alike

variable {v w v' w' : Value}

/-- Both sides make a concatenation. -/
theorem concat (hv : v.Alike W v') (hw : w.Alike W w')
    (hshort : IsShort (v.plainText ++ w.plainText)) :
    Flattening.AlikeLater W Value.Alike (v.concat w) (v'.concat w') := by
  intro t u ht hu
  have htext : v'.toRope.text ++ w'.toRope.text = v.toRope.text ++ w.toRope.text := by
    rw [hv.toRope.text, hw.toRope.text]
  have hleft : IsShort (v.toRope.text ++ w.toRope.text) := by
    rw [text_toRope, text_toRope]
    exact hshort
  have hright : IsShort (v'.toRope.text ++ w'.toRope.text) := by
    rw [htext]
    exact hleft
  refine ⟨(W.1.assign t.next (v.toRope.text ++ w.toRope.text),
    W.2.assign u.next (v'.toRope.text ++ w'.toRope.text)), ?_, ?_, ht.insert _, hu.insert _⟩
  · exact ⟨Labelling.le_assign ht.next _, Labelling.le_assign hu.next _⟩
  · exact .string ⟨htext.symm, hv.toRope.left.join hw.toRope.left ht hleft,
      hv.toRope.right.join hw.toRope.right hu hright⟩

/-- One side makes a concatenation and the other its text. -/
theorem add (hv : v.Alike W v') (hw : w.Alike W w')
    (hshort : ∀ s, v.joined? w = some s → IsShort s) :
    Flattening.AlikeLater W Value.Alike (v.add w) (v'.addEager w') := by
  unfold Value.add Value.addEager
  rw [← hv.isString, ← hw.isString]
  by_cases hstring : (v.isString || w.isString) = true
  · rw [if_pos hstring, if_pos hstring]
    intro t u ht hu
    have hleft : IsShort (v.toRope.text ++ w.toRope.text) := by
      rw [text_toRope, text_toRope]
      exact hshort _ (if_pos hstring)
    obtain ⟨hfirst, hu₁⟩ := hv.right.display hu
    obtain ⟨hsecond, hu₂⟩ := hw.right.display hu₁
    refine ⟨(W.1.assign t.next (v.toRope.text ++ w.toRope.text), W.2), ?_, ?_, ht.insert _, hu₂⟩
    · exact ⟨Labelling.le_assign ht.next _, le_rfl⟩
    · refine .string ⟨?_, hv.toRope.left.join hw.toRope.left ht hleft, trivial⟩
      show v.toRope.text ++ w.toRope.text = (v'.display u).1 ++ (w'.display (v'.display u).2).1
      rw [hfirst, hsecond, ← hv.plainText, ← hw.plainText, text_toRope, text_toRope]
  · rw [if_neg hstring, if_neg hstring]
    apply Flattening.Alike.later
    apply hv.toNumber.bind
    rintro x _ rfl
    apply hw.toNumber.bind
    rintro y _ rfl
    exact .pure (.plain rfl)

/-- The other operators. -/
theorem applyBinary (hv : v.Alike W v') (hw : w.Alike W w') {op : BinaryOp} (hop : op ≠ .add) :
    Flattening.Alike W (Value.Alike W) (applyBinary op v w) (applyBinary op v' w') := by
  have hnumbers : ∀ f : Float → Float → Value, (∀ x y, (f x y).isString = false) →
      Flattening.Alike W (Value.Alike W)
        (do let y ← w.toNumber; let x ← v.toNumber; return f x y)
        (do let y ← w'.toNumber; let x ← v'.toNumber; return f x y) := by
    intro f hf
    apply hw.toNumber.bind
    rintro y _ rfl
    apply hv.toNumber.bind
    rintro x _ rfl
    exact .pure (.plain (hf x y))
  cases op with
  | add => exact absurd rfl hop
  | sub | mul | div => exact hnumbers _ fun _ _ => rfl
  | lt =>
    apply hv.toNumber.bind
    rintro x _ rfl
    apply hw.toNumber.bind
    rintro y _ rfl
    exact .pure (.plain rfl)
  | strictEq =>
    apply (hv.strictEquals hw).bind
    rintro b _ rfl
    exact .pure (.plain rfl)

end Alike

end Value

end ScriptMachine
