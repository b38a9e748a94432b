import ScriptMachine.Proofs.Ropes.Run

/-!
# The recorded length of a rope

A rope records the sum of the lengths of its two pieces, counted in 64 bits. Pieces are shared, so
a few concatenations can stand for a text that no memory holds, and the count goes around: what is
recorded is the number of bytes of the text modulo 2^64 (`Rope.toNat_byteLength`). Below 2^64 bytes
length, emptiness and truthiness are those of the text, whatever sequence of concatenations the
rope comes from (`Joining.length_of_built`). A string of one byte that is added to itself sixty-four
times has 2^64 bytes and counts as empty (`Joining.falsy_doubled`).
-/

namespace ScriptMachine

/-! ## Lengths and texts -/

namespace Rope

/-- The flat strings that a rope is made of, from left to right. -/
def pieces : Rope → List String
  | .flat s => [s]
  | .join _ left right => left.pieces ++ right.pieces

theorem toNat_byteLength (r : Rope) :
    r.byteLength.toNat = r.text.utf8ByteSize % UInt64.size := by
  rw [byteLength_eq, UInt64.toNat_ofNat']

theorem toNat_byteLength_of_isShort {r : Rope} (h : IsShort r.text) :
    r.byteLength.toNat = r.text.utf8ByteSize := by
  rw [toNat_byteLength, Nat.mod_eq_of_lt h]

/-- A concatenation counts as empty if the number of its bytes is a multiple of 2^64. -/
theorem isEmpty_iff_of_isJoin {r : Rope} (h : r.isJoin) :
    r.isEmpty ↔ UInt64.size ∣ r.text.utf8ByteSize := by
  cases r with
  | flat s => cases h
  | join id left right =>
    have hlength := toNat_byteLength (.join id left right)
    show ((Rope.join id left right).byteLength == 0) = true ↔ _
    rw [beq_iff_eq, ← UInt64.toNat_inj, hlength]
    exact (Nat.dvd_iff_mod_eq_zero ..).symm

theorem isEmpty_eq_of_isShort {r : Rope} (h : IsShort r.text) : r.isEmpty = r.text.isEmpty := by
  cases hjoin : r.isJoin with
  | false =>
    cases r with
    | flat s => rfl
    | join id left right => cases hjoin
  | true =>
    rw [Bool.eq_iff_iff, isEmpty_iff_of_isJoin hjoin, String.isEmpty_iff,
      ← String.utf8ByteSize_eq_zero_iff]
    constructor
    · exact fun hdvd => Nat.eq_zero_of_dvd_of_lt hdvd h
    · intro hzero
      rw [hzero]
      exact Nat.dvd_zero _

theorem text_ne_empty {r : Rope} {s : String} (hs : s ∈ r.pieces) (hne : s ≠ "") :
    r.text ≠ "" := by
  induction r with
  | flat u =>
    rw [pieces, List.mem_singleton] at hs
    exact hs ▸ hne
  | join id left right ihl ihr =>
    rw [text, Ne, String.append_eq_empty_iff]
    rintro ⟨hleft, hright⟩
    rcases List.mem_append.mp hs with hs | hs
    · exact ihl hs hleft
    · exact ihr hs hright

end Rope

theorem Value.isTruthy_iff_of_isShort {r : Rope} (h : IsShort r.text) :
    (Value.string r).isTruthy ↔ r.text ≠ "" := by
  show (!r.isEmpty) = true ↔ _
  rw [Rope.isEmpty_eq_of_isShort h, Bool.not_eq_true', Bool.eq_false_iff, Ne, String.isEmpty_iff]

/-! ## Sequences of concatenations -/

/-- A concatenation of two of the values at hand, by the operator `+` or directly. -/
inductive Joining where
  | add (left right : Nat)
  | concat (left right : Nat)
  deriving DecidableEq, Repr

namespace Joining

/-- A value at hand. -/
def pick (hand : List Value) (i : Nat) : Value := hand.getD i .undefined

/-- The value that a concatenation makes. -/
def perform (hand : List Value) : Joining → Flattening Value
  | add left right => (pick hand left).add (pick hand right)
  | concat left right => (pick hand left).concat (pick hand right)

/-- The values at hand after a sequence of concatenations; each makes one more. -/
def build : List Joining → List Value → Flattening (List Value)
  | [], hand => pure hand
  | j :: js, hand => do build js (hand ++ [← j.perform hand])

/-- The same in flat strings: the value that a concatenation stands for. -/
def performFlat (hand : List Value) : Joining → Value
  | add left right => ((pick hand left).addEager (pick hand right) {}).1
  | concat left right => .text ((pick hand left).plainText ++ (pick hand right).plainText)

/-- The same in flat strings: the values that a sequence of concatenations stands for. -/
def buildFlat : List Joining → List Value → List Value
  | [], hand => hand
  | j :: js, hand => buildFlat js (hand ++ [j.performFlat hand])

variable {hand : List Value} {js : List Joining} {t : FlatTexts}

theorem build_cons (j : Joining) (js : List Joining) (hand : List Value) (t : FlatTexts) :
    build (j :: js) hand t = build js (hand ++ [(j.perform hand t).1]) (j.perform hand t).2 := rfl

theorem pick_map_flat (hand : List Value) (i : Nat) :
    pick (hand.map Value.flat) i = (pick hand i).flat := by
  simp only [pick, List.getD_eq_getElem?_getD, List.getElem?_map]
  cases hand[i]? <;> rfl

theorem flat_concat (v w : Value) :
    (v.concat w t).1.flat = .text (v.flat.plainText ++ w.flat.plainText) := by
  have hflat (u : Value) : u.toRope.text = u.flat.plainText := by cases u <;> rfl
  show Value.text (v.toRope.text ++ w.toRope.text) = _
  rw [hflat, hflat]

/-- An addition stands for the addition of what its operands stand for. -/
theorem flat_add (v w : Value) : (v.add w t).1.flat = (v.flat.addEager w.flat {}).1 := by
  by_cases hstring : (v.isString || w.isString) = true
  · have hflat : (v.flat.isString || w.flat.isString) = true := by
      cases v <;> cases w <;> exact hstring
    have hdisplay (u : Value) (texts : FlatTexts) :
        u.flat.display texts = (u.flat.plainText, texts) := by
      cases u <;> rfl
    have hconcat : v.add w = v.concat w := if_pos hstring
    have heager : (v.flat.addEager w.flat {}).1 = .text (v.flat.plainText ++ w.flat.plainText) := by
      unfold Value.addEager
      rw [if_pos hflat]
      simp only [bind, StateT.bind, hdisplay]
      rfl
    rw [hconcat, flat_concat, heager]
  · cases v <;> cases w <;> first | exact absurd rfl hstring | rfl

theorem flat_perform (j : Joining) :
    (j.perform hand t).1.flat = j.performFlat (hand.map Value.flat) := by
  cases j with
  | add left right => simp only [perform, performFlat, pick_map_flat, flat_add]
  | concat left right => simp only [perform, performFlat, pick_map_flat, flat_concat]

/-- What a sequence of concatenations builds stands for what it builds in flat strings. The
induction is on the sequence, with any values at hand. -/
theorem map_flat_build (js : List Joining) (hand : List Value) (t : FlatTexts) :
    (build js hand t).1.map Value.flat = buildFlat js (hand.map Value.flat) := by
  induction js generalizing hand t with
  | nil => rfl
  | cons j js ih =>
    rw [build_cons, ih, List.map_append, List.map_singleton, flat_perform]
    rfl

/-- The recorded length of a string that any sequence of concatenations builds counts the bytes of
its text modulo 2^64, where the text is that of the same sequence carried out with flat strings;
and a concatenation is falsy if that number of bytes is a multiple of 2^64. So as long as a text
has fewer than 2^64 bytes, the length is the number of its bytes, the string counts as empty or
falsy if its text is empty, and one with a non-empty piece is truthy. -/
theorem length_of_built {i : Nat} {r : Rope} (h : (build js hand t).1[i]? = some (.string r)) :
    (buildFlat js (hand.map Value.flat))[i]? = some (.text r.text) ∧
      r.byteLength.toNat = r.text.utf8ByteSize % UInt64.size ∧
      (r.isJoin → ((Value.string r).isTruthy ↔ ¬ UInt64.size ∣ r.text.utf8ByteSize)) ∧
      (IsShort r.text →
        r.byteLength.toNat = r.text.utf8ByteSize ∧ r.isEmpty = r.text.isEmpty ∧
          ((Value.string r).isTruthy ↔ r.text ≠ "") ∧
          ∀ s ∈ r.pieces, s ≠ "" → (Value.string r).isTruthy) := by
  refine ⟨?_, r.toNat_byteLength, ?_, ?_⟩
  · rw [← map_flat_build js hand t, List.getElem?_map, h]
    rfl
  · intro hjoin
    show (!r.isEmpty) = true ↔ _
    rw [Bool.not_eq_true', Bool.eq_false_iff, Ne, Rope.isEmpty_iff_of_isJoin hjoin]
  · intro hshort
    have htruthy := Value.isTruthy_iff_of_isShort hshort
    refine ⟨Rope.toNat_byteLength_of_isShort hshort, Rope.isEmpty_eq_of_isShort hshort, htruthy, ?_⟩
    exact fun s hs hne => htruthy.mpr (Rope.text_ne_empty hs hne)

/-- Two concatenations of one rope with itself, one of which concatenates it again. -/
theorem length_of_built_quadrupled :
    ∃ r, (build [.add 0 0, .concat 1 1] [.text "né"] {}).1[2]? = some (.string r) ∧
      r.byteLength.toNat = 12 ∧ (Value.string r).isTruthy := by
  let single := Rope.flat "né"
  let double := Rope.join ⟨0⟩ single single
  have hbuilt : (build [.add 0 0, .concat 1 1] [.text "né"] {}).1[2]? =
      some (.string (.join ⟨1⟩ double double)) := rfl
  refine ⟨_, hbuilt, ?_⟩
  obtain ⟨-, -, -, hshort⟩ := length_of_built hbuilt
  obtain ⟨hlength, -, -, hpieces⟩ := hshort (by decide)
  exact ⟨hlength.trans (by decide), hpieces "né" (by decide) (by decide)⟩

/-! ## Doubling -/

/-- Add a value to itself, then the sum to itself and so on, a number of times. -/
def doublings (start count : Nat) : List Joining :=
  (List.range' start count).map fun i => .add i i

/-- Doubling doubles the number of bytes, without bound. The induction is on the number of
doublings; the newest value is the one that is doubled next. -/
theorem exists_doubled (count : Nat) {start : Nat} {r : Rope} (hlast : hand.length = start + 1)
    (h : hand[start]? = some (.string r)) (t : FlatTexts) :
    ∃ s, (build (doublings start count) hand t).1[start + count]? = some (.string s) ∧
      s.text.utf8ByteSize = Nat.pow 2 count * r.text.utf8ByteSize ∧
      (∀ p ∈ r.pieces, p ∈ s.pieces) ∧ (r.isJoin ∨ 0 < count → s.isJoin) := by
  induction count generalizing hand start r t with
  | zero => exact ⟨r, h, (Nat.one_mul _).symm, fun _ => id, fun hr => hr.resolve_right (by omega)⟩
  | succ count ih =>
    let double := Rope.join t.next r r
    have hpick : pick hand start = .string r := by
      rw [pick, List.getD_eq_getElem?_getD, h]
      rfl
    have hperform : (Joining.add start start).perform hand t =
        (.string double, (t.insert none).2) := by
      rw [perform, hpick]
      rfl
    have hnext : (hand ++ [.string double])[start + 1]? = some (.string double) := by
      rw [← hlast, List.getElem?_concat_length]
    obtain ⟨s, hs, hbytes, hpieces, hjoin⟩ :=
      ih (by rw [List.length_append, hlast]; rfl) hnext (t.insert none).2
    refine ⟨s, ?_, ?_, ?_, fun _ => hjoin (Or.inl rfl)⟩
    · rw [doublings, List.range'_succ, List.map_cons, ← doublings, build_cons, hperform,
        Nat.add_comm count, ← Nat.add_assoc]
      exact hs
    · have hpow : Nat.pow 2 (count + 1) = Nat.pow 2 count * 2 := rfl
      rw [hbytes, Rope.text, String.utf8ByteSize_append, hpow, Nat.mul_assoc, Nat.two_mul]
    · exact fun p hp => hpieces p (List.mem_append_left _ hp)

/-- A string of one byte, added to itself sixty-four times, has 2^64 bytes; but its recorded
length is zero and it is falsy. -/
theorem falsy_doubled :
    ∃ r, (build (doublings 0 64) [.text "a"] {}).1[64]? = some (.string r) ∧ "a" ∈ r.pieces ∧
      r.text.utf8ByteSize = UInt64.size ∧ r.byteLength.toNat = 0 ∧ r.isEmpty = true ∧
      (Value.string r).isTruthy = false := by
  have hfirst : [Value.text "a"][0]? = some (.string (.flat "a")) := rfl
  obtain ⟨r, hr, hbytes, hpieces, hjoin⟩ := exists_doubled 64 rfl hfirst {}
  have hsize : r.text.utf8ByteSize = UInt64.size := hbytes.trans (Nat.mul_one _)
  have hempty : r.isEmpty = true :=
    (Rope.isEmpty_iff_of_isJoin (hjoin (Or.inr (by omega)))).mpr (hsize ▸ Nat.dvd_refl _)
  refine ⟨r, hr, hpieces "a" (List.mem_singleton_self _), hsize, ?_, hempty, ?_⟩
  · exact (Rope.toNat_byteLength r).trans (hsize ▸ Nat.mod_self _)
  · show (!r.isEmpty) = false
    rw [hempty]
    rfl

end Joining

end ScriptMachine
