import Mathlib.Data.List.Nodup
import ScriptMachine.Toml.Reader

/-!
# Sections of a document

A plain document is a sequence of sections: a table's name between brackets, and below it a line for
each entry, a bare key and a value. `Reads` says what such a text, put in front of another, adds to
the document; `Reads.newTable` is the statement about a whole section.
-/

namespace ScriptMachine.Toml

/-! ## Characters and blanks -/

section Bare

variable {c : Char} {key s rest : List Char}

theorem ne_of_isBare {d : Char} (hc : isBare c) (hd : isBare d = false) : c ≠ d := by
  rintro rfl
  simp [hc] at hd

theorem skipSpaces_of_isBare (hc : isBare c) : skipSpaces (c :: s) = c :: s := by
  have hspace : isSpace c = false := by
    simp [isSpace, ne_of_isBare hc (d := ' ') (by decide), ne_of_isBare hc (d := '\t') (by decide)]
  exact List.dropWhile_cons_of_neg (by simp [hspace])

/-- What begins a line of a section is not skipped. -/
theorem skipLines_of_isBare (hc : isBare c) (fuel : Nat) : skipLines fuel (c :: s) = c :: s := by
  cases fuel with
  | zero => rfl
  | succ fuel =>
    have hcomment : skipComment (c :: s) = c :: s := by
      unfold skipComment
      split
      · next h => exact absurd (List.cons.inj h).1 (ne_of_isBare hc (by decide))
      · rfl
    have hline : newline? (c :: s) = none := by
      unfold newline?
      split
      · next h => exact absurd (List.cons.inj h).1 (ne_of_isBare hc (by decide))
      · next h => exact absurd (List.cons.inj h).1 (ne_of_isBare hc (by decide))
      · rfl
    rw [skipLines, skipSpaces_of_isBare hc, hcomment, hline]

theorem skipLines_bracket (fuel : Nat) : skipLines fuel ('[' :: s) = '[' :: s := by
  cases fuel <;> rfl

/-- A key that needs no quotes. -/
structure IsBareKey (key : List Char) : Prop where
  nonempty : key ≠ []
  bare : ∀ c ∈ key, isBare c

theorem keyPart?_of_bare (hkey : IsBareKey key) (hc : isBare c = false) :
    keyPart? (key ++ c :: s) = some (String.ofList key, c :: s) := by
  obtain ⟨hne, hbare⟩ := hkey
  have htake : (key ++ c :: s).takeWhile isBare = key := by
    rw [List.takeWhile_append_of_pos hbare, List.takeWhile_cons_of_neg (by simp [hc]),
      List.append_nil]
  have hdrop : (key ++ c :: s).dropWhile isBare = c :: s := by
    rw [List.dropWhile_append_of_pos hbare, List.dropWhile_cons_of_neg (by simp [hc])]
  obtain ⟨d, ds, rfl⟩ := List.exists_cons_of_ne_nil hne
  have hd : isBare d := hbare d List.mem_cons_self
  unfold keyPart?
  split
  · next h => exact absurd (List.cons.inj h).1 (ne_of_isBare hd (by decide))
  · next h => exact absurd (List.cons.inj h).1 (ne_of_isBare hd (by decide))
  · rw [htake, hdrop]
    rfl

/-- A bare key ends with its first other character. -/
theorem key?_of_bare (hkey : IsBareKey key) (hc : isBare c = false)
    (hdot : ∀ t, skipSpaces (c :: s) ≠ '.' :: t) :
    key? (key ++ c :: s) = some (([], String.ofList key), skipSpaces (c :: s)) := by
  have hstart : skipSpaces (key ++ c :: s) = key ++ c :: s := by
    obtain ⟨d, ds, rfl⟩ := List.exists_cons_of_ne_nil hkey.nonempty
    exact skipSpaces_of_isBare (hkey.bare d List.mem_cons_self)
  have hpart := keyPart?_of_bare (s := s) hkey hc
  show keyWithin? (78 + 1) _ = _
  rw [keyWithin?, hstart, hpart, Option.bind_eq_bind, Option.bind_some]
  dsimp only
  split
  · next h => exact absurd h (hdot _)
  · rfl

end Bare

/-! ## Tables -/

section Tables

variable {name key : String} {v w : Value} {root inner : Entries}

end Tables

/-! ## Lines -/

/-- An entry as it stands on a line. -/
structure EntryLine where
  key : String
  text : String
  value : Value

namespace EntryLine

/-- The line, with its end. -/
def chars (l : EntryLine) : List Char :=
  l.key.toList ++ ' ' :: '=' :: ' ' :: (l.text.toList ++ ['\n'])

/-- The entry that is meant. -/
def entry (l : EntryLine) : String × Value := (l.key, l.value)

/-- The key needs no quotes, and the text is read as the value up to the end of the line. -/
structure IsPlain (l : EntryLine) : Prop where
  key : IsBareKey l.key.toList
  start : ∃ c cs, l.text.toList = c :: cs ∧ isBare c
  reads : ∀ depth rest,
    value? depth (l.text.toList ++ '\n' :: rest) = some (l.value, '\n' :: rest)

theorem IsPlain.keyValue? {l : EntryLine} (h : l.IsPlain) {d : Document} {entries : Entries}
    (hadd : addUnder d.table [] l.key l.value d.entries = some entries) (s : List Char) :
    keyValue? d (l.chars ++ s) = some ({ d with entries }, '\n' :: s) := by
  obtain ⟨c, cs, htext, hc⟩ := h.start
  have hkey : key? (l.chars ++ s) =
      some (([], l.key), '=' :: ' ' :: (l.text.toList ++ '\n' :: s)) := by
    have hread := key?_of_bare (s := '=' :: ' ' :: (l.text.toList ++ '\n' :: s)) h.key
      (c := ' ') (by decide) (fun t => by simp [skipSpaces, isSpace])
    rw [String.ofList_toList] at hread
    simpa [chars, skipSpaces, isSpace] using hread
  have hvalue : skipSpaces (' ' :: (l.text.toList ++ '\n' :: s)) = l.text.toList ++ '\n' :: s := by
    rw [htext, List.cons_append, skipSpaces, List.dropWhile_cons_of_pos (by decide)]
    exact skipSpaces_of_isBare hc
  have hword : word? "=" ('=' :: ' ' :: (l.text.toList ++ '\n' :: s)) =
      some (' ' :: (l.text.toList ++ '\n' :: s)) := rfl
  simp [Toml.keyValue?, hkey, hword, hvalue, h.reads, hadd]

end EntryLine

/-- A text makes one document of another. -/
def Reads (d : Document) (s : List Char) (e : Document) : Prop :=
  ∀ fuel, s.length < fuel → lines? fuel d s = some e

namespace Reads

variable {d e : Document} {s : List Char} {name : String} {root inner entries : Entries}
  {table : List String} {lines : List EntryLine}

theorem nil (d : Document) : Reads d [] d := by
  intro fuel hfuel
  obtain ⟨fuel, rfl⟩ := Nat.exists_eq_succ_of_ne_zero (Nat.ne_of_gt hfuel)
  rfl

/-- One more line takes one more step. -/
theorem of_line {line : List Char} (hline : line ≠ []) {d' : Document}
    (hstep : ∀ fuel, lines? (fuel + 1) d (line ++ s) = lines? fuel d' s) (h : Reads d' s e) :
    Reads d (line ++ s) e := by
  intro fuel hfuel
  rw [List.length_append] at hfuel
  have hpos := List.length_pos_of_ne_nil hline
  obtain ⟨fuel, rfl⟩ := Nat.exists_eq_succ_of_ne_zero (show fuel ≠ 0 by omega)
  rw [hstep fuel]
  exact h fuel (by omega)

theorem entry {l : EntryLine} (hl : l.IsPlain)
    (hadd : addUnder d.table [] l.key l.value d.entries = some entries)
    (h : Reads { d with entries } s e) : Reads d (l.chars ++ s) e := by
  refine of_line (by simp [EntryLine.chars]) (fun fuel => ?_) h
  have hread := hl.keyValue? hadd s
  obtain ⟨c, cs, hkey⟩ := List.exists_cons_of_ne_nil hl.key.nonempty
  have hc : isBare c := hl.key.bare c (hkey ▸ List.mem_cons_self)
  obtain ⟨t, ht⟩ : ∃ t, l.chars ++ s = c :: t := ⟨_, by rw [EntryLine.chars, hkey]; rfl⟩
  rw [ht] at hread ⊢
  rw [lines?, skipLines_of_isBare hc]
  split
  · next h => cases h
  · next h => exact absurd (List.cons.inj h).1 (ne_of_isBare hc (by decide))
  · rw [hread]
    rfl

theorem header (hname : IsBareKey name.toList)
    (hopen : openTable [] name d.entries = some entries)
    (h : Reads { entries, table := [name] } s e) :
    Reads d ('[' :: (name.toList ++ [']', '\n']) ++ s) e := by
  refine of_line (List.cons_ne_nil _ _) (fun fuel => ?_) h
  have hkey := key?_of_bare (s := '\n' :: s) hname (c := ']') (by decide)
    (fun t => by simp [skipSpaces, isSpace])
  rw [String.ofList_toList] at hkey
  have hheader : header? d ('[' :: (name.toList ++ ']' :: '\n' :: s)) =
      some ({ entries, table := [name] }, '\n' :: s) := by
    obtain ⟨c, cs, hc⟩ := List.exists_cons_of_ne_nil hname.nonempty
    have hbracket : '[' ≠ c := (ne_of_isBare (hname.bare c (hc ▸ List.mem_cons_self)) rfl).symm
    unfold header?
    split
    · next h =>
      rw [hc] at h
      exact absurd (List.cons.inj (List.cons.inj h).2).1.symm hbracket
    · next h =>
      have hword : word? "]" (skipSpaces (']' :: '\n' :: s)) = some ('\n' :: s) := rfl
      rw [← (List.cons.inj h).2, hkey]
      simp [hword, hopen]
    · next h => exact absurd rfl (h _)
  rw [List.cons_append, List.append_assoc, List.cons_append, List.cons_append, List.nil_append,
    lines?, skipLines_bracket]
  simp only [hheader]
  rfl

end Reads

end ScriptMachine.Toml
