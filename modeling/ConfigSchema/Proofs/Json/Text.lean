import ConfigSchema.Json.Document
import ConfigSchema.Proofs.Json.Number
import Mathlib.Tactic.FinCases

/-!
The compact text of a document determines it. The first character tells the kind of the document,
strings are read back from their escapes, and a number ends where a character follows that no number
has. Main statement: `Document.compact_injective`.
-/

namespace ConfigSchema

open Text (Stops stops_nil stops_cons)
open Json.Reader

namespace Document

/-! Strings. -/

/-- The characters with an escape of two letters. -/
def lettered : List Char := ['"', '\\', '\x08', '\t', '\n', '\x0c', '\r']

theorem escape_of_not_mem {c : Char} (h : c ∉ lettered) : escape c =
    if c.toNat < 32 then ['\\', 'u', '0', '0', hexDigit (c.toNat / 16), hexDigit (c.toNat % 16)]
    else [c] := by
  simp only [lettered, List.mem_cons, List.not_mem_nil, or_false, not_or] at h
  obtain ⟨hquote, hslash, hback, htab, hnew, hform, hreturn⟩ := h
  rw [escape, if_neg hquote, if_neg hslash, if_neg hback, if_neg htab, if_neg hnew, if_neg hform,
    if_neg hreturn]

theorem codeUnit_control {n : Nat} (h : n < 32) :
    codeUnit '0' '0' (hexDigit (n / 16)) (hexDigit (n % 16)) = some n := by
  revert n
  decide

/-- A character is read back from its escape. -/
theorem stringBody_escape (c : Char) (done rest : List Char) :
    stringBody done (escape c ++ rest) = stringBody (c :: done) rest := by
  by_cases hlettered : c ∈ lettered
  · fin_cases hlettered <;> rfl
  rw [escape_of_not_mem hlettered]
  split
  case isTrue hcontrol =>
    have hhigh : isHighSurrogate c.toNat = false := by
      rw [isHighSurrogate, Bool.and_eq_false_iff, decide_eq_false_iff_not]
      omega
    have hlow : isLowSurrogate c.toNat = false := by
      rw [isLowSurrogate, Bool.and_eq_false_iff, decide_eq_false_iff_not]
      omega
    simp [stringBody, codeUnit_control hcontrol, hhigh, hlow, Char.ofNat_toNat]
  case isFalse hcontrol =>
    have hquote : c ≠ '"' := fun h => hlettered (h ▸ by decide)
    have hslash : c ≠ '\\' := fun h => hlettered (h ▸ by decide)
    rw [List.singleton_append, stringBody]
    · exact if_neg hcontrol
    · exact hquote
    · exact fun _ _ _ _ _ h => absurd h hslash
    · exact fun _ _ h => absurd h hslash

theorem stringBody_foldr (cs done rest : List Char) :
    stringBody done (cs.foldr (fun c r => escape c ++ r) ('"' :: rest)) =
      some (String.ofList (done.reverse ++ cs), rest) := by
  induction cs generalizing done with
  | nil => simp [stringBody]
  | cons c cs ih =>
      rw [List.foldr_cons, stringBody_escape, ih]
      simp

theorem quoteOnto_inj {s s' : String} {rest rest' : List Char}
    (h : quoteOnto s rest = quoteOnto s' rest') : s = s' ∧ rest = rest' := by
  have hread := congrArg (stringBody []) (List.cons.inj h).2
  rw [stringBody_foldr, stringBody_foldr, Option.some.injEq, Prod.mk.injEq] at hread
  simpa using hread

/-! Kinds of documents. -/

/-- The character that a document begins with; all numbers have one mark in common. -/
def mark : Document → Char
  | null => 'n'
  | bool b => if b then 't' else 'f'
  | number _ => '0'
  | string _ => '"'
  | array _ => '['
  | object _ => '\x7b'

/-- The mark of the documents that begin with a character. -/
def markOf (c : Char) : Char := if isNumeric c then '0' else c

theorem mark_writeOnto (d : Document) (rest : List Char) :
    (d.writeOnto rest).head?.map markOf = some d.mark := by
  cases d with
  | null => rfl
  | bool b => cases b <;> rfl
  | number n =>
      rw [writeOnto]
      cases htext : n.text with
      | nil => exact absurd htext n.text_ne_nil
      | cons c cs =>
          have hnumeric := JsonNumber.isNumeric_of_mem_text (htext ▸ List.mem_cons_self : c ∈ n.text)
          simp [markOf, hnumeric, mark]
  | string s => rfl
  | array ds => cases ds <;> rfl
  | object ms => rcases ms with - | ⟨⟨name, d⟩, ms⟩ <;> rfl

/-- Two documents of one kind. There is one null, and there are two Booleans. -/
inductive SameKind : Document → Document → Prop
  | null : SameKind null null
  | bool (b : Bool) : SameKind (bool b) (bool b)
  | number (n n' : JsonNumber) : SameKind (number n) (number n')
  | string (s s' : String) : SameKind (string s) (string s')
  | array (ds ds' : List Document) : SameKind (array ds) (array ds')
  | object (ms ms' : List (String × Document)) : SameKind (object ms) (object ms')

theorem sameKind_of_mark_eq {d d' : Document} (h : d.mark = d'.mark) : SameKind d d' := by
  rcases d with - | (- | -) | n | s | ds | ms <;>
    rcases d' with - | (- | -) | n' | s' | ds' | ms' <;>
    first | constructor | simp [mark] at h

theorem sameKind_of_writeOnto_eq {d d' : Document} {rest rest' : List Char}
    (h : d.writeOnto rest = d'.writeOnto rest') : SameKind d d' := by
  have hmark := mark_writeOnto d rest
  rw [h, mark_writeOnto, Option.some.injEq] at hmark
  exact sameKind_of_mark_eq hmark.symm

theorem writeOnto_ne_close (d : Document) (rest rest' : List Char) :
    d.writeOnto rest ≠ ']' :: rest' := by
  intro h
  have hmark := mark_writeOnto d rest
  rw [h] at hmark
  cases d with
  | bool b => cases b <;> simp [mark, markOf, isNumeric] at hmark
  | _ => simp [mark, markOf, isNumeric] at hmark

theorem stops_writeItems (ds : List Document) (rest : List Char) :
    Stops isNumeric (writeItems ds rest) := by
  cases ds <;> exact stops_cons (by decide)

theorem stops_writeMembers (ms : List (String × Document)) (rest : List Char) :
    Stops isNumeric (writeMembers ms rest) := by
  rcases ms with - | ⟨⟨name, d⟩, ms⟩ <;> exact stops_cons (by decide)

mutual

/-- A document in front of a text that does not go on with a number is determined, and so is the
text. -/
theorem writeOnto_inj : ∀ (d d' : Document) {rest rest' : List Char}, Stops isNumeric rest →
    Stops isNumeric rest' → d.writeOnto rest = d'.writeOnto rest' → d = d' ∧ rest = rest'
  | null, d', rest, rest', _, _, h => by
      cases sameKind_of_writeOnto_eq h
      exact ⟨rfl, List.append_cancel_left h⟩
  | bool b, d', rest, rest', _, _, h => by
      cases sameKind_of_writeOnto_eq h
      exact ⟨rfl, List.append_cancel_left h⟩
  | number n, d', rest, rest', hrest, hrest', h => by
      obtain - | - | ⟨n, n'⟩ := sameKind_of_writeOnto_eq h
      obtain ⟨htext, hrest⟩ := Text.append_inj_of_stops
        (fun _ => JsonNumber.isNumeric_of_mem_text) (fun _ => JsonNumber.isNumeric_of_mem_text)
        hrest hrest' h
      exact ⟨congrArg number (JsonNumber.text_injective htext), hrest⟩
  | string s, d', rest, rest', _, _, h => by
      obtain - | - | - | ⟨s, s'⟩ := sameKind_of_writeOnto_eq h
      obtain ⟨rfl, hrest⟩ := quoteOnto_inj h
      exact ⟨rfl, hrest⟩
  | array [], d', rest, rest', _, _, h => by
      obtain - | - | - | - | ⟨-, ds'⟩ := sameKind_of_writeOnto_eq h
      cases ds' with
      | nil => exact ⟨rfl, (List.cons.inj (List.cons.inj h).2).2⟩
      | cons d' ds' => exact absurd (List.cons.inj h).2.symm (writeOnto_ne_close d' _ _)
  | array (d :: ds), d', rest, rest', _, _, h => by
      obtain - | - | - | - | ⟨-, ds'⟩ := sameKind_of_writeOnto_eq h
      cases ds' with
      | nil => exact absurd (List.cons.inj h).2 (writeOnto_ne_close d _ _)
      | cons d' ds' =>
          -- the first item, too, is written as the others are, but for the comma
          obtain ⟨hitems, hrest⟩ := writeItems_inj (d :: ds) (d' :: ds')
            (congrArg (',' :: ·) (List.cons.inj h).2)
          exact ⟨congrArg array hitems, hrest⟩
  | object [], d', rest, rest', _, _, h => by
      obtain - | - | - | - | - | ⟨-, ms'⟩ := sameKind_of_writeOnto_eq h
      cases ms' with
      | nil => exact ⟨rfl, (List.cons.inj (List.cons.inj h).2).2⟩
      | cons m' ms' => simp [writeOnto, quoteOnto] at h
  | object ((name, d) :: ms), d', rest, rest', _, _, h => by
      obtain - | - | - | - | - | ⟨-, ms'⟩ := sameKind_of_writeOnto_eq h
      cases ms' with
      | nil => simp [writeOnto, quoteOnto] at h
      | cons m' ms' =>
          obtain ⟨hmembers, hrest⟩ := writeMembers_inj ((name, d) :: ms) (m' :: ms')
            (congrArg (',' :: ·) (List.cons.inj h).2)
          exact ⟨congrArg object hmembers, hrest⟩

theorem writeItems_inj : ∀ (ds ds' : List Document) {rest rest' : List Char},
    writeItems ds rest = writeItems ds' rest' → ds = ds' ∧ rest = rest'
  | [], [], rest, rest', h => ⟨rfl, (List.cons.inj h).2⟩
  | [], d' :: ds', rest, rest', h => by simp [writeItems] at h
  | d :: ds, [], rest, rest', h => by simp [writeItems] at h
  | d :: ds, d' :: ds', rest, rest', h => by
      obtain ⟨rfl, hitems⟩ := writeOnto_inj d d' (stops_writeItems ds rest)
        (stops_writeItems ds' rest') (List.cons.inj h).2
      obtain ⟨rfl, hrest⟩ := writeItems_inj ds ds' hitems
      exact ⟨rfl, hrest⟩

theorem writeMembers_inj : ∀ (ms ms' : List (String × Document)) {rest rest' : List Char},
    writeMembers ms rest = writeMembers ms' rest' → ms = ms' ∧ rest = rest'
  | [], [], rest, rest', h => ⟨rfl, (List.cons.inj h).2⟩
  | [], (name', d') :: ms', rest, rest', h => by simp [writeMembers] at h
  | (name, d) :: ms, [], rest, rest', h => by simp [writeMembers] at h
  | (name, d) :: ms, (name', d') :: ms', rest, rest', h => by
      obtain ⟨rfl, hvalue⟩ := quoteOnto_inj (List.cons.inj h).2
      obtain ⟨rfl, hmembers⟩ := writeOnto_inj d d' (stops_writeMembers ms rest)
        (stops_writeMembers ms' rest') (List.cons.inj hvalue).2
      obtain ⟨rfl, hrest⟩ := writeMembers_inj ms ms' hmembers
      exact ⟨rfl, hrest⟩

end

/-- Documents with the same compact text are equal. -/
theorem compact_injective : Function.Injective compact := by
  intro d d' h
  exact (writeOnto_inj d d' (stops_nil _) (stops_nil _) (String.ofList_injective h)).1

end Document

end ConfigSchema
