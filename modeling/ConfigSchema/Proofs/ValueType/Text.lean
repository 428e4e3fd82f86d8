import ConfigSchema.Proofs.Text.Prefix
import ConfigSchema.ValueType.Text

/-!
The type expression of a type determines it. The first two characters tell the kind of the type, and
no expression is the beginning of another one. Names of fields stand in it without quotes: a name
ends at the equals sign behind it, and the fields end where a brace stands in the place of a name.
Main statement: `eq_of_text_eq`, for names of letters, digits, `_` and `-`.
-/

namespace ConfigSchema.ValueType

/-! Names of fields. -/

mutual

/-- The names of all fields in the type, at every depth. -/
def fieldNames : ValueType → List String
  | dynamic => []
  | string => []
  | number => []
  | bool => []
  | list t => t.fieldNames
  | set t => t.fieldNames
  | map t => t.fieldNames
  | tuple ts => elementFieldNames ts
  | object ts => entryFieldNames ts

def elementFieldNames : List ValueType → List String
  | [] => []
  | t :: ts => t.fieldNames ++ elementFieldNames ts

def entryFieldNames {lo : Option String} : Entries String ValueType lo → List String
  | .nil => []
  | .cons name _ t ts => name :: (t.fieldNames ++ entryFieldNames ts)

end

/-- The name consists of letters, digits, `_` and `-`, of at least one of them. -/
def isPlainName (name : String) : Bool :=
  !name.isEmpty && name.toList.all fun c => c.isAlphanum || c = '_' || c = '-'

/-- The name ends at the equals sign that is written behind it, and does not begin like the end of
an object. -/
def IsDelimited (name : String) : Prop :=
  '=' ∉ name.toList ∧ name.toList.head? ≠ some '\x7d'

theorem isDelimited_of_isPlainName {name : String} (h : isPlainName name = true) :
    IsDelimited name := by
  rw [isPlainName, Bool.and_eq_true, List.all_eq_true] at h
  have hequals : '=' ∉ name.toList := fun hmem => absurd (h.2 _ hmem) (by decide)
  have hbrace : '\x7d' ∉ name.toList := fun hmem => absurd (h.2 _ hmem) (by decide)
  exact ⟨hequals, fun hhead => hbrace (List.mem_of_head? hhead)⟩

/-! Kinds of types. -/

/-- The two characters that the expression of a type begins with. -/
def mark : ValueType → List Char
  | dynamic => ['a', 'n']
  | string => ['s', 't']
  | number => ['n', 'u']
  | bool => ['b', 'o']
  | list _ => ['l', 'i']
  | set _ => ['s', 'e']
  | map _ => ['m', 'a']
  | tuple _ => ['t', 'u']
  | object _ => ['o', 'b']

theorem take_writeOnto (t : ValueType) (rest : List Char) :
    (t.writeOnto rest).take 2 = t.mark := by
  cases t <;> rfl

/-- Two types of one kind. -/
inductive SameKind : ValueType → ValueType → Prop
  | dynamic : SameKind dynamic dynamic
  | string : SameKind string string
  | number : SameKind number number
  | bool : SameKind bool bool
  | list (s t : ValueType) : SameKind (list s) (list t)
  | set (s t : ValueType) : SameKind (set s) (set t)
  | map (s t : ValueType) : SameKind (map s) (map t)
  | tuple (ss ts : List ValueType) : SameKind (tuple ss) (tuple ts)
  | object (ss ts : SortedMap String ValueType) : SameKind (object ss) (object ts)

theorem sameKind_of_mark_eq {s t : ValueType} (h : s.mark = t.mark) : SameKind s t := by
  cases s <;> cases t <;> first | constructor | simp [mark] at h

theorem sameKind_of_writeOnto_eq {s t : ValueType} {rest rest' : List Char}
    (h : s.writeOnto rest = t.writeOnto rest') : SameKind s t := by
  have hmark := take_writeOnto s rest
  rw [h, take_writeOnto] at hmark
  exact sameKind_of_mark_eq hmark.symm

/-! Ends of elements and fields. -/

theorem bracket_ne_writeElements (first : Bool) (t : ValueType) (ts : List ValueType)
    (rest rest' : List Char) : ']' :: rest ≠ writeElements first (t :: ts) rest' := by
  intro h
  cases first with
  | true =>
      -- there is no comma before the first element, but it begins with a letter
      have hfirst : t.writeOnto (writeElements false ts rest') = ']' :: rest := h.symm
      have hmark := take_writeOnto t (writeElements false ts rest')
      rw [hfirst] at hmark
      cases t <;> simp [mark] at hmark
  | false => simp [writeElements] at h

theorem brace_ne_writeFields (first : Bool) {lo : Option String} {name : String}
    (habove : Above lo name) (t : ValueType) (ts : Entries String ValueType (some name))
    (hname : IsDelimited name) (rest rest' : List Char) :
    '\x7d' :: rest ≠ writeFields first (.cons name habove t ts) rest' := by
  intro h
  cases first with
  | true =>
      -- of an empty name there is the equals sign only
      cases hcs : name.toList with
      | nil => simp [writeFields, hcs] at h
      | cons c cs =>
          simp only [writeFields, hcs, if_true, List.nil_append, List.cons_append,
            List.cons.injEq] at h
          have hhead : name.toList.head? = some '\x7d' := by rw [hcs, ← h.1]; rfl
          exact hname.2 hhead
  | false => simp [writeFields] at h

/-! Expressions in front of other text. -/

mutual

/-- An expression in front of any text is determined, and so is the text. -/
theorem writeOnto_inj : ∀ (s t : ValueType) {rest rest' : List Char},
    (∀ name ∈ s.fieldNames, IsDelimited name) → (∀ name ∈ t.fieldNames, IsDelimited name) →
      s.writeOnto rest = t.writeOnto rest' → s = t ∧ rest = rest'
  | dynamic, t, rest, rest', _, _, h => by
      cases sameKind_of_writeOnto_eq h
      exact ⟨rfl, List.append_cancel_left h⟩
  | string, t, rest, rest', _, _, h => by
      cases sameKind_of_writeOnto_eq h
      exact ⟨rfl, List.append_cancel_left h⟩
  | number, t, rest, rest', _, _, h => by
      cases sameKind_of_writeOnto_eq h
      exact ⟨rfl, List.append_cancel_left h⟩
  | bool, t, rest, rest', _, _, h => by
      cases sameKind_of_writeOnto_eq h
      exact ⟨rfl, List.append_cancel_left h⟩
  | list s, t, rest, rest', hs, ht, h => by
      cases sameKind_of_writeOnto_eq h with
      | list _ t =>
          obtain ⟨rfl, hrest⟩ := writeOnto_inj s t hs ht (List.append_cancel_left h)
          exact ⟨rfl, (List.cons.inj hrest).2⟩
  | set s, t, rest, rest', hs, ht, h => by
      cases sameKind_of_writeOnto_eq h with
      | set _ t =>
          obtain ⟨rfl, hrest⟩ := writeOnto_inj s t hs ht (List.append_cancel_left h)
          exact ⟨rfl, (List.cons.inj hrest).2⟩
  | map s, t, rest, rest', hs, ht, h => by
      cases sameKind_of_writeOnto_eq h with
      | map _ t =>
          obtain ⟨rfl, hrest⟩ := writeOnto_inj s t hs ht (List.append_cancel_left h)
          exact ⟨rfl, (List.cons.inj hrest).2⟩
  | tuple ss, t, rest, rest', hs, ht, h => by
      cases sameKind_of_writeOnto_eq h with
      | tuple _ ts =>
          obtain ⟨rfl, hrest⟩ := writeElements_inj true ss ts hs ht (List.append_cancel_left h)
          exact ⟨rfl, (List.cons.inj hrest).2⟩
  | object ss, t, rest, rest', hs, ht, h => by
      cases sameKind_of_writeOnto_eq h with
      | object _ ts =>
          obtain ⟨rfl, hrest⟩ := writeFields_inj true ss ts hs ht
            (List.cons.inj (List.append_cancel_left h)).2
          exact ⟨rfl, (List.cons.inj hrest).2⟩

/-- Elements end at the first bracket that stands in the place of another element. -/
theorem writeElements_inj : ∀ (first : Bool) (ss ts : List ValueType) {rest rest' : List Char},
    (∀ name ∈ elementFieldNames ss, IsDelimited name) →
      (∀ name ∈ elementFieldNames ts, IsDelimited name) →
        writeElements first ss (']' :: rest) = writeElements first ts (']' :: rest') →
          ss = ts ∧ rest = rest'
  | _, [], [], rest, rest', _, _, h => ⟨rfl, (List.cons.inj h).2⟩
  | first, [], t :: ts, rest, rest', _, _, h =>
      absurd h (bracket_ne_writeElements first t ts _ _)
  | first, s :: ss, [], rest, rest', _, _, h =>
      absurd h.symm (bracket_ne_writeElements first s ss _ _)
  | first, s :: ss, t :: ts, rest, rest', hs, ht, h => by
      obtain ⟨hsFirst, hss⟩ := List.forall_mem_append.1 hs
      obtain ⟨htFirst, hts⟩ := List.forall_mem_append.1 ht
      obtain ⟨rfl, helements⟩ := writeOnto_inj s t hsFirst htFirst (List.append_cancel_left h)
      obtain ⟨rfl, hrest⟩ := writeElements_inj false ss ts hss hts helements
      exact ⟨rfl, hrest⟩

/-- Fields end at the first brace that stands in the place of another name. -/
theorem writeFields_inj : ∀ (first : Bool) {lo : Option String}
    (ss ts : Entries String ValueType lo) {rest rest' : List Char},
    (∀ name ∈ entryFieldNames ss, IsDelimited name) →
      (∀ name ∈ entryFieldNames ts, IsDelimited name) →
        writeFields first ss ('\x7d' :: rest) = writeFields first ts ('\x7d' :: rest') →
          ss = ts ∧ rest = rest'
  | _, _, .nil, .nil, rest, rest', _, _, h => ⟨rfl, (List.cons.inj h).2⟩
  | first, _, .nil, .cons name habove t ts, rest, rest', _, ht, h =>
      absurd h (brace_ne_writeFields first habove t ts (List.forall_mem_cons.1 ht).1 _ _)
  | first, _, .cons name habove s ss, .nil, rest, rest', hs, _, h =>
      absurd h.symm (brace_ne_writeFields first habove s ss (List.forall_mem_cons.1 hs).1 _ _)
  | first, _, .cons name _ s ss, .cons name' _ t ts, rest, rest', hs, ht, h => by
      obtain ⟨hname, hparts⟩ := List.forall_mem_cons.1 hs
      obtain ⟨hname', hparts'⟩ := List.forall_mem_cons.1 ht
      obtain ⟨hsFirst, hss⟩ := List.forall_mem_append.1 hparts
      obtain ⟨htFirst, hts⟩ := List.forall_mem_append.1 hparts'
      -- both texts begin with the same separator, so it is the names that come next
      simp only [writeFields, List.append_assoc] at h
      obtain ⟨hnames, hvalue⟩ := Text.sep_append_inj hname.1 hname'.1 (List.append_cancel_left h)
      obtain rfl := String.toList_inj.1 hnames
      obtain ⟨rfl, hfields⟩ := writeOnto_inj s t hsFirst htFirst hvalue
      obtain ⟨rfl, hrest⟩ := writeFields_inj false ss ts hss hts hfields
      exact ⟨rfl, hrest⟩

end

/-- Type expressions are unambiguous: types whose fields have plain names, at every depth, are equal
when their expressions are. -/
theorem eq_of_text_eq {s t : ValueType} (hs : ∀ name ∈ s.fieldNames, isPlainName name = true)
    (ht : ∀ name ∈ t.fieldNames, isPlainName name = true) (h : s.text = t.text) : s = t := by
  have hs' : ∀ name ∈ s.fieldNames, IsDelimited name := fun name hname =>
    isDelimited_of_isPlainName (hs name hname)
  have ht' : ∀ name ∈ t.fieldNames, IsDelimited name := fun name hname =>
    isDelimited_of_isPlainName (ht name hname)
  exact (writeOnto_inj s t hs' ht' (String.ofList_injective h)).1

/-- A set beside the settings of a listener, which have an object among them. -/
def listener : ValueType :=
  tuple [set dynamic, object (.ofList [("port_2", number),
    ("tls-1", object (.ofList [("Cert", list bool), ("key", string)]))])]

/-- The order in which fields are written down makes no other type, however deep they are. -/
theorem eq_of_text_eq_listener :
    listener.fieldNames = ["port_2", "tls-1", "Cert", "key"] ∧
      listener.text = "tuple([set(any), object(\x7bport_2=number, " ++
        "tls-1=object(\x7bCert=list(bool), key=string\x7d)\x7d)])" ∧
      listener = tuple [set dynamic, object (.ofList [("tls-1", object (.ofList [("key", string),
        ("Cert", list bool)])), ("port_2", number)])] :=
  ⟨by decide, by decide, eq_of_text_eq (by decide) (by decide) (by decide)⟩

/-- A name with braces in it can end one object and begin another one. -/
example : (tuple [object .nil, object (.ofList [("b", dynamic)])]).text =
    (tuple [object (.ofList [("\x7d), object(\x7bb", dynamic)])]).text := by
  decide

end ConfigSchema.ValueType
