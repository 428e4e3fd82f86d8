import ConfigSchema.Json.Basic
import ConfigSchema.SortedMap.Lemmas

/-!
Types of configuration values. `dynamic` is any type where a type is declared and an unknown type
where a value is found. Tuples and objects are what brackets and braces denote before conversion to
lists, sets and maps.
-/

namespace ConfigSchema

inductive ValueType
  | dynamic
  | string
  | number
  | bool
  | list (element : ValueType)
  | set (element : ValueType)
  | map (element : ValueType)
  | tuple (elements : List ValueType)
  | object (fields : Entries String ValueType none)

namespace ValueType

instance : Inhabited ValueType := ⟨dynamic⟩

def isDynamic : ValueType → Bool
  | dynamic => true
  | _ => false

/-! Equality of types is decided by comparing them. -/

mutual

def beq : ValueType → ValueType → Bool
  | dynamic, dynamic => true
  | string, string => true
  | number, number => true
  | bool, bool => true
  | list s, list t => s.beq t
  | set s, set t => s.beq t
  | map s, map t => s.beq t
  | tuple ss, tuple ts => beqElements ss ts
  | object ss, object ts => beqFields ss ts
  | _, _ => false

def beqElements : List ValueType → List ValueType → Bool
  | [], [] => true
  | s :: ss, t :: ts => s.beq t && beqElements ss ts
  | _, _ => false

def beqFields {lo lo' : Option String} :
    Entries String ValueType lo → Entries String ValueType lo' → Bool
  | .nil, .nil => true
  | .cons k _ s ss, .cons l _ t ts => k == l && s.beq t && beqFields ss ts
  | _, _ => false

end

mutual

theorem eq_of_beq : ∀ s t : ValueType, s.beq t = true → s = t
  | dynamic, t, h => by cases t <;> simp_all [beq]
  | string, t, h => by cases t <;> simp_all [beq]
  | number, t, h => by cases t <;> simp_all [beq]
  | bool, t, h => by cases t <;> simp_all [beq]
  | list s, t, h => by
    cases t <;> simp only [beq, Bool.false_eq_true] at h
    rw [eq_of_beq s _ h]
  | set s, t, h => by
    cases t <;> simp only [beq, Bool.false_eq_true] at h
    rw [eq_of_beq s _ h]
  | map s, t, h => by
    cases t <;> simp only [beq, Bool.false_eq_true] at h
    rw [eq_of_beq s _ h]
  | tuple ss, t, h => by
    cases t <;> simp only [beq, Bool.false_eq_true] at h
    rw [eq_of_beqElements ss _ h]
  | object ss, t, h => by
    cases t <;> simp only [beq, Bool.false_eq_true] at h
    rw [eq_of_beqFields ss _ h]

theorem eq_of_beqElements : ∀ ss ts : List ValueType, beqElements ss ts = true → ss = ts
  | [], ts, h => by cases ts <;> simp_all [beqElements]
  | s :: ss, ts, h => by
    cases ts with
    | nil => simp [beqElements] at h
    | cons t ts =>
      simp only [beqElements, Bool.and_eq_true] at h
      rw [eq_of_beq s t h.1, eq_of_beqElements ss ts h.2]

theorem eq_of_beqFields {lo : Option String} :
    ∀ ss ts : Entries String ValueType lo, beqFields ss ts = true → ss = ts
  | .nil, ts, h => by cases ts <;> simp_all [beqFields]
  | .cons k _ s ss, ts, h => by
    cases ts with
    | nil => simp [beqFields] at h
    | cons l _ t ts =>
      simp only [beqFields, Bool.and_eq_true, beq_iff_eq] at h
      obtain ⟨⟨rfl, hs⟩, hss⟩ := h
      rw [eq_of_beq s t hs, eq_of_beqFields ss ts hss]

end

mutual

theorem beq_self : ∀ t : ValueType, t.beq t = true
  | dynamic => rfl
  | string => rfl
  | number => rfl
  | bool => rfl
  | list t => by simpa [beq] using beq_self t
  | set t => by simpa [beq] using beq_self t
  | map t => by simpa [beq] using beq_self t
  | tuple ts => by simpa [beq] using beqElements_self ts
  | object ts => by simpa [beq] using beqFields_self ts

theorem beqElements_self : ∀ ts : List ValueType, beqElements ts ts = true
  | [] => rfl
  | t :: ts => by simp [beqElements, beq_self t, beqElements_self ts]

theorem beqFields_self {lo : Option String} :
    ∀ ts : Entries String ValueType lo, beqFields ts ts = true
  | .nil => rfl
  | .cons _ _ t ts => by simp [beqFields, beq_self t, beqFields_self ts]

end

instance : DecidableEq ValueType := fun s t =>
  decidable_of_iff (s.beq t = true) ⟨eq_of_beq s t, fun h => h ▸ beq_self s⟩

/-! The principle of induction, with one hypothesis for all elements or fields. -/

section Induction

variable {P : ValueType → Prop} (dynamic : P dynamic) (string : P string) (number : P number)
  (bool : P bool) (list : ∀ t, P t → P (list t)) (set : ∀ t, P t → P (set t))
  (map : ∀ t, P t → P (map t)) (tuple : ∀ ts, (∀ t ∈ ts, P t) → P (tuple ts))
  (object : ∀ fs, (∀ k t, fs.get? k = some t → P t) → P (object fs))

include dynamic string number bool list set map tuple object

@[elab_as_elim] theorem induct (t : ValueType) : P t := by
  refine ValueType.rec (motive_1 := P) (motive_2 := fun ts => ∀ t ∈ ts, P t)
    (motive_3 := fun _ fs => ∀ k t, fs.get? k = some t → P t)
    dynamic string number bool list set map tuple object ?_ ?_ ?_ ?_ t
  · intro t ht
    cases ht
  · intro s ss hs hss t ht
    rcases List.mem_cons.1 ht with rfl | ht
    · exact hs
    · exact hss t ht
  · intro _ k t h
    simp at h
  · intro _ k hk s ss hs hss l t h
    rw [Entries.get?_cons] at h
    split at h
    · exact Option.some.inj h ▸ hs
    · exact hss l t h

end Induction

/-! The type of a value as it is written: brackets make tuples and braces make objects. Null has no
type of its own. -/

mutual

def ofValue : Json → ValueType
  | .null => dynamic
  | .bool _ => bool
  | .number _ => number
  | .string _ => string
  | .array items => tuple (ofItems items)
  | .object fields => object (ofFields fields)

def ofItems : List Json → List ValueType
  | [] => []
  | j :: js => ofValue j :: ofItems js

def ofFields {lo : Option String} : Entries String Json lo → Entries String ValueType lo
  | .nil => .nil
  | .cons name above j rest => .cons name above (ofValue j) (ofFields rest)

end

theorem ofItems_eq_map (js : List Json) : ofItems js = js.map ofValue := by
  induction js with
  | nil => rfl
  | cons j js ih => simp [ofItems, ih]

theorem ofFields_eq_map {lo : Option String} (fs : Entries String Json lo) :
    ofFields fs = fs.map ofValue := by
  induction fs with
  | nil => rfl
  | cons k h j fs ih => simp [ofFields, Entries.map, ih]

end ValueType

end ConfigSchema
