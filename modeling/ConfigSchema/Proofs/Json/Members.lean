import ConfigSchema.Json.Document
import ConfigSchema.Reference.Form
import Mathlib.Data.List.Induction

/-!
Reading what was written. The members of a written object are looked up by their names, lists and
maps are read element by element, and a reader recovers a value when it gives it back from the
document of the value.
-/

namespace ConfigSchema

namespace Entries

variable {κ α : Type} [Ord κ] [Std.TransOrd κ] [Std.LawfulEqOrd κ] [DecidableEq κ]

/-- Of equal keys the last one counts, wherever the list is cut. -/
theorem get?_ofList_append (ps qs : List (κ × α)) (k : κ) :
    (ofList (ps ++ qs)).get? k = ((ofList qs).get? k).or ((ofList ps).get? k) := by
  induction qs using List.reverseRecOn with
  | nil => simp [ofList]
  | append_singleton qs p ih =>
      have hlast : ∀ ps : List (κ × α), ofList (ps ++ [p]) = (ofList ps).insert p.1 p.2 := by
        intro ps
        rw [ofList, List.foldl_append]
        rfl
      rw [← List.append_assoc, hlast, hlast, get?_insert, get?_insert, ih]
      split <;> rfl

theorem get?_ofList_cons (p : κ × α) (ps : List (κ × α)) (k : κ) :
    (ofList (p :: ps)).get? k =
      ((ofList ps).get? k).or (if p.1 = k then some p.2 else none) := by
  rw [← List.singleton_append, get?_ofList_append]
  rfl

/-- Listing a map and reading the list gives the map back. -/
theorem ofList_toList (m : Entries κ α none) : ofList m.toList = m := by
  have hget : ∀ {lo : Option κ} (m : Entries κ α lo) (k : κ),
      (ofList m.toList).get? k = m.get? k := by
    intro lo m k
    induction m with
    | nil => rfl
    | cons key h v rest ih =>
        rw [toList_cons, get?_ofList_cons, ih, get?_cons]
        split
        next e =>
          -- the key of the first entry is not among the later ones
          subst e
          rw [get?_eq_none_of_not_above (by simp)]
          rfl
        next => rw [Option.or_none]
  exact ext_get? fun k => hget m k

end Entries

namespace Document

theorem values_eq_map (ds : List Document) : values ds = ds.map value := by
  induction ds with
  | nil => rfl
  | cons d ds ih => rw [values, ih, List.map_cons]

theorem memberValues_eq_map (ms : List (String × Document)) :
    memberValues ms = ms.map fun p => (p.1, p.2.value) := by
  induction ms with
  | nil => rfl
  | cons p ms ih => rw [memberValues, ih, List.map_cons]

/-- The fields of the value of an object. -/
def fieldsOf (ms : List (String × Document)) : SortedMap String Json := .ofList (memberValues ms)

theorem value_object (ms : List (String × Document)) :
    (object ms).value = .object (fieldsOf ms) := rfl

@[simp] theorem get?_fieldsOf_nil (name : String) : (fieldsOf []).get? name = none := rfl

@[simp] theorem get?_fieldsOf_cons (key name : String) (d : Document)
    (ms : List (String × Document)) : (fieldsOf ((key, d) :: ms)).get? name =
      ((fieldsOf ms).get? name).or (if key = name then some d.value else none) :=
  Entries.get?_ofList_cons _ _ _

@[simp] theorem get?_fieldsOf_append (ms ns : List (String × Document)) (name : String) :
    (fieldsOf (ms ++ ns)).get? name = ((fieldsOf ns).get? name).or ((fieldsOf ms).get? name) := by
  rw [fieldsOf, memberValues_eq_map, List.map_append, Entries.get?_ofList_append,
    ← memberValues_eq_map, ← memberValues_eq_map]
  rfl

@[simp] theorem get?_fieldsOf_memberIf {α : Type} (key name : String) (document : α → Document)
    (a : Option α) : (fieldsOf (memberIf key document a)).get? name =
      if key = name then a.map fun a => (document a).value else none := by
  cases a with
  | none => simp [memberIf]
  | some a => simp [memberIf]

@[simp] theorem value_string (s : String) : (string s).value = .string s := rfl

@[simp] theorem value_bool (b : Bool) : (bool b).value = .bool b := rfl

@[simp] theorem value_ofWord (n : UInt64) : (ofWord n).value = .ofWord n := rfl

theorem value_tagged (name : String) (d : Document) :
    (tagged name d).value = .object (.cons name .absent d.value .nil) := rfl

/-- The members of a map are the map of their values. -/
theorem value_object_documentsOf {α : Type} (m : SortedMap String α) (document : α → Document) :
    (object (m.documentsOf document)).value = .object (m.map fun a => (document a).value) := by
  have hmembers : memberValues (m.documentsOf document) =
      (m.map fun a => (document a).value).toList := by
    rw [memberValues_eq_map, Entries.documentsOf, List.map_map, Entries.toList_map]
    rfl
  rw [value, hmembers, Entries.ofList_toList]

end Document

/-- The reader gives the value back from its document. -/
def Recovers {α : Type} (read : Json → Option α) (document : α → Document) (a : α) : Prop :=
  read (document a).value = some a

section Recovers

variable {α : Type} {read : Json → Option α} {document : α → Document}

theorem mapM_of_recovers {as : List α} (h : ∀ a ∈ as, Recovers read document a) :
    (as.map fun a => (document a).value).mapM read = some as := by
  induction as with
  | nil => rfl
  | cons a as ih =>
      have ha : read (document a).value = some a := h a List.mem_cons_self
      rw [List.map_cons, List.mapM_cons, ha, ih fun b hb => h b (List.mem_cons_of_mem a hb)]
      rfl

theorem mapM?_of_recovers {m : SortedMap String α}
    (h : ∀ name a, m.get? name = some a → Recovers read document a) :
    (m.map fun a => (document a).value).mapM? read = some m := by
  rw [Entries.mapM?_eq_some_iff]
  refine Entries.ext_get? fun name => ?_
  rw [Entries.get?_map, Entries.get?_map, Entries.get?_map]
  cases ha : m.get? name with
  | none => rfl
  | some a => exact congrArg some (h name a ha)

theorem recovers_list {as : List α} (h : ∀ a ∈ as, Recovers read document a) :
    Recovers (Json.listOf? read) (fun as => .array (as.map document)) as := by
  rw [Recovers, Document.value, Document.values_eq_map, List.map_map]
  exact mapM_of_recovers h

theorem recovers_map {m : SortedMap String α}
    (h : ∀ name a, m.get? name = some a → Recovers read document a) :
    Recovers (Json.mapOf? read) (fun m => .object (m.documentsOf document)) m := by
  rw [Recovers, Document.value_object_documentsOf]
  exact mapM?_of_recovers h

variable {ms : List (String × Document)} {name : String} (document)

theorem required?_of_recovers {a : α}
    (hmember : (Document.fieldsOf ms).get? name = some (document a).value)
    (h : Recovers read document a) : (Document.fieldsOf ms).required? name read = some a := by
  rw [Entries.required?, hmember]
  exact h

/-- A member may be left out when it would hold what the reader supplies. -/
theorem optional?_of_recovers {a default : α} {p : Prop} [Decidable p]
    (hmember : (Document.fieldsOf ms).get? name = if p then none else some (document a).value)
    (hdefault : p → a = default) (h : Recovers read document a) :
    (Document.fieldsOf ms).optional? name default read = some a := by
  rw [Entries.optional?, hmember]
  split
  next e =>
    split at e
    next hp => rw [hdefault hp]
    next => cases e
  next e =>
    split at e
    next => cases e
    next =>
      cases e
      exact h

/-- A member that is left out without a value is read as absent, and otherwise as its value, which
must not be written as null. -/
theorem nullable?_of_recovers {a : Option α}
    (hmember : (Document.fieldsOf ms).get? name = a.map fun a => (document a).value)
    (hnull : ∀ a, (document a).value ≠ .null) (h : ∀ a, Recovers read document a) :
    (Document.fieldsOf ms).nullable? name read = some a := by
  rw [Entries.nullable?, Entries.optional?, hmember]
  cases a with
  | none => rfl
  | some a =>
      have hread : read (document a).value = some a := h a
      have hvalue : Json.nullable? read (document a).value =
          (read (document a).value).map some := by
        have hne := hnull a
        cases hj : (document a).value with
        | null => exact absurd hj hne
        | _ => rfl
      rw [Option.map_some]
      exact hvalue.trans (by rw [hread]; rfl)

end Recovers

end ConfigSchema
