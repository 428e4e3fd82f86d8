import Mathlib.Data.List.Forall2
import ConfigSchema.Constraint.Match
import ConfigSchema.SortedMap.Lemmas

/-!
What each constraint accepts, in terms of the sets nested in it, and what follows when these sets
are replaced by sets that accept at least as much.
-/

namespace ConfigSchema

section Forall₂

variable {α β : Type} {R : α → β → Prop} {as : List α} {bs : List β}

theorem forall₂_iff_getElem? : List.Forall₂ R as bs ↔ as.length = bs.length ∧
    ∀ (i : Nat) a b, as[i]? = some a → bs[i]? = some b → R a b := by
  rw [List.forall₂_iff_zip]
  refine and_congr_right fun _ => ⟨fun h i a b ha hb => ?_, fun h {a b} hab => ?_⟩
  · exact h (List.mem_iff_getElem?.2 ⟨i, List.getElem?_zip_eq_some.2 ⟨ha, hb⟩⟩)
  · obtain ⟨i, hi⟩ := List.mem_iff_getElem?.1 hab
    obtain ⟨ha, hb⟩ := List.getElem?_zip_eq_some.1 hi
    exact h i a b ha hb

theorem exists_mem_of_forall₂ (h : List.Forall₂ R as bs) {a : α} (ha : a ∈ as) :
    ∃ b ∈ bs, R a b := by
  induction h with
  | nil => cases ha
  | @cons c b _ bs hcb _ ih =>
      rcases List.mem_cons.1 ha with rfl | ha
      · exact ⟨b, List.mem_cons_self, hcb⟩
      · obtain ⟨b', hb', hab'⟩ := ih ha
        exact ⟨b', List.mem_cons_of_mem b hb', hab'⟩

end Forall₂

/-- Every candidate that satisfies the first set satisfies the second one. -/
def ConstraintSet.Within (vs ws : ConstraintSet) : Prop :=
  ∀ c, vs.isSatisfiedBy c = true → ws.isSatisfiedBy c = true

/-- Every candidate that the first constraint accepts is accepted by the second one. -/
def Constraint.Within (v w : Constraint) : Prop :=
  ∀ c, v.accepts c = true → w.accepts c = true

namespace ConstraintSet

theorem Within.refl (vs : ConstraintSet) : vs.Within vs := fun _ h => h

instance : Std.Refl Within := ⟨Within.refl⟩

theorem Within.trans {us vs ws : ConstraintSet} (h : us.Within vs) (h' : vs.Within ws) :
    us.Within ws := fun c hc => h' c (h c hc)

/-- A set lies within another one when each of its alternatives has a wider one there. -/
theorem within_of_alternatives {vs ws : ConstraintSet}
    (h : ∀ v ∈ vs, ∃ w ∈ ws, v.Within w) : vs.Within ws := by
  intro c hc
  obtain ⟨v, hv, hvc⟩ := isSatisfiedBy_iff.1 hc
  obtain ⟨w, hw, hvw⟩ := h v hv
  exact isSatisfiedBy_iff.2 ⟨w, hw, hvw c hvc⟩

theorem within_of_subset {vs ws : ConstraintSet} (h : ∀ v ∈ vs, v ∈ ws) : vs.Within ws :=
  within_of_alternatives fun v hv => ⟨v, h v hv, fun _ hc => hc⟩

end ConstraintSet

namespace Candidate

/-- What a tuple constraint of any length judges: the items, or the element type of a literal list
or set. -/
def elements? : Candidate → Option (List Candidate)
  | literal (.list t) => some [literal t]
  | literal (.set t) => some [literal t]
  | c => c.items?

/-- What a map constraint judges: the entries, or the types of a literal map. -/
def pairs? : Candidate → Option (List (Candidate × Candidate))
  | literal (.map t) => some [(literal .string, literal t)]
  | c => c.entries?

theorem elements?_of_items? {c : Candidate} {cs : List Candidate} (h : c.items? = some cs) :
    c.elements? = some cs := by
  cases c with
  | literal t => cases t <;> simp_all [items?, elements?]
  | _ => simp_all [items?, elements?]

end Candidate

namespace Constraint

theorem positionsAccept_iff {vss : List (List Constraint)} {cs : List Candidate} :
    positionsAccept vss cs = true ↔
      List.Forall₂ (fun vs c => ConstraintSet.isSatisfiedBy vs c = true) vss cs := by
  induction vss generalizing cs with
  | nil => cases cs <;> simp [positionsAccept]
  | cons vs vss ih =>
      cases cs with
      | nil => simp [positionsAccept]
      | cons c cs => simp [positionsAccept, ih, ConstraintSet.isSatisfiedBy]

theorem attributesAccept_iff {present : SortedMap String Candidate} {lo : Option String}
    {fs : Entries String (ObjectAttribute (List Constraint)) lo} :
    attributesAccept present fs = true ↔ ∀ name a, fs.get? name = some a →
      (∀ c, present.get? name = some c → ConstraintSet.isSatisfiedBy a.constraints c = true) ∧
        (present.get? name = none → a.isOptional = true) := by
  induction fs with
  | nil => simp [attributesAccept]
  | cons key hk a rest ih =>
      obtain ⟨vs, isOptional⟩ := a
      rw [attributesAccept, Bool.and_eq_true, ih, Entries.forall_get?_cons]
      refine and_congr_left' ?_
      cases present.get? key <;> simp [ConstraintSet.isSatisfiedBy]

theorem accepts_uniform_iff {vs : List Constraint} {c : Candidate} :
    (uniform vs).accepts c = true ↔ c.isDynamicLiteral = true ∨
      ∃ cs, c.elements? = some cs ∧ ∀ x ∈ cs, ConstraintSet.isSatisfiedBy vs x = true := by
  cases c with
  | literal t =>
      cases t <;> simp [accepts, Candidate.elements?, Candidate.items?, ConstraintSet.isSatisfiedBy]
  | _ => simp [accepts, Candidate.elements?, Candidate.items?, ConstraintSet.isSatisfiedBy]

theorem accepts_positional_iff {vss : List (List Constraint)} {c : Candidate} :
    (positional vss).accepts c = true ↔ c.isDynamicLiteral = true ∨
      ∃ cs, c.items? = some cs ∧
        List.Forall₂ (fun vs x => ConstraintSet.isSatisfiedBy vs x = true) vss cs := by
  rw [accepts, Bool.or_eq_true]
  cases c.items? <;> simp [positionsAccept_iff]

theorem accepts_map_iff {ks vs : List Constraint} {c : Candidate} :
    (map ks vs).accepts c = true ↔ c.isDynamicLiteral = true ∨
      ∃ es, c.pairs? = some es ∧ ∀ e ∈ es, ConstraintSet.isSatisfiedBy ks e.1 = true ∧
        ConstraintSet.isSatisfiedBy vs e.2 = true := by
  cases c with
  | literal t =>
      cases t <;> simp [-Prod.forall, accepts, Candidate.pairs?, Candidate.entries?,
        ConstraintSet.isSatisfiedBy]
  | _ =>
      simp [-Prod.forall, accepts, Candidate.pairs?, Candidate.entries?,
        ConstraintSet.isSatisfiedBy]

/-- An object constraint asks for the attributes that are not optional, checks the listed ones
that are there, and admits others only when it is open. -/
theorem accepts_object_iff {fs : Entries String (ObjectAttribute (List Constraint)) none}
    {isOpen : Bool} {c : Candidate} :
    (object fs isOpen).accepts c = true ↔ c.isDynamicLiteral = true ∨ ∃ present,
      c.fields? = some present ∧
      (∀ name a, fs.get? name = some a → a.isOptional = false → ∃ x, present.get? name = some x) ∧
      (∀ name a x, fs.get? name = some a → present.get? name = some x →
        ConstraintSet.isSatisfiedBy a.constraints x = true) ∧
      ∀ name x, present.get? name = some x → fs.get? name = none → isOpen = true := by
  rw [accepts, Bool.or_eq_true]
  refine or_congr_right ?_
  cases c.fields? with
  | none => simp
  | some present =>
      simp only [Option.some.injEq, exists_eq_left', Bool.and_eq_true, attributesAccept_iff,
        Bool.or_eq_true, List.all_eq_true, Entries.mem_keys_iff, Entries.contains_iff]
      constructor
      · rintro ⟨hlisted, hother⟩
        refine ⟨fun name a ha ho => ?_, fun name a x ha hx => (hlisted name a ha).1 x hx,
          fun name x hx hn => ?_⟩
        · cases hp : present.get? name with
          | some x => exact ⟨x, rfl⟩
          | none => simp [(hlisted name a ha).2 hp] at ho
        · rcases hother with h | h
          · exact h
          · obtain ⟨a, ha⟩ := h name ⟨x, hx⟩
            simp [hn] at ha
      · rintro ⟨hrequired, hlisted, hother⟩
        refine ⟨fun name a ha => ⟨fun x hx => hlisted name a x ha hx, fun hp => ?_⟩, ?_⟩
        · by_contra ho
          obtain ⟨x, hx⟩ := hrequired name a ha (by simpa using ho)
          simp [hp] at hx
        · by_cases ho : isOpen = true
          · exact .inl ho
          · refine .inr fun name hname => ?_
            obtain ⟨x, hx⟩ := hname
            cases hf : fs.get? name with
            | some a => exact ⟨a, rfl⟩
            | none => exact absurd (hother name x hx hf) ho

section Within

variable {vs ws ks ls : ConstraintSet} {vss wss : List ConstraintSet}

theorem uniform_within (h : vs.Within ws) : (uniform vs).Within (uniform ws) := by
  intro c hc
  rw [accepts_uniform_iff] at hc ⊢
  exact hc.imp_right fun ⟨cs, hcs, hall⟩ => ⟨cs, hcs, fun x hx => h x (hall x hx)⟩

theorem positional_within (h : List.Forall₂ ConstraintSet.Within vss wss) :
    (positional vss).Within (positional wss) := by
  intro c hc
  rcases accepts_positional_iff.1 hc with hd | ⟨cs, hcs, hall⟩
  · exact accepts_positional_iff.2 (.inl hd)
  refine accepts_positional_iff.2 (.inr ⟨cs, hcs, ?_⟩)
  clear hc hcs
  induction h generalizing cs with
  | nil => exact hall
  | cons hvw _ ih =>
      cases hall with
      | cons hv hvs => exact .cons (hvw _ hv) (ih _ hvs)

/-- Literals of list and set types have no positions, so only items are at stake. -/
theorem positional_within_uniform (h : ∀ vs ∈ vss, vs.Within ws) :
    (positional vss).Within (uniform ws) := by
  intro c hc
  rcases accepts_positional_iff.1 hc with hd | ⟨cs, hcs, hall⟩
  · exact accepts_uniform_iff.2 (.inl hd)
  refine accepts_uniform_iff.2 (.inr ⟨cs, Candidate.elements?_of_items? hcs, ?_⟩)
  clear hc hcs
  induction hall with
  | nil => simp
  | cons hv _ ih =>
      simp only [List.mem_cons, forall_eq_or_imp] at h ⊢
      exact ⟨h.1 _ hv, ih h.2⟩

theorem map_within (hk : ks.Within ls) (hv : vs.Within ws) : (map ks vs).Within (map ls ws) := by
  intro c hc
  rw [accepts_map_iff] at hc ⊢
  exact hc.imp_right fun ⟨es, hes, hall⟩ =>
    ⟨es, hes, fun e he => ⟨hk _ (hall e he).1, hv _ (hall e he).2⟩⟩

/-- The second object constraint asks for no other attributes, checks the listed ones less
strictly, and is open where the first one admits what the second does not list. -/
theorem object_within {fs gs : Entries String (ObjectAttribute (List Constraint)) none}
    {o p : Bool}
    (hrequired : ∀ name b, gs.get? name = some b → b.isOptional = false →
      ∃ a, fs.get? name = some a ∧ a.isOptional = false)
    (hlisted : ∀ name a b, fs.get? name = some a → gs.get? name = some b →
      ConstraintSet.Within a.constraints b.constraints)
    (hdropped : ∀ name a, fs.get? name = some a → gs.get? name = none → p = true)
    (hopen : o = true → p = true ∧ ∀ name b, gs.get? name = some b →
      ∃ a, fs.get? name = some a) :
    (object fs o).Within (object gs p) := by
  intro c hc
  rw [accepts_object_iff] at hc ⊢
  refine hc.imp_right fun ⟨present, hc, hreq, hlist, hother⟩ =>
    ⟨present, hc, fun name b hb ho => ?_, fun name b x hb hx => ?_, fun name x hx hn => ?_⟩
  · obtain ⟨a, ha, hao⟩ := hrequired name b hb ho
    exact hreq name a ha hao
  · cases ha : fs.get? name with
    | some a => exact hlisted name a b ha hb x (hlist name a x ha hx)
    | none =>
        -- only an open constraint admits the attribute, and then it lists all that the second does
        obtain ⟨a, ha'⟩ := (hopen (hother name x hx ha)).2 name b hb
        simp [ha] at ha'
  · cases ha : fs.get? name with
    | some a => exact hdropped name a ha hn
    | none => exact (hopen (hother name x hx ha)).1

end Within

end Constraint

end ConfigSchema
