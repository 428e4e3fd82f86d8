import ConfigSchema.Proofs.Address.Failures
import Mathlib.Order.Bounds.Basic

/-!
How many labels a template needs. The number is a word of 64 bits, and one more than the last index
of all is none. Main statement: `Address.requiredLabels_exact_iff`. Unless the label at that index is
read, the number is the least one that suffices, and what is reported on a missing label is exact;
otherwise the program stops on every missing label.
-/

namespace ConfigSchema.Address

/-- A block with as many labels has every label that the template reads. -/
def Suffices (address : Address) (n : Nat) : Prop :=
  ∀ b : BlockInstance, b.labels.length = n →
    ∀ i, .label i ∈ address → b.labels[i.toNat]?.isSome = true

/-- Resolving the template comes to a step that reads a label which the block does not have. -/
def LacksLabel (address : Address) (b : BlockInstance) (name : Option String) : Prop :=
  ∃ before i after, address = before ++ .label i :: after ∧
    (∃ p, resolve before b name = .ok p) ∧ b.labels.length ≤ i.toNat

variable {address : Address} {b : BlockInstance} {name : Option String}

theorem suffices_iff {n : Nat} :
    address.Suffices n ↔ ∀ i, .label i ∈ address → i.toNat < n := by
  constructor
  · intro h i hi
    have hfound := h ⟨"", List.replicate n "", .nil⟩ (List.length_replicate ..) i hi
    simpa using hfound
  · rintro h b rfl i hi
    simpa using h i hi

theorem isLeast_suffices {needed : UInt64} (h : address.requiredLabels = some needed) :
    IsLeast {n | address.Suffices n} needed.toNat :=
  ⟨suffices_iff.2 ((requiredLabels_le_iff h).1 (Nat.le_refl _)),
    fun _ hn => (requiredLabels_le_iff h).2 (suffices_iff.1 hn)⟩

theorem exists_requiredLabels_iff :
    (∃ needed, address.requiredLabels = some needed) ↔ .label lastIndex ∉ address := by
  rw [← requiredLabels_eq_none_iff, ← Option.ne_none_iff_exists']

/-- What is reported on a missing label: how many are needed, if there is such a number. -/
theorem resolve_of_lacksLabel (h : address.LacksLabel b name) :
    address.resolve b name = .error (match address.requiredLabels with
      | some needed => .tooFewLabels needed (UInt64.ofNat b.labels.length)
      | none => .overflow) := by
  obtain ⟨before, i, after, hsplit, hbefore, hi⟩ := h
  refine resolve_eq_error_iff.2 ⟨before, .label i, after, hsplit, hbefore, ?_⟩
  cases hneeded : address.requiredLabels with
  | some needed => exact .tooFewLabels hi rfl
  | none => exact .overflow hi rfl

theorem lacksLabel_of_tooFewLabels {needed found : UInt64}
    (h : address.resolve b name = .error (.tooFewLabels needed found)) :
    address.LacksLabel b name := by
  obtain ⟨before, step, after, hsplit, hbefore, hfails⟩ := resolve_eq_error_iff.1 h
  cases hfails with
  | tooFewLabels hi => exact ⟨before, _, after, hsplit, hbefore, hi⟩

/-- The program stops just when it comes to a missing label of a template that reads the last label
of all. -/
theorem resolve_eq_overflow_iff : address.resolve b name = .error .overflow ↔
    address.LacksLabel b name ∧ .label lastIndex ∈ address := by
  rw [← requiredLabels_eq_none_iff]
  constructor
  · intro h
    obtain ⟨before, step, after, hsplit, hbefore, hfails⟩ := resolve_eq_error_iff.1 h
    cases hfails with
    | overflow hi hneeded => exact ⟨⟨before, _, after, hsplit, hbefore, hi⟩, hneeded⟩
  · rintro ⟨hlacks, hneeded⟩
    rw [resolve_of_lacksLabel hlacks, hneeded]

theorem exists_resolve_eq_tooFewLabels_iff :
    (∃ needed found, address.resolve b name = .error (.tooFewLabels needed found)) ↔
      address.LacksLabel b name ∧ .label lastIndex ∉ address := by
  rw [← exists_requiredLabels_iff]
  constructor
  · rintro ⟨needed, found, h⟩
    exact ⟨lacksLabel_of_tooFewLabels h, needed, (exists_label_of_tooFewLabels h).1⟩
  · rintro ⟨hlacks, needed, hneeded⟩
    exact ⟨needed, _, by rw [resolve_of_lacksLabel hlacks, hneeded]⟩

/-- Exactly if no step reads the label at the last index, there is a number of needed labels, and it
is the least one with which no step lacks its label. It is then that a missing label is reported: with
the number of labels that there are, and a larger number of needed ones. Otherwise the program stops
on it. -/
theorem requiredLabels_exact_iff (address : Address) :
    ((∃ needed, address.requiredLabels = some needed ∧
        IsLeast {n | address.Suffices n} needed.toNat) ↔ .label lastIndex ∉ address) ∧
      (address.requiredLabels = none ↔ .label lastIndex ∈ address) ∧
      ∀ (b : BlockInstance) (name : Option String),
        ((∃ needed found, address.resolve b name = .error (.tooFewLabels needed found)) ↔
          address.LacksLabel b name ∧ .label lastIndex ∉ address) ∧
        (address.resolve b name = .error .overflow ↔
          address.LacksLabel b name ∧ .label lastIndex ∈ address) ∧
        ∀ needed found, address.resolve b name = .error (.tooFewLabels needed found) →
          found.toNat = b.labels.length ∧ found < needed ∧ address.requiredLabels = some needed := by
  refine ⟨?_, requiredLabels_eq_none_iff, fun b name => ⟨exists_resolve_eq_tooFewLabels_iff,
    resolve_eq_overflow_iff, fun needed found h => ?_⟩⟩
  · rw [← exists_requiredLabels_iff]
    exact exists_congr fun needed => and_iff_left_of_imp isLeast_suffices
  · obtain ⟨hneeded, hfound, i, hi, hmissing⟩ := exists_label_of_tooFewLabels h
    have hlarger : i.toNat < needed.toNat :=
      suffices_iff.1 (isLeast_suffices hneeded).1 i hi
    refine ⟨hfound, ?_, hneeded⟩
    rw [UInt64.lt_iff_toNat_lt, hfound]
    exact Nat.lt_of_le_of_lt hmissing hlarger

/-- A template of two labels that are not next to each other. -/
def farLabels : Address := [.label 0, .label 3]

theorem requiredLabels_exact_farLabels :
    farLabels.resolve ((BlockInstance.bare "disk").withLabel "data") none =
        .error (.tooFewLabels 4 1) ∧
      UInt64.toNat 1 = ((BlockInstance.bare "disk").withLabel "data").labels.length ∧
      (1 : UInt64) < 4 ∧ farLabels.requiredLabels = some 4 := by
  have hresolve : farLabels.resolve ((BlockInstance.bare "disk").withLabel "data") none =
      .error (.tooFewLabels 4 1) := by decide
  obtain ⟨-, -, hreported⟩ := requiredLabels_exact_iff farLabels
  obtain ⟨-, -, hexact⟩ := hreported ((BlockInstance.bare "disk").withLabel "data") none
  exact ⟨hresolve, hexact 4 1 hresolve⟩

/-- For a template that reads nothing but the label at the last index there is no number of needed
labels, though there is a least number that suffices, and the program stops on a block without the
label. -/
theorem requiredLabels_lastIndex :
    requiredLabels [.label lastIndex] = none ∧
      IsLeast {n | Suffices [.label lastIndex] n} UInt64.size ∧
      resolve [.label lastIndex] (.bare "disk") none = .error .overflow := by
  have hsuffices : ∀ n, Suffices [.label lastIndex] n ↔ lastIndex.toNat < n := fun n => by
    simp [suffices_iff]
  have hlast : lastIndex.toNat + 1 = UInt64.size := rfl
  refine ⟨by decide, ⟨(hsuffices _).2 ?_, fun n hn => ?_⟩, by decide⟩
  · omega
  · have hlt := (hsuffices n).1 hn
    omega

end ConfigSchema.Address
