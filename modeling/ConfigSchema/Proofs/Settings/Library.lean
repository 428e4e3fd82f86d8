import ConfigSchema.Proofs.Settings.Layer
import ConfigSchema.Settings.Standard

/-!
What is promised of a library for layered settings, as far as the default version depends on it. How
files are read is left open, and so is the order of what the environment gives. Main statement:
`SettingLibrary.keepsPromises_standard`.
-/

namespace ConfigSchema

namespace Environment

open SettingValue (lowerName)

/-- The text is that of a truth value, in letters of any case. -/
def IsTruth (text : String) (b : Bool) : Prop := lowerName text = if b then "true" else "false"

/-- A text is tried as a truth value, then as an integer, then as a floating-point number, and kept
as it is when it is none of them. -/
inductive ReadAs (text : String) : SettingValue → Prop
  | truth {b : Bool} : IsTruth text b → ReadAs text (.bool b)
  | integer {n : Int} : (∀ b, ¬IsTruth text b) → integer? text.toList = some n →
    ReadAs text (.integer n)
  | double {x : ExtendedDouble} : (∀ b, ¬IsTruth text b) → integer? text.toList = none →
    ExtendedDouble.ofText? text.toList = some x → ReadAs text (.double x)
  | text : (∀ b, ¬IsTruth text b) → integer? text.toList = none →
    ExtendedDouble.ofText? text.toList = none → ReadAs text (.string text)

theorem ReadAs.ne_table {text : String} {w : SettingValue} (h : ReadAs text w)
    (fields : SortedMap String SettingValue) : w ≠ .table fields := by
  rintro rfl
  cases h

theorem value_of_isTruth {text : String} {b : Bool} (h : IsTruth text b) :
    value text = .bool b := by
  unfold IsTruth at h
  cases b <;> simp [value, h]

theorem value_of_not_isTruth {text : String} (h : ∀ b, ¬IsTruth text b) : value text =
    match integer? text.toList with
    | some n => .integer n
    | none => (ExtendedDouble.ofText? text.toList).elim (.string text) .double := by
  have htrue : lowerName text ≠ "true" := h true
  have hfalse : lowerName text ≠ "false" := h false
  simp only [value, htrue, hfalse, if_false]
  cases integer? text.toList with
  | some n => rfl
  | none => cases ExtendedDouble.ofText? text.toList <;> rfl

theorem ReadAs.value_eq {text : String} {w : SettingValue} (h : ReadAs text w) :
    value text = w := by
  cases h with
  | truth h => exact value_of_isTruth h
  | integer h hn => rw [value_of_not_isTruth h, hn]
  | double h hn hx => simp [value_of_not_isTruth h, hn, hx]
  | text h hn hx => simp [value_of_not_isTruth h, hn, hx]

theorem readAs_value (text : String) : ReadAs text (value text) := by
  by_cases h : ∃ b, IsTruth text b
  · obtain ⟨b, hb⟩ := h
    rw [value_of_isTruth hb]
    exact .truth hb
  · rw [not_exists] at h
    rw [value_of_not_isTruth h]
    cases hn : integer? text.toList with
    | some n => exact .integer h hn
    | none =>
        cases hx : ExtendedDouble.ofText? text.toList with
        | some x => exact .double h hn hx
        | none => exact .text h hn hx

end Environment

open Environment (steps? ReadAs)
open SettingLayer (Sets Holds AgreeOutside)

/-- The promises of a library for layered settings. -/
structure SettingLibrary.KeepsPromises (l : SettingLibrary) : Prop where
  /-- Every variable whose name has the prefix sets the place for which its name stands. -/
  variables_set : ∀ entries, ∀ q ∈ entries, ∀ steps, steps? q.1 = some steps →
    ∃ w, (steps, w) ∈ l.environment entries
  /-- What the environment sets comes from such a variable, and has the value as which its text is
  read. -/
  set_by_variables : ∀ entries, ∀ p ∈ l.environment entries,
    ∃ q ∈ entries, steps? q.1 = some p.1 ∧ ReadAs q.2 p.2
  /-- The highest layer wins. -/
  highest_wins : ∀ (lower : List SettingLayer) (top : SettingLayer) (group name : String)
    (w : SettingValue), Sets group name w top → Holds group name w (l.merge (lower ++ [top]))
  /-- What sets a setting makes no difference to the others. -/
  others_stay : ∀ (lower : List SettingLayer) (top : SettingLayer) (group name : String)
    (w : SettingValue), Sets group name w top →
      AgreeOutside group name (l.merge (lower ++ [top.elsewhere group name]))
        (l.merge (lower ++ [top]))
  /-- A text is converted to itself. -/
  text_string : ∀ text, l.text? (.string text) = some text
  /-- A number is converted to its shortest digits. -/
  text_double : ∀ x, l.text? (.double x) = some (String.ofList x.text)

namespace SettingLayer

theorem merge_append (lower : List SettingLayer) (top : SettingLayer) :
    merge (lower ++ [top]) = top.applyTo (merge lower) := List.foldl_append ..

end SettingLayer

/-- The library that the program comes with keeps the promises. -/
theorem SettingLibrary.keepsPromises_standard : standard.KeepsPromises where
  variables_set entries q hq steps hsteps :=
    ⟨_, List.mem_filterMap.2 ⟨q, hq, by rw [hsteps]; rfl⟩⟩
  set_by_variables entries p hp := by
    obtain ⟨q, hq, hlayer⟩ := List.mem_filterMap.1 hp
    obtain ⟨steps, hsteps, rfl⟩ := Option.map_eq_some_iff.1 hlayer
    exact ⟨q, hq, hsteps, Environment.readAs_value q.2⟩
  highest_wins lower top group name w h := by
    simp only [standard, SettingLayer.merge_append]
    exact h.holds_applyTo _
  others_stay lower top group name w h := by
    simp only [standard, SettingLayer.merge_append]
    exact h.agreeOutside_applyTo _
  text_string _ := rfl
  text_double _ := rfl

end ConfigSchema
