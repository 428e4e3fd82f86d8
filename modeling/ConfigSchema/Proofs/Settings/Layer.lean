import ConfigSchema.Settings.Layer
import ConfigSchema.SortedMap.Lemmas

/-!
A setting in a group while later values are laid over it. A value behind steps that lead elsewhere
changes neither the setting nor what else depends on whether the setting is there. Main statements:
`SettingLayer.Sets.holds_applyTo` and `SettingLayer.Sets.agreeOutside_applyTo`, what a layer does
that sets the setting.
-/

namespace ConfigSchema

/-- A value that is no table takes the place of any other. -/
theorem SettingValue.layered_of_ne_table {w : SettingValue} (h : ∀ fields, w ≠ .table fields)
    (old : Option SettingValue) : layered old w = w := by
  cases w with
  | table fields => exact absurd rfl (h fields)
  | string | integer | double | bool | array | blank => rfl

/-- The steps lead to another place than the setting, and not to its whole group. -/
def SettingStep.leadsAway (group name : String) : List SettingStep → Bool
  | .field g :: .field n :: _ =>
    SettingValue.lowerName g ≠ group || SettingValue.lowerName n ≠ name
  | .field g :: _ => SettingValue.lowerName g ≠ group
  | _ => false

namespace SettingLayer

open SettingStep (leadsAway)
open SettingValue (lowerName)

/-- The fields after a value has been put behind some steps. -/
def putFields (m : SortedMap String SettingValue) (steps : List SettingStep) (v : SettingValue) :
    SortedMap String SettingValue :=
  (SettingValue.put v steps (some (.table m))).fields

/-- The fields of a group. A value that is no table has none. -/
def groupFields (m : SortedMap String SettingValue) (group : String) :
    SortedMap String SettingValue :=
  ((m.get? group).getD .blank).fields

/-- The group is a table in which the setting has the value. -/
def Holds (group name : String) (w : SettingValue) (m : SortedMap String SettingValue) : Prop :=
  ∃ fields, m.get? group = some (.table fields) ∧ fields.get? name = some w

/-- What a layer holds that leads away from a setting. -/
def elsewhere (group name : String) (layer : SettingLayer) : SettingLayer :=
  layer.filter fun p => leadsAway group name p.1

/-- The layer sets the setting, whose names are in lower case, to the value, which is no table, and
nothing else in it leads there. -/
structure Sets (group name : String) (w : SettingValue) (layer : SettingLayer) : Prop where
  mem : ([.field group, .field name], w) ∈ layer
  only : ∀ p ∈ layer, p = ([.field group, .field name], w) ∨ leadsAway group name p.1 = true
  notTable : ∀ fields, w ≠ .table fields
  lowerGroup : lowerName group = group
  lowerName : lowerName name = name

/-- All settings but one are the same. -/
structure AgreeOutside (group name : String) (m m' : SortedMap String SettingValue) : Prop where
  groups : ∀ g, g ≠ group → m.get? g = m'.get? g
  names : ∀ n, n ≠ name → (groupFields m group).get? n = (groupFields m' group).get? n

theorem AgreeOutside.refl {group name : String} (m : SortedMap String SettingValue) :
    AgreeOutside group name m m :=
  ⟨fun _ _ => rfl, fun _ _ => rfl⟩

theorem AgreeOutside.trans {group name : String} {m m' m'' : SortedMap String SettingValue}
    (h : AgreeOutside group name m m') (h' : AgreeOutside group name m' m'') :
    AgreeOutside group name m m'' :=
  ⟨fun g hg => (h.groups g hg).trans (h'.groups g hg),
    fun n hn => (h.names n hn).trans (h'.names n hn)⟩

theorem putFields_field (m : SortedMap String SettingValue) (g : String) (rest : List SettingStep)
    (v : SettingValue) : putFields m (.field g :: rest) v =
      m.insert (lowerName g) (SettingValue.put v rest (m.get? (lowerName g))) := rfl

theorem putFields_group (m : SortedMap String SettingValue) (g n : String)
    (rest : List SettingStep) (v : SettingValue) :
    putFields m (.field g :: .field n :: rest) v =
      m.insert (lowerName g) (.table ((groupFields m (lowerName g)).insert (lowerName n)
        (SettingValue.put v rest ((groupFields m (lowerName g)).get? (lowerName n))))) := rfl

theorem groupFields_insert_self (m fields : SortedMap String SettingValue) (g : String) :
    groupFields (m.insert g (.table fields)) g = fields := by
  rw [groupFields, Entries.get?_insert_self]
  rfl

theorem groupFields_insert_of_ne (m : SortedMap String SettingValue) {g group : String}
    (h : g ≠ group) (v : SettingValue) : groupFields (m.insert g v) group = groupFields m group := by
  rw [groupFields, Entries.get?_insert_of_ne _ h, groupFields]

section Setting

variable {group name : String} {steps : List SettingStep} {v w : SettingValue}
  {m m' : SortedMap String SettingValue}

/-- Steps that lead away enter another group or, in the group, another name. -/
theorem leadsAway_cases (h : leadsAway group name steps = true) :
    (∃ g rest, steps = .field g :: rest ∧ lowerName g ≠ group) ∨
      ∃ g n rest, steps = .field g :: .field n :: rest ∧ lowerName g = group ∧
        lowerName n ≠ name := by
  unfold leadsAway at h
  split at h
  next g n rest =>
    by_cases hg : lowerName g = group
    · exact .inr ⟨g, n, rest, rfl, hg, by simpa [hg] using h⟩
    · exact .inl ⟨g, _, rfl, hg⟩
  next g rest _ => exact .inl ⟨g, rest, rfl, by simpa using h⟩
  next => cases h

theorem holds_putFields (hw : ∀ old, SettingValue.layered old w = w) (g n : String) :
    Holds (lowerName g) (lowerName n) w (putFields m [.field g, .field n] w) := by
  rw [putFields_group]
  refine ⟨_, Entries.get?_insert_self .., ?_⟩
  rw [Entries.get?_insert_self, SettingValue.put, hw]

theorem Holds.putFields (h : Holds group name w m) (hsteps : leadsAway group name steps = true) :
    Holds group name w (putFields m steps v) := by
  obtain ⟨fields, hgroup, hname⟩ := h
  obtain ⟨g, rest, rfl, hg⟩ | ⟨g, n, rest, rfl, rfl, hn⟩ := leadsAway_cases hsteps
  · exact ⟨fields, by rw [putFields_field, Entries.get?_insert_of_ne _ hg, hgroup], hname⟩
  · rw [putFields_group]
    refine ⟨_, Entries.get?_insert_self .., ?_⟩
    rw [Entries.get?_insert_of_ne _ hn, groupFields, hgroup]
    exact hname

theorem agreeOutside_putFields (g n : String) :
    AgreeOutside (lowerName g) (lowerName n) m (putFields m [.field g, .field n] w) := by
  rw [putFields_group]
  refine ⟨fun g' hg' => ?_, fun n' hn' => ?_⟩
  · rw [Entries.get?_insert_of_ne _ hg'.symm]
  · rw [groupFields_insert_self, Entries.get?_insert_of_ne _ hn'.symm]

theorem AgreeOutside.putFields (h : AgreeOutside group name m m')
    (hsteps : leadsAway group name steps = true) :
    AgreeOutside group name (putFields m steps v) (putFields m' steps v) := by
  obtain ⟨g, rest, rfl, hg⟩ | ⟨g, n, rest, rfl, rfl, hn⟩ := leadsAway_cases hsteps
  · rw [putFields_field, putFields_field]
    refine ⟨fun g' hg' => ?_, fun n' hn' => ?_⟩
    · rw [Entries.get?_insert, Entries.get?_insert, h.groups _ hg, h.groups _ hg']
    · rw [groupFields_insert_of_ne _ hg, groupFields_insert_of_ne _ hg, h.names n' hn']
  · rw [putFields_group, putFields_group, h.names _ hn]
    refine ⟨fun g' hg' => ?_, fun n' hn' => ?_⟩
    · rw [Entries.get?_insert_of_ne _ hg'.symm, Entries.get?_insert_of_ne _ hg'.symm,
        h.groups g' hg']
    · rw [groupFields_insert_self, groupFields_insert_self, Entries.get?_insert,
        Entries.get?_insert, h.names n' hn']

theorem applyTo_cons (p : List SettingStep × SettingValue) (layer : SettingLayer)
    (m : SortedMap String SettingValue) :
    SettingLayer.applyTo (p :: layer) m = layer.applyTo (putFields m p.1 p.2) := rfl

/-- A setting keeps its value through a layer in which all steps lead away from it. -/
theorem holds_applyTo {layer : SettingLayer} (h : Holds group name w m)
    (hlayer : ∀ p ∈ layer, leadsAway group name p.1 = true) :
    Holds group name w (layer.applyTo m) := by
  induction layer generalizing m with
  | nil => exact h
  | cons p layer ih =>
      obtain ⟨hp, hlayer⟩ := List.forall_mem_cons.1 hlayer
      exact ih (h.putFields hp) hlayer

/-- Whatever else a layer holds that leads away from a setting, the setting gets its value. -/
theorem holds_applyTo_of_mem {layer : SettingLayer} {g n : String}
    (hw : ∀ old, SettingValue.layered old w = w) (hmem : ([.field g, .field n], w) ∈ layer)
    (honly : ∀ p ∈ layer, p = ([.field g, .field n], w) ∨
      leadsAway (lowerName g) (lowerName n) p.1 = true) :
    Holds (lowerName g) (lowerName n) w (layer.applyTo m) := by
  induction layer generalizing m with
  | nil => cases hmem
  | cons p layer ih =>
      obtain ⟨-, honly'⟩ := List.forall_mem_cons.1 honly
      by_cases hlater : ([.field g, .field n], w) ∈ layer
      · exact ih hlater honly'
      · -- the value is put last, and all that follows leads away
        obtain rfl : ([.field g, .field n], w) = p :=
          (List.mem_cons.1 hmem).resolve_right hlater
        have hfollowing : ∀ p ∈ layer, leadsAway (lowerName g) (lowerName n) p.1 = true :=
          fun p hp => (honly' p hp).resolve_left fun heq => hlater (heq ▸ hp)
        rw [applyTo_cons]
        exact holds_applyTo (holds_putFields hw g n) hfollowing

/-- Values that are put at a setting make no difference to the others. -/
theorem agreeOutside_applyTo_filter {layer : SettingLayer} {g n : String}
    (h : AgreeOutside (lowerName g) (lowerName n) m m')
    (honly : ∀ p ∈ layer, p.1 = [.field g, .field n] ∨
      leadsAway (lowerName g) (lowerName n) p.1 = true) :
    AgreeOutside (lowerName g) (lowerName n)
      ((layer.elsewhere (lowerName g) (lowerName n)).applyTo m) (layer.applyTo m') := by
  induction layer generalizing m m' with
  | nil => exact h
  | cons p layer ih =>
      obtain ⟨hp, honly'⟩ := List.forall_mem_cons.1 honly
      rw [applyTo_cons, elsewhere, List.filter_cons]
      split
      next haway => exact ih (h.putFields haway) honly'
      next haway =>
        rw [hp.resolve_right haway]
        exact ih (h.trans (agreeOutside_putFields g n)) honly'

end Setting

section Sets

variable {group name : String} {w : SettingValue} {layer : SettingLayer}

theorem Sets.holds_applyTo (h : Sets group name w layer) (m : SortedMap String SettingValue) :
    Holds group name w (layer.applyTo m) := by
  have hholds := @holds_applyTo_of_mem w m layer group name
    (SettingValue.layered_of_ne_table h.notTable) h.mem
  rw [h.lowerGroup, h.lowerName] at hholds
  exact hholds h.only

theorem Sets.agreeOutside_applyTo (h : Sets group name w layer)
    (m : SortedMap String SettingValue) :
    AgreeOutside group name ((layer.elsewhere group name).applyTo m) (layer.applyTo m) := by
  have hagree := @agreeOutside_applyTo_filter m m layer group name
  rw [h.lowerGroup, h.lowerName] at hagree
  exact hagree (.refl m) fun p hp => (h.only p hp).imp_left (congrArg Prod.fst)

end Sets

end SettingLayer

end ConfigSchema
