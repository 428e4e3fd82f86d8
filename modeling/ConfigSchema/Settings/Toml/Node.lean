import ConfigSchema.Settings.Value

/-!
Tables of TOML while they are filled. Every key is given once; the tables on the way to a dotted key
come into being with it, and grow by dotted keys only.
-/

namespace ConfigSchema.Toml

/-- How a table came into being. -/
inductive Origin
  | opened
  | implied
  | dotted
  deriving DecidableEq

inductive Node
  | value (v : SettingValue)
  | table (origin : Origin) (fields : Entries String Node none)
  /-- A list of tables, of which only the last one can still grow. -/
  | tables (before : List SettingValue) (last : Entries String Node none)

/-- Gives a value to a key in a table. -/
def assign (v : SettingValue) :
    List String → SortedMap String Node → Option (SortedMap String Node)
  | [], _ => none
  | [name], fields => if fields.contains name then none else some (fields.insert name (.value v))
  | name :: rest, fields =>
    match fields.get? name with
    | none => (assign v rest .nil).map fun inner => fields.insert name (.table .dotted inner)
    | some (.table origin inner) =>
      if origin = .dotted ∨ (origin = .implied ∧ 1 < rest.length) then
        (assign v rest inner).map fun inner => fields.insert name (.table origin inner)
      else none
    | some (.tables before last) =>
      if 1 < rest.length then
        (assign v rest last).map fun last => fields.insert name (.tables before last)
      else none
    | some (.value _) => none

mutual

def Node.setting : Node → SettingValue
  | .value v => v
  | .table _ fields => .table (settings fields)
  | .tables before last => .array (before ++ [.table (settings last)])

def settings {lo : Option String} : Entries String Node lo → Entries String SettingValue lo
  | .nil => .nil
  | .cons name above n rest => .cons name above n.setting (settings rest)

end

/-- The table that keys and values amount to. -/
def tableOf? (pairs : List (List String × SettingValue)) : Option SettingValue :=
  (pairs.foldlM (fun fields p => assign p.2 p.1 fields) .nil).map fun fields =>
    .table (settings fields)

end ConfigSchema.Toml
