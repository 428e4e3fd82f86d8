import ConfigSchema.Settings.Toml.Statement

/-!
The tables of a TOML text. Every table is opened once, unless it stands in a list of tables. The
tables on the way to an opened one come into being with it and may be opened later.
-/

namespace ConfigSchema.Toml

/-- Changes the table at a path. The tables that are missing on the way come into being, and of a
list of tables the last one is meant. -/
def changeAt (change : SortedMap String Node → Option (SortedMap String Node)) :
    List String → SortedMap String Node → Option (SortedMap String Node)
  | [], fields => change fields
  | name :: rest, fields =>
    match fields.get? name with
    | none => (changeAt change rest .nil).map fun inner => fields.insert name (.table .implied inner)
    | some (.table origin inner) =>
      (changeAt change rest inner).map fun inner => fields.insert name (.table origin inner)
    | some (.tables before last) =>
      (changeAt change rest last).map fun last => fields.insert name (.tables before last)
    | some (.value _) => none

/-- Opens a table. -/
def openTable (name : String) (fields : SortedMap String Node) : Option (SortedMap String Node) :=
  match fields.get? name with
  | none => some (fields.insert name (.table .opened .nil))
  | some (.table .implied inner) => some (fields.insert name (.table .opened inner))
  | some _ => none

/-- Opens one more table of a list. -/
def openListed (name : String) (fields : SortedMap String Node) : Option (SortedMap String Node) :=
  match fields.get? name with
  | none => some (fields.insert name (.tables [] .nil))
  | some (.tables before last) =>
    some (fields.insert name (.tables (before ++ [.table (settings last)]) .nil))
  | some _ => none

/-- The tables after some statements; `current` is the path of the open table. -/
def nodes (current : List String) (fields : SortedMap String Node) :
    List Statement → Option (SortedMap String Node)
  | [] => some fields
  | .header listed path :: ss =>
    match path.getLast? with
    | none => none
    | some name =>
      (changeAt (if listed then openListed name else openTable name) path.dropLast fields).bind
        fun fields => nodes path fields ss
  | .assign path v :: ss =>
    (changeAt (assign v path) current fields).bind fun fields => nodes current fields ss

/-- The fields of the table that a text describes. -/
def fields? (text : String) : Option (SortedMap String SettingValue) :=
  (statementsOf? text).bind fun ss => (nodes [] .nil ss).map settings

end ConfigSchema.Toml
