/-!
Finite maps with ordered keys. A map is the list of its entries in ascending order of their keys.
The bound that the next key has to exceed is part of the type, so entries that are out of order or
double cannot be written down, and every function below is a plain recursion on the list.
-/

namespace ConfigSchema

/-- A key comes after a bound; every key comes after the absent bound. -/
def Above {κ : Type} [Ord κ] (lo : Option κ) (k : κ) : Prop :=
  ∀ b, lo = some b → compare b k = .lt

/-- The entries of a map whose keys all come after the bound `lo`. -/
inductive Entries (κ α : Type) [Ord κ] : Option κ → Type
  | nil {lo : Option κ} : Entries κ α lo
  | cons {lo : Option κ} (key : κ) (above : Above lo key) (value : α)
      (rest : Entries κ α (some key)) : Entries κ α lo
  deriving DecidableEq

/-- A finite map: entries without a bound. -/
abbrev SortedMap (κ α : Type) [Ord κ] := Entries κ α none

namespace Above

variable {κ : Type} [Ord κ] {lo : Option κ} {k l : κ}

@[simp] theorem absent : Above none k := by
  intro b hb
  cases hb

@[simp] theorem some_iff : Above (some l) k ↔ compare l k = .lt :=
  ⟨fun h => h l rfl, fun h _ hb => Option.some.inj hb ▸ h⟩

theorem of_gt [Std.OrientedOrd κ] (h : compare k l = .gt) : Above (some l) k :=
  some_iff.2 (Std.OrientedCmp.lt_of_gt h)

theorem trans [Std.TransOrd κ] (h : Above lo l) (hl : Above (some l) k) : Above lo k := fun b hb =>
  Std.TransCmp.lt_trans (h b hb) (some_iff.1 hl)

end Above

namespace Entries

variable {κ α β : Type} [Ord κ] {lo : Option κ}

instance : Inhabited (Entries κ α lo) := ⟨nil⟩

instance : EmptyCollection (Entries κ α lo) := ⟨nil⟩

/-- Keys and values in ascending order of the keys. -/
def toList {lo : Option κ} : Entries κ α lo → List (κ × α)
  | nil => []
  | cons key _ value rest => (key, value) :: rest.toList

def keys {lo : Option κ} : Entries κ α lo → List κ
  | nil => []
  | cons key _ _ rest => key :: rest.keys

/-- Values in ascending order of their keys. -/
def values {lo : Option κ} : Entries κ α lo → List α
  | nil => []
  | cons _ _ value rest => value :: rest.values

def size {lo : Option κ} : Entries κ α lo → Nat
  | nil => 0
  | cons _ _ _ rest => rest.size + 1

def isEmpty {lo : Option κ} : Entries κ α lo → Bool
  | nil => true
  | cons .. => false

def get? [DecidableEq κ] (k : κ) {lo : Option κ} : Entries κ α lo → Option α
  | nil => none
  | cons key _ value rest => if key = k then some value else rest.get? k

def contains [DecidableEq κ] (k : κ) (m : Entries κ α lo) : Bool :=
  (m.get? k).isSome

def map (f : α → β) {lo : Option κ} : Entries κ α lo → Entries κ β lo
  | nil => nil
  | cons key above value rest => cons key above (f value) (rest.map f)

/-- The values under a partial function; absent when it is not defined on all of them. -/
def mapM? (f : α → Option β) {lo : Option κ} : Entries κ α lo → Option (Entries κ β lo)
  | nil => some nil
  | cons key above value rest =>
    match f value, rest.mapM? f with
    | some v, some vs => some (cons key above v vs)
    | _, _ => none

/-- The map with a value for `k`, in place of the one that was there. -/
def insertAbove [Std.TransOrd κ] (k : κ) (v : α) {lo : Option κ} :
    Entries κ α lo → Above lo k → Entries κ α lo
  | nil, h => cons k h v nil
  | cons key above value rest, h =>
    match hc : compare k key with
    | .lt => cons k h v (cons key (Above.some_iff.2 hc) value rest)
    | .eq => cons key above v rest
    | .gt => cons key above value (rest.insertAbove k v (.of_gt hc))

def insert [Std.TransOrd κ] (m : Entries κ α none) (k : κ) (v : α) : Entries κ α none :=
  m.insertAbove k v .absent

/-- The same entries under a lower bound. -/
def lower [Std.TransOrd κ] {l : κ} (h : Above lo l) : Entries κ α (some l) → Entries κ α lo
  | nil => nil
  | cons key above value rest => cons key (h.trans above) value rest

def erase [Std.TransOrd κ] [DecidableEq κ] (k : κ) {lo : Option κ} :
    Entries κ α lo → Entries κ α lo
  | nil => nil
  | cons key above value rest =>
    if key = k then rest.lower above else cons key above value (rest.erase k)

/-- The map of a list of pairs; of equal keys the last one counts. -/
def ofList [Std.TransOrd κ] (pairs : List (κ × α)) : Entries κ α none :=
  pairs.foldl (fun m p => m.insert p.1 p.2) nil

end Entries

end ConfigSchema
