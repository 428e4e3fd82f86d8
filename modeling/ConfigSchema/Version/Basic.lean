import ConfigSchema.Text.Split

/-!
Versions: three numbers, a pre-release and build metadata. The identifiers carry the proof that they
are well formed, so every version has a canonical text (`Version.text`). Schemas depend on the three
numbers alone, which are ordered lexicographically.
-/

namespace ConfigSchema

/-- Letters, digits and the hyphen. -/
def isIdentifierChar (c : Char) : Bool := c.isAlphanum || c = '-'

def isIdentifier (cs : List Char) : Bool := !cs.isEmpty && cs.all isIdentifierChar

/-- Two or more digits, the first of them zero. -/
def hasLeadingZero (cs : List Char) : Bool :=
  1 < cs.length && cs.all Char.isDigit && cs.head? = some '0'

/-- An identifier of build metadata. -/
structure BuildIdentifier where
  chars : List Char
  valid : isIdentifier chars = true
  deriving DecidableEq

/-- An identifier of a pre-release; a number in it has no leading zero. -/
structure PreIdentifier where
  chars : List Char
  valid : isIdentifier chars = true
  canonical : hasLeadingZero chars = false
  deriving DecidableEq

/-- The three numbers of a version. -/
structure CoreVersion where
  major : UInt64
  minor : UInt64
  patch : UInt64
  deriving DecidableEq

structure Version where
  major : UInt64
  minor : UInt64
  patch : UInt64
  pre : List PreIdentifier
  build : List BuildIdentifier
  deriving DecidableEq

namespace CoreVersion

/-- Lexicographic order. -/
protected def le (a b : CoreVersion) : Prop :=
  a.major < b.major ∨ (a.major = b.major ∧
    (a.minor < b.minor ∨ (a.minor = b.minor ∧ a.patch ≤ b.patch)))

instance : LE CoreVersion := ⟨CoreVersion.le⟩

instance (a b : CoreVersion) : Decidable (a ≤ b) :=
  inferInstanceAs (Decidable (_ ∨ (_ ∧ (_ ∨ (_ ∧ _)))))

theorem le_iff {a b : CoreVersion} :
    a ≤ b ↔ a.major.toNat < b.major.toNat ∨ (a.major.toNat = b.major.toNat ∧
      (a.minor.toNat < b.minor.toNat ∨ (a.minor.toNat = b.minor.toNat ∧
        a.patch.toNat ≤ b.patch.toNat))) := by
  simp only [← UInt64.lt_iff_toNat_lt, UInt64.toNat_inj, ← UInt64.le_iff_toNat_le]
  rfl

@[simp] theorem le_refl (a : CoreVersion) : a ≤ a := by
  simp [le_iff]

theorem le_trans {a b c : CoreVersion} (h : a ≤ b) (h' : b ≤ c) : a ≤ c := by
  rw [le_iff] at *
  omega

theorem le_total (a b : CoreVersion) : a ≤ b ∨ b ≤ a := by
  rw [le_iff, le_iff]
  omega

theorem le_antisymm {a b : CoreVersion} (h : a ≤ b) (h' : b ≤ a) : a = b := by
  obtain ⟨_, _, _⟩ := a
  obtain ⟨_, _, _⟩ := b
  rw [le_iff] at *
  simp only [CoreVersion.mk.injEq, ← UInt64.toNat_inj] at *
  omega

instance : LT CoreVersion := ⟨fun a b => ¬b ≤ a⟩

instance (a b : CoreVersion) : Decidable (a < b) := inferInstanceAs (Decidable (¬_))

@[simp] theorem not_le {a b : CoreVersion} : ¬a ≤ b ↔ b < a := Iff.rfl

theorem le_of_lt {a b : CoreVersion} (h : a < b) : a ≤ b := (le_total a b).resolve_right h

theorem lt_of_le_of_lt {a b c : CoreVersion} (h : a ≤ b) (h' : b < c) : a < c :=
  fun hca => h' (le_trans hca h)

theorem lt_of_le_of_ne {a b : CoreVersion} (h : a ≤ b) (hne : a ≠ b) : a < b :=
  fun h' => hne (le_antisymm h h')

instance : Std.IsLinearOrder CoreVersion where
  le_refl := le_refl
  le_trans _ _ _ := le_trans
  le_antisymm _ _ := le_antisymm
  le_total := le_total

instance : Std.LawfulOrderLT CoreVersion where
  lt_iff _ _ := ⟨fun h => ⟨le_of_lt h, h⟩, And.right⟩

end CoreVersion

namespace Version

/-- A release without pre-release and build metadata. -/
def release (major minor patch : UInt64) : Version := ⟨major, minor, patch, [], []⟩

def core (v : Version) : CoreVersion := ⟨v.major, v.minor, v.patch⟩

/-- The version is at or above a threshold; pre-release and build metadata play no part. -/
def isAtLeast (v threshold : Version) : Bool := threshold.core ≤ v.core

def preChars (v : Version) : List Char := Text.join '.' (v.pre.map (·.chars))

def buildChars (v : Version) : List Char := Text.join '.' (v.build.map (·.chars))

/-- The three numbers joined by points. -/
def numberChars (v : Version) : List Char :=
  Text.join '.' ([v.major, v.minor, v.patch].map fun n => Nat.toDigits 10 n.toNat)

/-- What follows the numbers: `-` and the pre-release, `+` and the build metadata. -/
def suffixChars (v : Version) : List Char :=
  (if v.pre.isEmpty then [] else '-' :: v.preChars) ++
    (if v.build.isEmpty then [] else '+' :: v.buildChars)

def chars (v : Version) : List Char := v.numberChars ++ v.suffixChars

/-- The canonical text `MAJOR.MINOR.PATCH[-PRE][+BUILD]`. -/
def text (v : Version) : String := String.ofList v.chars

end Version

end ConfigSchema
