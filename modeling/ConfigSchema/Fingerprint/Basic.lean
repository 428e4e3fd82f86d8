import ConfigSchema.Fingerprint.Sha256
import ConfigSchema.Schema.Form

/-!
Fingerprints of texts and schemas: SHA-256 hashes in hexadecimal digits. The compact text of a
schema is canonical, so equal schemas have equal fingerprints.
-/

namespace ConfigSchema

structure Fingerprint where
  text : String
  deriving DecidableEq

namespace Fingerprint

def hexByte (b : UInt8) : List Char :=
  [Nat.digitChar (b.toNat / 16), Nat.digitChar (b.toNat % 16)]

def ofText (s : String) : Fingerprint :=
  ⟨String.ofList ((Sha256.hash s.toUTF8.toList).flatMap hexByte)⟩

def ofTree (t : SchemaTree) : Fingerprint := ofText t.document.compact

/-- As many characters from the front as fit into a number of UTF-8 bytes. -/
def takeBytes : Nat → List Char → List Char
  | _, [] => []
  | n, c :: cs => if c.utf8Size ≤ n then c :: takeBytes (n - c.utf8Size) cs else []

/-- The first twelve bytes. -/
def short (f : Fingerprint) : String := String.ofList (takeBytes 12 f.text.toList)

end Fingerprint

end ConfigSchema
