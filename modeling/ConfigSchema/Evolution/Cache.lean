import ConfigSchema.Evolution.Basic

/-!
A cache of the schemas of an evolution, one for each core version. Every tree that is built has a
number of its own, so two answers with one number are one tree.
-/

namespace ConfigSchema

/-- A tree of the cache. -/
structure CachedTree where
  core : CoreVersion
  number : Nat
  tree : SchemaTree

structure SchemaCache where
  evolution : Evolution
  entries : List CachedTree
  /-- The number of the next tree. -/
  next : Nat

namespace SchemaCache

def empty (e : Evolution) : SchemaCache := ⟨e, [], 0⟩

def size (c : SchemaCache) : Nat := c.entries.length

def find? (c : SchemaCache) (core : CoreVersion) : Option CachedTree :=
  c.entries.find? fun t => t.core = core

/-- The tree of a version, from the cache or else built and kept; and the cache afterwards. A build
that fails changes nothing. -/
def get (c : SchemaCache) (v : Version) : Except SchemaError CachedTree × SchemaCache :=
  match c.find? v.core with
  | some t => (.ok t, c)
  | none =>
    match c.evolution.build v with
    | .error e => (.error e, c)
    | .ok tree =>
      let t := ⟨v.core, c.next, tree⟩
      (.ok t, { c with entries := t :: c.entries, next := c.next + 1 })

def clear (c : SchemaCache) : SchemaCache := { c with entries := [] }

end SchemaCache

end ConfigSchema
