/-!
The hash function SHA-256. Bytes are absorbed one after another; each block of sixteen big-endian
words is mixed into the state of eight words.
-/

namespace ConfigSchema.Sha256

/-- The first 32 bits of the fractional parts of the cube roots of the first 64 primes. -/
def roundConstants : List UInt32 :=
  [0x428a2f98, 0x71374491, 0xb5c0fbcf, 0xe9b5dba5, 0x3956c25b, 0x59f111f1, 0x923f82a4, 0xab1c5ed5,
   0xd807aa98, 0x12835b01, 0x243185be, 0x550c7dc3, 0x72be5d74, 0x80deb1fe, 0x9bdc06a7, 0xc19bf174,
   0xe49b69c1, 0xefbe4786, 0x0fc19dc6, 0x240ca1cc, 0x2de92c6f, 0x4a7484aa, 0x5cb0a9dc, 0x76f988da,
   0x983e5152, 0xa831c66d, 0xb00327c8, 0xbf597fc7, 0xc6e00bf3, 0xd5a79147, 0x06ca6351, 0x14292967,
   0x27b70a85, 0x2e1b2138, 0x4d2c6dfc, 0x53380d13, 0x650a7354, 0x766a0abb, 0x81c2c92e, 0x92722c85,
   0xa2bfe8a1, 0xa81a664b, 0xc24b8b70, 0xc76c51a3, 0xd192e819, 0xd6990624, 0xf40e3585, 0x106aa070,
   0x19a4c116, 0x1e376c08, 0x2748774c, 0x34b0bcb5, 0x391c0cb3, 0x4ed8aa4a, 0x5b9cca4f, 0x682e6ff3,
   0x748f82ee, 0x78a5636f, 0x84c87814, 0x8cc70208, 0x90befffa, 0xa4506ceb, 0xbef9a3f7, 0xc67178f2]

structure State where
  a : UInt32
  b : UInt32
  c : UInt32
  d : UInt32
  e : UInt32
  f : UInt32
  g : UInt32
  h : UInt32
  deriving DecidableEq

/-- The first 32 bits of the fractional parts of the square roots of the first 8 primes. -/
def State.start : State where
  a := 0x6a09e667
  b := 0xbb67ae85
  c := 0x3c6ef372
  d := 0xa54ff53a
  e := 0x510e527f
  f := 0x9b05688c
  g := 0x1f83d9ab
  h := 0x5be0cd19

namespace State

protected def add (s t : State) : State :=
  ⟨s.a + t.a, s.b + t.b, s.c + t.c, s.d + t.d, s.e + t.e, s.f + t.f, s.g + t.g, s.h + t.h⟩

def words (s : State) : List UInt32 := [s.a, s.b, s.c, s.d, s.e, s.f, s.g, s.h]

end State

def rotateRight (x n : UInt32) : UInt32 := (x >>> n) ||| (x <<< (32 - n))

/-- One round with a word of the schedule and its constant. -/
def round (s : State) (word constant : UInt32) : State :=
  let s1 := rotateRight s.e 6 ^^^ rotateRight s.e 11 ^^^ rotateRight s.e 25
  let choice := (s.e &&& s.f) ^^^ (~~~s.e &&& s.g)
  let t1 := s.h + s1 + choice + constant + word
  let s0 := rotateRight s.a 2 ^^^ rotateRight s.a 13 ^^^ rotateRight s.a 22
  let majority := (s.a &&& s.b) ^^^ (s.a &&& s.c) ^^^ (s.b &&& s.c)
  ⟨t1 + (s0 + majority), s.a, s.b, s.c, s.d + t1, s.e, s.f, s.g⟩

/-- The word that follows the words so far, of which there are at least sixteen. -/
def nextWord (ws : Array UInt32) : UInt32 :=
  let back := fun n => ws.getD (ws.size - n) 0
  let w15 := back 15
  let w2 := back 2
  let s0 := rotateRight w15 7 ^^^ rotateRight w15 18 ^^^ (w15 >>> 3)
  let s1 := rotateRight w2 17 ^^^ rotateRight w2 19 ^^^ (w2 >>> 10)
  back 16 + s0 + back 7 + s1

/-- The words of a block, extended until there is one for each round. -/
def schedule : Nat → Array UInt32 → Array UInt32
  | 0, ws => ws
  | n + 1, ws => schedule n (ws.push (nextWord ws))

/-- The state after a block of sixteen words. -/
def compress (s : State) (block : Array UInt32) : State :=
  let ws := (schedule 48 block).toList
  ((ws.zip roundConstants).foldl (fun t p => round t p.1 p.2) s).add s

/-- What is left of the bytes so far: the state after full blocks, the full words since then, and
the bytes of an unfinished word with their number. -/
structure Progress where
  state : State
  words : Array UInt32
  partialWord : UInt32
  count : Nat

def Progress.start : Progress := ⟨.start, #[], 0, 0⟩

def Progress.absorb (p : Progress) (b : UInt8) : Progress :=
  let word := (p.partialWord <<< 8) ||| b.toUInt32
  if p.count < 3 then { p with partialWord := word, count := p.count + 1 }
  else
    let words := p.words.push word
    if words.size < 16 then { p with words := words, partialWord := 0, count := 0 }
    else ⟨compress p.state words, #[], 0, 0⟩

/-- A byte with the top bit set, zeros up to eight bytes before the end of a block, and the length
of the message in bits. -/
def padding (length : Nat) : List UInt8 :=
  let bits := 8 * length
  let zeros := (119 - length % 64) % 64
  0x80 :: (List.replicate zeros 0 ++
    (List.range 8).map fun i => UInt8.ofNat (bits / Nat.pow 256 (7 - i)))

def wordBytes (w : UInt32) : List UInt8 :=
  [(w >>> 24).toUInt8, (w >>> 16).toUInt8, (w >>> 8).toUInt8, w.toUInt8]

/-- The 32 bytes of the hash of a message. -/
def hash (message : List UInt8) : List UInt8 :=
  let absorbed := message.foldl Progress.absorb .start
  let final := (padding message.length).foldl Progress.absorb absorbed
  final.state.words.flatMap wordBytes

end ConfigSchema.Sha256
