/-! # SHA-256

The hash function of FIPS 180-4 on lists of bytes: the message is padded to blocks of sixteen
32-bit words, and every block updates a state of eight words in sixty-four rounds. -/

namespace BuildPlan.Sha256

/-- The constants of the sixty-four rounds. -/
def roundConstants : Array UInt32 := #[
  0x428a2f98, 0x71374491, 0xb5c0fbcf, 0xe9b5dba5, 0x3956c25b, 0x59f111f1, 0x923f82a4, 0xab1c5ed5,
  0xd807aa98, 0x12835b01, 0x243185be, 0x550c7dc3, 0x72be5d74, 0x80deb1fe, 0x9bdc06a7, 0xc19bf174,
  0xe49b69c1, 0xefbe4786, 0x0fc19dc6, 0x240ca1cc, 0x2de92c6f, 0x4a7484aa, 0x5cb0a9dc, 0x76f988da,
  0x983e5152, 0xa831c66d, 0xb00327c8, 0xbf597fc7, 0xc6e00bf3, 0xd5a79147, 0x06ca6351, 0x14292967,
  0x27b70a85, 0x2e1b2138, 0x4d2c6dfc, 0x53380d13, 0x650a7354, 0x766a0abb, 0x81c2c92e, 0x92722c85,
  0xa2bfe8a1, 0xa81a664b, 0xc24b8b70, 0xc76c51a3, 0xd192e819, 0xd6990624, 0xf40e3585, 0x106aa070,
  0x19a4c116, 0x1e376c08, 0x2748774c, 0x34b0bcb5, 0x391c0cb3, 0x4ed8aa4a, 0x5b9cca4f, 0x682e6ff3,
  0x748f82ee, 0x78a5636f, 0x84c87814, 0x8cc70208, 0x90befffa, 0xa4506ceb, 0xbef9a3f7, 0xc67178f2]

/-- The eight words of a hash state. -/
structure State where
  a : UInt32
  b : UInt32
  c : UInt32
  d : UInt32
  e : UInt32
  f : UInt32
  g : UInt32
  h : UInt32

/-- The state before the first block. -/
def State.initial : State :=
  ⟨0x6a09e667, 0xbb67ae85, 0x3c6ef372, 0xa54ff53a, 0x510e527f, 0x9b05688c, 0x1f83d9ab, 0x5be0cd19⟩

/-- Adds two states word by word. -/
def State.add (s t : State) : State :=
  ⟨s.a + t.a, s.b + t.b, s.c + t.c, s.d + t.d, s.e + t.e, s.f + t.f, s.g + t.g, s.h + t.h⟩

/-- The words of a state in order. -/
def State.words (s : State) : List UInt32 := [s.a, s.b, s.c, s.d, s.e, s.f, s.g, s.h]

/-- Rotation to the right by `n` bits, `0 < n < 32`. -/
def rotr (x n : UInt32) : UInt32 := (x >>> n) ||| (x <<< (32 - n))

/-- One round with a schedule word `w` and a round constant `k`. -/
def round (s : State) (w k : UInt32) : State :=
  let s1 := rotr s.e 6 ^^^ rotr s.e 11 ^^^ rotr s.e 25
  let ch := (s.e &&& s.f) ^^^ (~~~s.e &&& s.g)
  let t1 := s.h + s1 + ch + k + w
  let s0 := rotr s.a 2 ^^^ rotr s.a 13 ^^^ rotr s.a 22
  let maj := (s.a &&& s.b) ^^^ (s.a &&& s.c) ^^^ (s.b &&& s.c)
  ⟨t1 + (s0 + maj), s.a, s.b, s.c, s.d + t1, s.e, s.f, s.g⟩

/-- The next word of the message schedule after the words `ws`. -/
def scheduleWord (ws : Array UInt32) : UInt32 :=
  let t := ws.size
  let x := ws.getD (t - 15) 0
  let y := ws.getD (t - 2) 0
  let s0 := rotr x 7 ^^^ rotr x 18 ^^^ (x >>> 3)
  let s1 := rotr y 17 ^^^ rotr y 19 ^^^ (y >>> 10)
  ws.getD (t - 16) 0 + s0 + ws.getD (t - 7) 0 + s1

/-- The sixty-four schedule words of a block of sixteen words. -/
def schedule (block : Array UInt32) : Array UInt32 :=
  (List.range 48).foldl (fun ws _ => ws.push (scheduleWord ws)) block

/-- The state after one more block. -/
def compress (s : State) (block : Array UInt32) : State :=
  let ws := schedule block
  s.add ((List.range 64).foldl (fun t i => round t (ws.getD i 0) (roundConstants.getD i 0)) s)

/-- The big-endian bytes of a number of `n` bytes. -/
def bytesOf (n value : Nat) : List UInt8 :=
  (List.range n).map fun i => (value >>> (8 * (n - 1 - i))).toUInt8

/-- A message with its padding: a one bit, zeros, and the length in bits in eight bytes, so
that the length becomes a multiple of sixty-four. -/
def pad (message : List UInt8) : List UInt8 :=
  let n := message.length
  message ++ (0x80 :: List.replicate ((119 - n % 64) % 64) 0) ++ bytesOf 8 (8 * n)

/-- The word of four bytes, the most significant first. -/
def word (a b c d : UInt8) : UInt32 :=
  (a.toUInt32 <<< 24) ||| (b.toUInt32 <<< 16) ||| (c.toUInt32 <<< 8) ||| d.toUInt32

/-- Feeds padded bytes to the state, four at a time; `block` holds the words of the block that
is not yet full. -/
def absorb (s : State) (block : Array UInt32) : List UInt8 → State
  | a :: b :: c :: d :: rest =>
      let block := block.push (word a b c d)
      if block.size = 16 then absorb (compress s block) #[] rest else absorb s block rest
  | _ => s

/-- The thirty-two bytes of the hash of a message. -/
def hash (message : List UInt8) : List UInt8 :=
  (absorb .initial #[] (pad message)).words.flatMap fun w => bytesOf 4 w.toNat

end BuildPlan.Sha256
