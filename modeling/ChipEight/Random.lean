import ChipEight.Platform
/-!
# Random numbers

A seed is a number of 64 bits, which is stretched to a key of eight words, or such a key that the
system has drawn.  The key and a block number give a block of sixteen words by the ChaCha
permutation with twelve rounds; the words of blocks 0, 1, 2, … in order are the stream of the seed.
`Random` is a position in such a stream.
-/

namespace ChipEight

/-- The sixteen words that the permutation works on. -/
abbrev Block := Vector UInt32 16

/-- The eight words that stand for a seed. -/
abbrev StreamKey := Vector UInt32 8

/-- Where random numbers come from. -/
inductive Seed where
  /-- A number that was given. -/
  | number (n : UInt64)
  /-- A whole key, which the system draws where no number is given; it may be any
  (`from_entropy`). -/
  | system (key : StreamKey)
  deriving DecidableEq, Repr

namespace Seed

instance : Coe UInt64 Seed := ⟨.number⟩

instance (n : Nat) : OfNat Seed n := ⟨.number (.ofNat n)⟩

/-- The number that was given, or the words of the key as one number, the first word lowest. -/
def toNat : Seed → Nat
  | .number n => n.toNat
  | .system key => key.toList.foldr (fun w rest => w.toNat + 4294967296 * rest) 0

end Seed

namespace Block

/-- `w` rotated left by `k` places, for `0 < k < 32`. -/
def rotateLeft (w k : UInt32) : UInt32 := (w <<< k) ||| (w >>> (32 - k))

/-- One quarter round on four of the words. -/
def quarterRound (s : Block) (a b c d : Fin 16) : Block :=
  let s := s.set a (s[a] + s[b])
  let s := s.set d (rotateLeft (s[d] ^^^ s[a]) 16)
  let s := s.set c (s[c] + s[d])
  let s := s.set b (rotateLeft (s[b] ^^^ s[c]) 12)
  let s := s.set a (s[a] + s[b])
  let s := s.set d (rotateLeft (s[d] ^^^ s[a]) 8)
  let s := s.set c (s[c] + s[d])
  s.set b (rotateLeft (s[b] ^^^ s[c]) 7)

/-- A round on the columns and one on the diagonals. -/
def doubleRound (s : Block) : Block :=
  let s := s.quarterRound 0 4 8 12
  let s := s.quarterRound 1 5 9 13
  let s := s.quarterRound 2 6 10 14
  let s := s.quarterRound 3 7 11 15
  let s := s.quarterRound 0 5 10 15
  let s := s.quarterRound 1 6 11 12
  let s := s.quarterRound 2 7 8 13
  s.quarterRound 3 4 9 14

/-- The words before the rounds: four constants, the key, and the number of the block. -/
def start (key : StreamKey) (number : Nat) : Block :=
  #v[0x61707865, 0x3320646e, 0x79622d32, 0x6b206574,
    key[0], key[1], key[2], key[3], key[4], key[5], key[6], key[7],
    UInt32.ofNat number, UInt32.ofNat (number / 4294967296), 0, 0]

/-- Block `number` of the stream of a key: six double rounds, and the words before them added. -/
def keystream (key : StreamKey) (number : Nat) : Block :=
  let s := start key number
  let t := Nat.repeat doubleRound 6 s
  Vector.zipWith (· + ·) t s

end Block

namespace StreamKey

/-- One step of the congruential generator that stretches a seed. -/
def advance (state : UInt64) : UInt64 := state * 6364136223846793005 + 11634580027462260723

/-- The word taken from a state of that generator: high bits folded, then rotated right by the
topmost ones. -/
def word (state : UInt64) : UInt32 :=
  let folded := (((state >>> 18) ^^^ state) >>> 27).toUInt32
  let turn := (state >>> 59).toUInt32
  (folded >>> turn) ||| (folded <<< ((32 - turn) % 32))

/-- The key that a number is stretched to: eight steps, a word after each (`seed_from_u64`). -/
def stretch (n : UInt64) : StreamKey :=
  Vector.ofFn fun i : Fin 8 => word (Nat.repeat advance (i.val + 1) n)

def ofSeed : Seed → StreamKey
  | .number n => stretch n
  | .system key => key

end StreamKey

/-- A stream of random words and how many of them have been taken. -/
structure Random where
  key : StreamKey
  position : Nat
  deriving DecidableEq

namespace Random

/-- The stream of a seed, from its beginning. -/
def ofSeed (seed : Seed) : Random := ⟨StreamKey.ofSeed seed, 0⟩

/-- Word `k` of the stream of a key. -/
def wordAt (key : StreamKey) (k : Nat) : UInt32 :=
  (Block.keystream key (k / 16)).get ⟨k % 16, Nat.mod_lt k (by decide)⟩

/-- Word `k` of the stream of a seed. -/
def word (seed : Seed) (k : Nat) : UInt32 := wordAt (StreamKey.ofSeed seed) k

/-- The low byte of the word at the position. -/
def byte (r : Random) : UInt8 := (wordAt r.key r.position).toUInt8

def next (r : Random) : Random := { r with position := r.position + 1 }

end Random

end ChipEight
