import TagFill.Random.Stream

/-! # The seeded stream

ChaCha with twelve rounds. The key comes from the seed, the nonce is zero, and block after block of
the key stream is handed out word by word.
-/

namespace TagFill.ChaCha

abbrev Key := Vector UInt32 8

abbrev Block := Vector UInt32 16

def rotateLeft (x n : UInt32) : UInt32 := (x <<< n) ||| (x >>> (32 - n))

def rotateRight (x n : UInt32) : UInt32 := rotateLeft x ((32 - n) % 32)

/-! ## The key of a seed -/

def step (state : UInt64) : UInt64 := state * 6364136223846793005 + 11634580027462260723

/-- The word that a state gives: its high bits, turned by its top five. -/
def output (state : UInt64) : UInt32 :=
  rotateRight ((((state >>> 18) ^^^ state) >>> 27).toUInt32) (state >>> 59).toUInt32

def states (seed : UInt64) : Nat → UInt64
  | 0 => seed
  | n + 1 => step (states seed n)

def keyOf (seed : UInt64) : Key := Vector.ofFn fun i => output (states seed (i.val + 1))

/-! ## Blocks -/

/-- One step of a quarter round: `a` takes `b`, and `d` is mixed with it and turned. -/
def mix (s : Block) (a b d : Fin 16) (turn : UInt32) : Block :=
  let s := s.set a (s[a] + s[b])
  s.set d (rotateLeft (s[d] ^^^ s[a]) turn)

def quarterRound (s : Block) (a b c d : Fin 16) : Block :=
  mix (mix (mix (mix s a b d 16) c d b 12) a b d 8) c d b 7

/-- The four columns, then the four diagonals. -/
def doubleRound (s : Block) : Block :=
  let s := quarterRound s 0 4 8 12
  let s := quarterRound s 1 5 9 13
  let s := quarterRound s 2 6 10 14
  let s := quarterRound s 3 7 11 15
  let s := quarterRound s 0 5 10 15
  let s := quarterRound s 1 6 11 12
  let s := quarterRound s 2 7 8 13
  quarterRound s 3 4 9 14

/-- The constants "expand 32-byte k", the key, the block's number and a zero nonce. -/
def start (key : Key) (number : Nat) : Block :=
  #v[0x61707865, 0x3320646e, 0x79622d32, 0x6b206574,
    key[0], key[1], key[2], key[3], key[4], key[5], key[6], key[7],
    UInt32.ofNat number, UInt32.ofNat (number / UInt32.size), 0, 0]

def block (key : Key) (number : Nat) : Block :=
  let first := start key number
  let mixed := (List.range 6).foldl (fun s _ => doubleRound s) first
  Vector.zipWith (· + ·) mixed first

/-- Byte `i` of the key stream. Words are written with the low byte first. -/
def byteAt (key : Key) (i : Nat) : UInt8 :=
  let word := (block key (i / 64))[i / 4 % 16]
  (word >>> UInt32.ofNat (8 * (i % 4))).toUInt8

def stream (seed : UInt64) : Stream where
  byte := byteAt (keyOf seed)
  stride := 4

end TagFill.ChaCha
