/-!
# A seeded stream of words

The stream is a ChaCha key stream of twelve rounds: block after block of
sixteen words, each block a function of the key and its number. A word of the
stream is therefore a function of the key and its place.
-/
namespace FleetControl.Generator

/-- Four words that the rounds work on side by side. -/
structure Row where
  w0 : UInt32
  w1 : UInt32
  w2 : UInt32
  w3 : UInt32
  deriving DecidableEq, Repr

namespace Row

def zip (f : UInt32 → UInt32 → UInt32) (a b : Row) : Row :=
  ⟨f a.w0 b.w0, f a.w1 b.w1, f a.w2 b.w2, f a.w3 b.w3⟩

/-- Move the words one place to the left, the first to the end. -/
def shift (a : Row) : Row := ⟨a.w1, a.w2, a.w3, a.w0⟩

def toList (a : Row) : List UInt32 := [a.w0, a.w1, a.w2, a.w3]

end Row

/-- Rotate a word to the left by 1 to 31 bits. -/
def rotateLeft (x n : UInt32) : UInt32 := (x <<< n) ||| (x >>> (32 - n))

/-- Sixteen words in four rows. -/
structure Block where
  a : Row
  b : Row
  c : Row
  d : Row
  deriving DecidableEq, Repr

namespace Block

def toList (s : Block) : List UInt32 :=
  s.a.toList ++ s.b.toList ++ s.c.toList ++ s.d.toList

/-- Add the second row to the first, mix into the fourth and rotate, and so on. -/
def mixColumns (s : Block) : Block :=
  let mix (n : UInt32) (x y : UInt32) := rotateLeft (x ^^^ y) n
  let a := s.a.zip (· + ·) s.b
  let d := s.d.zip (mix 16) a
  let c := s.c.zip (· + ·) d
  let b := s.b.zip (mix 12) c
  let a := a.zip (· + ·) b
  let d := d.zip (mix 8) a
  let c := c.zip (· + ·) d
  let b := b.zip (mix 7) c
  ⟨a, b, c, d⟩

/-- One round over the columns and one over the diagonals. -/
def doubleRound (s : Block) : Block :=
  let s := s.mixColumns
  let s := mixColumns ⟨s.a, s.b.shift, s.c.shift.shift, s.d.shift.shift.shift⟩
  ⟨s.a, s.b.shift.shift.shift, s.c.shift.shift, s.d.shift⟩

def rounds : (count : Nat) → Block → Block
  | 0, s => s
  | n + 1, s => rounds n s.doubleRound

def add (s t : Block) : Block :=
  ⟨s.a.zip (· + ·) t.a, s.b.zip (· + ·) t.b, s.c.zip (· + ·) t.c, s.d.zip (· + ·) t.d⟩

end Block

/-- The key of a stream. -/
structure Key where
  low : Row
  high : Row
  deriving DecidableEq, Repr

/-- The block of a stream with the given number. -/
def block (key : Key) (number : Nat) : Block :=
  let start : Block :=
    ⟨⟨0x61707865, 0x3320646e, 0x79622d32, 0x6b206574⟩, key.low, key.high,
      ⟨UInt32.ofNat number, UInt32.ofNat (number / 0x100000000), 0, 0⟩⟩
  (start.rounds 6).add start

/-- The word at a place of a stream. -/
def word (key : Key) (place : Nat) : UInt32 :=
  (block key (place / 16)).toList.getD (place % 16) 0

/-- Advance the state from which key words are taken. -/
def nextState (state : UInt64) : UInt64 := state * 6364136223846793005 + 11634580027462260723

/-- The key word of a state. -/
def keyWord (state : UInt64) : UInt32 :=
  let x := (((state >>> 18) ^^^ state) >>> 27).toUInt32
  let n := (state >>> 59).toUInt32
  if n = 0 then x else (x >>> n) ||| (x <<< (32 - n))

/-- The key of a seed: the words of the eight states that follow it. -/
def keyOf (seed : UInt64) : Key :=
  let s1 := nextState seed
  let s2 := nextState s1
  let s3 := nextState s2
  let s4 := nextState s3
  let s5 := nextState s4
  let s6 := nextState s5
  let s7 := nextState s6
  let s8 := nextState s7
  ⟨⟨keyWord s1, keyWord s2, keyWord s3, keyWord s4⟩,
    ⟨keyWord s5, keyWord s6, keyWord s7, keyWord s8⟩⟩

end FleetControl.Generator
