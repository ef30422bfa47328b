import FleetControl.Selector.Generator

/-!
# Random order

A selector shuffles lists of candidates, so that several workers spread over a
backlog. The same seed gives the same orders. It holds a key and how far its
stream has been used.
-/
namespace FleetControl

structure Selector where
  key : Generator.Key
  place : Nat
  deriving DecidableEq, Repr

namespace Selector

def seeded (seed : Nat) : Selector := ⟨Generator.keyOf (UInt64.ofNat seed), 0⟩

instance : Inhabited Selector := ⟨seeded 0⟩

/-- The next word of the stream. -/
def next (s : Selector) : Nat × Selector :=
  ((Generator.word s.key s.place).toNat, { s with place := s.place + 1 })

/-- The largest low half of a product that makes a draw below `n` fair. -/
def zone (n : Nat) : Nat := (n <<< (31 - Nat.log2 n)) - 1

/-- Draw a number below `n`, taking the high half of the product of `n` and a
word and drawing again while the low half is above the zone. Every draw is in
the zone with a chance of more than a half, so the limit on their number is
never felt. -/
def drawBelow (n : Nat) : (limit : Nat) → Selector → Nat × Selector
  | 0, s => (0, s)
  | limit + 1, s =>
      let (v, s) := s.next
      let p := v * n
      if p % 0x100000000 ≤ zone n then (p / 0x100000000, s) else drawBelow n limit s

def below (s : Selector) (n : Nat) : Nat × Selector := drawBelow n 64 s

/-- Exchange each place from `count` down to 1 with one drawn from those up to it. -/
def shuffleUpTo {α : Type} : (count : Nat) → Selector → Array α → Array α × Selector
  | 0, s, xs => (xs, s)
  | i + 1, s, xs =>
      let (j, s) := s.below (i + 2)
      shuffleUpTo i s (xs.swapIfInBounds (i + 1) j)

def shuffle {α : Type} (s : Selector) (xs : List α) : List α × Selector :=
  let (ys, s) := shuffleUpTo (xs.length - 1) s xs.toArray
  (ys.toList, s)

theorem shuffleUpTo_perm {α : Type} (count : Nat) (s : Selector) (xs : Array α) :
    (shuffleUpTo count s xs).1.Perm xs := by
  induction count generalizing s xs with
  | zero => exact Array.Perm.refl xs
  | succ i ih =>
      refine (ih _ _).trans ?_
      rw [Array.swapIfInBounds_def]
      split
      · split
        · exact Array.swap_perm ..
        · exact Array.Perm.refl _
      · exact Array.Perm.refl _

/-- Shuffling only changes the order. -/
theorem shuffle_perm {α : Type} (s : Selector) (xs : List α) : (s.shuffle xs).1.Perm xs := by
  have h := shuffleUpTo_perm (xs.length - 1) s xs.toArray
  simpa [shuffle, Array.perm_iff_toList_perm] using h

end Selector

end FleetControl
