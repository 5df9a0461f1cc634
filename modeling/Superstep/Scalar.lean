/-!
# The numbers a job computes with

Training only ever adds, subtracts, multiplies, divides and compares numbers, and it does so in a
fixed order. `Scalar` lists those operations and nothing else: no law is asked of them. A job then
runs on any type of numbers – on floating point ones, where sums depend on the order of their
terms, as well as on exact ones, where they do not – and a statement proved for every `Scalar`
speaks of the order of the operations alone.

Two of the constants deserve a word. A product sum (`dot`) starts from `minusZero`, every other
sum from `zero`; floating point arithmetic tells the two apart. `largest` is the cost a run starts
from, above which no finite first cost can lie.
-/

namespace Superstep

/-- The operations training performs on its numbers. -/
class Scalar (F : Type) extends Add F, Sub F, Mul F, Div F where
  /-- Where sums of costs and of gradients start. -/
  zero : F
  /-- Where product sums start: the neutral element of floating point addition. -/
  minusZero : F
  /-- The number nearest to a count. -/
  ofNat : Nat → F
  /-- The greatest finite number. -/
  largest : F
  /-- Neither infinite nor undefined. -/
  isFinite : F → Bool
  /-- Strictly smaller; never true of an undefined number. -/
  less : F → F → Bool
  /-- Equal as numbers: both zeros are equal, an undefined number equals nothing. -/
  same : F → F → Bool

namespace Scalar

variable {F : Type} [Scalar F]

/-- Smaller or equal; never true of an undefined number. -/
def atMost (a b : F) : Bool := less a b || same a b

/-- The sum of the products of corresponding entries, from left to right. The longer list's
surplus entries take no part. -/
def dot (a b : List F) : F :=
  (List.zipWith (· * ·) a b).foldl (· + ·) minusZero

@[simp] theorem dot_nil_left (b : List F) : dot [] b = minusZero := by simp [dot]

@[simp] theorem dot_nil_right (a : List F) : dot a [] = minusZero := by simp [dot]

end Scalar

/-- Double precision floating point numbers, compared as such. -/
instance : Scalar Float where
  zero := 0.0
  minusZero := -0.0
  ofNat := Float.ofNat
  largest := Float.ofBits 0x7FEFFFFFFFFFFFFF
  isFinite := Float.isFinite
  less a b := decide (a < b)
  same a b := a == b

end Superstep
