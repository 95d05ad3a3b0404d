import InkModel.Scalar

/-! # Minimization problems and their outcomes

A minimizer starts at a point, has a search radius for each coordinate, and
answers with the best point that it found. To run out of iterations is an
outcome, not an error.
-/

namespace InkModel

open Scalar

inductive MinimizeError (α : Type) where
  /-- There are no parameters. -/
  | empty
  | dimensionMismatch (params radii : Nat)
  /-- The objective has no finite value at the start. -/
  | nonFinite (value : α)
  | solver (reason : String)
  deriving Repr

structure Minimum (α : Type) where
  point : Array α
  value : α
  iterations : Nat
  /-- Whether the tolerance was met before the iterations ran out. -/
  converged : Bool
  deriving Repr

structure Problem (α : Type) where
  cost : Array α → α
  slope : Array α → Array α

variable {α : Type} [Scalar α]

/-- A search radius, where a radius that is not positive counts as one. -/
@[inline] def usableRadius (r : α) : α := if 0 < r then r else 1

/-- Refuses a problem without parameters or with the wrong number of radii. -/
def checkSetup (params radii : Nat) : Except (MinimizeError α) Unit :=
  if params = 0 then .error .empty
  else if params ≠ radii then .error (.dimensionMismatch params radii)
  else .ok ()

end InkModel
