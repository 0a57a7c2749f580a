import NodeFlow.Json.Basic

/-!
# Random sources

A source of randomness is the list of its future answers.  A source that has run out answers with
zeros.

Main results:

- Definitions `Random.fraction` and `Random.index`.
- Theorem `Random.index_lt`: an index is below its bound.
-/

namespace NodeFlow

/-- The answers a random source still holds: fractions in the unit interval, and whole numbers
from which an index is taken. -/
structure Random where
  fractions : List Json := []
  picks : List Int := []
  deriving Inhabited

namespace Random

/-- The next fraction. -/
def fraction (r : Random) : Json × Random :=
  match r.fractions with
  | [] => (.float 0.0, r)
  | x :: xs => (x, { r with fractions := xs })

/-- The next index below a bound. -/
def index (r : Random) (bound : Nat) : Nat × Random :=
  match r.picks with
  | [] => (0, r)
  | n :: ns => ((n % bound).toNat, { r with picks := ns })

/-- A position that is drawn lies below the bound. -/
theorem index_lt (r : Random) {bound : Nat} (h : 0 < bound) : (r.index bound).1 < bound := by
  unfold index
  split
  · exact h
  · rename_i n ns _
    have h1 := Int.emod_nonneg n (b := (bound : Int)) (by omega)
    have h2 := Int.emod_lt_of_pos n (b := (bound : Int)) (by omega)
    simp only
    omega

end Random

end NodeFlow
