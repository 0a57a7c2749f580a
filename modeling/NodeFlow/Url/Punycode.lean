/-!
# Punycode

The ASCII form of a label with other letters: the ASCII characters first, then for every other
character, in ascending order, how far on it is from the one before.  A distance is a number of
base 36 whose digits have thresholds that adapt to the distances so far.

Main results:

- Definition `Punycode.encode`.
- Theorems `Punycode.threshold_pos` and `Punycode.threshold_le`: a threshold lies between 1 and 26,
  so that the digits of a distance get used up.
- Theorem `Punycode.encode_eq_basic`: a label of ASCII characters only gets a hyphen.
-/

namespace NodeFlow.Punycode

/-- The character of a digit: letters first, then the ten figures. -/
def digitChar (d : Nat) : Char := Char.ofNat (if d < 26 then 97 + d else 22 + d)

/-- The threshold of the digit at a position, given in steps of 36. -/
def threshold (position bias : Nat) : Nat :=
  if position ≤ bias then 1 else min 26 (position - bias)

/-- A threshold is positive. -/
theorem threshold_pos (position bias : Nat) : 1 ≤ threshold position bias := by
  unfold threshold
  split <;> omega

/-- A threshold is at most the number of letters. -/
theorem threshold_le (position bias : Nat) : threshold position bias ≤ 26 := by
  unfold threshold
  split <;> omega

/-- The digits of a distance, the lowest first; the last one is below its threshold. -/
def distanceDigits (bias position q : Nat) : List Char :=
  let t := threshold position bias
  if q < t then [digitChar q]
  else
    digitChar (t + (q - t) % (36 - t)) :: distanceDigits bias (position + 36) ((q - t) / (36 - t))
termination_by q
decreasing_by
  have := threshold_pos position bias
  exact Nat.lt_of_le_of_lt (Nat.div_le_self ..) (by omega)

/-- Divide a distance until it is small, and count the divisions in steps of 36. -/
def shrink (delta position : Nat) : Nat × Nat :=
  if 455 < delta then shrink (delta / 35) (position + 36) else (delta, position)
termination_by delta
decreasing_by exact Nat.div_lt_self (by omega) (by omega)

/-- The bias after a distance; `written` counts the characters written so far. -/
def adapt (delta written : Nat) (isFirst : Bool) : Nat :=
  let delta := if isFirst then delta / 700 else delta / 2
  let (delta, position) := shrink (delta + delta / written) 0
  position + 36 * delta / (delta + 38)

/-- How far the writing of a label is. -/
structure Progress where
  digits : List Char
  delta : Nat
  bias : Nat
  written : Nat
  isFirst : Bool

/-- Pass one character of the label while the characters `m` are written. -/
def Progress.pass (m : Nat) (p : Progress) (c : Char) : Progress :=
  if c.toNat < m then { p with delta := p.delta + 1 }
  else if c.toNat = m then
    { digits := p.digits ++ distanceDigits p.bias 36 p.delta
      delta := 0
      bias := adapt p.delta (p.written + 1) p.isFirst
      written := p.written + 1
      isFirst := false }
  else p

/-- Write the characters of ascending code points, from `low` on. -/
def writeFrom (label : List Char) : Nat → List Nat → Progress → Progress
  | _, [], p => p
  | low, m :: ms, p =>
    let p := { p with delta := p.delta + (m - low) * (p.written + 1) }
    let p := label.foldl (Progress.pass m) p
    writeFrom label (m + 1) ms { p with delta := p.delta + 1 }

/-- Insert a number into an ascending list, unless it is there. -/
def insertAscending (n : Nat) : List Nat → List Nat
  | [] => [n]
  | m :: ms =>
    if n < m then n :: m :: ms
    else if n = m then m :: ms
    else m :: insertAscending n ms

/-- The code points outside ASCII, ascending and each once. -/
def strangers (label : List Char) : List Nat :=
  (label.filter (128 ≤ ·.toNat)).foldr (fun c ns => insertAscending c.toNat ns) []

/-- The ASCII form of a label. -/
def encode (label : List Char) : List Char :=
  let basic := label.filter (·.toNat < 128)
  let lead := if basic.isEmpty then [] else basic ++ ['-']
  lead ++ (writeFrom label 128 (strangers label) ⟨[], 0, 72, basic.length, true⟩).digits

/-- A label of ASCII is encoded as itself and a delimiter. -/
theorem encode_eq_basic {label : List Char} (hne : label ≠ [])
    (h : ∀ c ∈ label, c.toNat < 128) : encode label = label ++ ['-'] := by
  have hb : label.filter (·.toNat < 128) = label := List.filter_eq_self.2 (by simpa using h)
  have hs : label.filter (128 ≤ ·.toNat) = [] := by
    rw [List.filter_eq_nil_iff]
    intro c hc
    have := h c hc
    simp only [decide_eq_true_eq]
    omega
  simp [encode, strangers, hb, hs, writeFrom, hne]

end NodeFlow.Punycode
