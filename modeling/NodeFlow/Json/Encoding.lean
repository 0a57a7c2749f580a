import NodeFlow.Json.Reader

/-!
# The encoding of JSON text

The bytes of a reply do not say how they encode text.  A byte order mark of UTF-8 in front does
not count; else zero bytes at the beginning show that the text is in units of two or four bytes,
since JSON text starts with characters of ASCII.

Main results:

- Type `Encoding` and definition `Encoding.ofBytes`.
- Definition `Json.readBytes`: the value of the bytes of a reply.
- Theorem `Encoding.ofBytes_of_ne_zero`: without zero bytes in front the text is in UTF-8.
-/

namespace NodeFlow

/-- How bytes encode text. -/
inductive Encoding where
  | bytes
  | pairs (lowFirst : Bool)
  | quads (lowFirst : Bool)
  deriving DecidableEq

namespace Encoding

/-- The encoding that the first bytes show. -/
def ofBytes : List UInt8 → Encoding
  | [a, b] => if a = 0 then pairs false else if b = 0 then pairs true else bytes
  | a :: b :: c :: d :: _ =>
    if a = 0 then (if b = 0 then quads false else pairs false)
    else if b = 0 then (if c = 0 ∧ d = 0 then quads true else pairs true)
    else bytes
  | _ => bytes

/-- Without zero bytes in front the text is in UTF-8. -/
theorem ofBytes_of_ne_zero {a b : UInt8} (ha : a ≠ 0) (hb : b ≠ 0) (rest : List UInt8) :
    ofBytes (a :: b :: rest) = bytes := by
  match rest with
  | [] => simp [ofBytes, ha, hb]
  | [_] => simp [ofBytes]
  | _ :: _ :: _ => simp [ofBytes, ha, hb]

/-- The number of the bytes of a unit. -/
def unit (lowFirst : Bool) (bs : List UInt8) : Nat :=
  (if lowFirst then bs.reverse else bs).foldl (fun n b => 256 * n + b.toNat) 0

/-- The numbers of units of two bytes, if the bytes are so many. -/
def pairUnits? (lowFirst : Bool) : List UInt8 → Option (List Nat)
  | [] => some []
  | a :: b :: rest => (pairUnits? lowFirst rest).map (unit lowFirst [a, b] :: ·)
  | _ => none

/-- The numbers of units of four bytes, if the bytes are so many. -/
def quadUnits? (lowFirst : Bool) : List UInt8 → Option (List Nat)
  | [] => some []
  | a :: b :: c :: d :: rest => (quadUnits? lowFirst rest).map (unit lowFirst [a, b, c, d] :: ·)
  | _ => none

/-- The character of a number; half of a pair becomes the replacement character. -/
def charOf (n : Nat) : Char :=
  if 0xD800 ≤ n && n < 0xE000 then Char.ofNat 0xFFFD else Char.ofNat n

/-- The characters of units of two bytes. -/
def ofPairs : List Nat → List Char
  | m :: n :: rest =>
    if 0xD800 ≤ m && m < 0xDC00 && 0xDC00 ≤ n && n < 0xE000 then
      Char.ofNat (0x10000 + (m - 0xD800) * 0x400 + (n - 0xDC00)) :: ofPairs rest
    else charOf m :: ofPairs (n :: rest)
  | [m] => [charOf m]
  | [] => []

/-- The text of the bytes of a text in UTF-8, read in the encoding that they show. -/
def decode? (text : String) : Option String :=
  let bs := text.toUTF8.toList
  match ofBytes bs with
  | bytes => some text
  | pairs lowFirst => (pairUnits? lowFirst bs).map fun ns => String.ofList (ofPairs ns)
  | quads lowFirst => do
    let ns ← quadUnits? lowFirst bs
    if ns.all (· < 0x110000) then pure (String.ofList (ns.map charOf)) else none

end Encoding

/-- The value of a reply, given its bytes as a text in UTF-8, or what is wrong with it. -/
def Json.readBytes (text : String) : Except Json.Flaw Json :=
  match text.toList with
  | '\ufeff' :: cs => Json.read .usual (String.ofList cs)
  | _ =>
    match Encoding.decode? text with
    | some text => Json.read .usual text
    | none => .error .malformed

end NodeFlow
