/-!
The base64 alphabet with padding. Decoding accepts canonical texts only: full groups of four, and
no stray bits before the padding.
-/

namespace MessageCode.Text.Base64

def encodeDigit (n : Nat) : Char :=
  if n < 26 then Char.ofNat (n + 65)
  else if n < 52 then Char.ofNat (n + 71)
  else if n < 62 then Char.ofNat (n - 4)
  else if n = 62 then '+' else '/'

def decodeDigit? (c : Char) : Option Nat :=
  if 'A' ≤ c ∧ c ≤ 'Z' then some (c.toNat - 65)
  else if 'a' ≤ c ∧ c ≤ 'z' then some (c.toNat - 71)
  else if '0' ≤ c ∧ c ≤ '9' then some (c.toNat + 4)
  else if c = '+' then some 62
  else if c = '/' then some 63
  else none

/-- Three bytes make four characters; one or two left over are padded. -/
def encodeBytes : List UInt8 → List Char
  | [] => []
  | [a] => [encodeDigit (a.toNat / 4), encodeDigit (a.toNat % 4 * 16), '=', '=']
  | [a, b] =>
      [encodeDigit (a.toNat / 4), encodeDigit (a.toNat % 4 * 16 + b.toNat / 16),
        encodeDigit (b.toNat % 16 * 4), '=']
  | a :: b :: c :: rest =>
      encodeDigit (a.toNat / 4) :: encodeDigit (a.toNat % 4 * 16 + b.toNat / 16) ::
        encodeDigit (b.toNat % 16 * 4 + c.toNat / 64) :: encodeDigit (c.toNat % 64) ::
        encodeBytes rest

/-- Reads groups of four characters; only the last may be padded. -/
def decodeChars? : List Char → Option (List UInt8)
  | [] => some []
  | [p, q, '=', '='] => do
      let p ← decodeDigit? p
      let q ← decodeDigit? q
      if q % 16 = 0 then some [UInt8.ofNat (p * 4 + q / 16)] else none
  | [p, q, r, '='] => do
      let p ← decodeDigit? p
      let q ← decodeDigit? q
      let r ← decodeDigit? r
      if r % 4 = 0 then
        some [UInt8.ofNat (p * 4 + q / 16), UInt8.ofNat (q % 16 * 16 + r / 4)]
      else none
  | p :: q :: r :: s :: rest => do
      let p ← decodeDigit? p
      let q ← decodeDigit? q
      let r ← decodeDigit? r
      let s ← decodeDigit? s
      let bytes ← decodeChars? rest
      some (UInt8.ofNat (p * 4 + q / 16) :: UInt8.ofNat (q % 16 * 16 + r / 4) ::
        UInt8.ofNat (r % 4 * 64 + s) :: bytes)
  | _ => none

def encode (bytes : List UInt8) : String := String.ofList (encodeBytes bytes)

/-- The bytes of a text, if it is the text of some. -/
def decode? (s : String) : Option (List UInt8) := decodeChars? s.toList

end MessageCode.Text.Base64
