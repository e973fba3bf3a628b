import RpcEcho.Bytes

/-!
# Base 64

Octets as text, three octets in four characters. Writing uses the standard alphabet and fills the
last group with equals signs. Reading takes the standard or the URL-safe alphabet, but not both in
one text, lets some or all of the fill be left out, and wants unused bits to be zero.
-/

namespace RpcEcho.Base64

/-- The character of six bits, as an octet, in the standard alphabet. -/
def symbol (value : Nat) : UInt8 :=
  if value < 26 then UInt8.ofNat (65 + value)
  else if value < 52 then UInt8.ofNat (71 + value)
  else if value < 62 then UInt8.ofNat (value - 4)
  else if value = 62 then 43
  else 47

/-- The written form, onto what was written so far, last first. -/
def encodeOnto (written : Bytes) : Bytes → Bytes
  | [] => written.reverse
  | [a] => (61 :: 61 :: symbol (a.toNat % 4 * 16) :: symbol (a.toNat / 4) :: written).reverse
  | [a, b] =>
    (61 :: symbol (b.toNat % 16 * 4) :: symbol (a.toNat % 4 * 16 + b.toNat / 16)
      :: symbol (a.toNat / 4) :: written).reverse
  | a :: b :: c :: rest =>
    encodeOnto (symbol (c.toNat % 64) :: symbol (b.toNat % 16 * 4 + c.toNat / 64)
      :: symbol (a.toNat % 4 * 16 + b.toNat / 16) :: symbol (a.toNat / 4) :: written) rest

/-- The written form of octets. -/
def encode (octets : Bytes) : String :=
  String.ofList ((encodeOnto [] octets).map fun octet => Char.ofNat octet.toNat)

/-- The six bits that a character stands for in an alphabet whose last two characters are given. -/
def value? (secondLast last octet : UInt8) : Option Nat :=
  if 65 ≤ octet && octet ≤ 90 then some (octet.toNat - 65)
  else if 97 ≤ octet && octet ≤ 122 then some (octet.toNat - 71)
  else if 48 ≤ octet && octet ≤ 57 then some (octet.toNat + 4)
  else if octet == secondLast then some 62
  else if octet == last then some 63
  else none

/-- The octets of groups of six bits, onto the octets read so far, last first. -/
def packOnto (read : Bytes) : List Nat → Option Bytes
  | [] => some read.reverse
  | [_] => none
  | [a, b] => if b % 16 = 0 then some (UInt8.ofNat (a * 4 + b / 16) :: read).reverse else none
  | [a, b, c] =>
    if c % 4 = 0 then
      some (UInt8.ofNat (b % 16 * 16 + c / 4) :: UInt8.ofNat (a * 4 + b / 16) :: read).reverse
    else none
  | a :: b :: c :: d :: rest =>
    packOnto (UInt8.ofNat (c % 4 * 64 + d) :: UInt8.ofNat (b % 16 * 16 + c / 4)
      :: UInt8.ofNat (a * 4 + b / 16) :: read) rest

/-- Whether equals signs may fill the last group of a number of characters. -/
def mayFill (characters fill : Nat) : Bool :=
  match characters % 4 with
  | 0 => fill = 0
  | 1 => false
  | group => fill ≤ 4 - group

/-- The octets that a written form in one alphabet stands for. -/
def decodeIn? (secondLast last : UInt8) (written : Bytes) : Option Bytes :=
  let characters := written.takeWhile fun octet => octet != 61
  let fill := written.dropWhile fun octet => octet != 61
  if fill.all (· == 61) && mayFill characters.length fill.length then
    (characters.mapM (value? secondLast last)).bind (packOnto [])
  else none

/-- The octets that a written form stands for, in the standard or the URL-safe alphabet. -/
def decode? (written : Bytes) : Option Bytes :=
  match decodeIn? 43 47 written with
  | some octets => some octets
  | none => decodeIn? 45 95 written

end RpcEcho.Base64
