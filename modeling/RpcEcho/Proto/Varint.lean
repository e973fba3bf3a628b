import RpcEcho.Bytes

/-!
# Numbers of variable length

Seven bits an octet, the lowest first; the highest bit of an octet says that another follows. A
number takes at most ten octets and sixty-four bits.
-/

namespace RpcEcho.Proto.Varint

/-- The octets of a number. -/
def write (value : Nat) : Bytes :=
  if value < 128 then [UInt8.ofNat value]
  else UInt8.ofNat (value % 128 + 128) :: write (value / 128)
termination_by value

/-- The number at the front, given the value and the scale of the octets already read and how many
more octets it may take. -/
def readFrom (octetsLeft scale read : Nat) : Bytes → Option (Nat × Bytes)
  | [] => none
  | octet :: rest =>
    match octetsLeft with
    | 0 => none
    | 1 => if octet < 2 then some (read + octet.toNat * scale, rest) else none
    | left + 2 =>
      if octet < 128 then some (read + octet.toNat * scale, rest)
      else readFrom (left + 1) (scale * 128) (read + (octet.toNat - 128) * scale) rest

/-- The number at the front of some octets, and the octets after it. -/
def read (octets : Bytes) : Option (Nat × Bytes) := readFrom 10 1 0 octets

theorem readFrom_length {left scale before value : Nat} {octets after : Bytes}
    (found : readFrom left scale before octets = some (value, after)) :
    after.length < octets.length := by
  fun_induction readFrom left scale before octets <;> simp_all
  omega

theorem read_length {octets after : Bytes} {value : Nat}
    (found : read octets = some (value, after)) : after.length < octets.length :=
  readFrom_length found

end RpcEcho.Proto.Varint
