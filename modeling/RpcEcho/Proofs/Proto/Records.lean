import RpcEcho.Proto.Binary

/-!
# Records there and back

A record is written as its key and its content, and whatever stands behind it is left over when it
is read. So the records of a message are read back in order, as long as their fields are asked for
and no number in them takes more than its bits.
-/

namespace RpcEcho.Proto

/-! ## Numbers of variable length -/

namespace Varint

theorem write_of_lt {value : Nat} (small : value < 128) : write value = [UInt8.ofNat value] := by
  rw [write, if_pos small]

/-- A number takes no more octets than it counts, and one for zero. -/
theorem length_write_le (value : Nat) : (write value).length ≤ value + 1 := by
  fun_induction write value with
  | case1 value small => exact Nat.le_add_left 1 value
  | case2 value large inductionHypothesis =>
      rw [List.length_cons]
      omega

/-- How many numbers have room in an octet and those that may stand before it: the last octet holds
one bit, all others seven. -/
def room : Nat → Nat
  | 0 => 2
  | left + 1 => 128 * room left

/-- How many numbers have room in sixty-four bits. -/
def bound : Nat := 18446744073709551616

/-- A number is read back if the octets that it may still take have room for it. -/
theorem readFrom_write (left scale before : Nat) {value : Nat} (fits : value < room left)
    (rest : Bytes) :
    readFrom (left + 1) scale before (write value ++ rest) =
      some (before + value * scale, rest) := by
  -- The octets that may still come get fewer, while the value read so far and its scale grow.
  induction left generalizing scale before value with
  | zero =>
      rw [room] at fits
      have small : value < 128 := by omega
      have octet : (UInt8.ofNat value).toNat = value :=
        UInt8.toNat_ofNat_of_lt' (by rw [UInt8.size]; omega)
      have short : UInt8.ofNat value < 2 := by
        rw [UInt8.lt_iff_toNat_lt, octet]
        exact fits
      rw [write, if_pos small, List.singleton_append, readFrom, if_pos short, octet]
  | succ left inductionHypothesis =>
      by_cases small : value < 128
      · have octet : (UInt8.ofNat value).toNat = value :=
          UInt8.toNat_ofNat_of_lt' (by rw [UInt8.size]; omega)
        have last : UInt8.ofNat value < 128 := by
          rw [UInt8.lt_iff_toNat_lt, octet]
          exact small
        rw [write, if_pos small, List.singleton_append, readFrom, if_pos last, octet]
      · have octet : (UInt8.ofNat (value % 128 + 128)).toNat = value % 128 + 128 :=
          UInt8.toNat_ofNat_of_lt' (by rw [UInt8.size]; omega)
        have goesOn : ¬ UInt8.ofNat (value % 128 + 128) < 128 := by
          rw [UInt8.lt_iff_toNat_lt, octet]
          exact Nat.not_lt.mpr (Nat.le_add_left 128 _)
        have fitsRest : value / 128 < room left := by
          rw [room] at fits
          exact Nat.div_lt_of_lt_mul fits
        have whole : value % 128 * scale + value / 128 * (scale * 128) = value * scale := by
          have parts : value * scale = (128 * (value / 128) + value % 128) * scale :=
            congrArg (· * scale) (Nat.div_add_mod value 128).symm
          rw [parts, Nat.add_mul, Nat.mul_comm 128, Nat.mul_assoc, Nat.mul_comm 128 scale,
            Nat.add_comm]
        rw [write, if_neg small, List.cons_append, readFrom, if_neg goesOn,
          inductionHypothesis _ _ fitsRest, octet, Nat.add_sub_cancel, Nat.add_assoc, whole]

theorem read_write {value : Nat} (fits : value < bound) (rest : Bytes) :
    read (write value ++ rest) = some (value, rest) := by
  have tenOctets : bound = room 9 := rfl
  rw [tenOctets] at fits
  have found := readFrom_write 9 1 0 fits rest
  rw [Nat.zero_add, Nat.mul_one] at found
  exact found

end Varint

namespace Record

/-! ## Keys and contents -/

def wireNumber : WireType → Nat
  | .varint => 0
  | .fixed64 => 1
  | .delimited => 2
  | .groupStart => 3
  | .groupEnd => 4
  | .fixed32 => 5

/-- How many field numbers there are, zero among them. -/
def fieldBound : Nat := 536870912

theorem key?_of_read {number : Nat} (positive : 0 < number) (bounded : number < fieldBound)
    {wireType : WireType} {octets rest : Bytes}
    (isRead : Varint.read octets = some (number * 8 + wireNumber wireType, rest)) :
    key? octets = some (⟨number, wireType⟩, rest) := by
  rw [fieldBound] at bounded
  have below : wireNumber wireType < 8 := by cases wireType <;> decide
  have quotient : (number * 8 + wireNumber wireType) / 8 = number := by omega
  have remainder : (number * 8 + wireNumber wireType) % 8 = wireNumber wireType := by omega
  have wire : WireType.ofNumber? (wireNumber wireType) = some wireType := by
    cases wireType <;> rfl
  have inBounds : (decide (4294967295 < number * 8 + wireNumber wireType) ||
      decide (number = 0)) = false := by
    simp only [Bool.or_eq_false_iff, decide_eq_false_iff_not]
    omega
  simp only [key?, isRead, quotient, remainder, wire, inBounds, Bool.false_eq_true, if_false,
    Option.map_some]

theorem key?_key {number : Nat} (positive : 0 < number) (bounded : number < fieldBound)
    (wireType : WireType) (rest : Bytes) :
    key? (Binary.key number (wireNumber wireType) ++ rest) = some (⟨number, wireType⟩, rest) := by
  refine key?_of_read positive bounded (Varint.read_write ?_ rest)
  have below : wireNumber wireType < 8 := by cases wireType <;> decide
  rw [fieldBound] at bounded
  rw [Varint.bound]
  omega

theorem delimited?_delimited {octets : Bytes} (fits : octets.length < Varint.bound) (rest : Bytes) :
    delimited? (Binary.delimited octets ++ rest) = some (octets, rest) := by
  rw [delimited?, Binary.delimited, List.append_assoc, Varint.read_write fits]
  exact Bytes.splitAt?_append octets rest

def wireTypeOf : Content → WireType
  | .varint _ => .varint
  | .fixed64 _ => .fixed64
  | .delimited _ => .delimited
  | .fixed32 _ => .fixed32

def contentOctets : Content → Bytes
  | .varint value => Varint.write value
  | .fixed64 octets => octets
  | .delimited octets => Binary.delimited octets
  | .fixed32 octets => octets

/-- Content takes no more than its bits. -/
def ContentFits : Content → Prop
  | .varint value => value < Varint.bound
  | .fixed64 octets => octets.length = 8
  | .delimited octets => octets.length < Varint.bound
  | .fixed32 octets => octets.length = 4

theorem content?_contentOctets {content : Content} (fits : ContentFits content) (rest : Bytes) :
    content? (wireTypeOf content) (contentOctets content ++ rest) = some (content, rest) := by
  cases content with
  | varint value => simp [content?, wireTypeOf, contentOctets, Varint.read_write fits]
  | fixed64 octets =>
      have cut := Bytes.splitAt?_append octets rest
      rw [show octets.length = 8 from fits] at cut
      simp [content?, wireTypeOf, contentOctets, cut]
  | delimited octets => simp [content?, wireTypeOf, contentOctets, delimited?_delimited fits]
  | fixed32 octets =>
      have cut := Bytes.splitAt?_append octets rest
      rw [show octets.length = 4 from fits] at cut
      simp [content?, wireTypeOf, contentOctets, cut]

/-! ## Records -/

def write (record : Nat × Content) : Bytes :=
  Binary.key record.1 (wireNumber (wireTypeOf record.2)) ++ contentOctets record.2

theorem length_write_delimited (number : Nat) (octets : Bytes) :
    (write (number, .delimited octets)).length =
      (Binary.key number 2).length + (Varint.write octets.length).length + octets.length := by
  rw [write, contentOctets, wireTypeOf, wireNumber, Binary.delimited, List.length_append,
    List.length_append, Nat.add_assoc]

/-- A short record of a field with a small number takes two octets more than its content. -/
theorem write_short {number : Nat} {octets : Bytes} (small : number < 16)
    (short : octets.length < 128) :
    write (number, .delimited octets) =
      UInt8.ofNat (number * 8 + 2) :: UInt8.ofNat octets.length :: octets := by
  have key : number * 8 + 2 < 128 := by omega
  rw [write, contentOctets, wireTypeOf, wireNumber, Binary.key, Binary.delimited,
    Varint.write_of_lt key, Varint.write_of_lt short]
  rfl

/-- A record that is read back: its field number is one, its content takes no more than its bits,
and its field is asked for, in the shape that it has. -/
structure IsReadable (reading : Nat → Reading) (record : Nat × Content) : Prop where
  positive : 0 < record.1
  bounded : record.1 < fieldBound
  fits : ContentFits record.2
  asked : reading record.1 = .announced ∨
    reading record.1 = .entry ∧ ∃ octets, record.2 = .delimited octets

section Reading

variable {octets rest after : Bytes} {depth : Nat} {reading : Nat → Reading} {key : Key}
  {before : List (Nat × Content)}

theorem isEmpty_of_key? (keyRead : key? octets = some (key, rest)) : octets.isEmpty = false := by
  cases octets with
  | nil => cases keyRead
  | cons octet others => rfl

theorem readOnto_of_announced (keyRead : key? octets = some (key, rest))
    (announced : reading key.number = .announced) {content : Content}
    (contentRead : content? key.wireType rest = some (content, after)) :
    readOnto depth reading before octets =
      readOnto depth reading ((key.number, content) :: before) after := by
  rw [readOnto, isEmpty_of_key? keyRead]
  simp only [Bool.false_eq_true, if_false]
  split
  · rename_i failed
    cases failed.symm.trans keyRead
  · rename_i again
    cases again.symm.trans keyRead
    simp only [announced]
    split
    · rename_i failed
      cases failed.symm.trans contentRead
    · rename_i again
      cases again.symm.trans contentRead
      rfl

theorem readOnto_of_entry (keyRead : key? octets = some (key, rest))
    (isEntry : reading key.number = .entry) {content : Bytes}
    (entryRead : delimited? rest = some (content, after)) :
    readOnto depth reading before octets =
      readOnto depth reading ((key.number, .delimited content) :: before) after := by
  rw [readOnto, isEmpty_of_key? keyRead]
  simp only [Bool.false_eq_true, if_false]
  split
  · rename_i failed
    cases failed.symm.trans keyRead
  · rename_i again
    cases again.symm.trans keyRead
    simp only [isEntry]
    split
    · rename_i failed
      cases failed.symm.trans entryRead
    · rename_i again
      cases again.symm.trans entryRead
      rfl

theorem readOnto_of_unknown (keyRead : key? octets = some (key, rest))
    (unknown : reading key.number = .unknown) (skipped : skip? depth key rest = some after) :
    readOnto depth reading before octets = readOnto depth reading before after := by
  rw [readOnto, isEmpty_of_key? keyRead]
  simp only [Bool.false_eq_true, if_false]
  split
  · rename_i failed
    cases failed.symm.trans keyRead
  · rename_i again
    cases again.symm.trans keyRead
    simp only [unknown]
    split
    · rename_i failed
      cases failed.symm.trans skipped
    · rename_i again
      cases again.symm.trans skipped
      rfl

theorem readOnto_nil : readOnto depth reading before [] = some before.reverse := by
  rw [readOnto]
  rfl

theorem readOnto_write {record : Nat × Content} (readable : IsReadable reading record)
    (before : List (Nat × Content)) (rest : Bytes) :
    readOnto depth reading before (write record ++ rest) =
      readOnto depth reading (record :: before) rest := by
  obtain ⟨positive, bounded, fits, asked⟩ := readable
  have keyRead : key? (write record ++ rest) =
      some (⟨record.1, wireTypeOf record.2⟩, contentOctets record.2 ++ rest) := by
    rw [write, List.append_assoc]
    exact key?_key positive bounded _ _
  rcases asked with announced | ⟨isEntry, octets, shape⟩
  · exact readOnto_of_announced keyRead announced (content?_contentOctets fits rest)
  · obtain ⟨number, content⟩ := record
    cases shape
    exact readOnto_of_entry keyRead isEntry (delimited?_delimited fits rest)

/-- Records are read behind those read before. -/
theorem readOnto_records {records : List (Nat × Content)}
    (readable : ∀ record ∈ records, IsReadable reading record) (before : List (Nat × Content)) :
    readOnto depth reading before (records.flatMap write) = some (before.reverse ++ records) := by
  induction records generalizing before with
  | nil => rw [List.flatMap_nil, readOnto_nil, List.append_nil]
  | cons record records inductionHypothesis =>
      rw [List.flatMap_cons, readOnto_write (readable record List.mem_cons_self),
        inductionHypothesis fun other member => readable other (List.mem_cons_of_mem record member)]
      simp

theorem readAll?_write {records : List (Nat × Content)}
    (readable : ∀ record ∈ records, IsReadable reading record) :
    readAll? depth reading (records.flatMap write) = some records :=
  readOnto_records readable []

end Reading

end Record

end RpcEcho.Proto
