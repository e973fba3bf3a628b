import Mathlib.Algebra.Group.Nat.Defs
import RpcEcho.Proofs.Proto.BinaryForm

/-!
# Values as they are read

What stands in records that were read, and which values come of them: a number has the bits of its
kind, a truth value is 0 or 1. Such values are read again as they are, once they are written.

* `Record.contentFits_of_mem_readAll?`: no content that was read takes more than its bits.
* `Scalar.Reads`: the values that are read of each kind.
* `Binary.contentOf`: the content that such a value is written as.
* `Binary.scalarOf?_contentOf`: it is read as the value.
-/

namespace RpcEcho.Proto

/-! ## Records -/

namespace Varint

theorem room_pos (left : Nat) : 0 < room left := by
  induction left with
  | zero => exact Nat.two_pos
  | succ left inductionHypothesis => exact Nat.mul_pos (by decide) inductionHypothesis

/-- A number that was read has room in the octets that it could take. -/
theorem exists_of_readFrom {left scale before value : Nat} {octets after : Bytes}
    (found : readFrom (left + 1) scale before octets = some (value, after)) :
    ∃ part < room left, value = before + part * scale := by
  induction left generalizing scale before octets with
  | zero =>
      cases octets with
      | nil => cases found
      | cons octet rest =>
          rw [readFrom] at found
          split at found
          · rename_i short
            cases found
            exact ⟨octet.toNat, UInt8.lt_iff_toNat_lt.mp short, rfl⟩
          · cases found
  | succ left inductionHypothesis =>
      cases octets with
      | nil => cases found
      | cons octet rest =>
          have below : octet.toNat < 256 := octet.toNat_lt
          rw [readFrom] at found
          split at found
          · rename_i short
            cases found
            have small : octet.toNat < 128 := UInt8.lt_iff_toNat_lt.mp short
            have positive := room_pos left
            refine ⟨octet.toNat, ?_, rfl⟩
            rw [room]
            omega
          · obtain ⟨part, hasRoom, rfl⟩ := inductionHypothesis found
            refine ⟨octet.toNat - 128 + 128 * part, ?_, ?_⟩
            · rw [room]
              omega
            · rw [Nat.add_mul, Nat.add_assoc, Nat.mul_comm scale, Nat.mul_comm 128 part,
                Nat.mul_assoc]

theorem read_lt {octets after : Bytes} {value : Nat} (found : read octets = some (value, after)) :
    value < bound := by
  obtain ⟨part, hasRoom, rfl⟩ := exists_of_readFrom found
  rw [Nat.zero_add, Nat.mul_one]
  exact hasRoom

end Varint

namespace Record

theorem length_lt_of_delimited? {octets content after : Bytes}
    (found : delimited? octets = some (content, after)) : content.length < Varint.bound := by
  rw [delimited?] at found
  split at found
  · cases found
  · rename_i length rest isRead
    rw [(Bytes.splitAt?_eq_some found).2]
    exact Varint.read_lt isRead

theorem contentFits_of_content? {wireType : WireType} {octets after : Bytes} {content : Content}
    (found : content? wireType octets = some (content, after)) : ContentFits content := by
  cases wireType with
  | varint =>
      obtain ⟨_, isRead, same⟩ := Option.map_eq_some_iff.mp found
      cases same
      exact Varint.read_lt isRead
  | delimited =>
      obtain ⟨_, isRead, same⟩ := Option.map_eq_some_iff.mp found
      cases same
      exact length_lt_of_delimited? isRead
  | fixed64 | fixed32 =>
      obtain ⟨_, isRead, same⟩ := Option.map_eq_some_iff.mp found
      cases same
      exact (Bytes.splitAt?_eq_some isRead).2
  | groupStart | groupEnd => cases found

/-- By the recursion of the reader: what was read before fits, and so does the next content. -/
theorem contentFits_of_mem_readOnto {depth : Nat} {reading : Nat → Reading} {octets : Bytes}
    {before records : List (Nat × Content)} (fits : ∀ record ∈ before, ContentFits record.2)
    (found : readOnto depth reading before octets = some records) :
    ∀ record ∈ records, ContentFits record.2 := by
  have cons {record : Nat × Content} {before : List (Nat × Content)}
      (own : ContentFits record.2) (fits : ∀ other ∈ before, ContentFits other.2) :
      ∀ other ∈ record :: before, ContentFits other.2 := by
    intro other member
    rcases List.mem_cons.mp member with rfl | isBefore
    · exact own
    · exact fits other isBefore
  fun_induction readOnto depth reading before octets with
  | case1 =>
      cases found
      exact fun record member => fits record (List.mem_reverse.mp member)
  | case2 | case3 | case5 | case7 => cases found
  | case4 =>
      rename_i inner
      exact inner fits found
  | case6 =>
      rename_i isRead inner
      exact inner (cons (contentFits_of_content? isRead) fits) found
  | case8 =>
      rename_i isRead inner
      exact inner (cons (length_lt_of_delimited? isRead) fits) found

/-- No content that was read takes more than its bits. -/
theorem contentFits_of_mem_readAll? {depth : Nat} {reading : Nat → Reading} {octets : Bytes}
    {records : List (Nat × Content)} (found : readAll? depth reading octets = some records) :
    ∀ record ∈ records, ContentFits record.2 :=
  contentFits_of_mem_readOnto (fun record member => by cases member) found

end Record

/-! ## Scalars -/

/-- The values that are read of each kind of scalar. -/
def Scalar.Reads : Scalar → Value → Prop
  | .text, .text _ | .bytes, .bytes _ => True
  | .int32, .int value | .enumeration .., .int value => FitsWord value
  | .int64, .int value => -9223372036854775808 ≤ value ∧ value < 9223372036854775808
  | .uint64, .int value | .double, .int value => 0 ≤ value ∧ value < 18446744073709551616
  | .bool, .int value => value = 0 ∨ value = 1
  | _, _ => False

/-- A scalar that was read is a text, octets, or a number: a double, or one of variable length. -/
theorem Scalar.Reads.cases {kind : Scalar} {value : Value} (reads : kind.Reads value) :
    (∃ text, kind = .text ∧ value = .text text) ∨
      (∃ octets, kind = .bytes ∧ value = .bytes octets) ∨
      ∃ number, value = .int number ∧
        (kind = .double ∨ kind.isPackable = true ∧ kind ≠ .double) := by
  cases kind with
  | text =>
      cases value with
      | text text => exact .inl ⟨text, rfl, rfl⟩
      | bytes _ | int _ | message _ => cases reads
  | bytes =>
      cases value with
      | bytes octets => exact .inr (.inl ⟨octets, rfl, rfl⟩)
      | text _ | int _ | message _ => cases reads
  | double =>
      cases value with
      | int number => exact .inr (.inr ⟨number, rfl, .inl rfl⟩)
      | text _ | bytes _ | message _ => cases reads
  | int32 | int64 | uint64 | bool | enumeration _ _ =>
      cases value with
      | int number => exact .inr (.inr ⟨number, rfl, .inr ⟨rfl, by simp⟩⟩)
      | text _ | bytes _ | message _ => cases reads

namespace Binary

variable {τ : Type} {catalog : Catalog τ}

theorem fitsWord_low32 (value : Nat) : FitsWord (low32 value) := by
  unfold FitsWord low32
  dsimp only
  split <;> omega

theorem ofLittleEndian_lt (octets : Bytes) : ofLittleEndian octets < 256 ^ octets.length := by
  induction octets with
  | nil => exact Nat.one_pos
  | cons octet octets inductionHypothesis =>
      have below : octet.toNat < 256 := octet.toNat_lt
      have unfolded : ofLittleEndian (octet :: octets) =
          ofLittleEndian octets * 256 + octet.toNat := rfl
      rw [unfolded, List.length_cons, Nat.pow_succ]
      omega

theorem lowOctets_length (value count : Nat) : (lowOctets value count).length = count := by
  induction count generalizing value with
  | zero => rfl
  | succ count inductionHypothesis => rw [lowOctets, List.length_cons, inductionHypothesis]

theorem ofLittleEndian_lowOctets {value count : Nat} (fits : value < 256 ^ count) :
    ofLittleEndian (lowOctets value count) = value := by
  induction count generalizing value with
  | zero =>
      rw [Nat.pow_zero, Nat.lt_one_iff] at fits
      exact fits.symm
  | succ count inductionHypothesis =>
      rw [Nat.pow_succ, Nat.mul_comm] at fits
      have rest := inductionHypothesis (Nat.div_lt_of_lt_mul fits)
      have unfolded : ofLittleEndian (lowOctets value (count + 1)) =
          ofLittleEndian (lowOctets (value / 256) count) * 256 + (UInt8.ofNat value).toNat := rfl
      rw [unfolded, rest, UInt8.toNat_ofNat']
      omega

/-- A number that was read has the bits of its kind. -/
theorem reads_ofVarint {kind : Scalar} (isNumber : kind.isPackable = true)
    (notDouble : kind ≠ .double) {value : Nat} (fits : value < Varint.bound) :
    kind.Reads (.int (ofVarint kind value)) := by
  rw [Varint.bound] at fits
  cases kind with
  | int32 | enumeration name names => exact fitsWord_low32 value
  | int64 =>
      simp only [Scalar.Reads, ofVarint, low64]
      split <;> omega
  | uint64 =>
      simp only [Scalar.Reads, ofVarint]
      omega
  | bool =>
      simp only [Scalar.Reads, ofVarint]
      split <;> simp
  | double => exact absurd rfl notDouble
  | text | bytes => cases isNumber

theorem reads_ofLittleEndian {octets : Bytes} (size : octets.length = 8) :
    Scalar.double.Reads (.int (ofLittleEndian octets)) := by
  have below := ofLittleEndian_lt octets
  rw [size] at below
  simp only [Scalar.Reads]
  omega

theorem reads_of_scalarOf? {kind : Scalar} {content : Record.Content} {value : Value}
    (fits : Record.ContentFits content) (found : scalarOf? kind content = some value) :
    kind.Reads value := by
  cases kind with
  | text =>
      cases content with
      | delimited octets =>
          obtain ⟨_, _, rfl⟩ := Option.map_eq_some_iff.mp found
          trivial
      | varint _ | fixed64 _ | fixed32 _ => cases found
  | bytes =>
      cases content with
      | delimited octets =>
          cases found
          trivial
      | varint _ | fixed64 _ | fixed32 _ => cases found
  | double =>
      cases content with
      | fixed64 octets =>
          cases found
          exact reads_ofLittleEndian fits
      | varint _ | delimited _ | fixed32 _ => cases found
  | int32 | int64 | uint64 | bool | enumeration _ _ =>
      cases content with
      | varint number =>
          cases found
          exact reads_ofVarint rfl (by simp) fits
      | fixed64 _ | delimited _ | fixed32 _ => cases found

/-- All elements of one record have the bits of their kind. -/
theorem reads_of_unpackOnto? {kind : Scalar} (isNumber : kind.isPackable = true)
    {before values : List Value} {octets : Bytes} (readBefore : ∀ value ∈ before, kind.Reads value)
    (found : unpackOnto? kind before octets = some values) :
    ∀ value ∈ values, kind.Reads value := by
  fun_induction unpackOnto? kind before octets with
  | case1 =>
      cases found
      exact fun value member => readBefore value (List.mem_reverse.mp member)
  | case2 | case4 => cases found
  | case3 =>
      rename_i isDouble _ _ cut inner
      cases isDouble
      refine inner (fun value member => ?_) found
      rcases List.mem_cons.mp member with rfl | isBefore
      · exact reads_ofLittleEndian (Bytes.splitAt?_eq_some cut).2
      · exact readBefore value isBefore
  | case5 =>
      rename_i isRead notDouble inner
      refine inner (fun value member => ?_) found
      rcases List.mem_cons.mp member with rfl | isBefore
      · exact reads_ofVarint isNumber notDouble (Varint.read_lt isRead)
      · exact readBefore value isBefore

theorem reads_of_elementsOf? {kind : Scalar} {content : Record.Content} {values : List Value}
    (fits : Record.ContentFits content) (found : elementsOf? kind content = some values) :
    ∀ value ∈ values, kind.Reads value := by
  unfold elementsOf? at found
  split at found
  · rename_i isNumber
    exact reads_of_unpackOnto? isNumber (fun value member => by cases member) found
  · obtain ⟨only, isRead, rfl⟩ := Option.map_eq_some_iff.mp found
    intro value member
    rw [List.mem_singleton.mp member]
    exact reads_of_scalarOf? fits isRead

/-! ## Writing what was read -/

/-- The content that a value is written as. -/
def contentOf (catalog : Catalog τ) : FieldType τ → Value → Record.Content
  | .scalar .double, .int value => .fixed64 (lowOctets value.toNat 8)
  | type, value => recordContent catalog type value

theorem contentOf_message (catalog : Catalog τ) (type : τ) :
    contentOf catalog (.message type) = recordContent catalog (.message type) := rfl

theorem low64_bitsOf {value : Int} (low : -9223372036854775808 ≤ value)
    (high : value < 9223372036854775808) : low64 (bitsOf value) = value := by
  unfold low64 bitsOf
  split <;> omega

theorem bitsOf_toNat {value : Int} (low : 0 ≤ value) (high : value < 18446744073709551616) :
    (bitsOf value : Int) = value := by
  unfold bitsOf
  omega

/-- A number of any kind is read from the bits in which it travels. -/
theorem ofVarint_bitsOf_of_reads {kind : Scalar} {value : Int} (reads : kind.Reads (.int value)) :
    ofVarint kind (bitsOf value) = value := by
  cases kind with
  | int32 | enumeration _ _ => exact low32_bitsOf reads.1 reads.2
  | int64 => exact low64_bitsOf reads.1 reads.2
  | uint64 | double => exact bitsOf_toNat reads.1 reads.2
  | bool => rcases reads with rfl | rfl <;> rfl
  | text | bytes => cases reads

theorem contentOf_number {kind : Scalar} (isNumber : kind.isPackable = true)
    (notDouble : kind ≠ .double) (number : Int) :
    contentOf catalog (.scalar kind) (.int number) = .varint (bitsOf number) := by
  cases kind with
  | int32 | int64 | uint64 | bool | enumeration _ _ => rfl
  | double => exact absurd rfl notDouble
  | text | bytes => cases isNumber

/-- The content of a scalar is read as the scalar. -/
theorem scalarOf?_contentOf {kind : Scalar} {value : Value} (reads : kind.Reads value) :
    scalarOf? kind (contentOf catalog (.scalar kind) value) = some value := by
  rcases Scalar.Reads.cases reads with ⟨text, rfl, rfl⟩ | ⟨octets, rfl, rfl⟩ |
    ⟨number, rfl, rfl | ⟨isNumber, notDouble⟩⟩
  · simp [contentOf, recordContent, scalarOf?, Utf8.decode?_encode]
  · rfl
  · have bits : ofLittleEndian (lowOctets number.toNat 8) = number.toNat := by
      have high := reads.2
      exact ofLittleEndian_lowOctets (by omega)
    have whole : (number.toNat : Int) = number := Int.toNat_of_nonneg reads.1
    simp only [contentOf, scalarOf?, bits, whole]
  · rw [contentOf_number isNumber notDouble, scalarOf?_number isNumber notDouble,
      ofVarint_bitsOf_of_reads reads]

end Binary

end RpcEcho.Proto
