import RpcEcho.Proofs.Api.Lossless
import RpcEcho.Proofs.Proto.Merging

/-!
# Payloads one behind the other

In the binary codec a payload may go on: fields that its message type does not know are passed over,
and a second message of the type overrides the first.
-/

namespace RpcEcho.Api

open Proto

/-- A payload, fields of no known number and the payload of a second message: they are read as the
first message overridden by the second. The fields may be groups, as deep in one another as messages
may be. -/
theorem decode_append {type : MessageType} {octets payload : Bytes} {old new : Message}
    (found : Codec.decode .proto type octets = .ok old) (valid : catalog.IsMessage type new)
    (written : Codec.encode .proto type new = .ok payload) (fits : payload.length < Varint.bound)
    {fields : List (Nat × Bytes)}
    (unknown : ∀ field ∈ fields, Record.IsField Binary.maxDepth field.1 field.2 ∧
      catalog.field? type field.1 = none) :
    ∃ result,
      Codec.decode .proto type (octets ++ fields.flatMap Prod.snd ++ payload) = .ok result ∧
        Overrides catalog type old new result := by
  cases written
  rw [Codec.decode, Codec.decode?] at found
  cases isOld : Binary.decode? catalog type octets with
  | none =>
      rw [isOld] at found
      cases found
  | some message =>
      rw [isOld] at found
      cases found
      obtain ⟨result, isResult, overrides⟩ := Binary.exists_decodeWithin?_append isSound_catalog
        isOld valid (depth_le_maxDepth type) fits unknown
      refine ⟨result, ?_, overrides⟩
      rw [Codec.decode, Codec.decode?, Binary.decode?, isResult]

/-- A group with the number nine, which holds the number one in its first field. -/
def groupNine : Nat × Bytes := (9, [75, 8, 1, 76])

theorem isField_groupNine : Record.IsField Binary.maxDepth groupNine.1 groupNine.2 := by
  have isNumber (octet : UInt8) (isLast : octet < 128) : Varint.IsNumber octet.toNat [octet] :=
    ⟨.last isLast, Nat.le_add_left 1 9, Nat.lt_trans (UInt8.lt_iff_toNat_lt.mp isLast) (by decide)⟩
  have isKey : Record.IsKey 1 .varint [8] := ⟨by decide, by decide, isNumber 8 (by decide)⟩
  have first : Record.IsField 99 1 ([8] ++ [1]) :=
    .content isKey (.varint (isNumber 1 (by decide)))
  have starts : Record.IsKey 9 .groupStart [75] :=
    ⟨by decide, by decide, isNumber 75 (by decide)⟩
  have stops : Record.IsKey 9 .groupEnd [76] := ⟨by decide, by decide, isNumber 76 (by decide)⟩
  have inside : ∀ field ∈ [(1, ([8] ++ [1] : Bytes))], Record.IsField 99 field.1 field.2 := by
    intro field member
    rw [List.mem_singleton.mp member]
    exact first
  exact .group starts inside stops

/-- An answer is overridden by itself, past a group that no answer has. -/
theorem decode_append_extensionAnswer :
    ∃ payload, Codec.encode .proto .serverReflectionResponse extensionAnswer = .ok payload ∧
      Codec.decode .proto .serverReflectionResponse payload = .ok extensionAnswer ∧
      catalog.field? .serverReflectionResponse groupNine.1 = none ∧
      ∃ result, Codec.decode .proto .serverReflectionResponse
          (payload ++ groupNine.2 ++ payload) = .ok result ∧
        Overrides catalog .serverReflectionResponse extensionAnswer extensionAnswer result := by
  have valid := isMessage_extensionAnswer
  have fits : (Binary.encode catalog .serverReflectionResponse extensionAnswer).length <
      Varint.bound := by decide +kernel
  have isRead := Binary.decodeWithin?_encode isSound_catalog valid (depth_le_maxDepth _) fits
  have found : Codec.decode .proto .serverReflectionResponse
      (Binary.encode catalog .serverReflectionResponse extensionAnswer) = .ok extensionAnswer := by
    have noMap : catalog.HasNoMap .serverReflectionResponse := by decide
    cases valid with
    | message shaped _ =>
        rw [ofFields_arranged_of_hasNoMap isSound_catalog shaped noMap] at isRead
        rw [Codec.decode, Codec.decode?, Binary.decode?, isRead]
  have unknown : ∀ field ∈ [groupNine], Record.IsField Binary.maxDepth field.1 field.2 ∧
      catalog.field? .serverReflectionResponse field.1 = none := by
    intro field member
    rw [List.mem_singleton.mp member]
    exact ⟨isField_groupNine, by decide⟩
  exact ⟨_, rfl, found, by decide, decode_append found valid rfl fits unknown⟩

end RpcEcho.Api
