import RpcEcho.Envelope

/-!
# The shape of framed octets

The length field of an envelope and the number it denotes are inverse to one another below
`2 ^ 32`. From this, one lemma for each answer of an envelope reader says exactly when the reader
gives the answer, in terms of the octets that it holds:

* `next_eq_frame_iff`: a frame, when the octets begin with its written form;
* `next_eq_none_iff`: nothing yet, when a header or a payload is cut off;
* `next_eq_error_iff`: a failure, when the header announces too much.

The lemmas `next_push_of_frame` and `next_push_of_error` say that more octets do not change an
answer other than "nothing yet".
-/

namespace RpcEcho

namespace Bytes

/-- The first number that four octets cannot denote. -/
def wordBound : Nat := 4294967296

theorem wordOf_lt (first second third fourth : UInt8) :
    wordOf first second third fourth < wordBound := by
  have firstBound := first.toNat_lt
  have secondBound := second.toNat_lt
  have thirdBound := third.toNat_lt
  have fourthBound := fourth.toNat_lt
  unfold wordOf wordBound
  omega

theorem ofWord_wordOf (first second third fourth : UInt8) :
    ofWord (wordOf first second third fourth) = [first, second, third, fourth] := by
  have firstBound := first.toNat_lt
  have secondBound := second.toNat_lt
  have thirdBound := third.toNat_lt
  have fourthBound := fourth.toNat_lt
  simp only [ofWord, wordOf, List.cons.injEq, and_true, ← UInt8.toNat_inj, UInt8.toNat_ofNat']
  omega

theorem wordOf_ofWord (value : Nat) :
    wordOf (UInt8.ofNat (value / 16777216)) (UInt8.ofNat (value / 65536))
      (UInt8.ofNat (value / 256)) (UInt8.ofNat value) = value % wordBound := by
  simp only [wordOf, wordBound, UInt8.toNat_ofNat']
  omega

@[simp]
theorem length_ofWord (value : Nat) : (ofWord value).length = 4 := rfl

theorem splitAt?_eq_none_iff {count : Nat} {octets : Bytes} :
    splitAt? count octets = none ↔ octets.length < count := by
  simp only [splitAt?, List.splitAt_eq, List.length_take]
  split
  · simp only [reduceCtorEq, false_iff]
    omega
  · simp only [true_iff]
    omega

theorem splitAt?_append_of_le {count : Nat} {front : Bytes} (within : count ≤ front.length)
    (rest : Bytes) :
    splitAt? count (front ++ rest) = some (front.take count, front.drop count ++ rest) := by
  have whole := splitAt?_append (front.take count) (front.drop count ++ rest)
  rwa [List.length_take_of_le within, ← List.append_assoc, List.take_append_drop] at whole

end Bytes

namespace Envelope

open Bytes

@[simp]
theorem length_wrap (payload : Bytes) (flags : Flags) :
    (wrap payload flags).length = headerLength + payload.length := by
  simp only [wrap, headerLength, List.cons_append, List.length_cons, List.length_append,
    length_ofWord]
  omega

theorem wrap_inj {payload other : Bytes} {flags : Flags} :
    wrap payload flags = wrap other flags ↔ payload = other := by
  refine ⟨fun same => ?_, congrArg (wrap · flags)⟩
  exact (List.append_inj (List.cons.inj same).2 rfl).2

/-! ## Headers -/

theorem header?_eq_none_iff {octets : Bytes} :
    header? octets = none ↔ octets.length < headerLength := by
  unfold header? headerLength
  split
  · simp only [reduceCtorEq, List.length_cons, false_iff]
    omega
  · rename_i short
    refine ⟨fun _ => ?_, fun _ => rfl⟩
    match octets, short with
    | [], _ | [_], _ | [_, _], _ | [_, _, _], _ | [_, _, _, _], _ => simp
    | flags :: a :: b :: c :: d :: rest, short => exact absurd rfl (short flags a b c d rest)

/-- A header is read exactly from its written form. -/
theorem header?_eq_some_iff {octets rest : Bytes} {flags : Flags} {length : Nat} :
    header? octets = some (flags, length, rest) ↔
      length < wordBound ∧ octets = flags.bits :: ofWord length ++ rest := by
  constructor
  · intro found
    unfold header? at found
    split at found
    · rename_i bits first second third fourth behind
      simp only [Option.some.injEq, Prod.mk.injEq] at found
      obtain ⟨rfl, rfl, rfl⟩ := found
      refine ⟨wordOf_lt first second third fourth, ?_⟩
      rw [ofWord_wordOf]
      rfl
    · cases found
  · rintro ⟨bound, rfl⟩
    have restored := wordOf_ofWord length
    rw [Nat.mod_eq_of_lt bound] at restored
    simp only [ofWord, List.cons_append, List.nil_append, header?, restored]

theorem length_of_header? {octets rest : Bytes} {flags : Flags} {length : Nat}
    (found : header? octets = some (flags, length, rest)) :
    octets.length = headerLength + rest.length := by
  obtain ⟨_, rfl⟩ := header?_eq_some_iff.mp found
  simp only [headerLength, List.cons_append, List.length_cons, List.length_append, length_ofWord]
  omega

theorem header?_append {octets rest : Bytes} {flags : Flags} {length : Nat}
    (found : header? octets = some (flags, length, rest)) (more : Bytes) :
    header? (octets ++ more) = some (flags, length, rest ++ more) := by
  obtain ⟨bound, rfl⟩ := header?_eq_some_iff.mp found
  exact header?_eq_some_iff.mpr ⟨bound, by simp⟩

/-- The header of an envelope is read back. Of the length, only the residue is in it. -/
theorem header?_head (length : Nat) (flags : Flags) (rest : Bytes) :
    header? (head length flags ++ rest) = some (flags, length % wordBound, rest) := by
  rw [← wordOf_ofWord]
  rfl

/-- The length field of an envelope holds the residue of the length of its payload. -/
theorem header?_wrap_append (payload : Bytes) (flags : Flags) (rest : Bytes) :
    header? (wrap payload flags ++ rest) =
      some (flags, payload.length % wordBound, payload ++ rest) := by
  rw [wrap_eq_head_append, List.append_assoc, header?_head]

/-- The length field holds the length of a payload that four octets can tell. -/
theorem header?_wrap (frame : Frame) (rest : Bytes)
    (bound : frame.payload.length < wordBound) :
    header? (frame.wrap ++ rest) =
      some (frame.flags, frame.payload.length, frame.payload ++ rest) := by
  rw [Frame.wrap, header?_wrap_append, Nat.mod_eq_of_lt bound]

/-! ## The answers of a reader -/

namespace Decoder

/-- The octets held begin with a header that announces more than the reader takes. -/
def Announces (decoder : Decoder) (size : Nat) : Prop :=
  ∃ flags rest, header? decoder.pending = some (flags, size, rest)

theorem next_eq_error_iff {decoder : Decoder} {error : Error} :
    decoder.next = .error error ↔
      ∃ size, decoder.Announces size ∧ decoder.limit < size ∧
        error = .messageTooLarge size decoder.limit := by
  constructor
  · intro answer
    unfold next at answer
    split at answer
    · cases answer
    · rename_i flags length rest found
      split at answer
      · rename_i tooMuch
        cases answer
        exact ⟨length, ⟨flags, rest, found⟩, tooMuch, rfl⟩
      · split at answer <;> cases answer
  · rintro ⟨size, ⟨flags, rest, found⟩, tooMuch, rfl⟩
    simp only [next, found, tooMuch, if_true]

theorem next_eq_none_iff {decoder after : Decoder} :
    decoder.next = .ok (none, after) ↔
      after = decoder ∧
        (decoder.pending.length < headerLength ∨
          ∃ flags length rest, header? decoder.pending = some (flags, length, rest) ∧
            length ≤ decoder.limit ∧ rest.length < length) := by
  constructor
  · intro answer
    unfold next at answer
    split at answer
    · rename_i short
      cases answer
      exact ⟨rfl, Or.inl (header?_eq_none_iff.mp short)⟩
    · rename_i flags length rest found
      split at answer
      · cases answer
      · rename_i fits
        split at answer
        · rename_i cut
          cases answer
          have missing := splitAt?_eq_none_iff.mp cut
          exact ⟨rfl, Or.inr ⟨flags, length, rest, found, Nat.le_of_not_lt fits, missing⟩⟩
        · cases answer
  · rintro ⟨rfl, short | ⟨flags, length, rest, found, fits, missing⟩⟩
    · simp only [next, header?_eq_none_iff.mpr short]
    · have admitted : ¬ after.limit < length := Nat.not_lt.mpr fits
      simp only [next, found, admitted, if_false, splitAt?_eq_none_iff.mpr missing]

theorem next_eq_frame_iff {decoder after : Decoder} {frame : Frame} :
    decoder.next = .ok (some frame, after) ↔
      frame.payload.length ≤ decoder.limit ∧ frame.payload.length < wordBound ∧
        after.limit = decoder.limit ∧ decoder.pending = frame.wrap ++ after.pending := by
  constructor
  · intro answer
    unfold next at answer
    split at answer
    · cases answer
    · rename_i flags length rest found
      split at answer
      · cases answer
      · rename_i fits
        split at answer
        · cases answer
        · rename_i payload behind cut
          cases answer
          obtain ⟨bound, shape⟩ := header?_eq_some_iff.mp found
          obtain ⟨rfl, rfl⟩ := splitAt?_eq_some cut
          refine ⟨by simpa using fits, bound, rfl, ?_⟩
          rw [shape]
          simp [Frame.wrap, wrap]
  · rintro ⟨fits, bound, sameLimit, shape⟩
    have found := header?_wrap frame after.pending bound
    rw [← shape] at found
    have admitted : ¬ decoder.limit < frame.payload.length := by omega
    simp only [next, found, admitted, if_false, splitAt?_append]
    rw [← sameLimit]

theorem next_limit {decoder after : Decoder} {frame? : Option Frame}
    (answer : decoder.next = .ok (frame?, after)) :
    after.limit = decoder.limit := by
  cases frame? with
  | none =>
      obtain ⟨rfl, _⟩ := next_eq_none_iff.mp answer
      rfl
  | some frame =>
      obtain ⟨_, _, sameLimit, _⟩ := next_eq_frame_iff.mp answer
      exact sameLimit

/-- A frame takes its header and its payload off the octets held. -/
theorem next_length_lt {decoder after : Decoder} {frame : Frame}
    (answer : decoder.next = .ok (some frame, after)) :
    after.pending.length < decoder.pending.length := by
  obtain ⟨_, _, _, shape⟩ := next_eq_frame_iff.mp answer
  rw [shape, List.length_append, Frame.wrap, length_wrap, headerLength]
  omega

/-! ## Readers without a limit -/

/-- A reader that takes every length that a header can announce. -/
def unlimited (octets : Bytes) : Decoder := { limit := wordBound - 1, pending := octets }

/-- Of a payload, a reader without a limit takes as many octets as the header in front of it says.
It goes on to read behind those, inside the payload if there are more. -/
theorem next_unlimited_wrap (payload : Bytes) (flags : Flags) (rest : Bytes) :
    (unlimited (wrap payload flags ++ rest)).next =
      .ok (some ⟨flags, payload.take (payload.length % wordBound)⟩,
        unlimited (payload.drop (payload.length % wordBound) ++ rest)) := by
  have positive : 0 < wordBound := by decide
  have admitted : ¬ wordBound - 1 < payload.length % wordBound :=
    Nat.not_lt.mpr (Nat.le_sub_one_of_lt (Nat.mod_lt _ positive))
  have cut := splitAt?_append_of_le (Nat.mod_le payload.length wordBound) rest
  simp only [next, unlimited, header?_wrap_append, if_neg admitted, cut]

/-! ## More octets -/

theorem push_nil (decoder : Decoder) : decoder.push [] = decoder := by
  rw [push, List.append_nil]

theorem push_push (decoder : Decoder) (first second : Bytes) :
    (decoder.push first).push second = decoder.push (first ++ second) := by
  simp [push]

theorem next_push_of_frame {decoder after : Decoder} {frame : Frame}
    (answer : decoder.next = .ok (some frame, after)) (more : Bytes) :
    (decoder.push more).next = .ok (some frame, after.push more) := by
  obtain ⟨fits, bound, sameLimit, shape⟩ := next_eq_frame_iff.mp answer
  exact next_eq_frame_iff.mpr ⟨fits, bound, sameLimit, by simp [push, shape]⟩

theorem next_push_of_error {decoder : Decoder} {error : Error}
    (answer : decoder.next = .error error) (more : Bytes) :
    (decoder.push more).next = .error error := by
  obtain ⟨size, ⟨flags, rest, found⟩, tooMuch, rfl⟩ := next_eq_error_iff.mp answer
  exact next_eq_error_iff.mpr ⟨size, ⟨flags, rest ++ more, header?_append found more⟩, tooMuch, rfl⟩

end Decoder

end Envelope

end RpcEcho
