import RpcEcho.Proofs.Proto.Records

/-!
# Octets behind octets

What a reader takes from the front of some octets it takes as well when more octets follow. So the
records of two sequences of octets, one behind the other, are those of the first and then those of
the second. Between them may stand fields that nobody asks for: a number spelled with more octets
than it needs, content of any shape, or groups in groups.

* `Record.readOnto_append`: the records of joined octets.
* `Varint.Spells`: the spellings of a number.
* `Record.IsField`: a well-formed field, with the depth of its groups.
* `Record.readOnto_fields`: fields that nobody asks for leave what was read as it is.
-/

namespace RpcEcho

theorem Bytes.splitAt?_append_of_some {count : Nat} {octets front rest : Bytes}
    (cut : splitAt? count octets = some (front, rest)) (behind : Bytes) :
    splitAt? count (octets ++ behind) = some (front, rest ++ behind) := by
  obtain ⟨rfl, rfl⟩ := splitAt?_eq_some cut
  rw [List.append_assoc]
  exact splitAt?_append front (rest ++ behind)

namespace Proto

/-! ## Readers at the front -/

theorem Varint.readFrom_append {left scale before value : Nat} {octets after : Bytes}
    (found : readFrom left scale before octets = some (value, after)) (behind : Bytes) :
    readFrom left scale before (octets ++ behind) = some (value, after ++ behind) := by
  fun_induction readFrom left scale before octets with
  | case1 | case2 | case4 => cases found
  | case3 before scale octet rest short =>
      cases found
      rw [List.cons_append, readFrom, if_pos short]
  | case5 before scale octet rest left short =>
      cases found
      rw [List.cons_append, readFrom, if_pos short]
  | case6 before scale octet rest left goesOn inductionHypothesis =>
      rw [List.cons_append, readFrom, if_neg goesOn]
      exact inductionHypothesis found

theorem Varint.read_append {value : Nat} {octets after : Bytes}
    (found : read octets = some (value, after)) (behind : Bytes) :
    read (octets ++ behind) = some (value, after ++ behind) :=
  readFrom_append found behind

namespace Record

variable {octets after : Bytes}

theorem key?_append {key : Key} (found : key? octets = some (key, after)) (behind : Bytes) :
    key? (octets ++ behind) = some (key, after ++ behind) := by
  unfold key? at found
  split at found
  · cases found
  · rename_i value rest isRead
    split at found
    · cases found
    · rename_i inBounds
      obtain ⟨wireType, isType, same⟩ := Option.map_eq_some_iff.mp found
      cases same
      rw [key?, Varint.read_append isRead behind]
      simp only [inBounds, isType, Option.map_some, Bool.false_eq_true, if_false]

theorem delimited?_append {content : Bytes} (found : delimited? octets = some (content, after))
    (behind : Bytes) : delimited? (octets ++ behind) = some (content, after ++ behind) := by
  unfold delimited? at found
  split at found
  · cases found
  · rename_i length rest isRead
    rw [delimited?, Varint.read_append isRead behind]
    exact Bytes.splitAt?_append_of_some found behind

theorem content?_append {wireType : WireType} {content : Content}
    (found : content? wireType octets = some (content, after)) (behind : Bytes) :
    content? wireType (octets ++ behind) = some (content, after ++ behind) := by
  cases wireType with
  | varint =>
      obtain ⟨_, isRead, same⟩ := Option.map_eq_some_iff.mp found
      cases same
      rw [content?, Varint.read_append isRead behind]
      rfl
  | delimited =>
      obtain ⟨_, isRead, same⟩ := Option.map_eq_some_iff.mp found
      cases same
      rw [content?, delimited?_append isRead behind]
      rfl
  | fixed64 | fixed32 =>
      obtain ⟨_, isRead, same⟩ := Option.map_eq_some_iff.mp found
      cases same
      rw [content?, Bytes.splitAt?_append_of_some isRead behind]
      rfl
  | groupStart | groupEnd => cases found

/-! ## What one field in a group does -/

variable {rest : Bytes} {depth : Nat} {opened : List Nat} {key : Key}

theorem skipGroup?_of_start (keyRead : key? octets = some (key, rest))
    (isStart : key.wireType = .groupStart) :
    skipGroup? (depth + 1) opened octets = skipGroup? depth (key.number :: opened) rest := by
  rw [skipGroup?]
  split
  · rename_i failed
    cases failed.symm.trans keyRead
  · rename_i again
    cases again.symm.trans keyRead
    simp only [isStart]

theorem skipGroup?_of_last (keyRead : key? octets = some (key, rest))
    (isEnd : key.wireType = .groupEnd) : skipGroup? depth [key.number] octets = some rest := by
  rw [skipGroup?]
  split
  · rename_i failed
    cases failed.symm.trans keyRead
  · rename_i again
    cases again.symm.trans keyRead
    simp only [isEnd, if_true]

theorem skipGroup?_of_end (keyRead : key? octets = some (key, rest))
    (isEnd : key.wireType = .groupEnd) (isOpen : opened ≠ []) :
    skipGroup? depth (key.number :: opened) octets = skipGroup? (depth + 1) opened rest := by
  obtain ⟨outer, others, rfl⟩ := List.exists_cons_of_ne_nil isOpen
  rw [skipGroup?]
  split
  · rename_i failed
    cases failed.symm.trans keyRead
  · rename_i again
    cases again.symm.trans keyRead
    simp only [isEnd, if_true]

theorem skipGroup?_of_content (keyRead : key? octets = some (key, rest)) {content : Content}
    (contentRead : content? key.wireType rest = some (content, after)) :
    skipGroup? (depth + 1) opened octets = skipGroup? (depth + 1) opened after := by
  obtain ⟨number, wireType⟩ := key
  rw [skipGroup?]
  split
  · rename_i failed
    cases failed.symm.trans keyRead
  · rename_i again
    cases again.symm.trans keyRead
    cases wireType with
    | groupStart | groupEnd => cases contentRead
    | varint | fixed64 | delimited | fixed32 =>
        simp only
        split
        · rename_i failed
          cases failed.symm.trans contentRead
        · rename_i again
          cases again.symm.trans contentRead
          rfl

theorem skip?_eq_some_iff : skip? (depth + 1) key octets = some after ↔
    (key.wireType = .groupStart ∧ skipGroup? depth [key.number] octets = some after) ∨
      ∃ content, content? key.wireType octets = some (content, after) := by
  obtain ⟨number, wireType⟩ := key
  cases wireType with
  | groupStart | groupEnd => simp [skip?, content?]
  | varint | fixed64 | delimited | fixed32 =>
      simp only [skip?, reduceCtorEq, false_and, false_or, Option.map_eq_some_iff, Prod.exists,
        exists_eq_right]

/-! ## Groups and fields in front of more octets -/

/-- By the recursion over the fields in a group. -/
theorem skipGroup?_append (found : skipGroup? depth opened octets = some after) (behind : Bytes) :
    skipGroup? depth opened (octets ++ behind) = some (after ++ behind) := by
  fun_induction skipGroup? depth opened octets with
  | case1 | case2 | case4 | case6 | case7 | case9 | case10 => cases found
  | case3 depth octets key rest keyRead isEnd =>
      cases found
      exact skipGroup?_of_last (key?_append keyRead behind) isEnd
  | case5 depth octets key rest keyRead isEnd outer isOpen inductionHypothesis =>
      rw [skipGroup?_of_end (key?_append keyRead behind) isEnd isOpen]
      exact inductionHypothesis found
  | case8 opened octets key rest keyRead isStart deeper inductionHypothesis =>
      rw [Nat.succ_eq_add_one, skipGroup?_of_start (key?_append keyRead behind) isStart]
      exact inductionHypothesis found
  | case11 opened octets key rest keyRead deeper content after _ _ contentRead
      inductionHypothesis =>
      rw [Nat.succ_eq_add_one, skipGroup?_of_content (key?_append keyRead behind)
        (content?_append contentRead behind)]
      exact inductionHypothesis found

theorem skip?_append (found : skip? depth key octets = some after) (behind : Bytes) :
    skip? depth key (octets ++ behind) = some (after ++ behind) := by
  cases depth with
  | zero => cases found
  | succ deeper =>
      rcases skip?_eq_some_iff.mp found with ⟨isStart, skipped⟩ | ⟨content, contentRead⟩
      · exact skip?_eq_some_iff.mpr (.inl ⟨isStart, skipGroup?_append skipped behind⟩)
      · exact skip?_eq_some_iff.mpr (.inr ⟨content, content?_append contentRead behind⟩)

variable {reading : Nat → Reading}

/-- The records of joined octets are those of the first and then those of the second. By the
recursion of the reader. -/
theorem readOnto_append {before records : List (Nat × Content)}
    (found : readOnto depth reading before octets = some records) (behind : Bytes) :
    readOnto depth reading before (octets ++ behind) =
      readOnto depth reading records.reverse behind := by
  fun_induction readOnto depth reading before octets with
  | case1 before octets isEmpty =>
      cases found
      rw [List.isEmpty_iff.mp isEmpty, List.nil_append, List.reverse_reverse]
  | case2 | case3 | case5 | case7 => cases found
  | case4 before octets _ key rest keyRead unknown after skipped inductionHypothesis =>
      rw [readOnto_of_unknown (key?_append keyRead behind) unknown (skip?_append skipped behind)]
      exact inductionHypothesis found
  | case6 before octets _ key rest keyRead announced content after contentRead
      inductionHypothesis =>
      rw [readOnto_of_announced (key?_append keyRead behind) announced
        (content?_append contentRead behind)]
      exact inductionHypothesis found
  | case8 before octets _ key rest keyRead isEntry content after entryRead inductionHypothesis =>
      rw [readOnto_of_entry (key?_append keyRead behind) isEntry
        (delimited?_append entryRead behind)]
      exact inductionHypothesis found

end Record

/-! ## Numbers spelled at length -/

namespace Varint

/-- Octets spell a number, seven bits each, the lowest first. All but the last say that another
follows; the last ones may hold no more than zeros. -/
inductive Spells : Nat → Bytes → Prop
  | last {octet : UInt8} (isLast : octet < 128) : Spells octet.toNat [octet]
  | more {octet : UInt8} {value : Nat} {octets : Bytes} (goesOn : ¬ octet < 128)
      (rest : Spells value octets) : Spells (octet.toNat - 128 + 128 * value) (octet :: octets)

/-- A number of at most sixty-four bits in at most ten octets. -/
structure IsNumber (value : Nat) (octets : Bytes) : Prop where
  spells : Spells value octets
  short : octets.length ≤ 10
  fits : value < bound

theorem readFrom_of_spells {value : Nat} {octets : Bytes} (spells : Spells value octets)
    {left : Nat} (short : octets.length ≤ left + 1) (fits : value < room left)
    (scale before : Nat) (rest : Bytes) :
    readFrom (left + 1) scale before (octets ++ rest) = some (before + value * scale, rest) := by
  induction spells generalizing left scale before with
  | @last octet isLast =>
      cases left with
      | zero =>
          have isShort : octet < 2 := UInt8.lt_iff_toNat_lt.mpr fits
          rw [List.singleton_append, readFrom, if_pos isShort]
      | succ left => rw [List.singleton_append, readFrom, if_pos isLast]
  | @more octet value octets goesOn spells inductionHypothesis =>
      rw [List.length_cons] at short
      cases left with
      | zero =>
          have isEmpty : octets = [] := List.length_eq_zero_iff.mp (by omega)
          rw [isEmpty] at spells
          cases spells
      | succ left =>
          rw [room] at fits
          have shortRest : octets.length ≤ left + 1 := Nat.le_of_succ_le_succ short
          have fitsRest : value < room left := by omega
          have found := inductionHypothesis shortRest fitsRest (scale * 128)
            (before + (octet.toNat - 128) * scale)
          rw [List.cons_append, readFrom, if_neg goesOn, found]
          have whole : (octet.toNat - 128 + 128 * value) * scale =
              (octet.toNat - 128) * scale + value * (scale * 128) := by
            rw [Nat.add_mul, Nat.mul_assoc, Nat.mul_comm 128, Nat.mul_assoc]
          rw [whole, Nat.add_assoc]

theorem IsNumber.read {value : Nat} {octets : Bytes} (isNumber : IsNumber value octets)
    (rest : Bytes) : read (octets ++ rest) = some (value, rest) := by
  have tenOctets : bound = room 9 := rfl
  have short : octets.length ≤ 9 + 1 := isNumber.short
  have found := readFrom_of_spells isNumber.spells short (tenOctets ▸ isNumber.fits) 1 0 rest
  rw [Nat.zero_add, Nat.mul_one] at found
  exact found

end Varint

/-! ## Fields that nobody asks for -/

namespace Record

/-- A number spells a key: a field number and a wire type. -/
structure IsKey (number : Nat) (wireType : WireType) (octets : Bytes) : Prop where
  positive : 0 < number
  bounded : number < fieldBound
  isNumber : Varint.IsNumber (number * 8 + wireNumber wireType) octets

/-- Octets are content in the shape of a wire type. -/
inductive IsContent : WireType → Bytes → Prop
  | varint {value : Nat} {octets : Bytes} (isNumber : Varint.IsNumber value octets) :
      IsContent .varint octets
  | fixed64 {octets : Bytes} (size : octets.length = 8) : IsContent .fixed64 octets
  | delimited {length octets : Bytes} (isLength : Varint.IsNumber octets.length length) :
      IsContent .delimited (length ++ octets)
  | fixed32 {octets : Bytes} (size : octets.length = 4) : IsContent .fixed32 octets

/-- Octets are one well-formed field of a number: content behind its key, or a group of fields
between its two keys. It lies no deeper than there is room for. -/
inductive IsField : Nat → Nat → Bytes → Prop
  | content {depth number : Nat} {wireType : WireType} {key content : Bytes}
      (isKey : IsKey number wireType key) (isContent : IsContent wireType content) :
      IsField (depth + 1) number (key ++ content)
  | group {depth number : Nat} {start stop : Bytes} {fields : List (Nat × Bytes)}
      (starts : IsKey number .groupStart start)
      (inside : ∀ field ∈ fields, IsField depth field.1 field.2)
      (stops : IsKey number .groupEnd stop) :
      IsField (depth + 1) number (start ++ fields.flatMap Prod.snd ++ stop)

theorem IsKey.read {number : Nat} {wireType : WireType} {octets : Bytes}
    (isKey : IsKey number wireType octets) (rest : Bytes) :
    key? (octets ++ rest) = some (⟨number, wireType⟩, rest) :=
  key?_of_read isKey.positive isKey.bounded (isKey.isNumber.read rest)

theorem IsContent.read {wireType : WireType} {octets : Bytes}
    (isContent : IsContent wireType octets) (rest : Bytes) :
    ∃ content, content? wireType (octets ++ rest) = some (content, rest) := by
  cases isContent with
  | varint isNumber => exact ⟨_, Option.map_eq_some_iff.mpr ⟨_, isNumber.read rest, rfl⟩⟩
  | fixed64 size | fixed32 size =>
      have cut := Bytes.splitAt?_append octets rest
      rw [size] at cut
      exact ⟨_, Option.map_eq_some_iff.mpr ⟨_, cut, rfl⟩⟩
  | @delimited length octets isLength =>
      have isRead : delimited? (length ++ octets ++ rest) = some (octets, rest) := by
        rw [List.append_assoc, delimited?, isLength.read]
        exact Bytes.splitAt?_append octets rest
      exact ⟨_, Option.map_eq_some_iff.mpr ⟨_, isRead, rfl⟩⟩

/-- What each field leaves as it is, all of them leave as it is. -/
theorem pass_flatMap {β : Type} {pass : Bytes → β} {fields : List (Nat × Bytes)}
    (each : ∀ field ∈ fields, ∀ rest, pass (field.2 ++ rest) = pass rest) (rest : Bytes) :
    pass (fields.flatMap Prod.snd ++ rest) = pass rest := by
  induction fields with
  | nil => rfl
  | cons field fields inductionHypothesis =>
      rw [List.flatMap_cons, List.append_assoc, each field List.mem_cons_self]
      exact inductionHypothesis fun other member => each other (List.mem_cons_of_mem field member)

/-- In a group, a field leaves the groups that are open as they are. By induction on the field:
a group in the group opens and ends. -/
theorem skipGroup?_field {depth number : Nat} {octets : Bytes}
    (isField : IsField depth number octets) {opened : List Nat} (isOpen : opened ≠ [])
    (rest : Bytes) : skipGroup? depth opened (octets ++ rest) = skipGroup? depth opened rest := by
  induction isField generalizing opened rest with
  | content isKey isContent =>
      obtain ⟨content, contentRead⟩ := isContent.read rest
      rw [List.append_assoc]
      exact skipGroup?_of_content (isKey.read _) contentRead
  | @group depth number start stop fields starts _ stops inductionHypothesis =>
      have passes := pass_flatMap fun field member =>
        inductionHypothesis field member (List.cons_ne_nil number opened)
      rw [List.append_assoc, List.append_assoc, skipGroup?_of_start (starts.read _) rfl,
        passes, skipGroup?_of_end (stops.read _) rfl isOpen]

theorem skip?_field {depth number : Nat} {octets : Bytes} (isField : IsField depth number octets)
    (rest : Bytes) : ∃ key behind, key.number = number ∧
      key? (octets ++ rest) = some (key, behind) ∧ skip? depth key behind = some rest := by
  cases isField with
  | @content depth _ wireType key content isKey isContent =>
      obtain ⟨found, contentRead⟩ := isContent.read rest
      rw [List.append_assoc]
      exact ⟨_, _, rfl, isKey.read _, skip?_eq_some_iff.mpr (.inr ⟨found, contentRead⟩)⟩
  | @group depth _ start stop fields starts inside stops =>
      rw [List.append_assoc, List.append_assoc]
      refine ⟨_, _, rfl, starts.read _, skip?_eq_some_iff.mpr (.inl ⟨rfl, ?_⟩)⟩
      have passes := pass_flatMap fun field member =>
        skipGroup?_field (inside field member) (List.cons_ne_nil number [])
      rw [passes]
      exact skipGroup?_of_last (stops.read _) rfl

/-- Fields that nobody asks for leave what was read as it is. -/
theorem readOnto_fields {depth : Nat} {reading : Nat → Reading} {fields : List (Nat × Bytes)}
    (unknown : ∀ field ∈ fields, IsField depth field.1 field.2 ∧ reading field.1 = .unknown)
    (before : List (Nat × Content)) (rest : Bytes) :
    readOnto depth reading before (fields.flatMap Prod.snd ++ rest) =
      readOnto depth reading before rest := by
  refine pass_flatMap (fun field member rest => ?_) rest
  obtain ⟨isField, isUnknown⟩ := unknown field member
  obtain ⟨key, behind, same, keyRead, skipped⟩ := skip?_field isField rest
  exact readOnto_of_unknown keyRead ((congrArg reading same).trans isUnknown) skipped

/-- Octets, fields that nobody asks for, and records that can be read: what is read of the first is
followed by the last. -/
theorem readAll?_append {depth : Nat} {reading : Nat → Reading} {octets : Bytes}
    {found : List (Nat × Content)} (isRead : readAll? depth reading octets = some found)
    {fields : List (Nat × Bytes)}
    (unknown : ∀ field ∈ fields, IsField depth field.1 field.2 ∧ reading field.1 = .unknown)
    {records : List (Nat × Content)} (readable : ∀ record ∈ records, IsReadable reading record) :
    readAll? depth reading (octets ++ fields.flatMap Prod.snd ++ records.flatMap write) =
      some (found ++ records) := by
  rw [readAll?, List.append_assoc, readOnto_append isRead, readOnto_fields unknown,
    readOnto_records readable, List.reverse_reverse]

end Record
end Proto
end RpcEcho
