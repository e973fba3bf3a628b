import Mathlib.Data.Nat.Digits.Defs
import RpcEcho.Proofs.Text.Ends
import RpcEcho.Proofs.Timeout.Words

/-!
# The grammar of timeouts

What a timeout looks like, said without a reader: a few ASCII digits, behind them the letter of a
unit where the protocol asks for one, and blanks around the whole. The first value of the header of
the protocol tells a timeout exactly if it looks like that, and the timeout is the exact product.

* `Timeout.Spells`: the texts that spell a timeout in a protocol.
* `Timeout.Asks`: the requests that ask for a timeout.
* `Timeout.ofHeaders?_exact`: these are the timeouts that are read, and no size of a number and no
  place of a cut make the reading fail.
-/

namespace RpcEcho.Timeout

/-! ## The grammar -/

/-- Some characters spell an amount: between one and `most` digits, the last one counting ones. -/
structure IsAmount (most : Nat) (digits : List Char) (amount : Nat) : Prop where
  notEmpty : digits ≠ []
  few : digits.length ≤ most
  areDigits : ∀ c ∈ digits, '0' ≤ c ∧ c ≤ '9'
  number : amount = Nat.ofDigits 10 (digits.reverse.map fun c => c.toNat - '0'.toNat)

/-- The letters of hours, minutes, seconds, milliseconds, microseconds and nanoseconds, with the
nanoseconds of each. -/
def units : List (Char × Nat) :=
  [('H', 60 * 60 * 10 ^ 9), ('M', 60 * 10 ^ 9), ('S', 10 ^ 9), ('m', 10 ^ 6), ('u', 10 ^ 3),
    ('n', 1)]

/-- Some characters spell a timeout in a protocol: so many nanoseconds. -/
inductive Spells : Protocol → List Char → Nat → Prop
  | millis {digits : List Char} {amount : Nat} (isAmount : IsAmount 10 digits amount)
      (positive : 0 < amount) : Spells .connect digits (amount * 10 ^ 6)
  | unit {protocol : Protocol} {digits : List Char} {letter : Char} {amount nanos : Nat}
      (hasUnits : protocol = .grpc ∨ protocol = .grpcWeb) (isAmount : IsAmount 8 digits amount)
      (isUnit : (letter, nanos) ∈ units) : Spells protocol (digits ++ [letter]) (amount * nanos)

/-- The octets of a value are those of some characters with spaces and tabs around them. -/
def Surrounds (value : Bytes) (core : List Char) : Prop :=
  ∃ before after : Bytes, (∀ octet ∈ before, octet = 0x20 ∨ octet = 0x09) ∧
    (∀ octet ∈ after, octet = 0x20 ∨ octet = 0x09) ∧
    value = before ++ (Utf8.encode (String.ofList core) ++ after)

/-- The headers of a request ask for a timeout: the first value of the header of the protocol
spells it. -/
inductive Asks : WireFormat → Headers → Nat → Prop
  | connect {wire : WireFormat} {headers : Headers} {value : Bytes} {core : List Char} {nanos : Nat}
      (format : wire.protocol = .connect)
      (isFirst : headers.first? "connect-timeout-ms" = some value)
      (surrounds : Surrounds value core) (spells : Spells wire.protocol core nanos) :
      Asks wire headers nanos
  | grpc {wire : WireFormat} {headers : Headers} {value : Bytes} {core : List Char} {nanos : Nat}
      (format : wire.protocol = .grpc ∨ wire.protocol = .grpcWeb)
      (isFirst : headers.first? "grpc-timeout" = some value)
      (surrounds : Surrounds value core) (spells : Spells wire.protocol core nanos) :
      Asks wire headers nanos

/-! ## Amounts and units -/

theorem value_eq_ofDigits (digits : List Char) :
    Decimal.value digits = Nat.ofDigits 10 (digits.reverse.map fun c => c.toNat - '0'.toNat) := by
  induction digits using List.reverseRecOn with
  | nil => rfl
  | append_singleton front last inductionHypothesis =>
      rw [Decimal.value_concat, List.reverse_append, List.reverse_singleton, List.singleton_append,
        List.map_cons, Nat.ofDigits_cons, inductionHypothesis, Nat.mul_comm, Nat.add_comm]
      rfl

theorem isDigit_iff {c : Char} : c.isDigit = true ↔ '0' ≤ c ∧ c ≤ '9' := by
  rw [Char.isDigit, Bool.and_eq_true, decide_eq_true_eq, decide_eq_true_eq]
  rfl

theorem amount?_eq_some_iff {most amount : Nat} {digits : List Char} :
    amount? most digits = some amount ↔ IsAmount most digits amount := by
  rw [amount?]
  constructor
  · intro found
    split at found
    · cases found
    · rename_i few
      obtain ⟨notEmpty, areDigits, number⟩ := Decimal.read?_eq_some_iff.mp found
      exact {
        notEmpty
        few := Nat.not_lt.mp few
        areDigits := fun c member => isDigit_iff.mp (areDigits c member)
        number := by rw [← number, value_eq_ofDigits] }
  · intro isAmount
    rw [if_neg (Nat.not_lt.mpr isAmount.few)]
    refine Decimal.read?_eq_some_iff.mpr ⟨isAmount.notEmpty, fun c member => ?_, ?_⟩
    · exact isDigit_iff.mpr (isAmount.areDigits c member)
    · rw [isAmount.number, value_eq_ofDigits]

theorem unit?_eq_some_iff {letter : Char} {nanos : Nat} :
    unit? letter = some nanos ↔ (letter, nanos) ∈ units := by
  constructor
  · intro found
    unfold unit? at found
    split at found
    all_goals cases found
    all_goals decide
  · intro member
    simp only [units, List.mem_cons, Prod.mk.injEq, List.not_mem_nil, or_false] at member
    rcases member with ⟨rfl, rfl⟩ | ⟨rfl, rfl⟩ | ⟨rfl, rfl⟩ | ⟨rfl, rfl⟩ | ⟨rfl, rfl⟩ | ⟨rfl, rfl⟩
    all_goals rfl

/-! ## Texts -/

theorem ofMillis?_eq_some_iff {text : String} {nanos : Nat} :
    ofMillis? text = some nanos ↔ Spells .connect text.toList nanos := by
  rw [ofMillis?]
  constructor
  · intro found
    cases isAmount : amount? 10 text.toList with
    | none =>
        rw [isAmount] at found
        cases found
    | some amount =>
        rw [isAmount] at found
        simp only at found
        split at found
        · cases found
        · rename_i notZero
          cases found
          exact .millis (amount?_eq_some_iff.mp isAmount) (Nat.pos_of_ne_zero notZero)
  · generalize text.toList = chars
    intro spells
    cases spells with
    | millis isAmount positive =>
        rw [amount?_eq_some_iff.mpr isAmount]
        exact if_neg (Nat.ne_of_gt positive)
    | unit hasUnits _ _ => exact absurd hasUnits (by decide)

theorem ofUnit?_eq_some_iff {protocol : Protocol}
    (hasUnits : protocol = .grpc ∨ protocol = .grpcWeb) {text : String} {nanos : Nat} :
    ofUnit? text = some nanos ↔ Spells protocol text.toList nanos := by
  rw [ofUnit?]
  generalize text.toList = chars
  constructor
  · intro found
    rcases List.eq_nil_or_concat chars with rfl | ⟨digits, letter, rfl⟩
    · cases found
    · rw [List.concat_eq_append] at found ⊢
      simp only [List.reverse_append, List.reverse_singleton, List.singleton_append,
        List.reverse_reverse] at found
      split at found
      · rename_i amount unit isAmount isUnit
        cases found
        exact .unit hasUnits (amount?_eq_some_iff.mp isAmount) (unit?_eq_some_iff.mp isUnit)
      · cases found
  · intro spells
    cases spells with
    | millis _ _ => exact absurd hasUnits (by decide)
    | unit _ isAmount isUnit =>
        simp only [List.reverse_append, List.reverse_singleton, List.singleton_append,
          List.reverse_reverse, amount?_eq_some_iff.mpr isAmount, unit?_eq_some_iff.mpr isUnit]

/-- A text is read as a timeout exactly if it spells one. -/
theorem ofText?_eq_some_iff {protocol : Protocol} {text : String} {nanos : Nat} :
    ofText? protocol text = some nanos ↔ Spells protocol text.toList nanos := by
  cases protocol with
  | connect => exact ofMillis?_eq_some_iff
  | grpc => exact ofUnit?_eq_some_iff (Or.inl rfl)
  | grpcWeb => exact ofUnit?_eq_some_iff (Or.inr rfl)

/-! ## Blanks around a text -/

/-- The characters of a timeout are visible ASCII. -/
theorem Spells.visible {protocol : Protocol} {core : List Char} {nanos : Nat}
    (spells : Spells protocol core nanos) : ∀ c ∈ core, 0x20 < c.toNat ∧ c.toNat < 0x7F := by
  have ofDigit {most amount : Nat} {digits : List Char} (isAmount : IsAmount most digits amount) :
      ∀ c ∈ digits, 0x20 < c.toNat ∧ c.toNat < 0x7F := by
    intro c member
    obtain ⟨low, high⟩ := isAmount.areDigits c member
    exact ⟨Nat.lt_of_lt_of_le (by decide) low, Nat.lt_of_le_of_lt high (by decide)⟩
  have ofUnit : ∀ unit ∈ units, 0x20 < unit.1.toNat ∧ unit.1.toNat < 0x7F := by decide
  cases spells with
  | millis isAmount _ => exact ofDigit isAmount
  | unit _ isAmount isUnit =>
      intro c member
      rcases List.mem_append.mp member with inDigits | isLetter
      · exact ofDigit isAmount c inDigits
      · rw [List.mem_singleton.mp isLetter]
        exact ofUnit _ isUnit

theorem trim_eq (text : String) :
    Text.trim text = String.ofList (dropEnds Text.isBlank text.toList) := rfl

theorem isBlank_eq_false {c : Char} (visible : 0x20 < c.toNat ∧ c.toNat < 0x7F) :
    Text.isBlank c = false := by
  rw [← Bool.not_eq_true]
  simp only [Text.isBlank, Bool.or_eq_true, Bool.and_eq_true, decide_eq_true_eq, beq_iff_eq]
  omega

/-- The character of an octet. -/
def charOf (octet : UInt8) : Char := Char.ofNat octet.toNat

/-- Blanks that the text of a header value can hold are spaces and tabs. -/
theorem isBlank_charOf_iff {octet : UInt8} (isText : HeaderValue.isTextOctet octet = true) :
    Text.isBlank (charOf octet) = true ↔ octet = 0x20 ∨ octet = 0x09 := by
  have ascii := HeaderValue.toNat_lt_of_isTextOctet isText
  simp only [HeaderValue.isTextOctet, Bool.or_eq_true, Bool.and_eq_true, decide_eq_true_eq,
    beq_iff_eq, UInt8.le_iff_toNat_le, UInt8.lt_iff_toNat_lt, ← UInt8.toNat_inj,
    UInt8.reduceToNat] at isText
  rw [charOf]
  simp only [Text.isBlank, HeaderValue.toNat_ofNat_of_ascii ascii, Bool.or_eq_true,
    Bool.and_eq_true, decide_eq_true_eq, beq_iff_eq, ← UInt8.toNat_inj, UInt8.reduceToNat]
  omega

theorem Spells.isTextOctet {protocol : Protocol} {core : List Char} {nanos : Nat}
    (spells : Spells protocol core nanos) :
    ∀ octet ∈ Utf8.encode (String.ofList core), HeaderValue.isTextOctet octet = true := by
  have ascii : ∀ c ∈ core, c.toNat < 128 :=
    fun c member => Nat.lt_succ_of_lt (spells.visible c member).2
  rw [Utf8.encode_ofList_of_ascii ascii]
  intro octet member
  obtain ⟨c, inCore, rfl⟩ := List.mem_map.mp member
  obtain ⟨low, high⟩ := spells.visible c inCore
  simp only [HeaderValue.isTextOctet, Bool.or_eq_true, Bool.and_eq_true, decide_eq_true_eq,
    UInt8.le_iff_toNat_le, UInt8.lt_iff_toNat_lt, HeaderValue.toNat_octet (ascii c inCore)]
  exact Or.inl ⟨Nat.le_of_lt low, high⟩

/-- The value of a header is read as a timeout exactly if one stands between its blanks. -/
theorem ofText?_trim_eq_some_iff {protocol : Protocol} {value : Bytes} {nanos : Nat} :
    ((HeaderValue.text? value).bind fun text => ofText? protocol (Text.trim text)) = some nanos ↔
      ∃ core, Surrounds value core ∧ Spells protocol core nanos := by
  constructor
  · intro found
    obtain ⟨text, isText, read⟩ := Option.bind_eq_some_iff.mp found
    obtain ⟨textOctets, rfl⟩ := HeaderValue.text?_eq_some_iff.mp isText
    have spells := ofText?_eq_some_iff.mp read
    -- Blanks are dropped from the characters just as from the octets.
    have dropped : dropEnds Text.isBlank (value.map charOf) =
        (dropEnds (Text.isBlank ∘ charOf) value).map charOf := by
      simp only [dropEnds, List.dropWhile_map, ← List.map_reverse]
    obtain ⟨before, after, beforeBlank, afterBlank, parts⟩ :=
      exists_dropEnds (Text.isBlank ∘ charOf) value
    rw [trim_eq, String.toList_ofList, String.toList_ofList] at spells
    change Spells protocol (dropEnds Text.isBlank (value.map charOf)) nanos at spells
    rw [dropped] at spells
    generalize dropEnds (Text.isBlank ∘ charOf) value = core at parts spells
    subst parts
    simp only [List.mem_append] at textOctets
    refine ⟨core.map charOf, ⟨before, after, ?_, ?_, ?_⟩, spells⟩
    · intro octet member
      exact (isBlank_charOf_iff (textOctets octet (Or.inl member))).mp (beforeBlank octet member)
    · intro octet member
      exact (isBlank_charOf_iff (textOctets octet (Or.inr (Or.inr member)))).mp
        (afterBlank octet member)
    · have same : Utf8.encode (String.ofList (core.map charOf)) = core :=
        HeaderValue.encode_ofOctets fun octet member =>
          HeaderValue.toNat_lt_of_isTextOctet (textOctets octet (Or.inr (Or.inl member)))
      rw [same]
  · rintro ⟨core, ⟨before, after, beforeBlank, afterBlank, rfl⟩, spells⟩
    have blankIsText {octet : UInt8} (blank : octet = 0x20 ∨ octet = 0x09) :
        HeaderValue.isTextOctet octet = true := by
      rcases blank with rfl | rfl <;> rfl
    have passes {octets : Bytes} (blank : ∀ octet ∈ octets, octet = 0x20 ∨ octet = 0x09) :
        ∀ c ∈ octets.map charOf, Text.isBlank c = true := by
      intro c member
      obtain ⟨octet, inOctets, rfl⟩ := List.mem_map.mp member
      exact (isBlank_charOf_iff (blankIsText (blank octet inOctets))).mpr (blank octet inOctets)
    have textOctets : ∀ octet ∈ before ++ (Utf8.encode (String.ofList core) ++ after),
        HeaderValue.isTextOctet octet = true := by
      intro octet member
      rcases List.mem_append.mp member with inBefore | behind
      · exact blankIsText (beforeBlank octet inBefore)
      · rcases List.mem_append.mp behind with inCore | inAfter
        · exact spells.isTextOctet octet inCore
        · exact blankIsText (afterBlank octet inAfter)
    have back : (Utf8.encode (String.ofList core)).map charOf = core := by
      have ascii : IsAscii (String.ofList core) := by
        intro c member
        rw [String.toList_ofList] at member
        exact Nat.lt_succ_of_lt (spells.visible c member).2
      have same := congrArg String.toList (HeaderValue.ofList_map_encode ascii)
      rwa [String.toList_ofList, String.toList_ofList] at same
    have kept : dropEnds Text.isBlank core = core := by
      have noBlank {c : Char} (member : c ∈ core) : ¬ Text.isBlank c = true := by
        rw [isBlank_eq_false (spells.visible c member)]
        exact Bool.false_ne_true
      exact dropEnds_eq_self_iff.mpr ⟨fun first isFirst => noBlank (List.mem_of_mem_head? isFirst),
        fun last isLast => noBlank (List.mem_of_mem_getLast? isLast)⟩
    rw [HeaderValue.text?_eq_some_iff.mpr ⟨textOctets, rfl⟩, Option.bind_some, ofText?_eq_some_iff,
      trim_eq, String.toList_ofList, String.toList_ofList]
    change Spells protocol (dropEnds Text.isBlank ((before ++
      (Utf8.encode (String.ofList core) ++ after)).map charOf)) nanos
    rw [List.map_append, List.map_append, dropEnds_append (passes beforeBlank) (passes afterBlank),
      back, kept]
    exact spells

/-! ## Requests -/

theorem ofHeaders?_eq_some_iff {wire : WireFormat} {headers : Headers} {nanos : Nat} :
    ofHeaders? wire headers = some nanos ↔ Asks wire headers nanos := by
  rw [ofHeaders?_eq, Headers.firstText?, Option.bind_assoc]
  constructor
  · intro found
    obtain ⟨value, isFirst, read⟩ := Option.bind_eq_some_iff.mp found
    obtain ⟨core, surrounds, spells⟩ := ofText?_trim_eq_some_iff.mp read
    cases wire with
    | connectUnary codec => exact .connect rfl isFirst surrounds spells
    | connectStream codec => exact .connect rfl isFirst surrounds spells
    | grpc codec => exact .grpc (Or.inl rfl) isFirst surrounds spells
    | grpcWeb codec => exact .grpc (Or.inr rfl) isFirst surrounds spells
  · intro asks
    have own : ∃ value core, headers.first? (headerName wire) = some value ∧
        Surrounds value core ∧ Spells wire.protocol core nanos := by
      cases asks with
      | connect format isFirst surrounds spells =>
          rw [headerName, format]
          exact ⟨_, _, isFirst, surrounds, format ▸ spells⟩
      | grpc format isFirst surrounds spells =>
          refine ⟨_, _, ?_, surrounds, spells⟩
          rcases format with isGrpc | isGrpcWeb
          · rw [headerName, isGrpc]
            exact isFirst
          · rw [headerName, isGrpcWeb]
            exact isFirst
    obtain ⟨value, core, isFirst, surrounds, spells⟩ := own
    rw [isFirst, Option.bind_some]
    exact ofText?_trim_eq_some_iff.mpr ⟨core, surrounds, spells⟩

/-- The timeouts of the grammar are the ones that are read, from headers and from all other texts.
Reading in words cuts no product off and refuses no number for its size, and it gives the same spans
of time. -/
theorem ofHeaders?_exact (wire : WireFormat) (headers : Headers) :
    (∀ nanos, ofHeaders? wire headers = some nanos ↔ Asks wire headers nanos) ∧
      (ofHeaders? wire headers = none ↔ ¬ ∃ nanos, Asks wire headers nanos) ∧
      (∃ span?, Words.ofHeaders? wire headers = .ok span? ∧
        span?.map Span.toNanos = ofHeaders? wire headers) ∧
      ∀ text : String,
        (∀ nanos, ofText? wire.protocol text = some nanos ↔
          Spells wire.protocol text.toList nanos) ∧
        ∃ span?, Words.read? wire.protocol (Utf8.encode text) = .ok span? ∧
          span?.map Span.toNanos = ofText? wire.protocol text := by
  refine ⟨fun nanos => ofHeaders?_eq_some_iff, ?_, Words.exists_ofHeaders? wire headers,
    fun text => ⟨fun nanos => ofText?_eq_some_iff, Words.exists_read? wire.protocol text⟩⟩
  simp only [Option.eq_none_iff_forall_ne_some, ne_eq, ofHeaders?_eq_some_iff, not_exists]

end RpcEcho.Timeout
