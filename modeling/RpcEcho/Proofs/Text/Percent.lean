import RpcEcho.Percent
import RpcEcho.Proofs.Header.Map
import RpcEcho.Proofs.Text.Ends
import RpcEcho.Proofs.Text.Lenient

/-!
# Percent coding there and back

Every octet is read back from its written form, whatever follows, so a message is read back from
the header that holds it. Only the space among the blanks is written as it stands: a reader that
drops blanks at the ends of the header drops the spaces at the ends of the message.
-/

namespace RpcEcho.Percent

/-! ## Octets -/

theorem hexValue?_upperHexDigit {value : Nat} (small : value < 16) :
    Bytes.hexValue? (Bytes.upperHexDigit value) = some value := by
  revert value
  decide

/-- What was read before stays in front of what is read. -/
theorem decodeOnto_append (more read written : Bytes) :
    decodeOnto (read ++ more) written = more.reverse ++ decodeOnto read written := by
  fun_induction decodeOnto read written with
  | case1 read =>
      rw [decodeOnto, List.reverse_append]
  | case2 read first inductionHypothesis =>
      rw [decodeOnto.eq_2, ← List.cons_append, inductionHypothesis]
  | case3 read first second inductionHypothesis =>
      rw [decodeOnto.eq_3, ← List.cons_append, inductionHypothesis]
  | case4 read high low rest highValue lowValue isHigh isLow inductionHypothesis =>
      rw [decodeOnto, if_pos rfl]
      simp only [isHigh, isLow]
      rw [← List.cons_append, inductionHypothesis]
  | case5 read high low rest noEscape inductionHypothesis =>
      rw [decodeOnto, if_pos rfl]
      split
      next highValue lowValue isHigh isLow => exact absurd isLow (noEscape _ _ isHigh)
      next => rw [← List.cons_append, inductionHypothesis]
  | case6 read first high low rest noMark inductionHypothesis =>
      rw [decodeOnto, if_neg noMark, ← List.cons_append, inductionHypothesis]

theorem decodeOnto_singleton (octet : UInt8) (written : Bytes) :
    decodeOnto [octet] written = octet :: decodeOctets written :=
  decodeOnto_append [octet] [] written

theorem decodeOctets_cons_of_ne {octet : UInt8} (noMark : octet ≠ 0x25) (rest : Bytes) :
    decodeOctets (octet :: rest) = octet :: decodeOctets rest := by
  rw [← decodeOnto_singleton]
  match rest with
  | [] => rw [decodeOctets, decodeOnto.eq_2]
  | [second] => rw [decodeOctets, decodeOnto.eq_3]
  | high :: low :: behind => rw [decodeOctets, decodeOnto, if_neg noMark]

theorem decodeOctets_escape {highValue lowValue : Nat} (high : highValue < 16)
    (low : lowValue < 16) (rest : Bytes) :
    decodeOctets (0x25 :: Bytes.upperHexDigit highValue :: Bytes.upperHexDigit lowValue :: rest) =
      UInt8.ofNat (highValue * 16 + lowValue) :: decodeOctets rest := by
  rw [← decodeOnto_singleton, decodeOctets, decodeOnto, if_pos rfl]
  simp only [hexValue?_upperHexDigit high, hexValue?_upperHexDigit low]

/-- An octet is read back from its written form, and reading goes on behind it. -/
theorem decodeOctets_encodeOctet_append (octet : UInt8) (rest : Bytes) :
    decodeOctets (encodeOctet octet ++ rest) = octet :: decodeOctets rest := by
  by_cases plain : isPlain octet = true
  · have noMark : octet ≠ 0x25 := by
      intro isMark
      rw [isMark] at plain
      exact absurd plain (by decide)
    rw [encodeOctet, if_pos plain, List.singleton_append, decodeOctets_cons_of_ne noMark]
  · have below : octet.toNat < 256 := octet.toNat_lt_size
    have restored : UInt8.ofNat (octet.toNat / 16 * 16 + octet.toNat % 16) = octet := by
      rw [Nat.div_add_mod' octet.toNat 16]
      exact UInt8.ofNat_toNat
    rw [encodeOctet, if_neg plain, List.cons_append, List.cons_append, List.cons_append,
      List.nil_append, decodeOctets_escape (by omega) (by omega), restored]

theorem decodeOctets_encodeOctets_append (octets rest : Bytes) :
    decodeOctets (encodeOctets octets ++ rest) = octets ++ decodeOctets rest := by
  induction octets with
  | nil => rfl
  | cons octet behind inductionHypothesis =>
      rw [encodeOctets, List.flatMap_cons, List.append_assoc, decodeOctets_encodeOctet_append,
        List.cons_append]
      exact congrArg (octet :: ·) inductionHypothesis

theorem decodeOctets_encodeOctets (octets : Bytes) :
    decodeOctets (encodeOctets octets) = octets := by
  have behind := decodeOctets_encodeOctets_append octets []
  rw [List.append_nil] at behind
  rw [behind, decodeOctets, decodeOnto, List.reverse_nil, List.append_nil]

/-- A message is read back from the header that holds it. -/
theorem decode_encode (text : String) : decode (encode text) = text := by
  rw [decode, encode, decodeOctets_encodeOctets, Utf8.decodeLenient_encode]

/-! ## Which octets are written -/

theorem upperHexDigit_range {value : Nat} (small : value < 16) :
    0x30 ≤ Bytes.upperHexDigit value ∧ Bytes.upperHexDigit value ≤ 0x46 := by
  revert value
  decide

/-- What is written for an octet: the octet, or the mark and two digits. -/
theorem mem_encodeOctet {octet written : UInt8} (member : written ∈ encodeOctet octet) :
    isPlain octet = true ∧ written = octet ∨
      isPlain octet = false ∧ 0x25 ≤ written ∧ written ≤ 0x46 := by
  by_cases plain : isPlain octet = true
  · rw [encodeOctet, if_pos plain, List.mem_singleton] at member
    exact .inl ⟨plain, member⟩
  · have below : octet.toNat < 256 := octet.toNat_lt_size
    have aboveMark : (0x25 : UInt8) ≤ 0x30 := by decide
    rw [encodeOctet, if_neg plain] at member
    refine .inr ⟨Bool.eq_false_iff.mpr plain, ?_⟩
    rcases List.mem_cons.mp member with isMark | isDigit
    · rw [isMark]
      decide
    · obtain ⟨value, small, isDigit⟩ :
          ∃ value, value < 16 ∧ written = Bytes.upperHexDigit value := by
        rcases List.mem_cons.mp isDigit with isHigh | isLow
        · exact ⟨_, by omega, isHigh⟩
        · exact ⟨_, by omega, List.mem_singleton.mp isLow⟩
      obtain ⟨atLeast, atMost⟩ := upperHexDigit_range small
      rw [isDigit]
      exact ⟨UInt8.le_trans aboveMark atLeast, atMost⟩

theorem encodeOctet_ne_nil (octet : UInt8) : encodeOctet octet ≠ [] := by
  unfold encodeOctet
  split <;> exact List.cons_ne_nil _ _

/-- A header admits what is written, as text. -/
theorem isTextOctet_of_mem_encodeOctet {octet written : UInt8}
    (member : written ∈ encodeOctet octet) : HeaderValue.isTextOctet written = true := by
  rcases mem_encodeOctet member with ⟨plain, rfl⟩ | ⟨_, atLeast, atMost⟩
  · simp only [isPlain, Bool.and_eq_true, decide_eq_true_eq, UInt8.le_iff_toNat_le] at plain
    simp only [HeaderValue.isTextOctet, Bool.or_eq_true, Bool.and_eq_true, decide_eq_true_eq,
      UInt8.le_iff_toNat_le, UInt8.lt_iff_toNat_lt, UInt8.reduceToNat] at plain ⊢
    omega
  · simp only [HeaderValue.isTextOctet, Bool.or_eq_true, Bool.and_eq_true, decide_eq_true_eq,
      UInt8.le_iff_toNat_le, UInt8.lt_iff_toNat_lt, UInt8.reduceToNat] at atLeast atMost ⊢
    omega

theorem all_isTextOctet_encode (text : String) :
    (encode text).all HeaderValue.isTextOctet = true := by
  rw [List.all_eq_true]
  intro written member
  obtain ⟨octet, _, inOctet⟩ := List.mem_flatMap.mp member
  exact isTextOctet_of_mem_encodeOctet inOctet

theorem isValid_encode (text : String) : HeaderValue.isValid (encode text) = true :=
  HeaderValue.isValid_of_text? (if_pos (all_isTextOctet_encode text))

/-! ## Blanks at the ends -/

theorem isBlank_of_le {octet : UInt8} (visible : 0x20 ≤ octet) :
    Bytes.isBlank octet = (octet == 0x20) := by
  rw [UInt8.le_iff_toNat_le] at visible
  rw [Bool.eq_iff_iff]
  simp only [Bytes.isBlank, Bool.or_eq_true, beq_iff_eq, ← UInt8.toNat_inj, UInt8.reduceToNat]
    at visible ⊢
  omega

/-- What is written for an octet is blank only if it is written for a space. -/
theorem isBlank_of_mem_encodeOctet {octet written : UInt8} (member : written ∈ encodeOctet octet) :
    Bytes.isBlank written = (octet == 0x20) := by
  rcases mem_encodeOctet member with ⟨plain, rfl⟩ | ⟨notPlain, atLeast, _⟩
  · simp only [isPlain, Bool.and_eq_true, decide_eq_true_eq] at plain
    exact isBlank_of_le plain.1.1
  · have noSpace : octet ≠ 0x20 := by
      intro isSpace
      rw [isSpace] at notPlain
      exact absurd notPlain (by decide)
    have visible : (0x20 : UInt8) ≤ written := UInt8.le_trans (by decide) atLeast
    have noBlank : written ≠ 0x20 := by
      intro isSpace
      rw [isSpace] at atLeast
      exact absurd atLeast (by decide)
    rw [isBlank_of_le visible, beq_eq_false_iff_ne.mpr noBlank, beq_eq_false_iff_ne.mpr noSpace]

/-- A header without the blanks at its ends holds the message without the spaces at its ends. -/
theorem trim_encode (text : String) :
    Bytes.trim (encode text) = encode (Text.withoutOuterSpaces text) := by
  have dropped : Bytes.trim (encode text) =
      encodeOctets (dropEnds (· == 0x20) (Utf8.encode text)) :=
    dropEnds_flatMap encodeOctet_ne_nil (fun _ _ member => isBlank_of_mem_encodeOctet member) _
  rw [dropped, encode, Utf8.encode_withoutOuterSpaces]

theorem decode_trim_encode (text : String) :
    decode (Bytes.trim (encode text)) = Text.withoutOuterSpaces text := by
  rw [trim_encode, decode_encode]

end RpcEcho.Percent
