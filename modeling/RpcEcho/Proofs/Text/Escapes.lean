import RpcEcho.Proofs.Text.Percent

/-!
# Percent signs in coded messages

A percent sign opens an escape exactly if two hexadecimal digits stand behind it, and no digit is a
percent sign, so reading can always be cut in front of one. A message is therefore read back from
the front of any octets, and a percent sign that opens no escape is read as it stands, wherever it
stands. In what is written every percent sign opens an escape.
-/

namespace RpcEcho.Percent

/-! ## Escapes -/

/-- The hexadecimal digits that are written. -/
def IsCapitalDigit (octet : UInt8) : Prop :=
  0x30 ≤ octet ∧ octet ≤ 0x39 ∨ 0x41 ≤ octet ∧ octet ≤ 0x46

/-- The hexadecimal digits that are read. -/
def IsHexDigit (octet : UInt8) : Prop := IsCapitalDigit octet ∨ 0x61 ≤ octet ∧ octet ≤ 0x66

/-- Octets that make an escape with a percent sign in front of them. -/
def CompletesEscape (octets : Bytes) : Prop :=
  ∃ high low rest, octets = high :: low :: rest ∧ IsHexDigit high ∧ IsHexDigit low

/-- No percent sign opens an escape. -/
def HasNoEscape (octets : Bytes) : Prop :=
  ∀ front behind, octets = front ++ 0x25 :: behind → ¬ CompletesEscape behind

/-- Every percent sign opens an escape of two capital digits. -/
def EscapesCapitally (octets : Bytes) : Prop :=
  ∀ front behind, octets = front ++ 0x25 :: behind →
    ∃ high low rest, behind = high :: low :: rest ∧ IsCapitalDigit high ∧ IsCapitalDigit low

instance (octet : UInt8) : Decidable (IsCapitalDigit octet) :=
  inferInstanceAs (Decidable (_ ∧ _ ∨ _ ∧ _))

instance (octet : UInt8) : Decidable (IsHexDigit octet) :=
  inferInstanceAs (Decidable (_ ∨ _ ∧ _))

theorem isSome_hexValue?_iff (octet : UInt8) :
    (Bytes.hexValue? octet).isSome = true ↔ IsHexDigit octet := by
  simp only [Bytes.hexValue?, IsHexDigit, IsCapitalDigit, Bool.and_eq_true, decide_eq_true_eq]
  split
  · simp_all
  · split
    · simp_all
    · split <;> simp_all

theorem not_isHexDigit_mark : ¬ IsHexDigit 0x25 := by decide

theorem completesEscape_cons_cons {high low : UInt8} {rest : Bytes} :
    CompletesEscape (high :: low :: rest) ↔ IsHexDigit high ∧ IsHexDigit low := by
  constructor
  · rintro ⟨_, _, _, same, isHigh, isLow⟩
    cases same
    exact ⟨isHigh, isLow⟩
  · rintro ⟨isHigh, isLow⟩
    exact ⟨high, low, rest, rfl, isHigh, isLow⟩

theorem not_completesEscape_nil : ¬ CompletesEscape [] := by
  rintro ⟨_, _, _, same, _⟩
  cases same

theorem not_completesEscape_singleton (octet : UInt8) : ¬ CompletesEscape [octet] := by
  rintro ⟨_, _, _, same, _⟩
  cases same

theorem hasNoEscape_nil : HasNoEscape [] := by
  intro front behind same
  exact absurd same.symm (List.append_ne_nil_of_right_ne_nil _ (List.cons_ne_nil _ _))

theorem hasNoEscape_cons {first : UInt8} {rest : Bytes} :
    HasNoEscape (first :: rest) ↔ (first = 0x25 → ¬ CompletesEscape rest) ∧ HasNoEscape rest := by
  constructor
  · intro noEscape
    constructor
    · rintro rfl
      exact noEscape [] rest rfl
    · rintro front behind rfl
      exact noEscape (first :: front) behind rfl
  · rintro ⟨opensNone, noEscape⟩ front behind same
    cases front with
    | nil =>
        cases same
        exact opensNone rfl
    | cons _ front =>
        cases same
        exact noEscape front behind rfl

instance : DecidablePred CompletesEscape
  | [] => isFalse not_completesEscape_nil
  | [octet] => isFalse (not_completesEscape_singleton octet)
  | _ :: _ :: _ => decidable_of_iff _ completesEscape_cons_cons.symm

instance decidableHasNoEscape : DecidablePred HasNoEscape
  | [] => isTrue hasNoEscape_nil
  | _ :: rest =>
    have := decidableHasNoEscape rest
    decidable_of_iff _ hasNoEscape_cons.symm

/-! ## Reading -/

/-- An octet that opens no escape is read as it stands. -/
theorem decodeOnto_cons {first : UInt8} {rest : Bytes}
    (opensNone : first = 0x25 → ¬ CompletesEscape rest) (read : Bytes) :
    decodeOnto read (first :: rest) = decodeOnto (first :: read) rest := by
  match rest with
  | [] => rw [decodeOnto.eq_2]
  | [second] => rw [decodeOnto.eq_3]
  | high :: low :: behind =>
      rw [decodeOnto]
      split
      next isMark =>
        split
        next highValue lowValue isHigh isLow =>
          refine absurd (completesEscape_cons_cons.mpr ⟨?_, ?_⟩) (opensNone isMark)
          · exact (isSome_hexValue?_iff high).mp (Option.isSome_of_mem isHigh)
          · exact (isSome_hexValue?_iff low).mp (Option.isSome_of_mem isLow)
        next => rfl
      next => rfl

theorem decodeOctets_cons {first : UInt8} {rest : Bytes}
    (opensNone : first = 0x25 → ¬ CompletesEscape rest) :
    decodeOctets (first :: rest) = first :: decodeOctets rest := by
  rw [decodeOctets, decodeOnto_cons opensNone, decodeOnto_singleton]

/-- Octets can be cut in front of a percent sign: no escape reaches across it. -/
theorem decodeOnto_append_mark (read front behind : Bytes) :
    decodeOnto read (front ++ 0x25 :: behind) =
      decodeOnto read front ++ decodeOctets (0x25 :: behind) := by
  fun_induction decodeOnto read front with
  | case1 read => exact decodeOnto_append read [] (0x25 :: behind)
  | case2 read first inductionHypothesis =>
      have opensNone : first = 0x25 → ¬ CompletesEscape (0x25 :: behind) := by
        rintro _ ⟨_, _, _, same, isHigh, _⟩
        cases same
        exact not_isHexDigit_mark isHigh
      rw [List.singleton_append, decodeOnto_cons opensNone]
      exact inductionHypothesis
  | case3 read first second inductionHypothesis =>
      have opensNone : first = 0x25 → ¬ CompletesEscape (second :: 0x25 :: behind) := by
        rintro _ completes
        exact not_isHexDigit_mark (completesEscape_cons_cons.mp completes).2
      rw [List.cons_append, List.singleton_append, decodeOnto_cons opensNone]
      exact inductionHypothesis
  | case4 read high low rest highValue lowValue isHigh isLow inductionHypothesis =>
      simp only [List.cons_append]
      rw [decodeOnto, if_pos rfl]
      simp only [isHigh, isLow]
      exact inductionHypothesis
  | case5 read high low rest noEscape inductionHypothesis =>
      have opensNone : (0x25 : UInt8) = 0x25 →
          ¬ CompletesEscape (high :: low :: (rest ++ 0x25 :: behind)) := by
        rintro _ completes
        obtain ⟨isHigh, isLow⟩ := completesEscape_cons_cons.mp completes
        obtain ⟨highValue, isHigh⟩ :=
          Option.isSome_iff_exists.mp ((isSome_hexValue?_iff high).mpr isHigh)
        obtain ⟨lowValue, isLow⟩ :=
          Option.isSome_iff_exists.mp ((isSome_hexValue?_iff low).mpr isLow)
        exact noEscape _ _ isHigh isLow
      simp only [List.cons_append]
      rw [decodeOnto_cons opensNone]
      exact inductionHypothesis
  | case6 read first high low rest noMark inductionHypothesis =>
      have opensNone : first = 0x25 → ¬ CompletesEscape (high :: low :: (rest ++ 0x25 :: behind)) :=
        fun isMark => absurd isMark noMark
      simp only [List.cons_append]
      rw [decodeOnto_cons opensNone]
      exact inductionHypothesis

/-- A percent sign that opens no escape is read as it stands, and what stands on either side of it
is read on its own. -/
theorem decode_append_mark (front : Bytes) {behind : Bytes} (opensNone : ¬ CompletesEscape behind) :
    decode (front ++ 0x25 :: behind) = decode front ++ "%" ++ decode behind := by
  have cut : decodeOctets (front ++ 0x25 :: behind) =
      decodeOctets front ++ 0x25 :: decodeOctets behind := by
    rw [decodeOctets, decodeOnto_append_mark, decodeOctets_cons fun _ => opensNone]
    rfl
  rw [decode, cut, Utf8.decodeLenient_append_ascii (by decide)]
  rfl

theorem decodeOctets_of_hasNoEscape {octets : Bytes} (noEscape : HasNoEscape octets) :
    decodeOctets octets = octets := by
  induction octets with
  | nil => rw [decodeOctets, decodeOnto, List.reverse_nil]
  | cons first rest inductionHypothesis =>
      obtain ⟨opensNone, noneBehind⟩ := hasNoEscape_cons.mp noEscape
      rw [decodeOctets_cons opensNone, inductionHypothesis noneBehind]

theorem decodeOctets_append_of_noMark {octets : Bytes} (noMark : 0x25 ∉ octets) (rest : Bytes) :
    decodeOctets (octets ++ rest) = octets ++ decodeOctets rest := by
  induction octets with
  | nil => rfl
  | cons first behind inductionHypothesis =>
      have other : first ≠ 0x25 := fun isMark => noMark (isMark ▸ List.mem_cons_self)
      rw [List.cons_append, decodeOctets_cons_of_ne other,
        inductionHypothesis fun member => noMark (List.mem_cons_of_mem first member)]
      rfl

/-- A message is read back from the front of any octets. -/
theorem decode_encode_append (text : String) (rest : Bytes) :
    decode (encode text ++ rest) = text ++ decode rest := by
  rw [decode, encode, decodeOctets_encodeOctets_append, Utf8.decodeLenient_encode_append, decode]

/-! ## Writing -/

theorem isCapitalDigit_upperHexDigit {value : Nat} (small : value < 16) :
    IsCapitalDigit (Bytes.upperHexDigit value) := by
  revert value
  decide

theorem not_isCapitalDigit_mark : ¬ IsCapitalDigit 0x25 := by decide

/-- What is written for an octet: a plain octet, or the mark and two capital digits. -/
theorem encodeOctet_cases (octet : UInt8) :
    octet ≠ 0x25 ∧ encodeOctet octet = [octet] ∨
      ∃ high low, IsCapitalDigit high ∧ IsCapitalDigit low ∧
        encodeOctet octet = [0x25, high, low] := by
  by_cases plain : isPlain octet = true
  · refine .inl ⟨?_, if_pos plain⟩
    rintro rfl
    exact absurd plain (by decide)
  · have below : octet.toNat < 256 := octet.toNat_lt_size
    exact .inr ⟨_, _, isCapitalDigit_upperHexDigit (by omega),
      isCapitalDigit_upperHexDigit (by omega), if_neg plain⟩

theorem escapesCapitally_encodeOctets (octets : Bytes) :
    EscapesCapitally (encodeOctets octets) := by
  induction octets with
  | nil =>
      intro front behind same
      exact absurd same.symm (List.append_ne_nil_of_right_ne_nil _ (List.cons_ne_nil _ _))
  | cons octet rest inductionHypothesis =>
      intro front behind same
      rw [encodeOctets, List.flatMap_cons] at same
      rcases encodeOctet_cases octet with ⟨noMark, written⟩ | ⟨high, low, isHigh, isLow, written⟩
      · rw [written] at same
        cases front with
        | nil => exact absurd (List.cons.inj same).1 noMark
        | cons first front => exact inductionHypothesis front behind (List.cons.inj same).2
      · rw [written] at same
        -- The mark found is the one of this octet, or no digit of it, so one of the rest.
        rcases front with _ | ⟨first, _ | ⟨second, _ | ⟨third, front⟩⟩⟩
        · exact ⟨high, low, encodeOctets rest, (List.cons.inj same).2.symm, isHigh, isLow⟩
        · cases same
          exact absurd isHigh not_isCapitalDigit_mark
        · cases same
          exact absurd isLow not_isCapitalDigit_mark
        · simp only [List.cons_append, List.cons.injEq] at same
          exact inductionHypothesis front behind same.2.2.2

theorem printable_of_mem_encode {text : String} {written : UInt8} (member : written ∈ encode text) :
    0x20 ≤ written ∧ written ≤ 0x7E := by
  obtain ⟨octet, _, inOctet⟩ := List.mem_flatMap.mp member
  rcases mem_encodeOctet inOctet with ⟨plain, rfl⟩ | ⟨_, atLeast, atMost⟩
  · simp only [isPlain, Bool.and_eq_true, decide_eq_true_eq] at plain
    exact plain.1
  · exact ⟨UInt8.le_trans (by decide) atLeast, UInt8.le_trans atMost (by decide)⟩

/-! ## There and back -/

/-- What percent coding promises of a text. -/
structure CodesFaithfully (text : String) : Prop where
  /-- The text is read back from its written form, and what stands behind it is read on its own. -/
  readBack : ∀ rest : Bytes, decode (encode text ++ rest) = text ++ decode rest
  printable : ∀ octet ∈ encode text, 0x20 ≤ octet ∧ octet ≤ 0x7E
  isValid : HeaderValue.isValid (encode text) = true
  isText : (HeaderValue.text? (encode text)).isSome = true
  capital : EscapesCapitally (encode text)
  /-- Without an escape in it the text is read as it stands. -/
  unescaped : HasNoEscape (Utf8.encode text) → decode (Utf8.encode text) = text
  /-- A percent sign that opens no escape is read as it stands wherever it stands, whatever stands
  in front of it, and no matter how few octets stand behind it. -/
  kept : ∀ front behind : Bytes, ¬ CompletesEscape behind →
    decode (front ++ 0x25 :: behind) = decode front ++ "%" ++ decode behind
  /-- So are texts between percent signs. -/
  keptBetween : 0x25 ∉ Utf8.encode text → ∀ behind : Bytes,
    decode (Utf8.encode text ++ behind) = text ++ decode behind

/-- Percent coding loses nothing of a text, writes printable ASCII with capital escapes, and reads
everything but escapes as it stands. -/
theorem codesFaithfully (text : String) : CodesFaithfully text where
  readBack := decode_encode_append text
  printable _ := printable_of_mem_encode
  isValid := isValid_encode text
  isText := by rw [HeaderValue.text?, if_pos (all_isTextOctet_encode text), Option.isSome_some]
  capital := escapesCapitally_encodeOctets (Utf8.encode text)
  unescaped noEscape := by
    rw [decode, decodeOctets_of_hasNoEscape noEscape, Utf8.decodeLenient_encode]
  kept front _ := decode_append_mark front
  keptBetween noMark behind := by
    rw [decode, decodeOctets_append_of_noMark noMark, Utf8.decodeLenient_encode_append, decode]

theorem codesFaithfully_truncated :
    let text := "50% of %zz, %4"
    HasNoEscape (Utf8.encode text) ∧ decode (Utf8.encode text) = text ∧
      decode (encode text ++ 0x25 :: Utf8.encode "f") = text ++ "%f" := by
  have noEscape : HasNoEscape (Utf8.encode "50% of %zz, %4") := by decide
  have opensNone : ¬ CompletesEscape (Utf8.encode "f") := by decide
  have plain : decode (Utf8.encode "f") = "f" :=
    (codesFaithfully "f").unescaped (by decide)
  refine ⟨noEscape, (codesFaithfully _).unescaped noEscape, ?_⟩
  rw [(codesFaithfully "").kept _ _ opensNone, plain, decode_encode]
  rfl

end RpcEcho.Percent
