import RpcEcho.Proofs.Text.Utf8

/-!
# Lenient reading of texts

Octets that are the UTF-8 form of a text hold no malformed piece, so reading them leniently gives
the text back. A character of two, three or four octets is read back from the five, four or three
low bits of its first octet and the six low bits of the others.
-/

namespace RpcEcho.Utf8

/-! ## Octets of a character -/

theorem isContinuation_add {bits : Nat} (small : bits < 64) :
    isContinuation (UInt8.ofNat (bits + 0x80)) = true := by
  revert bits
  decide

theorem lowBits_add {bits : Nat} (small : bits < 64) :
    lowBits (UInt8.ofNat (bits + 0x80)) = bits := by
  revert bits
  decide

theorem secondRange?_two {lead : Nat} (atLeast : 2 ≤ lead) (small : lead < 32) :
    secondRange? (UInt8.ofNat (lead + 0xC0)) = some (0x80, 0xBF, 2) := by
  revert atLeast
  revert lead
  decide

/-- The second octet of a character of three: none shorter can be spelled, and no surrogate. -/
theorem secondRange?_three {lead : Nat} (small : lead < 16) :
    secondRange? (UInt8.ofNat (lead + 0xE0)) =
      some (if lead = 0 then 0xA0 else 0x80, if lead = 13 then 0x9F else 0xBF, 3) := by
  revert lead
  decide

/-- The second octet of a character of four: none shorter can be spelled, and none beyond the last
code point. -/
theorem secondRange?_four {lead : Nat} (small : lead < 5) :
    secondRange? (UInt8.ofNat (lead + 0xF0)) =
      some (if lead = 0 then 0x90 else 0x80, if lead = 4 then 0x8F else 0xBF, 4) := by
  revert lead
  decide

theorem not_lt_add {bits : Nat} (low high : UInt8) (small : bits < 64)
    (above : low.toNat ≤ bits + 0x80) (below : bits + 0x80 ≤ high.toNat) :
    (UInt8.ofNat (bits + 0x80) < low || high < UInt8.ofNat (bits + 0x80)) = false := by
  have toNat : (UInt8.ofNat (bits + 0x80)).toNat = bits + 0x80 :=
    UInt8.toNat_ofNat_of_lt' (by rw [UInt8.size]; omega)
  simp only [Bool.or_eq_false_iff, decide_eq_false_iff_not, UInt8.not_lt, UInt8.le_iff_toNat_le,
    toNat]
  exact ⟨above, below⟩

theorem toNat_lead {lead base : Nat} (fits : lead + base < 256) :
    (UInt8.ofNat (lead + base)).toNat = lead + base :=
  UInt8.toNat_ofNat_of_lt' (by rw [UInt8.size]; omega)

theorem not_lt_ascii {lead base : Nat} (high : 0x80 ≤ base) (fits : lead + base < 256) :
    ¬ UInt8.ofNat (lead + base) < 0x80 := by
  rw [UInt8.not_lt, UInt8.le_iff_toNat_le, toNat_lead fits]
  exact Nat.le_trans high (Nat.le_add_left base lead)

/-! ## One step -/

theorem step_ascii {value : Nat} (small : value < 0x80) (rest : Bytes) :
    step (UInt8.ofNat value) rest = (Char.ofNat value, rest) := by
  have toNat : (UInt8.ofNat value).toNat = value :=
    UInt8.toNat_ofNat_of_lt' (by rw [UInt8.size]; omega)
  have isAscii : UInt8.ofNat value < 0x80 := by
    rw [UInt8.lt_iff_toNat_lt, toNat]
    exact small
  rw [step, if_pos isAscii, toNat]

theorem step_two {lead second : Nat} (atLeast : 2 ≤ lead) (small : lead < 32)
    (secondSmall : second < 64) (rest : Bytes) :
    step (UInt8.ofNat (lead + 0xC0)) (UInt8.ofNat (second + 0x80) :: rest) =
      (character 0 0 lead second, rest) := by
  have inRange := not_lt_add 0x80 0xBF secondSmall (Nat.le_add_left _ _)
    (by simp only [UInt8.reduceToNat]; omega)
  have leadBits : (lead + 0xC0) % 32 = lead := by omega
  rw [step, if_neg (not_lt_ascii (by decide) (by omega)), secondRange?_two atLeast small]
  simp only [inRange, toNat_lead (show lead + 0xC0 < 256 by omega), leadBits,
    lowBits_add secondSmall]
  rfl

theorem step_three {lead second third : Nat} (small : lead < 16) (secondSmall : second < 64)
    (thirdSmall : third < 64) (long : lead = 0 → 32 ≤ second)
    (noSurrogate : lead = 13 → second < 32)
    (rest : Bytes) :
    step (UInt8.ofNat (lead + 0xE0))
        (UInt8.ofNat (second + 0x80) :: UInt8.ofNat (third + 0x80) :: rest) =
      (character 0 lead second third, rest) := by
  have inRange := not_lt_add (if lead = 0 then 0xA0 else 0x80)
    (if lead = 13 then 0x9F else 0xBF) secondSmall
    (by split <;> simp only [UInt8.reduceToNat] <;> omega)
    (by split <;> simp only [UInt8.reduceToNat] <;> omega)
  have leadBits : (lead + 0xE0) % 16 = lead := by omega
  rw [step, if_neg (not_lt_ascii (by decide) (by omega)), secondRange?_three small]
  simp only [inRange, toNat_lead (show lead + 0xE0 < 256 by omega), leadBits,
    lowBits_add secondSmall, lowBits_add thirdSmall, isContinuation_add thirdSmall]
  rfl

theorem step_four {lead second third fourth : Nat} (small : lead < 5) (secondSmall : second < 64)
    (thirdSmall : third < 64) (fourthSmall : fourth < 64) (long : lead = 0 → 16 ≤ second)
    (inPlanes : lead = 4 → second < 16) (rest : Bytes) :
    step (UInt8.ofNat (lead + 0xF0))
        (UInt8.ofNat (second + 0x80) :: UInt8.ofNat (third + 0x80) ::
          UInt8.ofNat (fourth + 0x80) :: rest) =
      (character lead second third fourth, rest) := by
  have inRange := not_lt_add (if lead = 0 then 0x90 else 0x80)
    (if lead = 4 then 0x8F else 0xBF) secondSmall
    (by split <;> simp only [UInt8.reduceToNat] <;> omega)
    (by split <;> simp only [UInt8.reduceToNat] <;> omega)
  have leadBits : (lead + 0xF0) % 8 = lead := by omega
  rw [step, if_neg (not_lt_ascii (by decide) (by omega)), secondRange?_four small]
  simp only [inRange, toNat_lead (show lead + 0xF0 < 256 by omega), leadBits,
    lowBits_add secondSmall, lowBits_add thirdSmall, lowBits_add fourthSmall,
    isContinuation_add thirdSmall, isContinuation_add fourthSmall]
  rfl

/-- Reading begins with the character whose octets come first, and goes on behind them. -/
theorem exists_step_eq (c : Char) (rest : Bytes) :
    ∃ first behind, String.utf8EncodeChar c = first :: behind ∧
      step first (behind ++ rest) = (c, rest) := by
  have isScalar : c.val.toNat < 0xD800 ∨ 0xDFFF < c.val.toNat ∧ c.val.toNat < 0x110000 := c.valid
  have same : ∀ value, value = c.val.toNat → Char.ofNat value = c := by
    intro value equal
    rw [equal]
    exact Char.ofNat_toNat c
  unfold String.utf8EncodeChar
  by_cases one : c.val.toNat ≤ 0x7f
  · simp only [if_pos one]
    refine ⟨_, _, rfl, ?_⟩
    rw [List.nil_append, step_ascii (Nat.lt_succ_of_le one), same _ rfl]
  · by_cases two : c.val.toNat ≤ 0x7ff
    · simp only [if_neg one, if_pos two]
      refine ⟨_, _, rfl, ?_⟩
      rw [List.cons_append, List.nil_append,
        step_two (by omega) (by omega) (by omega), character, same _ (by omega)]
    · by_cases three : c.val.toNat ≤ 0xffff
      · simp only [if_neg one, if_neg two, if_pos three]
        refine ⟨_, _, rfl, ?_⟩
        rw [List.cons_append, List.cons_append, List.nil_append,
          step_three (by omega) (by omega) (by omega) (by omega) (by omega), character,
          same _ (by omega)]
      · simp only [if_neg one, if_neg two, if_neg three]
        refine ⟨_, _, rfl, ?_⟩
        rw [List.cons_append, List.cons_append, List.cons_append, List.nil_append,
          step_four (by omega) (by omega) (by omega) (by omega) (by omega) (by omega), character,
          same _ (by omega)]

/-! ## Whole texts -/

/-- What was read before stays in front of what is read. -/
theorem lenientOnto_append (more read : List Char) (octets : Bytes) :
    lenientOnto (read ++ more) octets = more.reverse ++ lenientOnto read octets := by
  fun_induction lenientOnto read octets with
  | case1 read => rw [lenientOnto, List.reverse_append]
  | case2 read first rest inductionHypothesis =>
      rw [lenientOnto, ← List.cons_append, inductionHypothesis]

theorem lenientOnto_singleton (c : Char) (octets : Bytes) :
    lenientOnto [c] octets = c :: lenientOnto [] octets :=
  lenientOnto_append [c] [] octets

theorem lenientOnto_flatMap_append (chars : List Char) (rest : Bytes) :
    lenientOnto [] (chars.flatMap String.utf8EncodeChar ++ rest) =
      chars ++ lenientOnto [] rest := by
  induction chars with
  | nil => rfl
  | cons c others inductionHypothesis =>
      obtain ⟨first, behind, encoded, stepped⟩ :=
        exists_step_eq c (others.flatMap String.utf8EncodeChar ++ rest)
      rw [List.flatMap_cons, List.append_assoc, encoded, List.cons_append, lenientOnto, stepped,
        lenientOnto_singleton, inductionHypothesis, List.cons_append]

/-- A text is read back from the front of octets, whatever stands behind it. -/
theorem decodeLenient_encode_append (text : String) (rest : Bytes) :
    decodeLenient (encode text ++ rest) = text ++ decodeLenient rest := by
  rw [decodeLenient, encode_eq, lenientOnto_flatMap_append, String.ofList_append,
    String.ofList_toList, decodeLenient]

/-- Lenient reading loses nothing of a text. -/
theorem decodeLenient_encode (text : String) : decodeLenient (encode text) = text := by
  have behind := decodeLenient_encode_append text []
  have nothing : decodeLenient [] = "" := by
    rw [decodeLenient, lenientOnto, List.reverse_nil, String.ofList_nil]
  rwa [List.append_nil, nothing, String.append_empty] at behind

/-! ## ASCII marks -/

theorem le_of_secondRange? {first low high : UInt8} {size : Nat}
    (found : secondRange? first = some (low, high, size)) : 0x80 ≤ low := by
  unfold secondRange? at found
  repeat' split at found
  all_goals cases found
  all_goals decide

theorem isContinuation_of_ascii {mark : UInt8} (ascii : mark < 0x80) :
    isContinuation mark = false := by
  rw [isContinuation, Bool.and_eq_false_iff, decide_eq_false_iff_not, UInt8.not_le]
  exact .inl ascii

/-- No character and no malformed piece reaches beyond an octet of ASCII. -/
theorem step_append_ascii {mark : UInt8} (ascii : mark < 0x80) (first : UInt8)
    (rest behind : Bytes) :
    step first (rest ++ mark :: behind) =
      ((step first rest).1, (step first rest).2 ++ mark :: behind) := by
  by_cases oneOctet : first < 0x80
  · rw [step, step, if_pos oneOctet, if_pos oneOctet]
  · rw [step, step, if_neg oneOctet, if_neg oneOctet]
    cases range : secondRange? first with
    | none => rfl
    | some bounds =>
        obtain ⟨low, high, size⟩ := bounds
        have belowLow : mark < low := UInt8.lt_of_lt_of_le ascii (le_of_secondRange? range)
        have noThird := isContinuation_of_ascii ascii
        cases rest with
        | nil => simp [belowLow]
        | cons second rest₂ =>
            dsimp only [List.cons_append]
            split
            · rfl
            split
            · rfl
            cases rest₂ with
            | nil => simp [noThird]
            | cons third rest₃ =>
                dsimp only [List.cons_append]
                split
                · rfl
                split
                · rfl
                cases rest₃ with
                | nil => simp [noThird]
                | cons fourth rest₄ =>
                    dsimp only [List.cons_append]
                    split <;> rfl

theorem lenientOnto_append_ascii {mark : UInt8} (ascii : mark < 0x80) (read : List Char)
    (front behind : Bytes) :
    lenientOnto read (front ++ mark :: behind) =
      lenientOnto read front ++ Char.ofNat mark.toNat :: lenientOnto [] behind := by
  fun_induction lenientOnto read front with
  | case1 read =>
      have stepped : step (UInt8.ofNat mark.toNat) behind = (Char.ofNat mark.toNat, behind) :=
        step_ascii ascii behind
      rw [UInt8.ofNat_toNat] at stepped
      rw [List.nil_append, lenientOnto, stepped, ← List.singleton_append,
        lenientOnto_append, lenientOnto_singleton]
  | case2 read first rest inductionHypothesis =>
      rw [List.cons_append, lenientOnto, step_append_ascii ascii, inductionHypothesis]

/-- Octets are read in two halves where an octet of ASCII stands between them. -/
theorem decodeLenient_append_ascii {mark : UInt8} (ascii : mark < 0x80) (front behind : Bytes) :
    decodeLenient (front ++ mark :: behind) =
      decodeLenient front ++ String.singleton (Char.ofNat mark.toNat) ++ decodeLenient behind := by
  rw [decodeLenient, lenientOnto_append_ascii ascii, decodeLenient, decodeLenient,
    ← String.toList_inj]
  simp

end RpcEcho.Utf8
