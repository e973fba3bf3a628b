import RpcEcho.Text.Utf8

/-!
# UTF-8 there and back

The octets of a text are those of its characters, one after the other. A character below U+0080 is
one octet, and every octet of any other character is 0x80 or more, so a reader that looks for ASCII
marks never finds one inside a character.
-/

namespace RpcEcho.Utf8

/-! ## Characters -/

theorem utf8EncodeChar_of_ascii {c : Char} (ascii : c.toNat < 128) :
    String.utf8EncodeChar c = [UInt8.ofNat c.toNat] := by
  have small : c.val ≤ 127 := by
    rw [UInt32.le_iff_toNat_le]
    exact Nat.le_of_lt_succ ascii
  rw [String.utf8EncodeChar_eq_singleton (Char.utf8Size_eq_one_iff.mpr small)]
  rfl

private theorem le_ofNat_mod_add {value modulus base : Nat} (high : 128 ≤ base)
    (positive : 0 < modulus) (fits : modulus + base ≤ 256) :
    128 ≤ UInt8.ofNat (value % modulus + base) := by
  have below := Nat.mod_lt value positive
  rw [UInt8.le_iff_toNat_le, UInt8.toNat_ofNat_of_lt' (by rw [UInt8.size]; omega)]
  exact Nat.le_trans high (Nat.le_add_left base _)

theorem le_of_mem_utf8EncodeChar {c : Char} (beyond : 128 ≤ c.toNat) {octet : UInt8}
    (member : octet ∈ String.utf8EncodeChar c) : 128 ≤ octet := by
  have notSmall : ¬ c.val.toNat ≤ 0x7f := Nat.not_le.mpr beyond
  unfold String.utf8EncodeChar at member
  simp only [if_neg notSmall] at member
  by_cases two : c.val.toNat ≤ 0x7ff
  · simp only [if_pos two, List.mem_cons, List.not_mem_nil, or_false] at member
    rcases member with rfl | rfl <;> exact le_ofNat_mod_add (by decide) (by decide) (by decide)
  · by_cases three : c.val.toNat ≤ 0xffff
    · simp only [if_neg two, if_pos three, List.mem_cons, List.not_mem_nil, or_false] at member
      rcases member with rfl | rfl | rfl <;>
        exact le_ofNat_mod_add (by decide) (by decide) (by decide)
    · simp only [if_neg two, if_neg three, List.mem_cons, List.not_mem_nil, or_false] at member
      rcases member with rfl | rfl | rfl | rfl <;>
        exact le_ofNat_mod_add (by decide) (by decide) (by decide)

/-- A mark of ASCII stands among the octets of a character only if it is the character. -/
theorem eq_ofNat_iff_of_mem_utf8EncodeChar {mark : Char} (isAscii : mark.toNat < 128) {c : Char}
    {octet : UInt8} (member : octet ∈ String.utf8EncodeChar c) :
    octet = UInt8.ofNat mark.toNat ↔ c = mark := by
  have toNat {char : Char} (ascii : char.toNat < 128) :
      (UInt8.ofNat char.toNat).toNat = char.toNat :=
    UInt8.toNat_ofNat_of_lt' (by rw [UInt8.size]; omega)
  by_cases ascii : c.toNat < 128
  · rw [utf8EncodeChar_of_ascii ascii, List.mem_singleton] at member
    rw [member, ← UInt8.toNat_inj, toNat ascii, toNat isAscii, Char.toNat_inj]
  · have high := le_of_mem_utf8EncodeChar (Nat.not_lt.mp ascii) member
    constructor
    · rintro rfl
      rw [UInt8.le_iff_toNat_le, toNat isAscii] at high
      exact absurd isAscii (Nat.not_lt.mpr high)
    · rintro rfl
      exact absurd isAscii ascii

/-! ## Texts -/

theorem encode_ofList (chars : List Char) :
    encode (String.ofList chars) = chars.flatMap String.utf8EncodeChar := by
  simp [encode, List.utf8Encode]

theorem encode_eq (text : String) : encode text = text.toList.flatMap String.utf8EncodeChar := by
  rw [← encode_ofList, String.ofList_toList]

@[simp]
theorem encode_append (front rest : String) :
    encode (front ++ rest) = encode front ++ encode rest := by
  rw [encode_eq, encode_eq, encode_eq, String.toList_append, List.flatMap_append]

/-- Reading finds exactly the text whose octets were given. -/
theorem decode?_eq_some_iff {octets : Bytes} {text : String} :
    decode? octets = some text ↔ encode text = octets := by
  unfold decode? encode String.fromUTF8?
  constructor
  · intro found
    split at found
    · cases found
      simp [String.fromUTF8]
    · cases found
  · rintro rfl
    have same : text.toUTF8.data.toList.toByteArray = text.toByteArray := by
      apply ByteArray.ext
      simp
    rw [same, dif_pos text.isValidUTF8]
    rfl

theorem decode?_encode (text : String) : decode? (encode text) = some text :=
  decode?_eq_some_iff.mpr rfl

theorem encode_injective {first second : String} (same : encode first = encode second) :
    first = second := by
  have found := decode?_encode first
  rw [same, decode?_encode] at found
  exact (Option.some.inj found).symm

/-- The octets of an ASCII text are its characters. -/
theorem encode_ofList_of_ascii {chars : List Char} (ascii : ∀ c ∈ chars, c.toNat < 128) :
    encode (String.ofList chars) = chars.map fun c => UInt8.ofNat c.toNat := by
  rw [encode_ofList]
  induction chars with
  | nil => rfl
  | cons c rest inductionHypothesis =>
      rw [List.flatMap_cons, List.map_cons, utf8EncodeChar_of_ascii (ascii c List.mem_cons_self),
        inductionHypothesis fun other member => ascii other (List.mem_cons_of_mem c member)]
      rfl

end RpcEcho.Utf8
