import RpcEcho.Text.Base64
import RpcEcho.Proofs.Header.Map
import RpcEcho.Proofs.OneByOne

/-!
# Base 64 there and back

Three octets are four groups of six bits. The characters of the groups stand for them, the fill is
as long as a reader lets it be or left out, and the groups make the octets again, whatever their
number.

* `Base64.IsForm`: the forms of octets, of which one is written.
* `Base64.decode?_of_isForm`: each of them is read as the octets.
-/

namespace RpcEcho.Base64

/-! ## Groups of six bits -/

/-- The groups of six bits that octets are written as. -/
def sextets : Bytes → List Nat
  | [] => []
  | [a] => [a.toNat / 4, a.toNat % 4 * 16]
  | [a, b] => [a.toNat / 4, a.toNat % 4 * 16 + b.toNat / 16, b.toNat % 16 * 4]
  | a :: b :: c :: rest =>
    a.toNat / 4 :: (a.toNat % 4 * 16 + b.toNat / 16) :: (b.toNat % 16 * 4 + c.toNat / 64)
      :: c.toNat % 64 :: sextets rest

/-- How many equals signs fill the last group. -/
def fillOf : Bytes → Nat
  | [] => 0
  | [_] => 2
  | [_, _] => 1
  | _ :: _ :: _ :: rest => fillOf rest

theorem sextets_lt (octets : Bytes) : ∀ value ∈ sextets octets, value < 64 := by
  fun_induction sextets octets with
  | case1 => simp
  | case2 a =>
      have belowA : a.toNat < 256 := a.toNat_lt_size
      simp only [List.mem_cons, List.not_mem_nil, or_false, forall_eq_or_imp, forall_eq]
      omega
  | case3 a b =>
      have belowA : a.toNat < 256 := a.toNat_lt_size
      have belowB : b.toNat < 256 := b.toNat_lt_size
      simp only [List.mem_cons, List.not_mem_nil, or_false, forall_eq_or_imp, forall_eq]
      omega
  | case4 a b c rest inductionHypothesis =>
      have belowA : a.toNat < 256 := a.toNat_lt_size
      have belowB : b.toNat < 256 := b.toNat_lt_size
      have belowC : c.toNat < 256 := c.toNat_lt_size
      simp only [List.mem_cons, forall_eq_or_imp]
      exact ⟨by omega, by omega, by omega, by omega, inductionHypothesis⟩

theorem encodeOnto_eq (written octets : Bytes) :
    encodeOnto written octets =
      written.reverse ++ ((sextets octets).map symbol ++ List.replicate (fillOf octets) 61) := by
  fun_induction encodeOnto written octets with
  | case1 written => simp [sextets, fillOf]
  | case2 written a => simp [sextets, fillOf, List.replicate]
  | case3 written a b => simp [sextets, fillOf]
  | case4 written a b c rest inductionHypothesis =>
      rw [inductionHypothesis]
      simp [sextets, fillOf]

/-- The groups make the octets again. -/
theorem packOnto_sextets (read octets : Bytes) :
    packOnto read (sextets octets) = some (read.reverse ++ octets) := by
  have whole (octet : UInt8) {value : Nat} (same : value = octet.toNat) :
      UInt8.ofNat value = octet := by rw [same, UInt8.ofNat_toNat]
  fun_induction sextets octets generalizing read with
  | case1 => simp [packOnto]
  | case2 a =>
      have first : UInt8.ofNat (a.toNat / 4 * 4 + a.toNat % 4 * 16 / 16) = a := whole a (by omega)
      have noRest : a.toNat % 4 * 16 % 16 = 0 := by omega
      rw [packOnto, if_pos noRest, first, List.reverse_cons]
  | case3 a b =>
      have belowB : b.toNat < 256 := b.toNat_lt_size
      have first : UInt8.ofNat (a.toNat / 4 * 4 + (a.toNat % 4 * 16 + b.toNat / 16) / 16) = a :=
        whole a (by omega)
      have second : UInt8.ofNat ((a.toNat % 4 * 16 + b.toNat / 16) % 16 * 16 +
          b.toNat % 16 * 4 / 4) = b := whole b (by omega)
      have noRest : b.toNat % 16 * 4 % 4 = 0 := by omega
      rw [packOnto, if_pos noRest, first, second]
      simp
  | case4 a b c rest inductionHypothesis =>
      have belowB : b.toNat < 256 := b.toNat_lt_size
      have belowC : c.toNat < 256 := c.toNat_lt_size
      have first : UInt8.ofNat (a.toNat / 4 * 4 + (a.toNat % 4 * 16 + b.toNat / 16) / 16) = a :=
        whole a (by omega)
      have second : UInt8.ofNat ((a.toNat % 4 * 16 + b.toNat / 16) % 16 * 16 +
          (b.toNat % 16 * 4 + c.toNat / 64) / 4) = b := whole b (by omega)
      have third : UInt8.ofNat ((b.toNat % 16 * 4 + c.toNat / 64) % 4 * 64 + c.toNat % 64) = c :=
        whole c (by omega)
      rw [packOnto, first, second, third, inductionHypothesis]
      simp

theorem mayFill_fillOf (octets : Bytes) :
    mayFill (sextets octets).length (fillOf octets) = true := by
  fun_induction sextets octets with
  | case1 => rfl
  | case2 a => rfl
  | case3 a b => rfl
  | case4 a b c rest inductionHypothesis =>
      have group : ((sextets rest).length + 1 + 1 + 1 + 1) % 4 = (sextets rest).length % 4 := by
        omega
      rw [mayFill] at inductionHypothesis ⊢
      simp only [List.length_cons, group, fillOf]
      exact inductionHypothesis

/-- All of the fill may be left out. -/
theorem mayFill_zero {characters fill : Nat} (fits : mayFill characters fill = true) :
    mayFill characters 0 = true := by
  rw [mayFill] at fits ⊢
  split
  · rfl
  · rename_i one
    rw [one] at fits
    cases fits
  · simp

/-! ## Written forms -/

/-- The character of six bits, as an octet, in the standard or the URL-safe alphabet. -/
def symbolIn (urlSafe : Bool) (value : Nat) : UInt8 :=
  if urlSafe && value = 62 then 45
  else if urlSafe && value = 63 then 95
  else symbol value

/-- The forms of octets in base 64: in either alphabet, with all of the fill or without any. -/
inductive IsForm (octets : Bytes) : Bytes → Prop
  | form (urlSafe : Bool) {fill : Nat} (fills : fill = 0 ∨ fill = fillOf octets) :
      IsForm octets ((sextets octets).map (symbolIn urlSafe) ++ List.replicate fill 61)

theorem symbolIn_ascii : ∀ urlSafe, ∀ value < 64,
    symbolIn urlSafe value ≠ 61 ∧ (symbolIn urlSafe value).toNat < 128 := by
  decide

/-- The alphabets differ in the last two characters, and each is read back in its own. -/
theorem symbolIn_spec : ∀ value < 64,
    value? 43 47 (symbolIn false value) = some value ∧
      value? 45 95 (symbolIn true value) = some value ∧
      (value < 62 → symbolIn true value = symbolIn false value) ∧
      (62 ≤ value → value? 43 47 (symbolIn true value) = none) := by
  decide

/-- Behind the characters stands nothing but the fill. -/
theorem decodeIn?_filled {secondLast last : UInt8} {characters : Bytes} {fill : Nat}
    (noFill : ∀ octet ∈ characters, (octet != 61) = true)
    (fits : mayFill characters.length fill = true) :
    decodeIn? secondLast last (characters ++ List.replicate fill 61) =
      (characters.mapM (value? secondLast last)).bind (packOnto []) := by
  have front : (characters ++ List.replicate fill 61).takeWhile (fun octet => octet != 61) =
      characters := by
    rw [List.takeWhile_append_of_pos noFill]
    simp
  have behind : (characters ++ List.replicate fill 61).dropWhile (fun octet => octet != 61) =
      List.replicate fill 61 := by
    rw [List.dropWhile_append_of_pos noFill]
    simp
  have isFill : (List.replicate fill (61 : UInt8)).all (· == 61) = true := by simp
  rw [decodeIn?]
  simp only [front, behind, isFill, List.length_replicate, fits, Bool.and_self, if_true]

/-- Every form of octets is read as the octets. -/
theorem decode?_of_isForm {octets written : Bytes} (isForm : IsForm octets written) :
    decode? written = some octets := by
  obtain ⟨urlSafe, fills⟩ := isForm
  rename_i fill
  have small := sextets_lt octets
  have fits : mayFill ((sextets octets).map (symbolIn urlSafe)).length fill = true := by
    rw [List.length_map]
    rcases fills with rfl | rfl
    · exact mayFill_zero (mayFill_fillOf octets)
    · exact mayFill_fillOf octets
  have noFill : ∀ octet ∈ (sextets octets).map (symbolIn urlSafe), (octet != 61) = true := by
    intro octet member
    obtain ⟨value, isValue, rfl⟩ := List.mem_map.mp member
    exact bne_iff_ne.mpr (symbolIn_ascii urlSafe value (small value isValue)).1
  have packs : packOnto [] (sextets octets) = some octets := packOnto_sextets [] octets
  have reads (urlSafe : Bool) (secondLast last : UInt8)
      (each : ∀ value ∈ sextets octets,
        value? secondLast last (symbolIn urlSafe value) = some (id value)) :
      ((sextets octets).map (symbolIn urlSafe)).mapM (value? secondLast last) =
        some (sextets octets) := by
    have found := mapM_map_eq_some each
    rwa [List.map_id] at found
  have standard := reads false 43 47 fun value isValue =>
    (symbolIn_spec value (small value isValue)).1
  rw [decode?, decodeIn?_filled noFill fits]
  cases urlSafe with
  | false => rw [standard, Option.bind_some, packs]
  | true =>
      by_cases special : ∃ value ∈ sextets octets, 62 ≤ value
      · -- The standard alphabet lacks one of the characters, so the other one is tried.
        obtain ⟨value, isValue, isSpecial⟩ := special
        have fails := (symbolIn_spec value (small value isValue)).2.2.2 isSpecial
        have noStandard := mapM_eq_none (List.mem_map_of_mem isValue) fails
        have isRead := reads true 45 95 fun value isValue =>
          (symbolIn_spec value (small value isValue)).2.1
        rw [noStandard, Option.bind_none, decodeIn?_filled noFill fits, isRead, Option.bind_some,
          packs]
      · have same : (sextets octets).map (symbolIn true) =
            (sextets octets).map (symbolIn false) := by
          refine List.map_congr_left fun value isValue => ?_
          have notSpecial : value < 62 := Nat.not_le.mp fun isSpecial =>
            special ⟨value, isValue, isSpecial⟩
          exact (symbolIn_spec value (small value isValue)).2.2.1 notSpecial
        rw [same, standard, Option.bind_some, packs]

/-- Writing uses the standard alphabet and all of the fill. -/
theorem isForm_encode (octets : Bytes) : IsForm octets (Utf8.encode (encode octets)) := by
  have plain : symbolIn false = symbol := by
    funext value
    rfl
  have isForm : IsForm octets ((sextets octets).map (symbolIn false) ++
      List.replicate (fillOf octets) 61) := .form false (Or.inr rfl)
  have written := encodeOnto_eq [] octets
  rw [List.reverse_nil, List.nil_append, ← plain] at written
  have ascii : ∀ octet ∈ encodeOnto [] octets, octet.toNat < 128 := by
    intro octet member
    rw [written] at member
    rcases List.mem_append.mp member with isSymbol | isFill
    · obtain ⟨value, isValue, rfl⟩ := List.mem_map.mp isSymbol
      exact (symbolIn_ascii false value (sextets_lt octets value isValue)).2
    · rw [(List.mem_replicate.mp isFill).2]
      decide
  rw [encode, HeaderValue.encode_ofOctets ascii, written]
  exact isForm

end RpcEcho.Base64
