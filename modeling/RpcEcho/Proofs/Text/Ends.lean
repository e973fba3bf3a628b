import Mathlib.Data.List.DropRight
import RpcEcho.Proofs.Text.Utf8

/-!
# Elements dropped at the ends

Blanks are dropped at both ends of a value, and a text is spelled character by character. Where the
spelling of a character is blank exactly if the character is, the blanks of the spelling go with
those of the text.
-/

namespace RpcEcho

variable {α β : Type}

/-- A list without the elements at its ends that pass a test. -/
def dropEnds (test : α → Bool) (list : List α) : List α :=
  ((list.dropWhile test).reverse.dropWhile test).reverse

theorem Bytes.trim_eq (octets : Bytes) : octets.trim = dropEnds Bytes.isBlank octets := rfl

section Spelled

variable {test : α → Bool} {spelledTest : β → Bool} {spell : α → List β}

theorem dropWhile_flatMap (nonempty : ∀ a, spell a ≠ [])
    (agrees : ∀ a, ∀ b ∈ spell a, spelledTest b = test a) (list : List α) :
    (list.flatMap spell).dropWhile spelledTest = (list.dropWhile test).flatMap spell := by
  induction list with
  | nil => rfl
  | cons a rest inductionHypothesis =>
      rw [List.flatMap_cons, List.dropWhile_cons]
      by_cases isDropped : test a = true
      · have all : ∀ b ∈ spell a, spelledTest b = true := by
          intro b member
          rw [agrees a b member, isDropped]
        rw [if_pos isDropped, List.dropWhile_append_of_pos all, inductionHypothesis]
      · obtain ⟨first, behind, spelled⟩ := List.exists_cons_of_ne_nil (nonempty a)
        have isKept : ¬ spelledTest first = true := by
          rw [agrees a first (spelled ▸ List.mem_cons_self)]
          exact isDropped
        rw [if_neg isDropped, List.flatMap_cons, spelled, List.cons_append,
          List.dropWhile_cons_of_neg isKept]

theorem dropEnds_flatMap (nonempty : ∀ a, spell a ≠ [])
    (agrees : ∀ a, ∀ b ∈ spell a, spelledTest b = test a) (list : List α) :
    dropEnds spelledTest (list.flatMap spell) = (dropEnds test list).flatMap spell := by
  have fromEnd : ∀ a, ∀ b ∈ (List.reverse ∘ spell) a, spelledTest b = test a := by
    intro a b member
    exact agrees a b (List.mem_reverse.mp member)
  have nonemptyFromEnd : ∀ a, (List.reverse ∘ spell) a ≠ [] := by
    intro a isEmpty
    exact nonempty a (List.reverse_eq_nil_iff.mp isEmpty)
  rw [dropEnds, dropWhile_flatMap nonempty agrees, List.reverse_flatMap,
    dropWhile_flatMap nonemptyFromEnd fromEnd, List.reverse_flatMap, dropEnds]
  congr 1
  funext a
  exact List.reverse_reverse (spell a)

end Spelled

/-- Nothing is dropped exactly if neither the first nor the last element passes the test. -/
theorem dropEnds_eq_self_iff {test : α → Bool} {list : List α} :
    dropEnds test list = list ↔
      (∀ first ∈ list.head?, ¬ test first = true) ∧ ∀ last ∈ list.getLast?, ¬ test last = true := by
  have atFront : list.dropWhile test = list ↔ ∀ first ∈ list.head?, ¬ test first = true := by
    rw [List.dropWhile_eq_self_iff]
    cases list <;> simp
  have atEnd : list.rdropWhile test = list ↔ ∀ last ∈ list.getLast?, ¬ test last = true := by
    rw [List.rdropWhile_eq_self_iff]
    constructor
    · intro kept last isLast
      obtain ⟨nonempty, rfl⟩ := List.mem_getLast?_eq_getLast isLast
      exact kept nonempty
    · intro kept nonempty
      exact kept _ (List.getLast?_eq_some_getLast nonempty)
  rw [← atFront, ← atEnd]
  constructor
  · intro same
    -- Nothing can be dropped at the end before the rest is as long as the whole.
    have longEnough : list.length ≤ (list.dropWhile test).length :=
      calc list.length
        _ = ((list.dropWhile test).rdropWhile test).length := congrArg List.length same.symm
        _ ≤ (list.dropWhile test).length := (List.rdropWhile_prefix test _).length_le
    have frontKept : list.dropWhile test = list :=
      (List.dropWhile_suffix test).eq_of_length_le longEnough
    refine ⟨frontKept, ?_⟩
    calc list.rdropWhile test
      _ = (list.dropWhile test).rdropWhile test := by rw [frontKept]
      _ = list := same
  · intro ⟨frontKept, endKept⟩
    rw [dropEnds, frontKept]
    exact endKept

/-- More elements that pass the test at the ends change nothing. -/
theorem dropEnds_append {test : α → Bool} {front back : List α}
    (frontPasses : ∀ a ∈ front, test a = true) (backPasses : ∀ a ∈ back, test a = true)
    (list : List α) : dropEnds test (front ++ (list ++ back)) = dropEnds test list := by
  have backDropped : back.dropWhile test = [] := List.dropWhile_eq_nil_iff.mpr backPasses
  have reverseDropped : ∀ a ∈ back.reverse, test a = true := by
    intro a member
    exact backPasses a (List.mem_reverse.mp member)
  rw [dropEnds, dropEnds, List.dropWhile_append_of_pos frontPasses, List.dropWhile_append]
  by_cases allDropped : (list.dropWhile test).isEmpty = true
  · rw [if_pos allDropped, backDropped, List.isEmpty_iff.mp allDropped]
  · rw [if_neg allDropped, List.reverse_append, List.dropWhile_append_of_pos reverseDropped]

/-- What is dropped at the ends passes the test. -/
theorem exists_dropEnds (test : α → Bool) (list : List α) :
    ∃ front back, (∀ a ∈ front, test a = true) ∧ (∀ a ∈ back, test a = true) ∧
      list = front ++ (dropEnds test list ++ back) := by
  have passes (dropped : List α) : ∀ a ∈ dropped.takeWhile test, test a = true :=
    List.all_eq_true.mp List.all_takeWhile
  refine ⟨list.takeWhile test, ((list.dropWhile test).reverse.takeWhile test).reverse,
    passes list, fun a member => passes _ a (List.mem_reverse.mp member), ?_⟩
  rw [dropEnds, ← List.reverse_append, List.takeWhile_append_dropWhile, List.reverse_reverse,
    List.takeWhile_append_dropWhile]

/-! ## Spaces around a text -/

/-- A text without the spaces U+0020 at its ends. -/
def Text.withoutOuterSpaces (text : String) : String :=
  String.ofList (dropEnds (· == ' ') text.toList)

theorem Text.withoutOuterSpaces_eq_self_iff {text : String} :
    withoutOuterSpaces text = text ↔
      text.toList.head? ≠ some ' ' ∧ text.toList.getLast? ≠ some ' ' := by
  have asLists : withoutOuterSpaces text = text ↔
      dropEnds (· == ' ') text.toList = text.toList := by
    rw [withoutOuterSpaces, ← String.toList_inj, String.toList_ofList]
  have noSpace : ∀ outermost : Option Char,
      (∀ c ∈ outermost, ¬ (c == ' ') = true) ↔ outermost ≠ some ' ' := by
    intro outermost
    cases outermost <;> simp
  rw [asLists, dropEnds_eq_self_iff, noSpace, noSpace]

theorem Utf8.isSpace_of_mem_utf8EncodeChar {c : Char} {octet : UInt8}
    (member : octet ∈ String.utf8EncodeChar c) : (octet == 0x20) = (c == ' ') := by
  rw [Bool.eq_iff_iff, beq_iff_eq, beq_iff_eq]
  exact eq_ofNat_iff_of_mem_utf8EncodeChar (by decide : ' '.toNat < 128) member

theorem Utf8.encode_withoutOuterSpaces (text : String) :
    encode (Text.withoutOuterSpaces text) = dropEnds (· == 0x20) (encode text) := by
  have nonempty : ∀ c, String.utf8EncodeChar c ≠ [] := fun _ => String.utf8EncodeChar_ne_nil
  rw [Text.withoutOuterSpaces, encode_ofList, encode_eq,
    dropEnds_flatMap nonempty fun _ _ member => isSpace_of_mem_utf8EncodeChar member]

end RpcEcho
