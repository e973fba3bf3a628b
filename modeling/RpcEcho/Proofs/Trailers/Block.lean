import Mathlib.Data.List.TakeDrop
import RpcEcho.Trailers
import RpcEcho.Proofs.Header.Map
import RpcEcho.Proofs.Text.Ends

/-!
# Blocks of trailers there and back

A block has one line for each pair of a header map. No line end stands inside a line, the first
colon of a line stands behind its name, and what the reader drops around a value are blanks, so the
block of a header map is read back as the map with every value trimmed.
-/

namespace RpcEcho

/-- What HTTP admits as a value still is one when blanks at its ends are dropped. -/
theorem HeaderValue.isValid_trim {value : Bytes} (valid : isValid value = true) :
    isValid value.trim = true := by
  rw [isValid, List.all_eq_true] at valid ⊢
  intro octet member
  have inFront : octet ∈ value.dropWhile Bytes.isBlank :=
    List.mem_reverse.mp ((List.dropWhile_sublist _).mem (List.mem_reverse.mp member))
  exact valid octet ((List.dropWhile_sublist _).mem inFront)

namespace Headers

/-- The map with every value trimmed. -/
def trimmed (headers : Headers) : Headers :=
  ⟨headers.entries.map fun entry => (entry.1, entry.2.map Bytes.trim)⟩

theorem names_trimmed (headers : Headers) : headers.trimmed.names = headers.names := by
  rw [names, trimmed, List.map_map]
  rfl

theorem toList_trimmed (headers : Headers) :
    headers.trimmed.toList = headers.toList.map fun pair => (pair.1, pair.2.trim) := by
  rw [toList, toList, trimmed, List.flatMap_map, List.map_flatMap]
  congr 1
  funext entry
  rw [List.map_map, List.map_map]
  rfl

end Headers

namespace Trailers

/-! ## Lines -/

theorem linesOnto_eq (octets : Bytes) :
    ∀ (before : List Bytes) (current : Bytes),
      linesOnto before current octets = before.reverse ++ linesOnto [] current octets := by
  induction octets with
  | nil =>
      intro before current
      rw [linesOnto, linesOnto, List.reverse_cons]
      rfl
  | cons octet rest inductionHypothesis =>
      intro before current
      rw [linesOnto, linesOnto]
      split
      · rw [inductionHypothesis, inductionHypothesis [current.reverse], List.reverse_cons,
          List.append_assoc]
        rfl
      · exact inductionHypothesis before (octet :: current)

/-- Octets are cut at any line feed. -/
theorem linesOnto_append (front rest : Bytes) :
    ∀ current : Bytes,
      linesOnto [] current (front ++ 10 :: rest) = linesOnto [] current front ++ lines rest := by
  induction front with
  | nil =>
      intro current
      rw [List.nil_append, linesOnto.eq_2, if_pos rfl, linesOnto_eq]
      rfl
  | cons octet behind inductionHypothesis =>
      intro current
      rw [List.cons_append, linesOnto, linesOnto]
      split
      · rw [linesOnto_eq, inductionHypothesis, linesOnto_eq behind [_], List.append_assoc]
      · exact inductionHypothesis (octet :: current)

theorem lines_append (front rest : Bytes) :
    lines (front ++ 10 :: rest) = lines front ++ lines rest :=
  linesOnto_append front rest []

theorem linesOnto_of_noEnd {octets : Bytes} (noEnd : 10 ∉ octets) :
    ∀ current : Bytes, linesOnto [] current octets = [current.reverse ++ octets] := by
  induction octets with
  | nil =>
      intro current
      rw [linesOnto, List.append_nil]
      rfl
  | cons octet rest inductionHypothesis =>
      intro current
      have other : octet ≠ 10 := fun same => noEnd (same ▸ List.mem_cons_self)
      have noEndBehind : 10 ∉ rest := fun member => noEnd (List.mem_cons_of_mem _ member)
      rw [linesOnto, if_neg other, inductionHypothesis noEndBehind, List.reverse_cons,
        List.append_assoc]
      rfl

/-- Octets without a line feed are one line. -/
theorem lines_of_noEnd {octets : Bytes} (noEnd : 10 ∉ octets) : lines octets = [octets] :=
  linesOnto_of_noEnd noEnd []

/-! ## Entries -/

theorem ne_of_isTokenOctet {octet other : UInt8} (token : HeaderName.isTokenOctet octet = true)
    (noToken : HeaderName.isTokenOctet other = false) : octet ≠ other := by
  intro same
  rw [same, noToken] at token
  exact Bool.false_ne_true token

theorem isBlank_of_isTokenOctet {octet : UInt8} (token : HeaderName.isTokenOctet octet = true) :
    Bytes.isBlank octet = false := by
  simp only [Bytes.isBlank, Bool.or_eq_false_iff, beq_eq_false_iff_ne]
  refine ⟨⟨⟨⟨?_, ?_⟩, ?_⟩, ?_⟩, ?_⟩ <;> exact ne_of_isTokenOctet token (by decide)

theorem isTokenOctet_of_mem {name : String} (wellFormed : HeaderName.IsWellFormed name)
    {octet : UInt8} (member : octet ∈ Utf8.encode name) : HeaderName.isTokenOctet octet = true :=
  (HeaderName.parse?_eq_some_iff.mp wellFormed).2.2.1 octet member

theorem trim_encode_name {name : String} (wellFormed : HeaderName.IsWellFormed name) :
    Bytes.trim (Utf8.encode name) = Utf8.encode name := by
  have noBlank : ∀ octet ∈ Utf8.encode name, ¬ Bytes.isBlank octet = true := by
    intro octet member
    rw [isBlank_of_isTokenOctet (isTokenOctet_of_mem wellFormed member)]
    exact Bool.false_ne_true
  rw [Bytes.trim_eq, dropEnds_eq_self_iff]
  constructor
  · intro octet isFirst
    exact noBlank octet (List.mem_of_mem_head? isFirst)
  · intro octet isLast
    exact noBlank octet (List.mem_of_mem_getLast? isLast)

theorem entryOf?_of_noColon {line : Bytes} (noColon : 58 ∉ line) : entryOf? line = none := by
  have all : ∀ octet ∈ line, (octet != 58) = true := by
    intro octet member
    exact bne_iff_ne.mpr fun isColon => noColon (isColon ▸ member)
  have nothing : line.dropWhile (fun octet => octet != 58) = [] :=
    List.dropWhile_eq_nil_iff.mpr all
  rw [entryOf?, List.span_eq_takeWhile_dropWhile, nothing]

/-- The entry of a line is what stands on either side of its first colon, trimmed. -/
theorem entryOf?_of_colon {front : Bytes} (noColon : 58 ∉ front) (behind : Bytes) :
    entryOf? (front ++ 58 :: behind) =
      (HeaderName.parse? front.trim).bind fun name =>
        if HeaderValue.isValid behind.trim then some (name, behind.trim) else none := by
  have all : ∀ octet ∈ front, (octet != 58) = true := by
    intro octet member
    exact bne_iff_ne.mpr fun isColon => noColon (isColon ▸ member)
  have split : (front ++ 58 :: behind).span (fun octet => octet != 58) = (front, 58 :: behind) := by
    rw [List.span_eq_takeWhile_dropWhile, List.takeWhile_append_of_pos all,
      List.dropWhile_append_of_pos all, List.takeWhile_cons_of_neg (by decide),
      List.dropWhile_cons_of_neg (by decide), List.append_nil]
  rw [entryOf?, split]
  dsimp only
  cases HeaderName.parse? (Bytes.trim front) <;> rfl

/-- The entry of a written line is its name and its value, trimmed. -/
theorem entryOf?_line {name : String} {value : Bytes} (wellFormed : HeaderName.IsWellFormed name)
    (valid : HeaderValue.isValid value = true) :
    entryOf? (Utf8.encode name ++ separator ++ value ++ [13]) = some (name, value.trim) := by
  have noColon : 58 ∉ Utf8.encode name := by
    intro member
    exact ne_of_isTokenOctet (isTokenOctet_of_mem wellFormed member) (by decide) rfl
  have shape : Utf8.encode name ++ separator ++ value ++ [13] =
      Utf8.encode name ++ 58 :: ([32] ++ (value ++ [13])) := by
    simp [separator]
  have behind : Bytes.trim ([32] ++ (value ++ [13])) = value.trim := by
    rw [Bytes.trim_eq, dropEnds_append (List.forall_mem_singleton.mpr (by decide))
      (List.forall_mem_singleton.mpr (by decide)), Bytes.trim_eq]
  have parsed : HeaderName.parse? (Utf8.encode name) = some name := wellFormed
  rw [shape, entryOf?_of_colon noColon, trim_encode_name wellFormed, parsed, behind,
    Option.bind_some, if_pos (HeaderValue.isValid_trim valid)]

/-! ## Blocks -/

theorem lines_line_append {name : String} {value : Bytes}
    (wellFormed : HeaderName.IsWellFormed name) (valid : HeaderValue.isValid value = true)
    (rest : Bytes) :
    lines (line (name, value) ++ rest) =
      (Utf8.encode name ++ separator ++ value ++ [13]) :: lines rest := by
  have noEnd : 10 ∉ Utf8.encode name ++ separator ++ value ++ [13] := by
    rw [HeaderValue.isValid, List.all_eq_true] at valid
    simp only [List.mem_append, not_or]
    refine ⟨⟨⟨?_, by decide⟩, ?_⟩, by decide⟩
    · intro member
      exact ne_of_isTokenOctet (isTokenOctet_of_mem wellFormed member) (by decide) rfl
    · intro member
      exact absurd (valid 10 member) (by decide)
  have shape : line (name, value) ++ rest =
      (Utf8.encode name ++ separator ++ value ++ [13]) ++ 10 :: rest := by
    simp [line, lineEnd]
  rw [shape, lines_append, lines_of_noEnd noEnd]
  rfl

/-- The entries of written lines are the pairs that were written, with trimmed values. -/
theorem filterMap_entryOf?_lines (pairs : List (String × Bytes))
    (names : ∀ pair ∈ pairs, HeaderName.IsWellFormed pair.1)
    (values : ∀ pair ∈ pairs, HeaderValue.isValid pair.2 = true) :
    (lines (pairs.flatMap line)).filterMap entryOf? =
      pairs.map fun pair => (pair.1, pair.2.trim) := by
  induction pairs with
  | nil => rfl
  | cons pair rest inductionHypothesis =>
      have wellFormed := names pair List.mem_cons_self
      have valid := values pair List.mem_cons_self
      rw [List.flatMap_cons, lines_line_append wellFormed valid, List.filterMap_cons,
        entryOf?_line wellFormed valid, List.map_cons,
        inductionHypothesis (fun other member => names other (List.mem_cons_of_mem _ member))
          (fun other member => values other (List.mem_cons_of_mem _ member))]

/-- The block of a header map is read back as the map with every value trimmed. -/
theorem ofBlock_block {headers : Headers} (wellFormed : headers.IsWellFormed) :
    ofBlock (block headers) = headers.trimmed := by
  have pairs : ∀ pair ∈ headers.toList,
      HeaderName.IsWellFormed pair.1 ∧ HeaderValue.isValid pair.2 = true := by
    intro pair member
    obtain ⟨entry, inEntries, inValues⟩ := List.mem_flatMap.mp member
    obtain ⟨value, isValue, rfl⟩ := List.mem_map.mp inValues
    exact ⟨wellFormed.names _ (List.mem_map_of_mem inEntries),
      (wellFormed.values entry inEntries).2 value isValue⟩
  have distinct : headers.trimmed.names.Nodup := by
    rw [Headers.names_trimmed]
    exact wellFormed.distinct
  have values : ∀ entry ∈ headers.trimmed.entries, entry.2 ≠ [] := by
    intro entry member
    obtain ⟨own, inEntries, rfl⟩ := List.mem_map.mp member
    intro isEmpty
    exact (wellFormed.values own inEntries).1 (List.map_eq_nil_iff.mp isEmpty)
  rw [ofBlock, block, filterMap_entryOf?_lines headers.toList
    (fun pair member => (pairs pair member).1) (fun pair member => (pairs pair member).2),
    ← Headers.toList_trimmed, Headers.ofList_toList distinct values]

end Trailers

end RpcEcho
