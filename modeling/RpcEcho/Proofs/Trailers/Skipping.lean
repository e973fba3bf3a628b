import RpcEcho.Proofs.Envelope.Schedule
import RpcEcho.Proofs.Trailers.Block

/-!
# Lines that hold no entry

A block is read line by line, so a line that holds no entry can stand between any two lines, and in
front of and behind all of them, without being seen. A block that was written holds no other
lines than those of its entries: it is read back entry by entry.
-/

namespace RpcEcho.Trailers

/-! ## Entries of lines -/

/-- A line that holds no entry: it has no colon, or HTTP admits what stands in front of the first
one as no name or what stands behind it as no value, without the blanks around them. -/
def HoldsNoEntry (line : Bytes) : Prop :=
  58 ∉ line ∨ ∃ name value : Bytes, line = name ++ 58 :: value ∧ 58 ∉ name ∧
    (HeaderName.parse? name.trim = none ∨ HeaderValue.isValid value.trim = false)

theorem entryOf?_eq_none_iff {line : Bytes} : entryOf? line = none ↔ HoldsNoEntry line := by
  constructor
  · intro noEntry
    by_cases colon : 58 ∈ line
    · obtain ⟨name, value, rfl, noColon⟩ := List.eq_append_cons_of_mem colon
      refine .inr ⟨name, value, rfl, noColon, ?_⟩
      rw [entryOf?_of_colon noColon] at noEntry
      cases parsed : HeaderName.parse? (Bytes.trim name) with
      | none => exact .inl rfl
      | some own =>
          rw [parsed, Option.bind_some] at noEntry
          refine .inr (Bool.eq_false_iff.mpr fun valid => ?_)
          rw [if_pos valid] at noEntry
          cases noEntry
    · exact .inl colon
  · rintro (noColon | ⟨name, value, rfl, noColon, noName | noValue⟩)
    · exact entryOf?_of_noColon noColon
    · rw [entryOf?_of_colon noColon, noName, Option.bind_none]
    · rw [entryOf?_of_colon noColon, noValue]
      cases HeaderName.parse? name.trim <;> rfl

theorem trim_append_return (octets : Bytes) : Bytes.trim (octets ++ [13]) = octets.trim := by
  have noFront : ∀ octet ∈ ([] : Bytes), Bytes.isBlank octet = true :=
    fun _ member => absurd member List.not_mem_nil
  have blankBack : ∀ octet ∈ [(13 : UInt8)], Bytes.isBlank octet = true :=
    List.forall_mem_singleton.mpr (by decide)
  exact dropEnds_append noFront blankBack octets

/-- The carriage return of a line end is no part of an entry. -/
theorem entryOf?_append_return (line : Bytes) : entryOf? (line ++ [13]) = entryOf? line := by
  by_cases colon : 58 ∈ line
  · obtain ⟨name, value, rfl, noColon⟩ := List.eq_append_cons_of_mem colon
    rw [List.append_assoc, List.cons_append, entryOf?_of_colon noColon, entryOf?_of_colon noColon,
      trim_append_return]
  · have noColon : 58 ∉ line ++ [13] := by
      simp [colon]
    rw [entryOf?_of_noColon colon, entryOf?_of_noColon noColon]

/-! ## Entries of blocks -/

/-- The entries of a block, in order. -/
def entries (octets : Bytes) : List (String × Bytes) := (lines octets).filterMap entryOf?

theorem entries_append (front rest : Bytes) :
    entries (front ++ 10 :: rest) = entries front ++ entries rest := by
  rw [entries, lines_append, List.filterMap_append, entries, entries]

theorem entries_nil : entries [] = [] := rfl

theorem filterMap_linesOnto_append_return (octets : Bytes) :
    ∀ current : Bytes, (linesOnto [] current (octets ++ [13])).filterMap entryOf? =
      (linesOnto [] current octets).filterMap entryOf? := by
  induction octets with
  | nil =>
      intro current
      have line : (13 :: current).reverse = current.reverse ++ [13] := List.reverse_cons
      have last : linesOnto [] current [13] = [current.reverse ++ [13]] := by
        rw [linesOnto, if_neg (by decide), linesOnto, line]
        rfl
      rw [List.nil_append, last, linesOnto]
      simp only [List.filterMap_cons, entryOf?_append_return, List.filterMap_nil, List.reverse_cons,
        List.reverse_nil, List.nil_append]
  | cons octet rest inductionHypothesis =>
      intro current
      rw [List.cons_append, linesOnto, linesOnto]
      split
      · rw [linesOnto_eq, linesOnto_eq rest [_], List.filterMap_append, List.filterMap_append,
          inductionHypothesis]
      · exact inductionHypothesis (octet :: current)

theorem entries_append_return (octets : Bytes) : entries (octets ++ [13]) = entries octets :=
  filterMap_linesOnto_append_return octets []

/-- The ends that a line can have. -/
def IsLineEnd (octets : Bytes) : Prop := octets = [10] ∨ octets = lineEnd

/-- A line end cuts a block in two. -/
theorem entries_append_lineEnd {ending : Bytes} (isEnd : IsLineEnd ending) (front rest : Bytes) :
    entries (front ++ (ending ++ rest)) = entries front ++ entries rest := by
  rcases isEnd with rfl | rfl
  · exact entries_append front rest
  · have shape : front ++ (lineEnd ++ rest) = (front ++ [13]) ++ 10 :: rest := by
      simp [lineEnd]
    rw [shape, entries_append, entries_append_return]

theorem entries_of_line {line : Bytes} (oneLine : 10 ∉ line) (noEntry : HoldsNoEntry line) :
    entries line = [] := by
  rw [entries, lines_of_noEnd oneLine, List.filterMap_cons, entryOf?_eq_none_iff.mpr noEntry,
    List.filterMap_nil]

/-- Nothing stands in front, or what stands there ends with a line feed. -/
def EndsLine (octets : Bytes) : Prop := octets = [] ∨ ∃ before, octets = before ++ [10]

/-- Nothing stands behind, or what stands there begins with a line end. -/
def BeginsWithLineEnd (octets : Bytes) : Prop :=
  octets = [] ∨ ∃ ending rest, IsLineEnd ending ∧ octets = ending ++ rest

theorem entries_append_of_endsLine {front : Bytes} (ends : EndsLine front) (rest : Bytes) :
    entries (front ++ rest) = entries front ++ entries rest := by
  rcases ends with rfl | ⟨before, rfl⟩
  · rfl
  · have nothing : entries (before ++ [10]) = entries before := by
      rw [entries_append, entries_nil, List.append_nil]
    rw [List.append_assoc, List.singleton_append, entries_append, nothing]

theorem entries_append_of_beginsWithLineEnd {rest : Bytes} (begins : BeginsWithLineEnd rest)
    (front : Bytes) : entries (front ++ rest) = entries front ++ entries rest := by
  rcases begins with rfl | ⟨ending, behind, isEnd, rfl⟩
  · rw [List.append_nil, entries_nil, List.append_nil]
  · have atFront := entries_append_lineEnd isEnd [] behind
    rw [List.nil_append, entries_nil, List.nil_append] at atFront
    rw [entries_append_lineEnd isEnd, atFront]

/-! ## Lines put into blocks -/

/-- A line that can be put into any block, in front of a line or behind one, with either line end,
without a change of what is read. -/
structure IsSkipped (line : Bytes) : Prop where
  inFront : ∀ front behind ending, EndsLine front → IsLineEnd ending →
    ofBlock (front ++ (line ++ (ending ++ behind))) = ofBlock (front ++ behind)
  behind : ∀ front behind ending, BeginsWithLineEnd behind → IsLineEnd ending →
    ofBlock (front ++ (ending ++ (line ++ behind))) = ofBlock (front ++ behind)

theorem ofBlock_eq_of_entries {octets others : Bytes} (same : entries octets = entries others) :
    ofBlock octets = ofBlock others :=
  congrArg Headers.ofList same

/-- The lines that can be put anywhere are those that hold no entry. -/
theorem isSkipped_iff {line : Bytes} (oneLine : 10 ∉ line) :
    IsSkipped line ↔ HoldsNoEntry line := by
  constructor
  · intro skipped
    have unseen := skipped.inFront [] [] [10] (.inl rfl) (.inl rfl)
    have alone : entries (line ++ ([10] ++ [])) = (entryOf? line).toList := by
      rw [entries_append_lineEnd (.inl rfl), entries_nil, List.append_nil, entries,
        lines_of_noEnd oneLine, List.filterMap_cons, List.filterMap_nil]
      cases entryOf? line <;> rfl
    refine entryOf?_eq_none_iff.mp (Option.eq_none_iff_forall_ne_some.mpr fun entry isEntry => ?_)
    rw [isEntry] at alone
    have read : ofBlock (line ++ ([10] ++ [])) = Headers.ofList [entry] :=
      congrArg Headers.ofList alone
    rw [List.nil_append, read] at unseen
    cases unseen
  · intro noEntry
    have none := entries_of_line oneLine noEntry
    constructor
    · intro front behind ending ends isEnd
      refine ofBlock_eq_of_entries ?_
      rw [entries_append_of_endsLine ends, entries_append_of_endsLine ends,
        entries_append_lineEnd isEnd, none, List.nil_append]
    · intro front behind ending begins isEnd
      refine ofBlock_eq_of_entries ?_
      rw [entries_append_lineEnd isEnd, entries_append_of_beginsWithLineEnd begins,
        entries_append_of_beginsWithLineEnd begins, none, List.nil_append]

/-- The block of a header map is read back entry by entry, with the blanks at the ends of the values
gone, and the lines that could be put into it, or into any other block, unseen are exactly those
that hold no entry. -/
theorem block_survives {headers : Headers} (wellFormed : headers.IsWellFormed)
    (short : (block headers).length < Bytes.wordBound) :
    (∃ payload, Envelope.header? (frame headers) =
          some (Flags.trailers, payload.length, payload) ∧
        ofBlock payload = headers.trimmed ∧
        (ofBlock payload).names = headers.names ∧
        (ofBlock payload).toList = headers.toList.map (fun pair => (pair.1, pair.2.trim)) ∧
        (ofBlock payload).toList.length = headers.toList.length) ∧
      ∀ line, 10 ∉ line → (IsSkipped line ↔ HoldsNoEntry line) := by
  have framed := Envelope.header?_wrap ⟨Flags.trailers, block headers⟩ [] short
  rw [List.append_nil, List.append_nil] at framed
  refine ⟨⟨block headers, framed, ofBlock_block wellFormed, ?_, ?_, ?_⟩, fun _ => isSkipped_iff⟩
  · rw [ofBlock_block wellFormed, Headers.names_trimmed]
  · rw [ofBlock_block wellFormed, Headers.toList_trimmed]
  · rw [ofBlock_block wellFormed, Headers.toList_trimmed, List.length_map]

/-- Two names, one of them with two values. Colons, percent signs, octets beyond ASCII and blanks
stand in the values, and one is empty. -/
def oddHeaders : Headers :=
  ⟨[("x-a", [[32, 58, 37, 50, 48, 9], [255, 58, 32, 97]]), ("x-b", [[]])]⟩

theorem block_survives_odd :
    oddHeaders.IsWellFormed ∧ (block oddHeaders).length < Bytes.wordBound ∧
      (∃ payload, Envelope.header? (frame oddHeaders) =
          some (Flags.trailers, payload.length, payload) ∧
        (ofBlock payload).toList =
          [("x-a", [58, 37, 50, 48]), ("x-a", [255, 58, 32, 97]), ("x-b", [])]) ∧
      IsSkipped (Utf8.encode "no entry") ∧ ¬ IsSkipped (Utf8.encode "x-c: 1") := by
  have wellFormed : oddHeaders.IsWellFormed := by decide
  have short : (block oddHeaders).length < Bytes.wordBound := by decide
  obtain ⟨⟨payload, framed, _, _, read, _⟩, skips⟩ := block_survives wellFormed short
  refine ⟨wellFormed, short, ⟨payload, framed, read.trans (by decide)⟩, ?_, ?_⟩
  · exact (skips _ (by decide)).mpr (.inl (by decide))
  · intro skipped
    have noEntry := entryOf?_eq_none_iff.mpr ((skips _ (by decide)).mp skipped)
    exact absurd noEntry (by decide)

end RpcEcho.Trailers
