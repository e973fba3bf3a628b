import RpcEcho.Header.Map
import RpcEcho.Proofs.Text.Utf8

/-!
# Header maps as maps

A list of pairs holds exactly what a relation says if its names differ and its pairs are those of
the relation. Header maps that came over HTTP are well formed, and putting values under new names
adds just those pairs.
-/

namespace RpcEcho

/-- A list of pairs with different names holds exactly the pairs of a relation. -/
structure HoldsExactly {alpha : Type} (pairs : List (String × alpha))
    (expected : String → alpha → Prop) : Prop where
  distinct : (pairs.map Prod.fst).Nodup
  mem_iff : ∀ name value, (name, value) ∈ pairs ↔ expected name value

theorem HoldsExactly.of_perm {alpha : Type} {pairs others : List (String × alpha)}
    {expected : String → alpha → Prop} (holds : HoldsExactly pairs expected)
    (permuted : others.Perm pairs) : HoldsExactly others expected where
  distinct := ((permuted.map Prod.fst).nodup_iff).mpr holds.distinct
  mem_iff name value := (permuted.mem_iff).trans (holds.mem_iff name value)

theorem HoldsExactly.congr {alpha : Type} {pairs : List (String × alpha)}
    {expected other : String → alpha → Prop} (holds : HoldsExactly pairs expected)
    (same : ∀ name value, expected name value ↔ other name value) : HoldsExactly pairs other where
  distinct := holds.distinct
  mem_iff name value := (holds.mem_iff name value).trans (same name value)

theorem holdsExactly_nil {alpha : Type} {expected : String → alpha → Prop}
    (nothing : ∀ name value, ¬ expected name value) :
    HoldsExactly ([] : List (String × alpha)) expected where
  distinct := List.nodup_nil
  mem_iff name value := iff_of_false List.not_mem_nil (nothing name value)

/-- A pair with a new name stands beside the others. -/
theorem HoldsExactly.cons {alpha : Type} {pairs : List (String × alpha)}
    {expected : String → alpha → Prop} (holds : HoldsExactly pairs expected) {name : String}
    (isNew : ∀ value, ¬ expected name value) (value : alpha) :
    HoldsExactly ((name, value) :: pairs)
      (fun other otherValue =>
        (other = name ∧ otherValue = value) ∨ expected other otherValue) where
  distinct := by
    refine List.nodup_cons.mpr ⟨fun member => ?_, holds.distinct⟩
    obtain ⟨⟨own, ownValue⟩, inPairs, rfl⟩ := List.mem_map.mp member
    exact isNew ownValue ((holds.mem_iff own ownValue).mp inPairs)
  mem_iff other otherValue := by
    rw [List.mem_cons, holds.mem_iff, Prod.mk.injEq]

/-- What is picked of pairs with different names has different names, if no two names are picked as
one. -/
theorem HoldsExactly.filterMap {alpha beta : Type} {pairs : List (String × alpha)}
    {expected : String → alpha → Prop} (holds : HoldsExactly pairs expected)
    (pick : String × alpha → Option (String × beta))
    (apart : ∀ pair other picked otherPicked,
      expected pair.1 pair.2 → pick pair = some picked →
        expected other.1 other.2 → pick other = some otherPicked →
          picked.1 = otherPicked.1 → pair.1 = other.1) :
    HoldsExactly (pairs.filterMap pick)
      (fun name value =>
        ∃ own text, expected own text ∧ pick (own, text) = some (name, value)) where
  distinct := by
    have different := List.pairwise_map.mp holds.distinct
    refine List.pairwise_map.mpr (List.pairwise_filterMap.mpr (different.imp_of_mem ?_))
    intro pair other member otherMember differ picked isPicked otherPicked isOtherPicked same
    exact differ (apart pair other picked otherPicked ((holds.mem_iff _ _).mp member) isPicked
      ((holds.mem_iff _ _).mp otherMember) isOtherPicked same)
  mem_iff name value := by
    rw [List.mem_filterMap]
    constructor
    · rintro ⟨⟨own, text⟩, member, picked⟩
      exact ⟨own, text, (holds.mem_iff own text).mp member, picked⟩
    · rintro ⟨own, text, isExpected, picked⟩
      exact ⟨(own, text), (holds.mem_iff own text).mpr isExpected, picked⟩

/-! ## Names and values -/

namespace HeaderName

theorem parse?_eq_some_iff {octets : Bytes} {name : String} :
    parse? octets = some name ↔
      octets ≠ [] ∧ octets.length ≤ maxLength ∧ (∀ octet ∈ octets, isTokenOctet octet = true) ∧
        String.ofList ((Bytes.lower octets).map fun octet => Char.ofNat octet.toNat) = name := by
  unfold parse?
  split
  · rename_i refused
    simp only [Bool.or_eq_true, List.isEmpty_iff, decide_eq_true_eq, Bool.not_eq_true',
      List.all_eq_false] at refused
    simp only [reduceCtorEq, false_iff, not_and]
    intro notEmpty short tokens _
    rcases refused with (empty | long) | ⟨octet, member, notToken⟩
    · exact notEmpty empty
    · exact Nat.not_lt.mpr short long
    · exact notToken (tokens octet member)
  · rename_i accepted
    simp only [Bool.or_eq_true, List.isEmpty_iff, decide_eq_true_eq, Bool.not_eq_true', not_or,
      Bool.not_eq_false, List.all_eq_true, Nat.not_lt] at accepted
    obtain ⟨⟨notEmpty, short⟩, tokens⟩ := accepted
    rw [Option.some.injEq]
    exact ⟨fun same => ⟨notEmpty, short, tokens, same⟩, fun spelled => spelled.2.2.2⟩

/-- A name that stands in header maps: what its octets spell is the name itself. -/
def IsWellFormed (name : String) : Prop := parse? (Utf8.encode name) = some name

instance (name : String) : Decidable (IsWellFormed name) :=
  inferInstanceAs (Decidable (parse? (Utf8.encode name) = some name))

/-- An opening of small token letters before a name gives a name, unless it is too long. -/
theorem parse?_append {opening name : String}
    (tokens : (Utf8.encode opening).all isTokenOctet = true)
    (small : String.ofList ((Bytes.lower (Utf8.encode opening)).map fun octet =>
      Char.ofNat octet.toNat) = opening)
    (wellFormed : IsWellFormed name) :
    parse? (Utf8.encode (opening ++ name)) =
      if (Utf8.encode (opening ++ name)).length ≤ maxLength then some (opening ++ name)
      else none := by
  obtain ⟨notEmpty, _, nameTokens, spelled⟩ := parse?_eq_some_iff.mp wellFormed
  by_cases short : (Utf8.encode (opening ++ name)).length ≤ maxLength
  · rw [if_pos short]
    refine parse?_eq_some_iff.mpr ⟨?_, short, ?_, ?_⟩
    · rw [Utf8.encode_append]
      exact List.append_ne_nil_of_right_ne_nil _ notEmpty
    · rw [Utf8.encode_append]
      intro octet member
      exact (List.mem_append.mp member).elim (List.all_eq_true.mp tokens octet) (nameTokens octet)
    · rw [Utf8.encode_append, Bytes.lower, List.map_append, List.map_append, String.ofList_append]
      exact congr (congrArg _ small) spelled
  · rw [if_neg short, Option.eq_none_iff_forall_ne_some]
    intro other found
    exact short (parse?_eq_some_iff.mp found).2.1

end HeaderName

namespace HeaderValue

theorem text?_eq_some_iff {value : Bytes} {text : String} :
    text? value = some text ↔
      (∀ octet ∈ value, isTextOctet octet = true) ∧
        String.ofList (value.map fun octet => Char.ofNat octet.toNat) = text := by
  unfold text?
  by_cases isText : value.all isTextOctet = true
  · rw [if_pos isText, Option.some.injEq]
    exact ⟨fun same => ⟨List.all_eq_true.mp isText, same⟩, fun spelled => spelled.2⟩
  · rw [if_neg isText]
    simp only [reduceCtorEq, false_iff, not_and]
    exact fun all => absurd (List.all_eq_true.mpr all) isText

theorem toNat_lt_of_isTextOctet {octet : UInt8} (isText : isTextOctet octet = true) :
    octet.toNat < 128 := by
  simp only [isTextOctet, Bool.or_eq_true, Bool.and_eq_true, decide_eq_true_eq, beq_iff_eq,
    UInt8.lt_iff_toNat_lt, UInt8.le_iff_toNat_le] at isText
  rcases isText with ⟨_, below⟩ | rfl
  · exact Nat.lt_succ_of_lt below
  · decide

theorem toNat_ofNat_of_ascii {number : Nat} (ascii : number < 128) :
    (Char.ofNat number).toNat = number := by
  have isValidChar : number.isValidChar := Or.inl (Nat.lt_trans ascii (by decide))
  rw [Char.ofNat, dif_pos isValidChar]
  rfl

/-- ASCII octets are those of the text that they spell. -/
theorem encode_ofOctets {octets : Bytes} (ascii : ∀ octet ∈ octets, octet.toNat < 128) :
    Utf8.encode (String.ofList (octets.map fun octet => Char.ofNat octet.toNat)) = octets := by
  have same : ∀ octet ∈ octets, (Char.ofNat octet.toNat).toNat = octet.toNat :=
    fun octet member => toNat_ofNat_of_ascii (ascii octet member)
  have back : ∀ octet ∈ octets, UInt8.ofNat (Char.ofNat octet.toNat).toNat = octet := by
    intro octet member
    rw [same octet member, UInt8.ofNat_toNat]
  rw [Utf8.encode_ofList_of_ascii, List.map_map]
  · exact (List.map_congr_left back).trans (List.map_id octets)
  · intro c member
    obtain ⟨octet, octetMember, rfl⟩ := List.mem_map.mp member
    rw [same octet octetMember]
    exact ascii octet octetMember

theorem encode_of_text? {value : Bytes} {text : String} (found : text? value = some text) :
    Utf8.encode text = value := by
  obtain ⟨isText, rfl⟩ := text?_eq_some_iff.mp found
  exact encode_ofOctets fun octet member => toNat_lt_of_isTextOctet (isText octet member)

theorem isValid_of_text? {value : Bytes} {text : String} (found : text? value = some text) :
    isValid value = true := by
  obtain ⟨isText, _⟩ := text?_eq_some_iff.mp found
  rw [isValid, List.all_eq_true]
  intro octet member
  have textOctet := isText octet member
  simp only [isTextOctet, isValidOctet, Bool.or_eq_true, Bool.and_eq_true, decide_eq_true_eq,
    beq_iff_eq, bne_iff_ne] at textOctet ⊢
  rcases textOctet with ⟨low, high⟩ | isTab
  · refine Or.inl ⟨low, ?_⟩
    rintro rfl
    exact absurd high (by decide)
  · exact Or.inr isTab

end HeaderValue

/-! ## Maps -/

namespace Headers

def names (headers : Headers) : List String := headers.entries.map Prod.fst

theorem holdsExactly_entries {headers : Headers} (distinct : headers.names.Nodup) :
    HoldsExactly headers.entries (fun name values => (name, values) ∈ headers.entries) where
  distinct := distinct
  mem_iff _ _ := Iff.rfl

/-- A map as HTTP libraries hold it: names differ, are folded and not too long, and each has values,
all of which HTTP admits. -/
structure IsWellFormed (headers : Headers) : Prop where
  distinct : headers.names.Nodup
  names : ∀ name ∈ headers.names, HeaderName.IsWellFormed name
  values : ∀ entry ∈ headers.entries,
    entry.2 ≠ [] ∧ ∀ value ∈ entry.2, HeaderValue.isValid value = true

instance (headers : Headers) : Decidable headers.IsWellFormed :=
  decidable_of_iff
    (headers.names.Nodup ∧ (∀ name ∈ headers.names, HeaderName.IsWellFormed name) ∧
      ∀ entry ∈ headers.entries,
        entry.2 ≠ [] ∧ ∀ value ∈ entry.2, HeaderValue.isValid value = true)
    ⟨fun ⟨distinct, names, values⟩ => ⟨distinct, names, values⟩,
      fun ⟨distinct, names, values⟩ => ⟨distinct, names, values⟩⟩

theorem contains_eq_false_iff {headers : Headers} {name : String} :
    headers.contains name = false ↔ name ∉ headers.names := by
  rw [contains, List.any_eq_false, names, List.mem_map]
  constructor
  · rintro different ⟨entry, member, same⟩
    exact different entry member (decide_eq_true same)
  · intro absent entry member same
    exact absent ⟨entry, member, of_decide_eq_true same⟩

theorem values_of_mem {headers : Headers} (distinct : headers.names.Nodup)
    {entry : String × List Bytes} (member : entry ∈ headers.entries) :
    headers.values entry.1 = entry.2 := by
  obtain ⟨entries⟩ := headers
  change entry ∈ entries at member
  change (entries.map Prod.fst).Nodup at distinct
  rw [values]
  induction entries with
  | nil => cases member
  | cons first rest inductionHypothesis =>
      rw [List.find?_cons]
      by_cases same : first.1 = entry.1
      · have isFirst : entry = first := by
          rcases List.mem_cons.mp member with isFirst | inRest
          · exact isFirst
          · rw [List.map_cons, List.nodup_cons] at distinct
            exact absurd (same ▸ List.mem_map_of_mem inRest) distinct.1
        simp [isFirst]
      · have inRest : entry ∈ rest := by
          rcases List.mem_cons.mp member with rfl | inRest
          · exact absurd rfl same
          · exact inRest
        simp only [same, decide_false]
        exact inductionHypothesis inRest (List.nodup_cons.mp distinct).2

/-- The first values of the names are the first values of the entries. -/
theorem firstText?_eq_some_iff {headers : Headers} (distinct : headers.names.Nodup)
    {name text : String} :
    headers.firstText? name = some text ↔
      ∃ values, (name, values) ∈ headers.entries ∧
        values.head?.bind HeaderValue.text? = some text := by
  constructor
  · intro found
    rw [firstText?, first?, values] at found
    split at found
    · rename_i entry isFound
      have sameName := List.find?_some isFound
      have member := List.mem_of_find?_eq_some isFound
      rw [decide_eq_true_eq] at sameName
      subst sameName
      exact ⟨entry.2, member, found⟩
    · cases found
  · rintro ⟨values, member, found⟩
    rw [firstText?, first?, values_of_mem distinct member]
    exact found

/-! ## Putting values under new names -/

/-- A way to put a value under a name: a new name goes to the end, with the value alone. -/
def PutsNew (put : Headers → String → Bytes → Headers) : Prop :=
  ∀ headers name value, name ∉ headers.names →
    put headers name value = ⟨headers.entries ++ [(name, [value])]⟩

theorem putsNew_insert : PutsNew insert := by
  intro headers name value absent
  rw [insert, contains_eq_false_iff.mpr absent]
  rfl

theorem putsNew_append : PutsNew append := by
  intro headers name value absent
  rw [append, contains_eq_false_iff.mpr absent]
  rfl

def entriesOf (pairs : List (String × Bytes)) : List (String × List Bytes) :=
  pairs.map fun pair => (pair.1, [pair.2])

theorem toList_entriesOf (pairs : List (String × Bytes)) : toList ⟨entriesOf pairs⟩ = pairs := by
  rw [toList, entriesOf, List.flatMap_map]
  exact List.flatMap_singleton' pairs

theorem toList_append_entriesOf (headers : Headers) (pairs : List (String × Bytes)) :
    toList ⟨headers.entries ++ entriesOf pairs⟩ = headers.toList ++ pairs := by
  have own := toList_entriesOf pairs
  rw [toList] at own
  rw [toList, List.flatMap_append, own]
  rfl

/-- A value under a new name stands beside the others. -/
theorem exists_insert_entriesOf {pairs : List (String × Bytes)}
    {expected : String → Bytes → Prop} (holds : HoldsExactly pairs expected) {name : String}
    (isNew : ∀ value, ¬ expected name value) (value : Bytes) :
    ∃ all, (⟨entriesOf pairs⟩ : Headers).insert name value = ⟨entriesOf all⟩ ∧
      HoldsExactly all (fun other otherValue =>
        (other = name ∧ otherValue = value) ∨ expected other otherValue) := by
  have absent : name ∉ (⟨entriesOf pairs⟩ : Headers).names := by
    intro member
    obtain ⟨entry, inEntries, same⟩ := List.mem_map.mp member
    obtain ⟨⟨own, ownValue⟩, inPairs, rfl⟩ := List.mem_map.mp inEntries
    exact isNew ownValue (same ▸ (holds.mem_iff own ownValue).mp inPairs)
  refine ⟨pairs ++ [(name, value)], ?_,
    (holds.cons isNew value).of_perm (List.perm_append_singleton _ _)⟩
  rw [putsNew_insert _ _ _ absent]
  simp only [entriesOf, List.map_append]
  rfl

def putPicked {alpha : Type} (put : Headers → String → Bytes → Headers)
    (pick : alpha → Option (String × Bytes)) (headers : Headers) (item : alpha) : Headers :=
  match pick item with
  | some pair => put headers pair.1 pair.2
  | none => headers

/-- Putting pairs with new names, picked from some items, adds the pairs. -/
theorem foldl_put {alpha : Type} {put : Headers → String → Bytes → Headers}
    (putsNew : PutsNew put) (pick : alpha → Option (String × Bytes)) (items : List alpha)
    (headers : Headers)
    (distinct : (headers.names ++ (items.filterMap pick).map Prod.fst).Nodup) :
    items.foldl (putPicked put pick) headers =
      ⟨headers.entries ++ entriesOf (items.filterMap pick)⟩ := by
  -- The map grows by one name at a time, and the names still to come stay different from its own.
  induction items generalizing headers with
  | nil => simp [entriesOf]
  | cons item items inductionHypothesis =>
      rw [List.foldl_cons, putPicked]
      cases picked : pick item with
      | none =>
          rw [List.filterMap_cons_none picked] at distinct ⊢
          exact inductionHypothesis headers distinct
      | some pair =>
          rw [List.filterMap_cons_some picked] at distinct ⊢
          rw [List.map_cons] at distinct
          have absent : pair.1 ∉ headers.names := fun member =>
            (List.nodup_append.mp distinct).2.2 _ member _ List.mem_cons_self rfl
          have shape := putsNew headers pair.1 pair.2 absent
          rw [List.append_cons] at distinct
          have distinctPut : ((put headers pair.1 pair.2).names ++
              (items.filterMap pick).map Prod.fst).Nodup := by
            rw [shape, names, List.map_append]
            exact distinct
          rw [inductionHypothesis _ distinctPut, shape]
          simp [entriesOf]

/-! ## Maps from their pairs -/

/-- One more value behind those of the name that stands last. -/
theorem append_last {entries : List (String × List Bytes)} {name : String}
    (absent : name ∉ entries.map Prod.fst) (values : List Bytes) (value : Bytes) :
    append ⟨entries ++ [(name, values)]⟩ name value =
      ⟨entries ++ [(name, values ++ [value])]⟩ := by
  have present : contains ⟨entries ++ [(name, values)]⟩ name = true := by
    rw [contains, List.any_append, Bool.or_eq_true]
    exact .inr (by simp)
  have untouched : entries.map (fun entry =>
      if entry.1 = name then (entry.1, entry.2 ++ [value]) else entry) = entries := by
    have fixed : ∀ entry ∈ entries,
        (if entry.1 = name then (entry.1, entry.2 ++ [value]) else entry) = entry := by
      intro entry member
      have differs : entry.1 ≠ name := fun same => absent (same ▸ List.mem_map_of_mem member)
      rw [if_neg differs]
    exact (List.map_congr_left fixed).trans (List.map_id' entries)
  rw [append, if_pos present, List.map_append, untouched]
  simp

theorem foldl_append_values {entries : List (String × List Bytes)} {name : String}
    (absent : name ∉ entries.map Prod.fst) (values : List Bytes) :
    ∀ front : List Bytes,
      (values.map fun value => (name, value)).foldl
          (fun headers pair => headers.append pair.1 pair.2)
          (⟨entries ++ [(name, front)]⟩ : Headers) =
        ⟨entries ++ [(name, front ++ values)]⟩ := by
  induction values with
  | nil =>
      intro front
      rw [List.append_nil]
      rfl
  | cons value rest inductionHypothesis =>
      intro front
      rw [List.map_cons, List.foldl_cons, append_last absent, inductionHypothesis,
        List.append_assoc, List.singleton_append]

/-- Appending the pairs of entries with new names puts the entries behind the others. -/
theorem foldl_append_toList (behind : List (String × List Bytes))
    (values : ∀ entry ∈ behind, entry.2 ≠ []) :
    ∀ front : List (String × List Bytes), ((front ++ behind).map Prod.fst).Nodup →
      (toList ⟨behind⟩).foldl (fun headers pair => headers.append pair.1 pair.2)
          (⟨front⟩ : Headers) =
        ⟨front ++ behind⟩ := by
  -- The map grows by one entry at a time, and the names still to come stay different from its own.
  induction behind with
  | nil =>
      intro front _
      rw [List.append_nil]
      rfl
  | cons entry rest inductionHypothesis =>
      intro front distinct
      obtain ⟨name, all⟩ := entry
      obtain ⟨value, others, rfl⟩ :=
        List.exists_cons_of_ne_nil (values (name, all) List.mem_cons_self)
      have absent : name ∉ front.map Prod.fst := by
        intro member
        rw [List.map_append, List.map_cons] at distinct
        exact (List.nodup_append.mp distinct).2.2 _ member _ List.mem_cons_self rfl
      have opened : append ⟨front⟩ name value = ⟨front ++ [(name, [value])]⟩ :=
        putsNew_append ⟨front⟩ name value absent
      have grown := foldl_append_values absent others [value]
      have step := inductionHypothesis
        (fun other member => values other (List.mem_cons_of_mem _ member))
        (front ++ [(name, value :: others)]) (by simpa using distinct)
      have pairs : toList ⟨(name, value :: others) :: rest⟩ =
          (name, value) :: ((others.map fun other => (name, other)) ++ toList ⟨rest⟩) := rfl
      rw [pairs, List.foldl_cons, List.foldl_append, opened, grown, List.singleton_append, step,
        List.append_assoc, List.singleton_append]

/-- A map is the map of its pairs. -/
theorem ofList_toList {headers : Headers} (distinct : headers.names.Nodup)
    (values : ∀ entry ∈ headers.entries, entry.2 ≠ []) : ofList headers.toList = headers :=
  foldl_append_toList headers.entries values [] distinct

end Headers

end RpcEcho
