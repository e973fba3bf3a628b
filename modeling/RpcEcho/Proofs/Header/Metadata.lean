import RpcEcho.Header.Metadata
import RpcEcho.Proofs.Header.Map

/-!
# What of the headers comes back

The metadata of a header map holds the first text of every name that does not speak about one
connection. The trailers made of it hold the same texts, but for the names that a protocol owns.
-/

namespace RpcEcho

namespace HeaderName

/-! ## Folding names -/

theorem toNat_lt_of_isTokenOctet {octet : UInt8} (token : isTokenOctet octet = true) :
    octet.toNat < 128 := by
  simp only [isTokenOctet, Bytes.isDigit, Bytes.isLetter, Bool.or_eq_true, Bool.and_eq_true,
    decide_eq_true_eq, UInt8.le_iff_toNat_le, UInt8.reduceToNat, List.contains_eq_mem,
    List.mem_cons, List.not_mem_nil, or_false, ← UInt8.toNat_inj] at token
  omega

theorem toNat_lowerOctet (octet : UInt8) :
    (Bytes.lowerOctet octet).toNat =
      if 65 ≤ octet.toNat ∧ octet.toNat ≤ 90 then octet.toNat + 32 else octet.toNat := by
  have below := octet.toNat_lt_size
  simp only [Bytes.lowerOctet, Bool.and_eq_true, decide_eq_true_eq, UInt8.le_iff_toNat_le,
    UInt8.reduceToNat]
  split
  · rw [UInt8.toNat_add]
    simp only [UInt8.reduceToNat]
    omega
  · rfl

theorem lowerOctet_lowerOctet (octet : UInt8) :
    Bytes.lowerOctet (Bytes.lowerOctet octet) = Bytes.lowerOctet octet := by
  rw [← UInt8.toNat_inj, toNat_lowerOctet, toNat_lowerOctet]
  by_cases capital : 65 ≤ octet.toNat ∧ octet.toNat ≤ 90
  · rw [if_pos capital, if_neg (by omega)]
  · rw [if_neg capital, if_neg capital]

theorem isTokenOctet_lowerOctet {octet : UInt8} (token : isTokenOctet octet = true) :
    isTokenOctet (Bytes.lowerOctet octet) = true := by
  by_cases capital : 65 ≤ octet.toNat ∧ octet.toNat ≤ 90
  · have isSmall := toNat_lowerOctet octet
    rw [if_pos capital] at isSmall
    simp only [isTokenOctet, Bytes.isLetter, Bool.or_eq_true, Bool.and_eq_true,
      decide_eq_true_eq, UInt8.le_iff_toNat_le, UInt8.reduceToNat]
    omega
  · have same : Bytes.lowerOctet octet = octet := by
      rw [← UInt8.toNat_inj, toNat_lowerOctet, if_neg capital]
    rw [same]
    exact token

theorem lower_lower (octets : Bytes) : Bytes.lower (Bytes.lower octets) = Bytes.lower octets := by
  rw [Bytes.lower, Bytes.lower, List.map_map]
  exact List.map_congr_left fun octet _ => lowerOctet_lowerOctet octet

/-- What a name is folded to is a name of its own. -/
theorem isWellFormed_of_parse? {octets : Bytes} {name : String}
    (parsed : parse? octets = some name) : IsWellFormed name := by
  obtain ⟨nonempty, short, tokens, rfl⟩ := parse?_eq_some_iff.mp parsed
  have lowerTokens : ∀ octet ∈ Bytes.lower octets, isTokenOctet octet = true := by
    intro octet member
    obtain ⟨own, inOctets, rfl⟩ := List.mem_map.mp member
    exact isTokenOctet_lowerOctet (tokens own inOctets)
  have spelled := HeaderValue.encode_ofOctets fun octet member =>
    toNat_lt_of_isTokenOctet (lowerTokens octet member)
  refine parse?_eq_some_iff.mpr ?_
  rw [spelled, lower_lower]
  refine ⟨?_, ?_, lowerTokens, rfl⟩
  · exact fun isEmpty => nonempty (List.map_eq_nil_iff.mp isEmpty)
  · rw [Bytes.lower, List.length_map]
    exact short

theorem foldChar_lowerOctet {value : Nat} (ascii : value < 128) :
    (if 'A' ≤ Char.ofNat value ∧ Char.ofNat value ≤ 'Z'
      then Char.ofNat ((Char.ofNat value).toNat + 32) else Char.ofNat value) =
      Char.ofNat (Bytes.lowerOctet (UInt8.ofNat value)).toNat := by
  revert value
  decide

/-- The fold of an ASCII text folds its octets. -/
theorem fold_ofOctets {octets : Bytes} (ascii : ∀ octet ∈ octets, octet.toNat < 128) :
    fold (String.ofList (octets.map fun octet => Char.ofNat octet.toNat)) =
      String.ofList ((Bytes.lower octets).map fun octet => Char.ofNat octet.toNat) := by
  rw [fold, String.toList_ofList, Bytes.lower, List.map_map, List.map_map]
  congr 1
  refine List.map_congr_left fun octet member => ?_
  have folded := foldChar_lowerOctet (ascii octet member)
  rw [UInt8.ofNat_toNat] at folded
  exact folded

/-- A name that is read from a text belongs to a protocol exactly if the text does. -/
theorem isProtocol_of_parse? {text name : String} (parsed : parse? (Utf8.encode text) = some name) :
    isProtocol name = isProtocol text := by
  obtain ⟨_, _, tokens, rfl⟩ := parse?_eq_some_iff.mp parsed
  have ascii : ∀ octet ∈ Utf8.encode text, octet.toNat < 128 :=
    fun octet member => toNat_lt_of_isTokenOctet (tokens octet member)
  have lowerAscii : ∀ octet ∈ Bytes.lower (Utf8.encode text), octet.toNat < 128 := by
    intro octet member
    obtain ⟨own, inOctets, rfl⟩ := List.mem_map.mp member
    exact toNat_lt_of_isTokenOctet (isTokenOctet_lowerOctet (tokens own inOctets))
  have spelled : text =
      String.ofList ((Utf8.encode text).map fun octet => Char.ofNat octet.toNat) :=
    Utf8.encode_injective (HeaderValue.encode_ofOctets ascii).symm
  have foldedText := fold_ofOctets ascii
  rw [← spelled] at foldedText
  rw [isProtocol, isProtocol, fold_ofOctets lowerAscii, lower_lower, foldedText]

end HeaderName

namespace Headers

/-- The headers have a text under a name, and the name may be shown. -/
def Shows (headers : Headers) (name text : String) : Prop :=
  HeaderName.isHopByHop name = false ∧ headers.firstText? name = some text

/-- The headers show a value under a name, and it may go back as a trailer. -/
def Returns (headers : Headers) (name : String) (value : Bytes) : Prop :=
  HeaderName.isProtocol name = false ∧
    ∃ text, headers.Shows name text ∧ Utf8.encode text = value

/-- What headers show stands in HTTP again: its name is a name, and its text is a value. -/
theorem IsWellFormed.of_shows {headers : Headers} (wellFormed : headers.IsWellFormed)
    {name text : String} (shown : headers.Shows name text) :
    HeaderName.IsWellFormed name ∧ HeaderValue.isValid (Utf8.encode text) = true := by
  obtain ⟨values, member, found⟩ := (firstText?_eq_some_iff wellFormed.distinct).mp shown.2
  obtain ⟨value, _, isText⟩ := Option.bind_eq_some_iff.mp found
  refine ⟨wellFormed.names name (List.mem_map_of_mem member), ?_⟩
  rw [HeaderValue.encode_of_text? isText]
  exact HeaderValue.isValid_of_text? isText

end Headers

namespace Metadata

variable {headers : Headers}

/-- What an entry of a header map becomes in the metadata. -/
def shown? (entry : String × List Bytes) : Option (String × String) :=
  if HeaderName.isHopByHop entry.1 then none
  else (entry.2.head?.bind HeaderValue.text?).map fun text => (entry.1, text)

theorem shown?_eq_some_iff {name own text : String} {values : List Bytes} :
    shown? (own, values) = some (name, text) ↔
      own = name ∧ HeaderName.isHopByHop name = false ∧
        values.head?.bind HeaderValue.text? = some text := by
  by_cases hidden : HeaderName.isHopByHop own = true
  · rw [shown?, if_pos hidden]
    constructor
    · intro picked
      cases picked
    · rintro ⟨rfl, shown, _⟩
      exact absurd hidden (Bool.eq_false_iff.mp shown)
  · rw [shown?, if_neg hidden, Option.map_eq_some_iff]
    constructor
    · rintro ⟨found, isText, same⟩
      cases same
      exact ⟨rfl, Bool.eq_false_iff.mpr hidden, isText⟩
    · rintro ⟨rfl, _, isText⟩
      exact ⟨text, isText, rfl⟩

/-- The metadata of a header map holds exactly what the headers show. -/
theorem holdsExactly_ofHeaders (distinct : headers.names.Nodup) :
    HoldsExactly (ofHeaders headers) headers.Shows := by
  have picked := (Headers.holdsExactly_entries distinct).filterMap shown?
    (fun entry other pair otherPair _ isPicked _ isOtherPicked (same : pair.1 = otherPair.1) =>
      (shown?_eq_some_iff.mp isPicked).1.trans
        (same.trans (shown?_eq_some_iff.mp isOtherPicked).1.symm))
  refine picked.congr fun name text => ?_
  rw [Headers.Shows, Headers.firstText?_eq_some_iff distinct]
  constructor
  · rintro ⟨own, values, member, isShown⟩
    obtain ⟨rfl, shown, isText⟩ := shown?_eq_some_iff.mp isShown
    exact ⟨shown, values, member, isText⟩
  · rintro ⟨shown, values, member, isText⟩
    exact ⟨name, values, member, shown?_eq_some_iff.mpr ⟨rfl, shown, isText⟩⟩

/-! ## Trailers -/

/-- What an entry of metadata becomes in the trailers. -/
def trailer? (entry : String × String) : Option (String × Bytes) :=
  if HeaderName.isProtocol entry.1 then none
  else (HeaderName.parse? (Utf8.encode entry.1)).bind fun name =>
    if HeaderValue.isValid (Utf8.encode entry.2) then some (name, Utf8.encode entry.2) else none

theorem trailers_eq_foldl (metadata : Metadata) :
    metadata.trailers =
      metadata.foldl (Headers.putPicked Headers.insert trailer?) Headers.empty := by
  rw [trailers]
  congr 1
  funext headers entry
  rw [Headers.putPicked, trailer?]
  by_cases owned : HeaderName.isProtocol entry.1 = true
  · rw [if_pos owned, if_pos owned]
  · rw [if_neg owned, if_neg owned]
    cases parsed : HeaderName.parse? (Utf8.encode entry.1) with
    | none => rfl
    | some name =>
        by_cases valid : HeaderValue.isValid (Utf8.encode entry.2) = true <;> simp [valid]

theorem trailer?_eq_some_iff {own text : String} (isName : HeaderName.IsWellFormed own)
    (isValue : HeaderValue.isValid (Utf8.encode text) = true) {pair : String × Bytes} :
    trailer? (own, text) = some pair ↔
      HeaderName.isProtocol own = false ∧ pair = (own, Utf8.encode text) := by
  rw [HeaderName.IsWellFormed] at isName
  by_cases owned : HeaderName.isProtocol own = true
  · simp [trailer?, owned]
  · simp [trailer?, owned, isName, isValue, eq_comm]

theorem trailer?_spec {entry : String × String} {pair : String × Bytes}
    (picked : trailer? entry = some pair) :
    HeaderName.isProtocol pair.1 = false ∧
      HeaderName.parse? (Utf8.encode entry.1) = some pair.1 ∧
      HeaderValue.isValid pair.2 = true := by
  by_cases owned : HeaderName.isProtocol entry.1 = true
  · simp [trailer?, owned] at picked
  · rw [trailer?, if_neg owned] at picked
    obtain ⟨name, parsed, made⟩ := Option.bind_eq_some_iff.mp picked
    by_cases valid : HeaderValue.isValid (Utf8.encode entry.2) = true
    · rw [if_pos valid] at made
      cases made
      rw [HeaderName.isProtocol_of_parse? parsed]
      exact ⟨Bool.eq_false_iff.mpr owned, parsed, valid⟩
    · rw [if_neg valid] at made
      cases made

/-- The trailers made of metadata that holds what headers show, in any order, hold exactly what may
go back. -/
theorem exists_trailers_of_shows (wellFormed : headers.IsWellFormed) {metadata : Metadata}
    (held : HoldsExactly metadata headers.Shows) :
    ∃ pairs, metadata.trailers = ⟨Headers.entriesOf pairs⟩ ∧
      HoldsExactly pairs headers.Returns := by
  have becomes : ∀ (entry : String × String) (pair : String × Bytes),
      headers.Shows entry.1 entry.2 →
        (trailer? entry = some pair ↔
          HeaderName.isProtocol entry.1 = false ∧ pair = (entry.1, Utf8.encode entry.2)) := by
    intro entry pair shown
    obtain ⟨isName, isValue⟩ := wellFormed.of_shows shown
    exact trailer?_eq_some_iff isName isValue
  have picked := held.filterMap trailer?
    (fun entry other pair otherPair shown isPicked otherShown isOtherPicked same => by
      rw [((becomes _ _ shown).mp isPicked).2, ((becomes _ _ otherShown).mp isOtherPicked).2]
        at same
      exact same)
  refine ⟨metadata.filterMap trailer?, ?_, picked.congr fun name value => ?_⟩
  · rw [trailers_eq_foldl,
      Headers.foldl_put Headers.putsNew_insert trailer? _ Headers.empty picked.distinct]
    rfl
  · constructor
    · rintro ⟨own, text, shown, isPicked⟩
      obtain ⟨free, same⟩ := (becomes (own, text) _ shown).mp isPicked
      cases same
      exact ⟨free, text, shown, rfl⟩
    · rintro ⟨free, text, shown, rfl⟩
      exact ⟨name, text, shown, (becomes (name, text) _ shown).mpr ⟨free, rfl⟩⟩

/-- The trailers made of the metadata of a header map hold exactly what may go back. -/
theorem exists_trailers_ofHeaders (wellFormed : headers.IsWellFormed) :
    ∃ pairs, (ofHeaders headers).trailers = ⟨Headers.entriesOf pairs⟩ ∧
      HoldsExactly pairs headers.Returns :=
  exists_trailers_of_shows wellFormed (holdsExactly_ofHeaders wellFormed.distinct)

/-! ## Trailers of any metadata -/

/-- A header map that may go back as trailers: names of the application, each with one value. -/
def IsReturned (headers : Headers) : Prop :=
  ∃ pairs, headers = ⟨Headers.entriesOf pairs⟩ ∧ (pairs.map Prod.fst).Nodup ∧
    ∀ pair ∈ pairs, HeaderName.isProtocol pair.1 = false ∧ HeaderName.IsWellFormed pair.1 ∧
      HeaderValue.isValid pair.2 = true

theorem names_entriesOf (pairs : List (String × Bytes)) :
    (⟨Headers.entriesOf pairs⟩ : Headers).names = pairs.map Prod.fst := by
  rw [Headers.names, Headers.entriesOf, List.map_map]
  rfl

/-- Putting the value of a name in the place of the former one, or at the end. -/
theorem insert_entriesOf (pairs : List (String × Bytes)) (name : String) (value : Bytes) :
    (⟨Headers.entriesOf pairs⟩ : Headers).insert name value =
      ⟨Headers.entriesOf (if name ∈ pairs.map Prod.fst
        then pairs.map fun pair => if pair.1 = name then (pair.1, value) else pair
        else pairs ++ [(name, value)])⟩ := by
  by_cases present : name ∈ pairs.map Prod.fst
  · have contained : (⟨Headers.entriesOf pairs⟩ : Headers).contains name = true := by
      rw [← Bool.not_eq_false, Headers.contains_eq_false_iff, names_entriesOf]
      exact fun absent => absent present
    rw [Headers.insert, if_pos contained, if_pos present, Headers.entriesOf, Headers.entriesOf,
      List.map_map, List.map_map]
    congr 1
    refine List.map_congr_left fun pair _ => ?_
    by_cases same : pair.1 = name <;> simp [same]
  · have absent : name ∉ (⟨Headers.entriesOf pairs⟩ : Headers).names := by
      rw [names_entriesOf]
      exact present
    rw [Headers.putsNew_insert _ _ _ absent, if_neg present, Headers.entriesOf, Headers.entriesOf,
      List.map_append]
    rfl

theorem IsReturned.insert {headers : Headers} (returned : IsReturned headers) {name : String}
    {value : Bytes} (free : HeaderName.isProtocol name = false)
    (wellFormed : HeaderName.IsWellFormed name) (valid : HeaderValue.isValid value = true) :
    IsReturned (headers.insert name value) := by
  obtain ⟨pairs, rfl, distinct, each⟩ := returned
  refine ⟨_, insert_entriesOf pairs name value, ?_, ?_⟩
  · split
    · have sameNames : Prod.fst ∘ (fun pair : String × Bytes =>
          if pair.1 = name then (pair.1, value) else pair) = Prod.fst := by
        funext pair
        by_cases same : pair.1 = name <;> simp [same]
      rw [List.map_map, sameNames]
      exact distinct
    · rename_i absent
      rw [List.map_append, List.map_singleton]
      exact (List.perm_append_singleton _ _).nodup_iff.mpr
        (List.nodup_cons.mpr ⟨absent, distinct⟩)
  · intro pair member
    split at member
    · obtain ⟨own, inPairs, rfl⟩ := List.mem_map.mp member
      by_cases same : own.1 = name
      · rw [if_pos same]
        exact ⟨(each own inPairs).1, (each own inPairs).2.1, valid⟩
      · rw [if_neg same]
        exact each own inPairs
    · rcases List.mem_append.mp member with inPairs | isNew
      · exact each pair inPairs
      · rw [List.mem_singleton.mp isNew]
        exact ⟨free, wellFormed, valid⟩

/-- The trailers made of any metadata may go back. -/
theorem isReturned_trailers (metadata : Metadata) : IsReturned metadata.trailers := by
  have kept : ∀ (entries : Metadata) (headers : Headers), IsReturned headers →
      IsReturned (entries.foldl (Headers.putPicked Headers.insert trailer?) headers) := by
    intro entries
    induction entries with
    | nil => exact fun _ returned => returned
    | cons entry rest inductionHypothesis =>
        intro headers returned
        rw [List.foldl_cons]
        apply inductionHypothesis
        rw [Headers.putPicked]
        cases picked : trailer? entry with
        | none => exact returned
        | some pair =>
            obtain ⟨free, parsed, valid⟩ := trailer?_spec picked
            exact returned.insert free (HeaderName.isWellFormed_of_parse? parsed) valid
  rw [trailers_eq_foldl]
  exact kept metadata Headers.empty ⟨[], rfl, List.nodup_nil, fun _ member => by cases member⟩

end Metadata

end RpcEcho
