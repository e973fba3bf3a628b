import RpcEcho.Proofs.Header.Metadata

/-!
# Which headers are shown

The words about metadata promise every first value that is UTF-8. What is shown is less: a value
beyond ASCII is left out, also where it is UTF-8. So the promise is kept for just those headers
whose first values have no other characters.

* `Headers.Tells`: the names and texts that are promised.
* `Metadata.Projects`: what is shown, what is missing, and when the promise is kept.
* `Metadata.projects_ofHeaders`: this holds of all headers that HTTP admits.
-/

namespace RpcEcho

/-- All characters of a text are ASCII. -/
def IsAscii (text : String) : Prop := ∀ c ∈ text.toList, c.toNat < 128

instance (text : String) : Decidable (IsAscii text) :=
  List.decidableBAll (fun c : Char => c.toNat < 128) text.toList

namespace HeaderValue

theorem isTextOctet_of_ascii {octet : UInt8} (valid : isValidOctet octet = true)
    (ascii : octet.toNat < 128) : isTextOctet octet = true := by
  simp only [isValidOctet, isTextOctet, Bool.or_eq_true, Bool.and_eq_true, decide_eq_true_eq,
    beq_iff_eq, bne_iff_ne, ne_eq, ← UInt8.toNat_inj, UInt8.lt_iff_toNat_lt] at valid ⊢
  rcases valid with ⟨low, notDelete⟩ | isTab
  · have differs : octet.toNat ≠ 127 := notDelete
    have below : octet.toNat < 127 := by omega
    exact .inl ⟨low, below⟩
  · exact .inr isTab

theorem toNat_octet {c : Char} (ascii : c.toNat < 128) : (UInt8.ofNat c.toNat).toNat = c.toNat :=
  UInt8.toNat_ofNat_of_lt' (Nat.lt_trans ascii (by decide))

theorem encode_of_isAscii {text : String} (ascii : IsAscii text) :
    Utf8.encode text = text.toList.map fun c => UInt8.ofNat c.toNat := by
  have spelled := Utf8.encode_ofList_of_ascii ascii
  rwa [String.ofList_toList] at spelled

/-- The octets of an ASCII text are the numbers of its characters. -/
theorem ofList_map_encode {text : String} (ascii : IsAscii text) :
    String.ofList ((Utf8.encode text).map fun octet => Char.ofNat octet.toNat) = text := by
  have back : ∀ c ∈ text.toList, Char.ofNat (UInt8.ofNat c.toNat).toNat = c := by
    intro c member
    rw [toNat_octet (ascii c member)]
    exact Char.ofNat_toNat c
  rw [encode_of_isAscii ascii, List.map_map]
  exact (congrArg _ ((List.map_congr_left back).trans (List.map_id' _))).trans
    String.ofList_toList

/-- A value of HTTP is text just if it is UTF-8 without characters beyond ASCII. -/
theorem text?_eq_some_iff_decode? {value : Bytes} {text : String} (valid : isValid value = true) :
    text? value = some text ↔ Utf8.decode? value = some text ∧ IsAscii text := by
  constructor
  · intro found
    obtain ⟨isText, spelled⟩ := text?_eq_some_iff.mp found
    refine ⟨?_, fun c member => ?_⟩
    · rw [← encode_of_text? found]
      exact Utf8.decode?_encode text
    · rw [← spelled, String.toList_ofList] at member
      obtain ⟨octet, inValue, rfl⟩ := List.mem_map.mp member
      have ascii := toNat_lt_of_isTextOctet (isText octet inValue)
      rw [toNat_ofNat_of_ascii ascii]
      exact ascii
  · rintro ⟨decoded, ascii⟩
    obtain rfl : Utf8.encode text = value := Utf8.decode?_eq_some_iff.mp decoded
    refine text?_eq_some_iff.mpr ⟨fun octet member => ?_, ofList_map_encode ascii⟩
    apply isTextOctet_of_ascii (List.all_eq_true.mp valid octet member)
    rw [encode_of_isAscii ascii] at member
    obtain ⟨c, inText, rfl⟩ := List.mem_map.mp member
    rw [toNat_octet (ascii c inText)]
    exact ascii c inText

end HeaderValue

namespace Headers

/-- A value is the first one of a name. -/
def HasFirst (headers : Headers) (name : String) (value : Bytes) : Prop :=
  ∃ others, (name, value :: others) ∈ headers.entries

/-- Headers tell a text: its name does not speak about one connection, and the first value of the
name is the text in UTF-8. -/
def Tells (headers : Headers) (name text : String) : Prop :=
  HeaderName.isHopByHop name = false ∧
    ∃ value, headers.HasFirst name value ∧ Utf8.decode? value = some text

variable {headers : Headers} {name text : String}

theorem IsWellFormed.isValid_of_hasFirst (wellFormed : headers.IsWellFormed) {value : Bytes}
    (hasFirst : headers.HasFirst name value) : HeaderValue.isValid value = true := by
  obtain ⟨others, member⟩ := hasFirst
  exact (wellFormed.values _ member).2 value List.mem_cons_self

theorem IsWellFormed.exists_hasFirst (wellFormed : headers.IsWellFormed)
    (isName : name ∈ headers.names) : ∃ value, headers.HasFirst name value := by
  obtain ⟨⟨own, values⟩, member, rfl⟩ := List.mem_map.mp isName
  obtain ⟨value, others, rfl⟩ :=
    List.exists_cons_of_ne_nil (wellFormed.values _ member).1
  exact ⟨value, others, member⟩

theorem HasFirst.unique (distinct : headers.names.Nodup) {value other : Bytes}
    (first : headers.HasFirst name value) (second : headers.HasFirst name other) :
    value = other := by
  obtain ⟨others, member⟩ := first
  obtain ⟨more, otherMember⟩ := second
  have values : headers.values name = value :: others := values_of_mem distinct member
  have otherValues : headers.values name = other :: more := values_of_mem distinct otherMember
  exact (List.cons.inj (values.symm.trans otherValues)).1

theorem IsWellFormed.shows_iff (wellFormed : headers.IsWellFormed) :
    headers.Shows name text ↔ headers.Tells name text ∧ IsAscii text := by
  rw [Shows, Tells, firstText?_eq_some_iff wellFormed.distinct, and_assoc]
  refine and_congr Iff.rfl ⟨?_, ?_⟩
  · rintro ⟨values, member, found⟩
    obtain ⟨value, isFirst, isText⟩ := Option.bind_eq_some_iff.mp found
    obtain ⟨others, rfl⟩ := List.head?_eq_some_iff.mp isFirst
    have hasFirst : headers.HasFirst name value := ⟨others, member⟩
    obtain ⟨decoded, ascii⟩ :=
      (HeaderValue.text?_eq_some_iff_decode? (wellFormed.isValid_of_hasFirst hasFirst)).mp isText
    exact ⟨⟨value, hasFirst, decoded⟩, ascii⟩
  · rintro ⟨⟨value, hasFirst, decoded⟩, ascii⟩
    have isText := (HeaderValue.text?_eq_some_iff_decode?
      (wellFormed.isValid_of_hasFirst hasFirst)).mpr ⟨decoded, ascii⟩
    obtain ⟨others, member⟩ := hasFirst
    exact ⟨_, member, isText⟩

end Headers

namespace Metadata

/-- What metadata has of headers. -/
structure Projects (headers : Headers) (metadata : Metadata) : Prop where
  /-- Each text without other characters than those of ASCII, and nothing else. -/
  shown : HoldsExactly metadata fun name text => headers.Tells name text ∧ IsAscii text
  /-- A name is missing if it speaks about one connection, if its first value is not UTF-8, or if
  that value has a character beyond ASCII. -/
  missing : ∀ name ∈ headers.names, name ∉ metadata.map Prod.fst ↔
    HeaderName.isHopByHop name = true ∨ ∃ value, headers.HasFirst name value ∧
      ∀ text, Utf8.decode? value = some text → ¬ IsAscii text
  /-- The metadata is what the headers tell just if these tell ASCII only. -/
  promise : HoldsExactly metadata headers.Tells ↔
    ∀ name text, headers.Tells name text → IsAscii text

theorem projects_of_perm {headers : Headers} (wellFormed : headers.IsWellFormed)
    {metadata : Metadata} (permuted : metadata.Perm (ofHeaders headers)) :
    Projects headers metadata := by
  have shown : HoldsExactly metadata fun name text => headers.Tells name text ∧ IsAscii text :=
    ((holdsExactly_ofHeaders wellFormed.distinct).of_perm permuted).congr fun name text =>
      wellFormed.shows_iff
  refine ⟨shown, fun name isName => ⟨fun absent => ?_, ?_⟩, ⟨?_, ?_⟩⟩
  · by_cases hidden : HeaderName.isHopByHop name = true
    · exact .inl hidden
    · obtain ⟨value, hasFirst⟩ := wellFormed.exists_hasFirst isName
      refine .inr ⟨value, hasFirst, fun text decoded ascii => absent ?_⟩
      have isShown := (shown.mem_iff name text).mpr
        ⟨⟨Bool.eq_false_iff.mpr hidden, value, hasFirst, decoded⟩, ascii⟩
      exact List.mem_map_of_mem isShown
  · rintro missing isShown
    obtain ⟨⟨own, text⟩, member, rfl⟩ := List.mem_map.mp isShown
    obtain ⟨⟨shownName, value, hasFirst, decoded⟩, ascii⟩ := (shown.mem_iff own text).mp member
    rcases missing with hidden | ⟨other, otherFirst, noText⟩
    · exact absurd hidden (Bool.eq_false_iff.mp shownName)
    · cases hasFirst.unique wellFormed.distinct otherFirst
      exact noText text decoded ascii
  · intro kept name text tells
    exact ((shown.mem_iff name text).mp ((kept.mem_iff name text).mpr tells)).2
  · intro asciiOnly
    exact shown.congr fun name text =>
      ⟨fun isShown => isShown.1, fun tells => ⟨tells, asciiOnly name text tells⟩⟩

/-- Headers with a value in UTF-8 that is not ASCII. -/
def accentedHeaders : Headers := ⟨[("x-d", [[0xC3, 0xA9]])]⟩

/-- The value is promised and left out. -/
theorem not_holdsExactly_accentedHeaders :
    accentedHeaders.IsWellFormed ∧ accentedHeaders.Tells "x-d" "é" ∧
      ofHeaders accentedHeaders = [] ∧
      ¬ HoldsExactly (ofHeaders accentedHeaders) accentedHeaders.Tells := by
  have tells : accentedHeaders.Tells "x-d" "é" :=
    ⟨by decide, _, ⟨[], List.mem_cons_self⟩, by decide +kernel⟩
  refine ⟨by decide, tells, by decide, fun kept => ?_⟩
  have member := (kept.mem_iff "x-d" "é").mpr tells
  have isEmpty : ofHeaders accentedHeaders = [] := by decide
  rw [isEmpty] at member
  cases member

end Metadata

end RpcEcho
