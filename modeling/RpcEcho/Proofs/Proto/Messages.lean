import RpcEcho.Proofs.OneByOne
import RpcEcho.Proofs.Proto.Records
import RpcEcho.Proofs.Text.Utf8

/-!
# Fields and their records

What a message holds in a field is written as records of the field's number. Here are the records of
texts and of the entries of maps, the bits in which a number of thirty-two bits travels, and what
the order of a map keeps: of entries with different keys none is lost. `decodeWithin?_write` reads
the records of a whole message.
-/

namespace RpcEcho.Proto

/-! ## Entries of messages -/

namespace Message

@[simp]
theorem values_append (front rest : Message) (number : Nat) :
    values (front ++ rest) number = values front number ++ values rest number :=
  List.filterMap_append

@[simp]
theorem values_ofText (number : Nat) (value : String) (asked : Nat) :
    values (ofText number value) asked =
      if number = asked ∧ value ≠ "" then [.text value] else [] := by
  by_cases empty : value = ""
  · simp [ofText, values, empty]
  · by_cases same : number = asked <;> simp [ofText, values, empty, same]

theorem text_eq_of_values {message : Message} {number : Nat} {value : String}
    (held : values message number = values (ofText number value) number) :
    text message number = value := by
  rw [values_ofText] at held
  by_cases empty : value = ""
  · simp [text, value?, held, empty]
  · simp [text, value?, held, empty]

@[simp]
theorem values_ofInt (number : Nat) (value : Int) (asked : Nat) :
    values (ofInt number value) asked =
      if number = asked ∧ value ≠ 0 then [.int value] else [] := by
  by_cases zero : value = 0
  · simp [ofInt, values, zero]
  · by_cases same : number = asked <;> simp [ofInt, values, zero, same]

theorem int_eq_of_values {message : Message} {number : Nat} {value : Int}
    (held : values message number = values (ofInt number value) number) :
    int message number = value := by
  rw [values_ofInt] at held
  by_cases zero : value = 0
  · simp [int, value?, held, zero]
  · simp [int, value?, held, zero]

theorem eq_of_mem_ofText {number : Nat} {value : String} {entry : Nat × Value}
    (member : entry ∈ ofText number value) : entry = (number, .text value) := by
  rw [ofText] at member
  split at member
  · cases member
  · exact List.mem_singleton.mp member

theorem eq_of_mem_ofInt {number : Nat} {value : Int} {entry : Nat × Value}
    (member : entry ∈ ofInt number value) : entry = (number, .int value) := by
  rw [ofInt] at member
  split at member
  · cases member
  · exact List.mem_singleton.mp member

def entryOf (pair : String × String) : Message := ofText 1 pair.1 ++ ofText 2 pair.2

def pairOf (entry : Message) : String × String := (entry.text 1, entry.text 2)

@[simp]
theorem pairOf_entryOf (pair : String × String) : pairOf (entryOf pair) = pair := by
  refine Prod.ext (text_eq_of_values ?_) (text_eq_of_values ?_)
  · simp [entryOf]
  · simp [entryOf]

end Message

namespace Binary

variable {τ : Type}

/-! ## Maps -/

/-- An entry takes the place of the one with its key, or goes behind all others. -/
def keepLast (kept : List Message) (entry : Message) : List Message :=
  if kept.any fun other => other.text 1 = entry.text 1 then
    kept.map fun other => if other.text 1 = entry.text 1 then entry else other
  else kept ++ [entry]

theorem lastOfEachKey_eq (entries : List Message) :
    lastOfEachKey entries = entries.foldl keepLast [] := rfl

theorem keepLast_of_new {kept : List Message} {entry : Message}
    (isNew : ∀ other ∈ kept, other.text 1 ≠ entry.text 1) :
    keepLast kept entry = kept ++ [entry] := by
  have noSuch : (kept.any fun other => decide (other.text 1 = entry.text 1)) = false :=
    List.any_eq_false.mpr fun other member same => isNew other member (of_decide_eq_true same)
  rw [keepLast, noSuch]
  rfl

theorem keepLast_of_mem {kept : List Message} {entry other : Message} (member : other ∈ kept)
    (same : other.text 1 = entry.text 1) : keepLast kept entry =
      kept.map fun other => if other.text 1 = entry.text 1 then entry else other := by
  have isAny : (kept.any fun other => decide (other.text 1 = entry.text 1)) = true :=
    List.any_eq_true.mpr ⟨other, member, decide_eq_true same⟩
  rw [keepLast, isAny]
  rfl

theorem lastOfEachKey_of_nodup {entries : List Message}
    (distinct : (entries.map fun entry => entry.text 1).Nodup) :
    lastOfEachKey entries = entries := by
  -- An entry goes behind those kept so far if none of them has its key.
  have general : ∀ kept : List Message,
      ((kept ++ entries).map fun entry => entry.text 1).Nodup →
        entries.foldl keepLast kept = kept ++ entries := by
    induction entries with
    | nil => simp
    | cons entry entries inductionHypothesis =>
        intro kept distinctKept
        have isNew : ∀ other ∈ kept, other.text 1 ≠ entry.text 1 := by
          rw [List.map_append, List.nodup_append] at distinctKept
          intro other member
          exact distinctKept.2.2 _ (List.mem_map_of_mem member) _
            (List.mem_map_of_mem List.mem_cons_self)
        rw [List.foldl_cons, keepLast_of_new isNew]
        have shape : kept ++ entry :: entries = kept ++ [entry] ++ entries := List.append_cons ..
        rw [shape] at distinctKept ⊢
        exact inductionHypothesis (List.nodup_cons.mp distinct).2 (kept ++ [entry]) distinctKept
  exact general [] distinct

/-- The order of a map changes nothing else. -/
theorem mapEntries_perm_lastOfEachKey (catalog : Catalog τ) (type : τ) (entries : List Message) :
    (mapEntries catalog type entries).Perm (lastOfEachKey entries) := by
  have sorted := List.mergeSort_perm
    ((lastOfEachKey entries).map fun entry => (delimited (encode catalog type entry), entry))
    fun first second => octetsLe first.1 second.1
  have unpaired := sorted.map Prod.snd
  have same : (Prod.snd ∘ fun entry => (delimited (encode catalog type entry), entry)) = id := rfl
  rw [List.map_map, same, List.map_id] at unpaired
  exact unpaired

/-- Of entries with different keys a map keeps all. -/
theorem mapEntries_perm (catalog : Catalog τ) (type : τ) {entries : List Message}
    (distinct : (entries.map fun entry => entry.text 1).Nodup) :
    (mapEntries catalog type entries).Perm entries := by
  have permuted := mapEntries_perm_lastOfEachKey catalog type entries
  rwa [lastOfEachKey_of_nodup distinct] at permuted

/-! ## Written contents -/

theorem contents_append (catalog : Catalog τ) (type : τ) (front rest : Message) :
    contents catalog type (front ++ rest) =
      contents catalog type front ++ contents catalog type rest := by
  induction front with
  | nil => rw [List.nil_append, contents, List.nil_append]
  | cons entry front inductionHypothesis =>
      obtain ⟨number, value⟩ := entry
      rw [List.cons_append, contents, contents]
      cases catalog.field? type number with
      | none => exact inductionHypothesis
      | some field => simp [inductionHypothesis]

/-- A record as a number and its written content. -/
def written (record : Nat × Record.Content) : Nat × Bytes :=
  (record.1, Record.contentOctets record.2)

/-- The contents of the records of a field. -/
def own (number : Nat) (records : List (Nat × Record.Content)) : List Record.Content :=
  records.filterMap fun record => if record.1 = number then some record.2 else none

@[simp]
theorem own_append (number : Nat) (front rest : List (Nat × Record.Content)) :
    own number (front ++ rest) = own number front ++ own number rest :=
  List.filterMap_append

/-- A field that is written one element a record makes the records of its own number. -/
theorem slot_written {field : MessageField τ} (oneByOne : field.label ≠ .packed)
    {records : List (Nat × Record.Content)}
    (shaped : ∀ content ∈ own field.number records,
      Record.wireNumber (Record.wireTypeOf content) = wireNumber field.type) :
    slot (records.map written) (.single field) =
      ((own field.number records).map fun content => (field.number, content)).flatMap
        Record.write := by
  have owned : ((records.map written).filterMap fun entry =>
      if entry.1 = field.number then some entry.2 else none) =
        (own field.number records).map Record.contentOctets := by
    rw [own, List.filterMap_map, List.map_filterMap]
    congr 1
    funext record
    by_cases same : record.1 = field.number <;> simp [written, same]
  have shape : slot (records.map written) (.single field) =
      ((own field.number records).map Record.contentOctets).flatMap
        fun content => key field.number (wireNumber field.type) ++ content := by
    rw [slot, owned]
    split
    · rename_i packed
      exact absurd packed oneByOne
    · rfl
  have sameRecord : ∀ content ∈ own field.number records,
      key field.number (wireNumber field.type) ++ Record.contentOctets content =
        Record.write (field.number, content) := by
    intro content member
    rw [Record.write, shaped content member]
  rw [shape, List.flatMap_map, List.flatMap_map, List.flatMap_def, List.flatMap_def,
    List.map_congr_left sameRecord]

/-! ## Texts -/

def textRecords (number : Nat) (value : String) : List (Nat × Record.Content) :=
  if value = "" then [] else [(number, .delimited (Utf8.encode value))]

@[simp]
theorem own_textRecords (number asked : Nat) (value : String) :
    own asked (textRecords number value) =
      if number = asked ∧ value ≠ "" then [.delimited (Utf8.encode value)] else [] := by
  by_cases empty : value = ""
  · simp [own, textRecords, empty]
  · by_cases same : number = asked <;> simp [own, textRecords, empty, same]

theorem slot_text {records : List (Nat × Record.Content)} {number : Nat} {name value : String}
    (owned : own number records = own number (textRecords number value)) :
    slot (records.map written)
        (.single (⟨number, name, .scalar .text, .implicit⟩ : MessageField τ)) =
      (textRecords number value).flatMap Record.write := by
  rw [slot_written (by simp)]
  · change ((own number records).map fun content => (number, content)).flatMap _ = _
    rw [owned, own_textRecords]
    by_cases empty : value = "" <;> simp [textRecords, empty]
  · change ∀ content ∈ own number records, _
    rw [owned, own_textRecords]
    by_cases empty : value = "" <;>
      simp [empty, Record.wireTypeOf, Record.wireNumber, wireNumber]

theorem contents_ofText {catalog : Catalog τ} {type : τ} {number : Nat} {name : String}
    {label : Label}
    (found : catalog.field? type number = some ⟨number, name, .scalar .text, label⟩)
    (value : String) :
    contents catalog type (Message.ofText number value) =
      (textRecords number value).map written := by
  by_cases empty : value = ""
  · simp [Message.ofText, empty, contents, textRecords]
  · simp [Message.ofText, empty, contents, textRecords, found, content, scalar, written,
      Record.contentOctets]

/-! ## Numbers of thirty-two bits -/

/-- The kinds of fields whose numbers have thirty-two bits. -/
def IsShort : Scalar → Prop
  | .int32 | .enumeration .. => True
  | _ => False

theorem IsShort.isPackable {kind : Scalar} (short : IsShort kind) : kind.isPackable = true := by
  cases kind with
  | int32 | enumeration _ _ => rfl
  | text | bytes | int64 | uint64 | bool | double => cases short

theorem IsShort.ne_double {kind : Scalar} (short : IsShort kind) : kind ≠ .double := by
  rintro rfl
  cases short

/-- The sixty-four bits in which a number travels. -/
def bitsOf (value : Int) : Nat := (value % 18446744073709551616).toNat

theorem bitsOf_lt (value : Int) : bitsOf value < Varint.bound := by
  rw [bitsOf, Varint.bound]
  omega

theorem low32_bitsOf {value : Int} (low : -2147483648 ≤ value) (high : value < 2147483648) :
    low32 (bitsOf value) = value := by
  unfold low32 bitsOf
  have bits : (value % 18446744073709551616).toNat % 4294967296 = (value % 4294967296).toNat := by
    omega
  simp only [bits]
  split <;> omega

theorem ofVarint_bitsOf {kind : Scalar} (short : IsShort kind) {value : Int}
    (low : -2147483648 ≤ value) (high : value < 2147483648) :
    ofVarint kind (bitsOf value) = value := by
  cases kind with
  | int32 => exact low32_bitsOf low high
  | enumeration name names => exact low32_bitsOf low high
  | text | bytes | int64 | uint64 | bool | double => cases short

/-! ## Maps of messages -/

def messageEntries (number : Nat) (entries : List Message) : Message :=
  entries.map fun entry => (number, .message entry)

@[simp]
theorem values_messageEntries (number : Nat) (entries : List Message) (asked : Nat) :
    Message.values (messageEntries number entries) asked =
      if number = asked then entries.map .message else [] := by
  by_cases same : number = asked
  · rw [Message.values, messageEntries, List.filterMap_map, if_pos same, ← List.filterMap_eq_map]
    congr 1
    funext entry
    simp [same]
  · rw [Message.values, messageEntries, List.filterMap_map, if_neg same]
    simp [same]

def messageRecords (catalog : Catalog τ) (number : Nat) (type : τ) (entries : List Message) :
    List (Nat × Record.Content) :=
  entries.map fun entry => (number, .delimited (encode catalog type entry))

@[simp]
theorem own_messageRecords (catalog : Catalog τ) (number : Nat) (type : τ)
    (entries : List Message) (asked : Nat) :
    own asked (messageRecords catalog number type entries) =
      if number = asked then
        entries.map fun entry => .delimited (encode catalog type entry)
      else [] := by
  by_cases same : number = asked
  · rw [own, messageRecords, List.filterMap_map, if_pos same, ← List.filterMap_eq_map]
    congr 1
    funext entry
    simp [same]
  · rw [own, messageRecords, List.filterMap_map, if_neg same]
    simp [same]

theorem slot_messages {catalog : Catalog τ} {type : τ} {records : List (Nat × Record.Content)}
    {number : Nat} {name : String} {label : Label} (oneByOne : label ≠ .packed)
    {entries : List Message}
    (owned : own number records = own number (messageRecords catalog number type entries)) :
    slot (records.map written)
        (.single (⟨number, name, .message type, label⟩ : MessageField τ)) =
      (messageRecords catalog number type entries).flatMap Record.write := by
  rw [slot_written oneByOne]
  · change ((own number records).map fun content => (number, content)).flatMap _ = _
    rw [owned, own_messageRecords, if_pos rfl, List.map_map]
    rfl
  · change ∀ content ∈ own number records, _
    rw [owned, own_messageRecords, if_pos rfl]
    simp [Record.wireTypeOf, Record.wireNumber, wireNumber]

theorem contents_messageEntries {catalog : Catalog τ} {type inner : τ} {number : Nat}
    {name : String} {label : Label}
    (found : catalog.field? type number = some ⟨number, name, .message inner, label⟩)
    (entries : List Message) :
    contents catalog type (messageEntries number entries) =
      (messageRecords catalog number inner entries).map written := by
  induction entries with
  | nil => rw [messageEntries, messageRecords, List.map_nil, contents, List.map_nil, List.map_nil]
  | cons entry entries inductionHypothesis =>
      rw [messageEntries, messageRecords] at inductionHypothesis ⊢
      rw [List.map_cons, List.map_cons, List.map_cons, contents, found, ← inductionHypothesis]
      rfl

/-! ## Whole messages -/

/-- The octets of readable records are read as the message that the records make. -/
theorem decodeWithin?_write {catalog : Catalog τ} {type : τ}
    {records : List (Nat × Record.Content)} {message : Message}
    (readable : ∀ record ∈ records, Record.IsReadable (reading catalog type) record) (depth : Nat)
    (made : ∀ read?, (∀ inner, depth = inner + 1 → read? = decodeWithin? catalog inner) →
      ofRecords? catalog read? type records = some message) :
    decodeWithin? catalog depth type (records.flatMap Record.write) = some message := by
  cases depth with
  | zero =>
      rw [decodeWithin?, Record.readAll?_write readable]
      exact made _ fun inner impossible => by cases impossible
  | succ depth =>
      rw [decodeWithin?, Record.readAll?_write readable]
      refine made _ fun inner same => ?_
      cases same
      rfl

end Binary

end RpcEcho.Proto
