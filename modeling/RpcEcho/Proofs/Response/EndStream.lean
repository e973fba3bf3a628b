import RpcEcho.Response.Frame
import RpcEcho.Proofs.Api.EchoMessages

/-!
# Error objects and end-of-stream objects, as callers read them

A caller looks for the members it knows. The code of an error object is one of the known names, and
the message is there or not. An end-of-stream object holds an error object or not, and metadata or
not: a list of texts for each name.
-/

namespace RpcEcho

/-! ## Reading -/

namespace Json

/-- The member of an object. -/
def member? (key : String) : Json → Option Json
  | .object members => members.lookup (some key)
  | _ => none

/-- The text of a string. -/
def text? : Json → Option String
  | .string text => text
  | _ => none

/-- The texts of an array of strings. -/
def texts? : Json → Option (List String)
  | .array items => items.mapM text?
  | _ => none

/-- The keys of an object, each with its texts. -/
def textLists? : Json → Option (List (String × List String))
  | .object members => members.mapM fun entry =>
      entry.1.bind fun name => (texts? entry.2).map fun texts => (name, texts)
  | _ => none

end Json

/-- The code of a name. -/
def Code.ofName? (name : String) : Option Code := all.find? fun code => code.name = name

/-- The status of an error object. -/
def Status.ofJson? (object : Json) : Option Status :=
  (((object.member? "code").bind Json.text?).bind Code.ofName?).bind fun code =>
    match object.member? "message" with
    | none => some ⟨code, none⟩
    | some message => message.text?.map fun text => ⟨code, some text⟩

namespace EndStream

/-- What an end-of-stream object tells. -/
structure Reading where
  failure : Option Status
  metadata : List (String × List String)
  deriving DecidableEq, Repr

/-- What the payload of the last frame tells. -/
def read? (payload : Bytes) : Option Reading :=
  (Json.parse? payload).bind fun object =>
    let failure := match object.member? "error" with
      | none => some none
      | some error => (Status.ofJson? error).map some
    let metadata := match object.member? "metadata" with
      | none => some []
      | some metadata => metadata.textLists?
    failure.bind fun failure => metadata.map fun metadata => ⟨failure, metadata⟩

end EndStream

/-! ## Error objects -/

theorem Code.ofName?_name (code : Code) : ofName? code.name = some code := by
  cases code <;> decide

namespace Status

theorem toJson_eq (status : Status) :
    status.toJson = .object ((some "code", Json.ofText status.code.name) ::
      status.message.toList.map fun message => (some "message", Json.ofText message)) := by
  have order : decide ("code" ≤ "message") = true := by decide
  obtain ⟨code, message⟩ := status
  cases message with
  | none => simp [toJson, Json.ofMembers]
  | some message =>
      have sorted : [("code", Json.ofText code.name), ("message", Json.ofText message)].Pairwise
          fun first second => decide (first.1 ≤ second.1) = true := by
        simp [of_decide_eq_true order]
      simp only [toJson, Json.ofMembers]
      rw [List.mergeSort_of_pairwise sorted]
      rfl

theorem isExact_toJson (status : Status) : Json.IsExact status.toJson := by
  refine Json.isExact_ofMembers ?_
  intro entry member
  rcases List.mem_cons.mp member with isCode | isMessage
  · rw [isCode]
    exact ⟨status.code.name, rfl⟩
  · cases found : status.message with
    | none => simp [found] at isMessage
    | some message =>
        simp only [found, List.mem_singleton] at isMessage
        rw [isMessage]
        exact ⟨message, rfl⟩

/-- The error object of a status is read as the status. -/
theorem ofJson?_toJson (status : Status) : ofJson? status.toJson = some status := by
  obtain ⟨code, message⟩ := status
  rw [toJson_eq]
  have isCode : ((Json.member? "code" (.object ((some "code", Json.ofText code.name) ::
      message.toList.map fun message => (some "message", Json.ofText message)))).bind
        Json.text?).bind Code.ofName? = some code := Code.ofName?_name code
  rw [ofJson?, isCode]
  cases message <;> rfl

theorem parse?_encode_toJson (status : Status) :
    (Json.parse? status.toJson.encode).bind ofJson? = some status := by
  rw [Json.parse?_encode status.isExact_toJson]
  exact ofJson?_toJson status

end Status

/-! ## End-of-stream objects -/

namespace EndStream

theorem toJson_error (status : Status) :
    toJson (.error status) = .object [(some "error", status.toJson)] := by
  rw [toJson, Json.ofMembers, List.mergeSort_singleton]
  rfl

/-- The end of a failed stream tells the status, and no metadata. -/
theorem read?_error (status : Status) :
    read? (toJson (.error status)).encode = some ⟨some status, []⟩ := by
  have exact : Json.IsExact (toJson (.error status)) := by
    rw [toJson_error]
    exact ⟨⟨_, rfl⟩, status.isExact_toJson, trivial⟩
  have isError : Json.member? "error" (.object [(some "error", status.toJson)]) =
      some status.toJson := rfl
  have noMetadata : Json.member? "metadata" (.object [(some "error", status.toJson)]) = none := rfl
  rw [read?, Json.parse?_encode exact, toJson_error]
  simp only [Option.bind_some, isError, noMetadata, Status.ofJson?_toJson, Option.map_some]

/-- The member of the metadata that a name makes. -/
def textsJson (texts : List String) : Json := .array (texts.map Json.ofText)

theorem texts?_textsJson (texts : List String) : (textsJson texts).texts? = some texts := by
  have each : (texts.map Json.ofText).mapM Json.text? = some (texts.map id) :=
    mapM_map_eq_some fun _ _ => rfl
  rw [List.map_id] at each
  exact each

def metadataJson (metadata : List (String × List String)) : Json :=
  Json.ofMembers (metadata.map fun entry => (entry.1, textsJson entry.2))

theorem isExact_metadataJson (metadata : List (String × List String)) :
    Json.IsExact (metadataJson metadata) := by
  refine Json.isExact_ofMembers ?_
  intro entry member
  obtain ⟨own, _, rfl⟩ := List.mem_map.mp member
  refine Json.areExact_of_forall fun item isText => ?_
  obtain ⟨text, _, rfl⟩ := List.mem_map.mp isText
  exact ⟨text, rfl⟩

theorem textLists?_metadataJson (metadata : List (String × List String)) :
    ∃ read : List (String × List String), read.Perm metadata ∧
      (metadataJson metadata).textLists? = some read := by
  have shape := Json.ofMembers_map (fun pair => (pair.1, textsJson pair.2)) metadata
  refine ⟨Json.sortedBy Prod.fst metadata, Json.sortedBy_perm Prod.fst metadata, ?_⟩
  have each : ((Json.sortedBy Prod.fst metadata).map
        fun entry => (some entry.1, textsJson entry.2)).mapM
      (fun entry : Option String × Json =>
        entry.1.bind fun name => (Json.texts? entry.2).map fun texts => (name, texts)) =
          some ((Json.sortedBy Prod.fst metadata).map id) := by
    refine mapM_map_eq_some ?_
    intro entry _
    simp only [Option.bind_some, texts?_textsJson, Option.map_some]
    rfl
  rw [List.map_id] at each
  rw [metadataJson, shape]
  exact each

theorem toJson_ok (trailers : Headers) :
    toJson (.ok trailers) = .object (if (metadata trailers).isEmpty then []
      else [(some "metadata", metadataJson (metadata trailers))]) := by
  rw [toJson]
  split
  · simp [Json.ofMembers]
  · rw [Json.ofMembers, List.mergeSort_singleton]
    rfl

/-- The end of a stream that succeeded tells the metadata, in some order. -/
theorem read?_ok (trailers : Headers) :
    ∃ read : List (String × List String), read.Perm (metadata trailers) ∧
      read? (toJson (.ok trailers)).encode = some ⟨none, read⟩ := by
  have exact : Json.IsExact (toJson (.ok trailers)) := by
    rw [toJson_ok]
    split
    · trivial
    · exact ⟨⟨_, rfl⟩, isExact_metadataJson _, trivial⟩
  rw [read?, Json.parse?_encode exact, toJson_ok]
  by_cases empty : (metadata trailers).isEmpty = true
  · refine ⟨[], ?_, ?_⟩
    · rw [List.isEmpty_iff.mp empty]
    · rw [if_pos empty]
      rfl
  · obtain ⟨read, permuted, isRead⟩ := textLists?_metadataJson (metadata trailers)
    have noError : Json.member? "error"
        (.object [(some "metadata", metadataJson (metadata trailers))]) = none := rfl
    have isMetadata : Json.member? "metadata"
        (.object [(some "metadata", metadataJson (metadata trailers))]) =
          some (metadataJson (metadata trailers)) := rfl
    refine ⟨read, permuted, ?_⟩
    rw [if_neg empty]
    simp only [Option.bind_some, noError, isMetadata, isRead, Option.map_some]

end EndStream

end RpcEcho
