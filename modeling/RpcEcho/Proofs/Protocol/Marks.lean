import RpcEcho.WireFormat

/-!
# Marks of protocols

The admission filter looks for marks, octet for octet, and `Protocol.classify` tells the protocol
whose mark a content type carries. A media type that is spelt as it is advertised carries the mark
of the protocol that its format belongs to; other spellings that the call reads alike need not.
-/

namespace RpcEcho

/-! ## Parts without a separator -/

namespace Text

/-- A part in which the separator does not occur lies on one side of it. -/
theorem infix_append_cons_iff {alpha : Type} {separator : alpha} {part front rest : List alpha}
    (notInPart : separator ∉ part) :
    part <:+: front ++ separator :: rest ↔ part <:+: front ∨ part <:+: rest := by
  constructor
  · rintro ⟨before, behind, equality⟩
    rw [List.append_assoc] at equality
    rcases List.append_eq_append_iff.mp equality.symm with
      ⟨gap, rfl, splits⟩ | ⟨gap, rfl, splits⟩
    · -- The part begins behind the front: at the separator only if it is empty.
      cases gap with
      | nil =>
          cases part with
          | nil => exact Or.inl ⟨[], front, rfl⟩
          | cons head tail =>
              rw [List.nil_append, List.cons_append] at splits
              injection splits with headEquality _
              exact absurd (headEquality ▸ List.mem_cons_self) notInPart
      | cons head tail =>
          rw [List.cons_append] at splits
          injection splits with _ tailEquality
          exact Or.inr ⟨tail, behind, by rw [tailEquality, List.append_assoc]⟩
    · rcases List.append_eq_append_iff.mp splits with
        ⟨more, rfl, _⟩ | ⟨more, rfl, restEquality⟩
      · exact Or.inl ⟨before, more, by rw [List.append_assoc]⟩
      · cases more with
        | nil => exact Or.inl ⟨before, [], by simp⟩
        | cons head tail =>
            rw [List.cons_append] at restEquality
            injection restEquality with headEquality _
            refine absurd ?_ notInPart
            rw [headEquality]
            exact List.mem_append_right gap List.mem_cons_self
  · rintro (inFront | inRest)
    · exact inFront.trans (List.prefix_append front _).isInfix
    · exact (inRest.trans (List.suffix_cons separator rest).isInfix).trans
        (List.suffix_append front _).isInfix

/-- A part stands somewhere in a text. -/
def Occurs (part text : String) : Prop := part.toList <:+: text.toList

theorem occursIn_iff {part text : String} : occursIn part text = true ↔ Occurs part text :=
  isSome_behind?_iff

theorem occurs_before_semicolon_iff {part front rest : String} (notInPart : ';' ∉ part.toList) :
    Occurs part (front ++ ";" ++ rest) ↔ Occurs part front ∨ Occurs part rest := by
  unfold Occurs
  rw [String.toList_append, String.toList_append, List.append_assoc]
  exact infix_append_cons_iff notInPart

end Text

/-! ## Marks -/

namespace Protocol

/-- Whether a content type carries the mark of a protocol. -/
def Marks (protocol : Protocol) (contentType : String) : Prop :=
  match protocol with
  | grpcWeb => Text.Occurs "application/grpc-web" contentType
  | grpc =>
    Text.Occurs "application/grpc" contentType ∧ ¬ Text.Occurs "application/grpc-web" contentType
  | connect =>
    ¬ Text.Occurs "application/grpc" contentType ∧
      (Text.Occurs "application/connect+" contentType ∨
        contentType = "application/json" ∨ contentType = "application/proto" ∨
        "application/json;".toList <+: contentType.toList ∨
        "application/proto;".toList <+: contentType.toList)

/-- The mark of gRPC-Web holds that of gRPC. -/
theorem occurs_grpc_of_occurs_grpcWeb {text : String}
    (found : Text.Occurs "application/grpc-web" text) : Text.Occurs "application/grpc" text :=
  List.IsInfix.trans (by decide) found

theorem classify_eq_some_iff {contentType : String} {protocol : Protocol} :
    classify contentType = some protocol ↔ protocol.Marks contentType := by
  unfold classify
  by_cases web : Text.Occurs "application/grpc-web" contentType
  · have grpcFound := occurs_grpc_of_occurs_grpcWeb web
    rw [if_pos (Text.occursIn_iff.mpr web)]
    cases protocol <;> simp [Marks, web, grpcFound]
  · rw [if_neg (mt Text.occursIn_iff.mp web)]
    by_cases grpcFound : Text.Occurs "application/grpc" contentType
    · rw [if_pos (Text.occursIn_iff.mpr grpcFound)]
      cases protocol <;> simp [Marks, web, grpcFound]
    · rw [if_neg (mt Text.occursIn_iff.mp grpcFound)]
      simp only [Bool.or_eq_true, Text.occursIn_iff, beq_iff_eq, String.startsWith_string_iff,
        Option.ite_none_right_eq_some, Option.some.injEq, or_assoc]
      cases protocol <;> simp only [Marks, web, grpcFound, reduceCtorEq, and_false, and_true,
        not_false_eq_true, true_and]

/-- Parameters that do not mention gRPC leave the mark of a media type as it is. -/
theorem Marks.append_parameters {protocol : Protocol} {mediaType parameters : String}
    (marks : protocol.Marks mediaType) (noGrpc : ¬ Text.Occurs "application/grpc" parameters) :
    protocol.Marks (mediaType ++ ";" ++ parameters) := by
  have noWeb : ¬ Text.Occurs "application/grpc-web" parameters :=
    mt occurs_grpc_of_occurs_grpcWeb noGrpc
  have grpcIff : Text.Occurs "application/grpc" (mediaType ++ ";" ++ parameters) ↔
      Text.Occurs "application/grpc" mediaType ∨ Text.Occurs "application/grpc" parameters :=
    Text.occurs_before_semicolon_iff (by decide)
  have webIff : Text.Occurs "application/grpc-web" (mediaType ++ ";" ++ parameters) ↔
      Text.Occurs "application/grpc-web" mediaType ∨
        Text.Occurs "application/grpc-web" parameters :=
    Text.occurs_before_semicolon_iff (by decide)
  have longer : mediaType.toList <+: (mediaType ++ ";" ++ parameters).toList := by
    rw [String.append_assoc, String.toList_append]
    exact List.prefix_append _ _
  cases protocol with
  | grpcWeb => exact webIff.mpr (Or.inl marks)
  | grpc =>
      obtain ⟨found, notWeb⟩ := marks
      refine ⟨grpcIff.mpr (Or.inl found), fun web => ?_⟩
      exact (webIff.mp web).elim notWeb noWeb
  | connect =>
      obtain ⟨notGrpc, shape⟩ := marks
      refine ⟨fun found => (grpcIff.mp found).elim notGrpc noGrpc, ?_⟩
      rcases shape with stream | rfl | rfl | json | proto
      · exact Or.inl (stream.trans longer.isInfix)
      · exact Or.inr (Or.inr (Or.inr (Or.inl (by simp))))
      · exact Or.inr (Or.inr (Or.inr (Or.inr (by simp))))
      · exact Or.inr (Or.inr (Or.inr (Or.inl (json.trans longer))))
      · exact Or.inr (Or.inr (Or.inr (Or.inr (proto.trans longer))))

end Protocol

/-! ## Plain spellings -/

namespace WireFormat

/-- A content type that spells a media type of the format as it is advertised, alone or before
parameters that do not mention gRPC. -/
def IsPlain (wire : WireFormat) (contentType : String) : Prop :=
  ∃ mediaType, (mediaType, wire) ∈ mediaTypes ∧
    (contentType = mediaType ∨ ∃ parameters,
      contentType = mediaType ++ ";" ++ parameters ∧ ¬ Text.Occurs "application/grpc" parameters)

theorem mediaTypes_read_back :
    ∀ entry ∈ mediaTypes,
      ofContentType? entry.1 = some entry.2 ∧
        Protocol.classify entry.1 = some entry.2.protocol := by
  decide

/-- Whatever stands behind a semicolon does not matter. -/
theorem mediaType_append_parameters (mediaType parameters : String) :
    WireFormat.mediaType (mediaType ++ ";" ++ parameters) = WireFormat.mediaType mediaType := by
  unfold WireFormat.mediaType
  rw [String.toList_append, String.toList_append, List.append_assoc]
  generalize mediaType.toList = chars
  suffices cut : (chars ++ (";".toList ++ parameters.toList)).takeWhile (fun c => c != ';') =
      chars.takeWhile fun c => c != ';' by rw [cut]
  induction chars with
  | nil => rfl
  | cons c rest inductionHypothesis =>
      rw [List.cons_append, List.takeWhile_cons, List.takeWhile_cons, inductionHypothesis]

theorem ofContentType?_of_isPlain {wire : WireFormat} {contentType : String}
    (plain : wire.IsPlain contentType) : ofContentType? contentType = some wire := by
  obtain ⟨mediaType, listed, rfl | ⟨parameters, rfl, _⟩⟩ := plain
  · exact (mediaTypes_read_back _ listed).1
  · rw [ofContentType?, mediaType_append_parameters]
    exact (mediaTypes_read_back _ listed).1

/-- A plain content type carries the mark of the protocol that its format belongs to. -/
theorem marks_of_isPlain {wire : WireFormat} {contentType : String}
    (plain : wire.IsPlain contentType) : wire.protocol.Marks contentType := by
  obtain ⟨mediaType, listed, shape⟩ := plain
  have marks : wire.protocol.Marks mediaType :=
    Protocol.classify_eq_some_iff.mp (mediaTypes_read_back _ listed).2
  rcases shape with rfl | ⟨parameters, rfl, noGrpc⟩
  · exact marks
  · exact marks.append_parameters noGrpc

end WireFormat

end RpcEcho
