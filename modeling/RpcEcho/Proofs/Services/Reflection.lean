import RpcEcho.Proofs.Descriptor.Lookups
import RpcEcho.Proofs.Proto.Rereading
import RpcEcho.Services.Reflection

/-!
# Reflection serves the files it was given

A reflector over the pool of an encoded set answers each look-up with the last file of the set that
the question is about, in octets that decode to that very file, and with the files that it builds
on, if they are wanted. What is not found is told in the answer.

* `Descriptor.decode?_encode_of_mem`: each file of a decoded pool is read again as it is.
* `Reflector.Serves`, `Reflector.LooksUp`, `Reflector.Answers`: what an answer has to be.
* `Reflector.reflects_of_decoded`: what is answered to every request.
-/

namespace RpcEcho

open Proto

namespace Descriptor

/-! ## The files of a set -/

theorem isPlain_catalog : catalog.IsPlain where
  increasing type := by cases type <;> decide
  numbers type := by cases type <;> decide
  single type := by cases type <;> rfl
  fields type := by cases type <;> decide

/-- A pool holds the files of an encoded set in order, without what they say about source text. -/
def DescriptorPool.Holds (pool : DescriptorPool) (octets : Bytes) : Prop :=
  ∃ set, Binary.decode? catalog .fileSet octets = some set ∧
    pool.files.map FileDescriptor.content =
      (set.messages 1).map fun file => file.filter fun entry => entry.1 ≠ 9

theorem holds_of_decode? {octets : Bytes} {pool : DescriptorPool}
    (decoded : DescriptorPool.decode? octets = some pool) : pool.Holds octets := by
  obtain ⟨files, isSet, rfl⟩ := Option.map_eq_some_iff.mp decoded
  obtain ⟨set, isRead, rfl⟩ := Option.map_eq_some_iff.mp isSet
  refine ⟨set, isRead, ?_⟩
  rw [List.map_map]
  rfl

/-- A file of a set is a message that was read, one level inside the set. -/
theorem isRead_of_mem {octets : Bytes} {pool : DescriptorPool} (holds : pool.Holds octets)
    {file : FileDescriptor} (member : file ∈ pool.files) :
    catalog.IsRead 99 .file file.content := by
  obtain ⟨set, isRead, contents⟩ := holds
  have inContents := List.mem_map_of_mem (f := FileDescriptor.content) member
  rw [contents] at inContents
  obtain ⟨message, isMessage, same⟩ := List.mem_map.mp inContents
  have setHolds : catalog.Holds (catalog.IsRead 99) .fileSet set :=
    Binary.isRead_of_decodeWithin? isPlain_catalog isRead
  have isField : (⟨1, "file", .message .file, .repeated⟩ : MessageField DescriptorType) ∈
      catalog.fields .fileSet := by decide
  have whole : catalog.IsRead 99 .file message :=
    setHolds.each _ isField _ (Message.mem_messages.mp isMessage)
  rw [← same]
  exact Catalog.Holds.drop isPlain_catalog whole (by decide)

/-- Each file of a pool is read again as it is, field for field. -/
theorem decode?_encode_of_mem {octets : Bytes} {pool : DescriptorPool} (holds : pool.Holds octets)
    {file : FileDescriptor} (member : file ∈ pool.files)
    (fits : file.encode.length < Varint.bound) :
    Binary.decode? catalog .file file.encode = some file.content :=
  Binary.decodeWithin?_encode_of_isRead isPlain_catalog (isRead_of_mem holds member)
    (by decide) fits

theorem DescriptorPool.BuildsOn.mem {pool : DescriptorPool} {file other : FileDescriptor}
    (buildsOn : pool.BuildsOn file other) : other ∈ pool.files := by
  obtain ⟨_, _, imports, _⟩ := Relation.TransGen.tail'_iff.mp buildsOn
  exact (DescriptorPool.imports_iff.mp imports).2.mem

end Descriptor

open Api Descriptor

namespace Reflector

/-! ## What an answer has to be -/

/-- An error in the answer, of a code. -/
def Fails (code : Nat) (answer : ReflectionAnswer) : Prop :=
  ∃ kind message, answer = .failure kind message ∧ kind.number = code

/-- Parts of an answer serve a file: each decodes to a file, the first to the file itself, the
others, if they are wanted at all, to the files that it builds on, each name once. Of the last file
of a name these are all others that it reaches by imports. -/
structure Serves (reflector : Reflector) (file : FileDescriptor) (parts : List Bytes)
    (further : List FileDescriptor) : Prop where
  decodes : parts.map (Binary.decode? Descriptor.catalog .file) =
    (file :: further).map fun one => some one.content
  alone : reflector.withDependencies = false → further = []
  reached : reflector.withDependencies = true →
    ∀ other, other ∈ further ↔ reflector.pool.BuildsOn file other
  reachedAll : reflector.withDependencies = true → reflector.pool.IsNamed file.name file →
    ∀ other, other ∈ further ↔
      Relation.TransGen reflector.pool.Imports file other ∧ other ≠ file
  once : ((file :: further).map FileDescriptor.name).Nodup

/-- A look-up gives files if some file is asked for, and then serves the last of these; if it gives
none, it fails. -/
structure LooksUp (reflector : Reflector) (asked : FileDescriptor → Prop)
    (answer : ReflectionAnswer) : Prop where
  found : (∃ parts, answer = .files parts) ↔ ∃ file ∈ reflector.pool.files, asked file
  served : ∀ parts, answer = .files parts → ∃ file further,
    IsLast asked reflector.pool.files file ∧ reflector.Serves file parts further
  missed : (¬ ∃ parts, answer = .files parts) → Fails 5 answer

/-- What a question is answered with. -/
def Answers (reflector : Reflector) : Option ReflectionQuery → ReflectionAnswer → Prop
  | some (.fileByName name), answer => reflector.LooksUp (fun file => file.name = name) answer
  | some (.fileOfSymbol symbol), answer =>
    reflector.LooksUp (fun file => file.Defines (withoutDot symbol)) answer
  | some (.fileOfExtension _ _), answer => Fails 5 answer
  | some (.extensionNumbers type), answer =>
    ((∃ file ∈ reflector.pool.files, file.DefinesMessage (withoutDot type)) ∧
        answer = .extensionNumbers (withoutDot type) []) ∨
      (¬ ∃ file ∈ reflector.pool.files, file.DefinesMessage (withoutDot type)) ∧ Fails 5 answer
  | some (.services _), answer => answer = .services reflector.services
  | none, answer => Fails 3 answer

/-- The response to a request: it repeats the request, and answers its question. -/
structure Reflects (reflector : Reflector) (request : ReflectionRequest) : Prop where
  host : (reflector.answer request).validHost = request.host
  original : (reflector.answer request).originalRequest = some request
  answers : ∃ answer, (reflector.answer request).answer = some answer ∧
    reflector.Answers request.query answer

/-! ## What is answered -/

section Lookups

variable {reflector : Reflector}

theorem fails_notFound (message : String) : Fails 5 (notFound message) := ⟨_, _, rfl, rfl⟩

/-- What is answered for a file of a pool, all of whose files are read again. -/
theorem exists_filesAnswer
    (rereads : ∀ file ∈ reflector.pool.files,
      Binary.decode? Descriptor.catalog .file file.encode = some file.content)
    {file : FileDescriptor} (member : file ∈ reflector.pool.files) :
    ∃ parts further, reflector.filesAnswer file = .files parts ∧
      reflector.Serves file parts further := by
  have decodes {files : List FileDescriptor} (known : ∀ one ∈ files, one ∈ reflector.pool.files) :
      (files.map FileDescriptor.encode).map (Binary.decode? Descriptor.catalog .file) =
        files.map fun one => some one.content := by
    rw [List.map_map]
    exact List.map_congr_left fun one isOne => rereads one (known one isOne)
  rw [filesAnswer]
  cases wanted : reflector.withDependencies with
  | false =>
      refine ⟨_, [], rfl, decodes ?_, fun _ => rfl, ?_, ?_, by simp⟩
      · intro one isOne
        rw [List.mem_singleton.mp isOne]
        exact member
      · rw [wanted]
        nofun
      · rw [wanted]
        nofun
  | true =>
      obtain ⟨further, isCons, reached, once⟩ :=
        DescriptorPool.exists_withDependencies reflector.pool file
      refine ⟨_, further, rfl, ?_, ?_, fun _ => reached, fun _ isNamed other => ?_, once⟩
      · rw [if_pos rfl, isCons]
        refine decodes fun one isOne => ?_
        rcases List.mem_cons.mp isOne with rfl | isFurther
        · exact member
        · exact ((reached one).mp isFurther).mem
      · rw [wanted]
        nofun
      · rw [reached, DescriptorPool.buildsOn_iff_of_isNamed isNamed]

theorem looksUp_of_find?
    (rereads : ∀ file ∈ reflector.pool.files,
      Binary.decode? Descriptor.catalog .file file.encode = some file.content)
    {answers : FileDescriptor → Bool} {asked : FileDescriptor → Prop}
    (decides : ∀ file, answers file = true ↔ asked file) (message : String) :
    reflector.LooksUp asked
      (match reflector.pool.files.reverse.find? answers with
        | some file => reflector.filesAnswer file
        | none => notFound message) := by
  cases isFound : reflector.pool.files.reverse.find? answers with
  | some file =>
      have isLast := (find?_reverse_eq_some_iff decides).mp isFound
      obtain ⟨parts, further, isAnswer, serves⟩ := exists_filesAnswer rereads isLast.mem
      refine ⟨iff_of_true ⟨parts, isAnswer⟩ ⟨file, isLast.mem, isLast.answers⟩, ?_, ?_⟩
      · intro others isOther
        cases isAnswer.symm.trans isOther
        exact ⟨file, further, isLast, serves⟩
      · exact fun isNone => absurd ⟨parts, isAnswer⟩ isNone
  | none =>
      have noneAsked := (find?_reverse_eq_none_iff decides).mp isFound
      refine ⟨iff_of_false ?_ ?_, ?_, fun _ => fails_notFound message⟩
      · rintro ⟨parts, isAnswer⟩
        cases isAnswer
      · rintro ⟨file, member, isAsked⟩
        exact noneAsked file member isAsked
      · intro parts isAnswer
        cases isAnswer

theorem answers_answerQuery
    (rereads : ∀ file ∈ reflector.pool.files,
      Binary.decode? Descriptor.catalog .file file.encode = some file.content) :
    (query : Option ReflectionQuery) → reflector.Answers query (reflector.answerQuery query)
  | some (.fileByName name) => by
    rw [answerQuery, DescriptorPool.fileNamed?_eq_find?]
    exact looksUp_of_find? rereads (fun _ => beq_iff_eq) _
  | some (.fileOfSymbol symbol) => by
    rw [answerQuery, DescriptorPool.fileDefining?_eq_find?]
    exact looksUp_of_find? rereads
      (fun file => List.contains_iff_mem.trans FileDescriptor.mem_symbols) _
  | some (.fileOfExtension type number) => by
    rw [answerQuery]
    split
    · exact fails_notFound _
    · exact fails_notFound _
  | some (.extensionNumbers type) => by
    rw [answerQuery]
    split
    · rename_i isMessage
      exact .inl ⟨DescriptorPool.isMessage_iff.mp isMessage, rfl⟩
    · rename_i noMessage
      exact .inr ⟨fun isMessage => noMessage (DescriptorPool.isMessage_iff.mpr isMessage),
        fails_notFound _⟩
  | some (.services filter) => rfl
  | none => ⟨_, _, rfl, rfl⟩

end Lookups

/-- A reflector over the pool of an encoded set answers every request from the files of the set. -/
theorem reflects_of_decoded {octets : Bytes} {pool : DescriptorPool}
    (decoded : DescriptorPool.decode? octets = some pool)
    (fits : ∀ file ∈ pool.files, file.encode.length < Varint.bound) (services : List String)
    (withDependencies : Bool) (request : ReflectionRequest) :
    pool.Holds octets ∧ Reflects ⟨pool, services, withDependencies⟩ request := by
  have holds := holds_of_decode? decoded
  refine ⟨holds, rfl, rfl, _, rfl, answers_answerQuery (fun file member => ?_) request.query⟩
  exact decode?_encode_of_mem holds member (fits file member)

/-- An encoded set of three files: one named "a" that defines the message "M" and depends on "a",
another one named "a" that depends on "k", and one named "k". -/
def shadowedSet : Bytes :=
  [10, 11, 10, 1, 97, 26, 1, 97, 34, 3, 10, 1, 77, 10, 6, 10, 1, 97, 26, 1, 107, 10, 3, 10, 1, 107]

theorem reflects_shadowedSet :
    ∃ pool, DescriptorPool.decode? shadowedSet = some pool ∧
      (∀ file ∈ pool.files, file.encode.length < Varint.bound) ∧
      pool.Holds shadowedSet ∧ Reflects ⟨pool, ["a.S"], true⟩ ⟨"host", some (.fileByName "a")⟩ := by
  have short : ((DescriptorPool.decode? shadowedSet).any fun pool =>
      pool.files.all fun file => decide (file.encode.length < Varint.bound)) = true := by
    decide +kernel
  obtain ⟨pool, decoded, allShort⟩ := (Option.any_eq_true _ _).mp short
  have fits : ∀ file ∈ pool.files, file.encode.length < Varint.bound := fun file member =>
    of_decide_eq_true (List.all_eq_true.mp allShort file member)
  exact ⟨pool, decoded, fits, reflects_of_decoded decoded fits _ _ _⟩

/-- What the set is read as. -/
theorem exists_shadowedPool :
    ∃ front shadow behind : FileDescriptor,
      DescriptorPool.decode? shadowedSet = some ⟨[front, shadow, behind]⟩ ∧
      (front.name = "a" ∧ front.dependencies = ["a"] ∧ front.symbols = ["M"]) ∧
      (shadow.name = "a" ∧ shadow.dependencies = ["k"] ∧ shadow.symbols = []) ∧
      behind.name = "k" ∧ behind.dependencies = [] ∧ behind.symbols = [] := by
  have facts : (DescriptorPool.decode? shadowedSet).map (fun pool =>
      pool.files.map fun file => (file.name, file.dependencies, file.symbols)) =
        some [("a", ["a"], ["M"]), ("a", ["k"], []), ("k", [], [])] := by
    decide +kernel
  obtain ⟨⟨files⟩, decoded, same⟩ := Option.map_eq_some_iff.mp facts
  obtain ⟨front, _, rfl, frontFacts, same⟩ := List.map_eq_cons_iff.mp same
  obtain ⟨shadow, _, rfl, shadowFacts, same⟩ := List.map_eq_cons_iff.mp same
  obtain ⟨behind, _, rfl, behindFacts, same⟩ := List.map_eq_cons_iff.mp same
  rw [List.map_eq_nil_iff.mp same] at decoded
  simp only [Prod.mk.injEq] at frontFacts shadowFacts behindFacts
  exact ⟨front, shadow, behind, decoded, frontFacts, shadowFacts, behindFacts⟩

/-- The file that defines "M" reaches the file "k", through the last file of its own name; that name
stands for the file itself, so "k" is not sent. -/
theorem exists_reached_not_served :
    ∃ pool file other, DescriptorPool.decode? shadowedSet = some pool ∧
      IsLast (fun file => file.Defines (withoutDot "M")) pool.files file ∧
      Relation.TransGen pool.Imports file other ∧ other ≠ file ∧
      ((Reflector.mk pool [] true).answer ⟨"", some (.fileOfSymbol "M")⟩).answer =
        some (.files [file.encode]) := by
  obtain ⟨front, shadow, behind, decoded, ⟨frontName, frontImports, frontSymbols⟩,
    ⟨shadowName, shadowImports, shadowSymbols⟩, behindName, behindImports, behindSymbols⟩ :=
    exists_shadowedPool
  let pool : DescriptorPool := ⟨[front, shadow, behind]⟩
  have isLast : IsLast (fun file => file.Defines (withoutDot "M")) pool.files front := by
    have symbol : withoutDot "M" = "M" := by decide +kernel
    refine ⟨[], [shadow, behind], rfl, ?_, ?_⟩
    · change front.Defines (withoutDot "M")
      rw [symbol, ← FileDescriptor.mem_symbols, frontSymbols]
      exact List.mem_cons_self
    · simp [symbol, ← FileDescriptor.mem_symbols, shadowSymbols, behindSymbols]
  have toShadow : pool.Imports front shadow :=
    ⟨"a", by simp [frontImports], [front], [behind], rfl, shadowName, by simp [behindName]⟩
  have toBehind : pool.Imports shadow behind :=
    ⟨"k", by simp [shadowImports], [front, shadow], [], rfl, behindName, by simp⟩
  have differs : behind ≠ front := by
    rintro rfl
    rw [behindName] at frontName
    exact absurd frontName (by decide)
  have servesAlone : pool.withDependencies front = [front] := by
    obtain ⟨further, isCons, reached, _⟩ := DescriptorPool.exists_withDependencies pool front
    have noFurther : further = [] := by
      refine List.eq_nil_iff_forall_not_mem.mpr fun other isFurther => ?_
      obtain ⟨first, ⟨imports, isNew⟩, _⟩ :=
        Relation.TransGen.head'_iff.mp ((reached other).mp isFurther)
      have isDependency := (DescriptorPool.imports_iff.mp imports).1
      rw [frontImports] at isDependency
      rw [frontName] at isNew
      exact isNew isDependency
    rw [isCons, noFurther]
  have isFound : pool.fileDefining? "M" = some front :=
    DescriptorPool.fileDefining?_eq_some_iff.mpr isLast
  refine ⟨pool, front, behind, decoded, isLast, .tail (.single toShadow) toBehind, differs, ?_⟩
  have answered : (Reflector.mk pool [] true).answerQuery (some (.fileOfSymbol "M")) =
      .files [front.encode] := by
    simp only [answerQuery, isFound, filesAnswer, servesAlone, if_true, List.map_cons, List.map_nil]
  exact congrArg some answered

end Reflector

end RpcEcho
