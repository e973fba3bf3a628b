import RpcEcho.Descriptor.File

/-!
# The index of a list of files

The files of a list are entered one after another, each with its place: under its name, under each
symbol that it defines, and the names of its message types by themselves. A newer entry stands
before the older ones, so a look-up leads to the last file that was entered under a key.

* `Index`, `Index.add`, `Index.addAll`: the tables, and how they are filled.
* `Index.Indexes`: what the tables say of the files that were entered.
* `Index.indexes_add`, `Index.indexes_addAll`: one more file, and all files.
-/

namespace RpcEcho.Descriptor

/-- What was entered of files: places by name, places by symbol, and names of message types. -/
structure Index where
  names : List (String × Nat)
  symbols : List (String × Nat)
  messages : List String

namespace Index

def empty : Index := ⟨[], [], []⟩

/-- Enters a file with its place. -/
def add (index : Index) (place : Nat) (file : FileDescriptor) : Index where
  names := (file.name, place) :: index.names
  symbols := file.symbols.map (fun symbol => (symbol, place)) ++ index.symbols
  messages := file.messageNames ++ index.messages

/-- Enters files one after another; the first of them has the given place. -/
def addAll (index : Index) (place : Nat) : List FileDescriptor → Index
  | [] => index
  | file :: files => addAll (index.add place file) (place + 1) files

/-! ## What the tables say -/

/-- A look-up gives the place of the last file that answers, if some file does. -/
structure Finds (files : List FileDescriptor) (answers : FileDescriptor → Bool)
    (found : Option Nat) : Prop where
  inside : ∀ place, found = some place → place < files.length
  last : found.bind (fun place => files[place]?) = files.reverse.find? answers

/-- The tables of some files. -/
structure Indexes (index : Index) (files : List FileDescriptor) : Prop where
  names : ∀ name, Finds files (fun file => file.name == name) (index.names.lookup name)
  symbols : ∀ symbol,
    Finds files (fun file => file.symbols.contains symbol) (index.symbols.lookup symbol)
  messages : ∀ symbol, symbol ∈ index.messages ↔ ∃ file ∈ files, symbol ∈ file.messageNames

section Add

variable {files : List FileDescriptor} {file : FileDescriptor} {answers : FileDescriptor → Bool}
  {found : Option Nat}

theorem finds_nil (answers : FileDescriptor → Bool) : Finds [] answers none :=
  ⟨by simp, rfl⟩

/-- A file that answers is the last one from then on. -/
theorem finds_add_of_answers (isAnswer : answers file = true) :
    Finds (files ++ [file]) answers (some files.length) where
  inside := by
    rintro place isPlace
    cases isPlace
    simp
  last := by simp [isAnswer]

/-- A file that does not answer changes nothing. -/
theorem Finds.add (finds : Finds files answers found) (noAnswer : answers file = false) :
    Finds (files ++ [file]) answers found where
  inside place isFound := by
    have isInside := finds.inside place isFound
    rw [List.length_append]
    omega
  last := by
    have sameFile : found.bind (fun place => (files ++ [file])[place]?) =
        found.bind (fun place => files[place]?) := by
      cases isFound : found with
      | none => rfl
      | some place => exact List.getElem?_append_left (finds.inside place isFound)
    rw [sameFile, finds.last, List.reverse_append, List.reverse_cons, List.reverse_nil,
      List.nil_append, List.cons_append, List.nil_append, List.find?_cons, noAnswer]

theorem lookup_map_append (keys : List String) (place : Nat) (entries : List (String × Nat))
    (key : String) :
    (keys.map (fun symbol => (symbol, place)) ++ entries).lookup key =
      if keys.contains key then some place else entries.lookup key := by
  induction keys with
  | nil => rfl
  | cons first keys inductionHypothesis =>
      rw [List.map_cons, List.cons_append, List.lookup_cons, List.contains_cons]
      by_cases same : key = first
      · simp [same]
      · have differs : (key == first) = false := beq_eq_false_iff_ne.mpr same
        rw [differs, Bool.false_or]
        exact inductionHypothesis

end Add

theorem indexes_empty : empty.Indexes [] :=
  ⟨fun _ => finds_nil _, fun _ => finds_nil _, by simp [empty]⟩

/-- One more file, at the place behind the others. -/
theorem indexes_add {index : Index} {files : List FileDescriptor} (indexes : index.Indexes files)
    (file : FileDescriptor) : (index.add files.length file).Indexes (files ++ [file]) where
  names name := by
    rw [add, List.lookup_cons]
    by_cases same : file.name = name
    · have isKey : (name == file.name) = true := beq_iff_eq.mpr same.symm
      rw [isKey]
      exact finds_add_of_answers (beq_iff_eq.mpr same)
    · have noKey : (name == file.name) = false := beq_eq_false_iff_ne.mpr (Ne.symm same)
      rw [noKey]
      exact (indexes.names name).add (beq_eq_false_iff_ne.mpr same)
  symbols symbol := by
    rw [add, lookup_map_append]
    cases defines : file.symbols.contains symbol with
    | true => exact finds_add_of_answers defines
    | false => exact (indexes.symbols symbol).add defines
  messages symbol := by
    rw [add, List.mem_append, indexes.messages]
    simp [or_and_right, exists_or, or_comm]

/-- All files, behind those that were entered before. -/
theorem indexes_addAll {index : Index} {before : List FileDescriptor}
    (indexes : index.Indexes before) (files : List FileDescriptor) :
    (index.addAll before.length files).Indexes (before ++ files) := by
  induction files generalizing index before with
  | nil => simpa [addAll] using indexes
  | cons file files inductionHypothesis =>
      have next := inductionHypothesis (indexes_add indexes file)
      rw [List.length_append, List.append_assoc] at next
      exact next

end Index

end RpcEcho.Descriptor
