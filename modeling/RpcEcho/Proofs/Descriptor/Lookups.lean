import RpcEcho.Proofs.Descriptor.Dependencies
import RpcEcho.Proofs.Descriptor.Symbols

/-!
# What the look-ups of a pool find

A symbol is found if and only if some file defines it, and the file found is the last of these. A
dot in front of a symbol makes no difference.

* `DescriptorPool.fileDefining?_eq_some_iff`, `DescriptorPool.isMessage_iff`: single look-ups.
* `DescriptorPool.Finds`: all that is answered when a symbol is asked for.
* `DescriptorPool.finds_of_noDot`: what every pool answers.
-/

namespace RpcEcho.Descriptor

section Dot

variable {symbol : String}

theorem withoutDot_dot (symbol : String) : withoutDot ("." ++ symbol) = symbol := by
  have inFront : ("." ++ symbol).toList = '.' :: symbol.toList := String.toList_append
  rw [withoutDot, inFront]
  exact String.ofList_toList

theorem withoutDot_of_head?_ne (noDot : symbol.toList.head? ≠ some '.') :
    withoutDot symbol = symbol := by
  rw [withoutDot]
  split
  · rename_i isDot
    rw [isDot] at noDot
    exact absurd rfl noDot
  · rfl

end Dot

/-- The name of a message type is a symbol. -/
theorem FileDescriptor.defines_of_definesMessage {file : FileDescriptor} {symbol : String}
    (definesMessage : file.DefinesMessage symbol) : file.Defines symbol := by
  obtain ⟨scope, name, fields, inside, enums, has, rfl⟩ := definesMessage
  exact .message has

namespace DescriptorPool

variable {pool : DescriptorPool} {symbol asked : String}

/-! ## Single look-ups -/

theorem fileDefining?_eq_some_iff {file : FileDescriptor} :
    pool.fileDefining? symbol = some file ↔
      IsLast (fun one => one.Defines (withoutDot symbol)) pool.files file := by
  rw [fileDefining?_eq_find?]
  apply find?_reverse_eq_some_iff
  intro one
  rw [List.contains_iff_mem, FileDescriptor.mem_symbols]

theorem isSome_fileDefining?_iff :
    (pool.fileDefining? symbol).isSome = true ↔
      ∃ file ∈ pool.files, file.Defines (withoutDot symbol) := by
  rw [fileDefining?_eq_find?, List.find?_isSome]
  simp only [List.mem_reverse, List.contains_iff_mem, FileDescriptor.mem_symbols]

theorem isMessage_iff :
    pool.isMessage symbol = true ↔
      ∃ file ∈ pool.files, file.DefinesMessage (withoutDot symbol) := by
  rw [isMessage, List.contains_iff_mem, pool.indexes_index.messages]
  simp only [FileDescriptor.mem_messageNames]

theorem isSome_fileNamed?_iff {name : String} :
    (pool.fileNamed? name).isSome = true ↔ ∃ file ∈ pool.files, file.name = name := by
  rw [fileNamed?_eq_find?, List.find?_isSome]
  simp only [List.mem_reverse, beq_iff_eq]

/-! ## A symbol with and without a dot -/

/-- What a pool answers of a symbol that is asked for in some way. -/
structure Finds (pool : DescriptorPool) (symbol asked : String) : Prop where
  isFound : (pool.fileDefining? asked).isSome = true ↔ ∃ file ∈ pool.files, file.Defines symbol
  isLast : ∀ file, pool.fileDefining? asked = some file ↔
    IsLast (fun one => one.Defines symbol) pool.files file
  isMessage : pool.isMessage asked = true ↔ ∃ file ∈ pool.files, file.DefinesMessage symbol
  ofMessage : pool.isMessage asked = true → (pool.fileDefining? asked).isSome = true

theorem finds_of_withoutDot (same : withoutDot asked = symbol) : pool.Finds symbol asked where
  isFound := by rw [isSome_fileDefining?_iff, same]
  isLast file := by rw [fileDefining?_eq_some_iff, same]
  isMessage := by rw [isMessage_iff, same]
  ofMessage isMessage := by
    obtain ⟨file, member, definesMessage⟩ := isMessage_iff.mp isMessage
    exact isSome_fileDefining?_iff.mpr
      ⟨file, member, FileDescriptor.defines_of_definesMessage definesMessage⟩

/-- Every pool finds exactly what its files define, the last of them each time. -/
theorem finds_of_noDot (pool : DescriptorPool) (noDot : symbol.toList.head? ≠ some '.') :
    pool.Finds symbol symbol ∧ pool.Finds symbol ("." ++ symbol) ∧
      ∀ name, ((pool.fileNamed? name).isSome = true ↔ ∃ file ∈ pool.files, file.name = name) ∧
        ∀ file, pool.fileNamed? name = some file ↔
          IsLast (fun one => one.name = name) pool.files file := by
  refine ⟨finds_of_withoutDot (withoutDot_of_head?_ne noDot),
    finds_of_withoutDot (withoutDot_dot symbol), fun name => ?_⟩
  exact ⟨isSome_fileNamed?_iff, fun file => fileNamed?_eq_some_iff⟩

/-- Two files of one package, each with a message type that holds an enumeration. -/
def twiceDefined : DescriptorPool :=
  let outer : Proto.Value := .message [(1, .text "M"),
    (4, .message [(1, .text "E"), (2, .message [(1, .text "V")])])]
  ⟨[⟨[(1, .text "first"), (2, .text "p"), (4, outer)]⟩,
    ⟨[(1, .text "second"), (2, .text "p"), (4, outer)]⟩]⟩

/-- The value stands beside its enumeration, and the later file is found. -/
theorem finds_twiceDefined :
    "p.M.V".toList.head? ≠ some '.' ∧ twiceDefined.Finds "p.M.V" ".p.M.V" ∧
      (twiceDefined.fileDefining? ".p.M.V").map FileDescriptor.name = some "second" ∧
      (twiceDefined.fileDefining? "p.M.E.V").isNone = true ∧ twiceDefined.isMessage "p.M" = true :=
  have noDot : "p.M.V".toList.head? ≠ some '.' := by decide
  ⟨noDot, (finds_of_noDot twiceDefined noDot).2.1, by decide +kernel, by decide +kernel,
    by decide +kernel⟩

end DescriptorPool

end RpcEcho.Descriptor
