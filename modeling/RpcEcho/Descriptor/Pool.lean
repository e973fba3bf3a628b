import RpcEcho.Descriptor.Index

/-!
# Pools of files

Several files in order, asked by name through their index. Where two files share a name, or define
one name, the later one is found.

* `DescriptorPool.index`: what the files are looked up in.
* `DescriptorPool.fileNamed?`, `DescriptorPool.fileDefining?`, `DescriptorPool.isMessage`: look-ups.
* `DescriptorPool.withDependencies`: a file and all files that it builds on, near ones first.
-/

namespace RpcEcho.Descriptor

/-- A symbol without the dot that says it is fully qualified. -/
def withoutDot (symbol : String) : String :=
  match symbol.toList with
  | '.' :: rest => String.ofList rest
  | _ => symbol

/-- Files in order. -/
structure DescriptorPool where
  files : List FileDescriptor

namespace DescriptorPool

/-- All files, entered in order. -/
def index (pool : DescriptorPool) : Index := Index.empty.addAll 0 pool.files

/-- The last file of a name. -/
def fileNamed? (pool : DescriptorPool) (name : String) : Option FileDescriptor :=
  (pool.index.names.lookup name).bind fun place => pool.files[place]?

/-- The last file that defines a symbol; one leading dot does not count. -/
def fileDefining? (pool : DescriptorPool) (symbol : String) : Option FileDescriptor :=
  (pool.index.symbols.lookup (withoutDot symbol)).bind fun place => pool.files[place]?

/-- Whether a symbol is a message type; one leading dot does not count. -/
def isMessage (pool : DescriptorPool) (symbol : String) : Bool :=
  pool.index.messages.contains (withoutDot symbol)

theorem indexes_index (pool : DescriptorPool) : pool.index.Indexes pool.files :=
  Index.indexes_addAll Index.indexes_empty pool.files

theorem fileNamed?_eq_find? (pool : DescriptorPool) (name : String) :
    pool.fileNamed? name = pool.files.reverse.find? fun file => file.name == name :=
  (pool.indexes_index.names name).last

theorem fileDefining?_eq_find? (pool : DescriptorPool) (symbol : String) :
    pool.fileDefining? symbol =
      pool.files.reverse.find? fun file => file.symbols.contains (withoutDot symbol) :=
  (pool.indexes_index.symbols (withoutDot symbol)).last

/-- The pool of an encoded set of files. -/
def decode? (octets : Bytes) : Option DescriptorPool :=
  (FileDescriptor.setOf? octets).map DescriptorPool.mk

/-! ## Dependencies -/

/-- A search for dependencies: the names met so far, and the files still to be looked at. -/
structure Search where
  seen : List String
  queue : List FileDescriptor

/-- Meets one name: unless it was met before, its file, if there is one, is looked at later. -/
def Search.meet (pool : DescriptorPool) (search : Search) (name : String) : Search :=
  if search.seen.contains name then search
  else match pool.fileNamed? name with
    | none => ⟨name :: search.seen, search.queue⟩
    | some file => ⟨name :: search.seen, search.queue ++ [file]⟩

/-- How many files of the pool have names that were not met. -/
def unmet (pool : DescriptorPool) (seen : List String) : Nat :=
  (pool.files.filter fun file => !seen.contains file.name).length

theorem unmet_cons_le (pool : DescriptorPool) (name : String) (seen : List String) :
    pool.unmet (name :: seen) ≤ pool.unmet seen := by
  simp only [unmet, ← List.countP_eq_length_filter]
  refine List.countP_mono_left fun file _ isUnmet => ?_
  simp only [List.contains_cons, Bool.not_or, Bool.and_eq_true] at isUnmet
  exact isUnmet.2

theorem unmet_cons_lt {pool : DescriptorPool} {name : String} {seen : List String}
    {file : FileDescriptor} (found : pool.fileNamed? name = some file)
    (new : seen.contains name = false) : pool.unmet (name :: seen) < pool.unmet seen := by
  rw [fileNamed?_eq_find?] at found
  have member : file ∈ pool.files := List.mem_reverse.1 (List.mem_of_find?_eq_some found)
  have named : file.name = name := by simpa using List.find?_some found
  have narrower : ((pool.files.filter fun file => !seen.contains file.name).filter
      fun file => !(name :: seen).contains file.name)
        = pool.files.filter fun file => !(name :: seen).contains file.name := by
    rw [List.filter_filter]
    refine List.filter_congr fun other _ => ?_
    simp only [List.contains_cons, Bool.not_or]
    cases seen.contains other.name <;> simp
  unfold unmet
  rw [← narrower]
  refine List.length_filter_lt_length_iff_exists.2 ⟨file, ?_, ?_⟩
  · simp only [List.mem_filter, member, named, new, Bool.not_false, and_self]
  · simp [named]

/-- The work that a search has before it. -/
def Search.work (pool : DescriptorPool) (search : Search) : Nat :=
  search.queue.length + pool.unmet search.seen

theorem Search.work_meet_le (pool : DescriptorPool) (search : Search) (name : String) :
    (search.meet pool name).work pool ≤ search.work pool := by
  unfold Search.meet
  split
  · exact Nat.le_refl _
  · rename_i new
    have new : search.seen.contains name = false := by simpa using new
    split
    · exact Nat.add_le_add_left (pool.unmet_cons_le name search.seen) _
    · rename_i found
      have := unmet_cons_lt found new
      simp only [Search.work, List.length_append, List.length_cons, List.length_nil]
      omega

theorem Search.work_foldl_le (pool : DescriptorPool) (names : List String) (search : Search) :
    (names.foldl (Search.meet pool) search).work pool ≤ search.work pool := by
  induction names generalizing search with
  | nil => exact Nat.le_refl _
  | cons name rest ih => exact Nat.le_trans (ih _) (search.work_meet_le pool name)

/-- All files that a search finds, in the order in which it looks at them. -/
def Search.run (pool : DescriptorPool) (search : Search) : List FileDescriptor :=
  match search with
  | ⟨_, []⟩ => []
  | ⟨seen, file :: queue⟩ =>
    file :: Search.run pool (file.dependencies.foldl (Search.meet pool) ⟨seen, queue⟩)
termination_by search.work pool
decreasing_by
  have := Search.work_foldl_le pool file.dependencies ⟨seen, queue⟩
  simp only [Search.work, List.length_cons] at this ⊢
  omega

/-- A file, and all files of the pool that it builds on, directly or through others: breadth first,
each name once. -/
def withDependencies (pool : DescriptorPool) (file : FileDescriptor) : List FileDescriptor :=
  Search.run pool ⟨[file.name], [file]⟩

end DescriptorPool

end RpcEcho.Descriptor
