import Mathlib.Data.List.Nodup
import Mathlib.Logic.Relation
import RpcEcho.Descriptor.Pool

/-!
# Looking files up and following their dependencies

A pool finds the last file that answers a question. A file imports the last file of each name among
its dependencies, and a search for all that a file builds on finds exactly the files that can be
reached by imports, each name once. The name of the file where the search began counts as found from
the start: it stands for that file, even where the last file of the name is another one.

* `IsLast`, `find?_reverse_eq_some_iff`: the last file that answers a question.
* `DescriptorPool.Imports`, `DescriptorPool.Follows`: one step of the search.
* `Search.mem_run`: what a search finds, whatever it met before.
* `DescriptorPool.exists_withDependencies`: what a file builds on.
-/

namespace RpcEcho.Descriptor

/-! ## The last file -/

/-- A file answers a question, and no file behind it does. -/
def IsLast (asked : FileDescriptor → Prop) (files : List FileDescriptor) (file : FileDescriptor) :
    Prop :=
  ∃ before behind, files = before ++ file :: behind ∧ asked file ∧ ∀ later ∈ behind, ¬ asked later

section Last

variable {asked : FileDescriptor → Prop} {files : List FileDescriptor} {file : FileDescriptor}

theorem IsLast.mem (isLast : IsLast asked files file) : file ∈ files := by
  obtain ⟨before, behind, rfl, _⟩ := isLast
  exact List.mem_append_right before List.mem_cons_self

theorem IsLast.answers (isLast : IsLast asked files file) : asked file := by
  obtain ⟨_, _, _, isAsked, _⟩ := isLast
  exact isAsked

/-- Looking from the end finds the last file. -/
theorem find?_reverse_eq_some_iff {answers : FileDescriptor → Bool}
    (decides : ∀ file, answers file = true ↔ asked file) :
    files.reverse.find? answers = some file ↔ IsLast asked files file := by
  rw [List.find?_eq_some_iff_append]
  constructor
  · rintro ⟨isAnswer, behind, before, whole, noAnswer⟩
    refine ⟨before.reverse, behind.reverse, ?_, (decides file).mp isAnswer, fun later member => ?_⟩
    · rw [← List.reverse_reverse files, whole]
      simp
    · have isNone := noAnswer later (List.mem_reverse.mp member)
      rw [← decides]
      simpa using isNone
  · rintro ⟨before, behind, rfl, isAsked, noneLater⟩
    refine ⟨(decides file).mpr isAsked, behind.reverse, before.reverse, by simp, ?_⟩
    intro later member
    have isNone := noneLater later (List.mem_reverse.mp member)
    rw [← decides] at isNone
    simpa using isNone

theorem find?_reverse_eq_none_iff {answers : FileDescriptor → Bool}
    (decides : ∀ file, answers file = true ↔ asked file) :
    files.reverse.find? answers = none ↔ ∀ file ∈ files, ¬ asked file := by
  simp only [List.find?_eq_none, List.mem_reverse, decides]

/-- There is but one last file. -/
theorem IsLast.unique {other : FileDescriptor} (first : IsLast asked files file)
    (second : IsLast asked files other) : file = other := by
  classical
  have decides (file : FileDescriptor) : decide (asked file) = true ↔ asked file :=
    decide_eq_true_iff
  have found := (find?_reverse_eq_some_iff decides).mpr first
  rw [(find?_reverse_eq_some_iff decides).mpr second] at found
  exact (Option.some.inj found).symm

end Last

namespace DescriptorPool

variable {pool : DescriptorPool}

/-- The last file of a name. -/
def IsNamed (pool : DescriptorPool) (name : String) : FileDescriptor → Prop :=
  IsLast (fun file => file.name = name) pool.files

theorem fileNamed?_eq_some_iff {name : String} {file : FileDescriptor} :
    pool.fileNamed? name = some file ↔ pool.IsNamed name file := by
  rw [fileNamed?_eq_find?]
  exact find?_reverse_eq_some_iff fun _ => beq_iff_eq

theorem fileNamed?_eq_none_iff {name : String} :
    pool.fileNamed? name = none ↔ ∀ file ∈ pool.files, file.name ≠ name := by
  rw [fileNamed?_eq_find?]
  exact find?_reverse_eq_none_iff fun _ => beq_iff_eq

/-! ## One step -/

/-- A file imports the last file of each name among its dependencies. -/
def Imports (pool : DescriptorPool) (one other : FileDescriptor) : Prop :=
  ∃ name ∈ one.dependencies, pool.IsNamed name other

theorem imports_iff {one other : FileDescriptor} :
    pool.Imports one other ↔ other.name ∈ one.dependencies ∧ pool.IsNamed other.name other := by
  constructor
  · rintro ⟨name, isDependency, isNamed⟩
    have same : other.name = name := isNamed.answers
    exact ⟨same ▸ isDependency, same ▸ isNamed⟩
  · rintro ⟨isDependency, isNamed⟩
    exact ⟨_, isDependency, isNamed⟩

/-- An import is followed unless its name was seen. -/
def Follows (pool : DescriptorPool) (seen : List String) (one other : FileDescriptor) : Prop :=
  pool.Imports one other ∧ other.name ∉ seen

theorem Follows.of_subset {seen others : List String} {one other : FileDescriptor}
    (fewer : seen ⊆ others) (follows : pool.Follows others one other) :
    pool.Follows seen one other :=
  ⟨follows.1, fun isSeen => follows.2 (fewer isSeen)⟩

/-! ## The search -/

namespace Search

/-- What a search has met after some names: these are seen, and the files of those that are new wait
to be looked at. -/
structure Meets (pool : DescriptorPool) (before : Search) (names : List String) (after : Search)
    (added : List FileDescriptor) : Prop where
  seen : ∀ name, name ∈ after.seen ↔ name ∈ before.seen ∨ name ∈ names
  queue : after.queue = before.queue ++ added
  mem_added : ∀ file, file ∈ added ↔
    pool.IsNamed file.name file ∧ file.name ∈ names ∧ file.name ∉ before.seen
  once : (added.map FileDescriptor.name).Nodup

theorem meets_nil (pool : DescriptorPool) (search : Search) : Meets pool search [] search [] :=
  ⟨by simp, by simp, by simp, by simp⟩

theorem Meets.append {before between after : Search} {names others : List String}
    {added more : List FileDescriptor} (first : Meets pool before names between added)
    (second : Meets pool between others after more) :
    Meets pool before (names ++ others) after (added ++ more) where
  seen name := by rw [second.seen, first.seen, List.mem_append, or_assoc]
  queue := by rw [second.queue, first.queue, List.append_assoc]
  mem_added file := by
    rw [List.mem_append, first.mem_added, second.mem_added, first.seen, List.mem_append]
    constructor
    · rintro (⟨isNamed, isFirst, isNew⟩ | ⟨isNamed, isSecond, isNew⟩)
      · exact ⟨isNamed, .inl isFirst, isNew⟩
      · exact ⟨isNamed, .inr isSecond, fun isSeen => isNew (.inl isSeen)⟩
    · rintro ⟨isNamed, isEither, isNew⟩
      by_cases isFirst : file.name ∈ names
      · exact .inl ⟨isNamed, isFirst, isNew⟩
      · exact .inr ⟨isNamed, isEither.resolve_left isFirst, fun isSeen =>
          isSeen.elim isNew isFirst⟩
  once := by
    rw [List.map_append, List.nodup_append]
    refine ⟨first.once, second.once, ?_⟩
    rintro name isFirst _ isSecond rfl
    obtain ⟨file, isFile, rfl⟩ := List.mem_map.mp isFirst
    obtain ⟨other, isOther, same⟩ := List.mem_map.mp isSecond
    have isNext := ((first.mem_added file).mp isFile).2.1
    have isNew := ((second.mem_added other).mp isOther).2.2
    exact isNew ((first.seen _).mpr (.inr (same ▸ isNext)))

/-- One name: unless it was seen, its file waits, if there is one. -/
theorem exists_meets_one (pool : DescriptorPool) (search : Search) (name : String) :
    ∃ added, Meets pool search [name] (search.meet pool name) added := by
  rw [meet]
  split
  · rename_i isSeen
    have isSeen : name ∈ search.seen := by simpa using isSeen
    refine ⟨[], fun other => ?_, by simp, fun file => ?_, by simp⟩
    · rw [List.mem_singleton, or_iff_left_of_imp]
      rintro rfl
      exact isSeen
    · simp only [List.not_mem_nil, List.mem_singleton, false_iff]
      rintro ⟨_, rfl, isNew⟩
      exact isNew isSeen
  · rename_i isNew
    have isNew : name ∉ search.seen := by simpa using isNew
    split
    · rename_i noFile
      refine ⟨[], fun other => ?_, by simp, fun file => ?_, by simp⟩
      · rw [List.mem_cons, List.mem_singleton, or_comm]
      · simp only [List.not_mem_nil, List.mem_singleton, false_iff]
        rintro ⟨isNamed, rfl, _⟩
        exact fileNamed?_eq_none_iff.mp noFile file isNamed.mem rfl
    · rename_i found isFound
      have isNamed := fileNamed?_eq_some_iff.mp isFound
      have named : found.name = name := isNamed.answers
      refine ⟨[found], fun other => ?_, rfl, fun file => ?_, by simp⟩
      · rw [List.mem_cons, List.mem_singleton, or_comm]
      · rw [List.mem_singleton, List.mem_singleton]
        constructor
        · rintro rfl
          exact ⟨named ▸ isNamed, named, named ▸ isNew⟩
        · rintro ⟨isLast, rfl, _⟩
          exact isLast.unique isNamed

theorem exists_meets (pool : DescriptorPool) (before : Search) (names : List String) :
    ∃ added, Meets pool before names (names.foldl (meet pool) before) added := by
  induction names generalizing before with
  | nil => exact ⟨[], meets_nil pool before⟩
  | cons name names inductionHypothesis =>
      obtain ⟨added, first⟩ := exists_meets_one pool before name
      obtain ⟨more, rest⟩ := inductionHypothesis (before.meet pool name)
      exact ⟨added ++ more, first.append rest⟩

/-- A way that leads to a dependency of the file in front can begin there, since the dependency
waits from then on. -/
theorem reached_of_meets {seen : List String} {queue added : List FileDescriptor}
    {file start found : FileDescriptor} {after : Search}
    (meets : Meets pool ⟨seen, queue⟩ file.dependencies after added)
    (isStart : start ∈ file :: queue)
    (reached : Relation.ReflTransGen (pool.Follows seen) start found) :
    found = file ∨ ∃ waiting ∈ queue ++ added,
      Relation.ReflTransGen (pool.Follows after.seen) waiting found := by
  induction reached with
  | refl =>
      rcases List.mem_cons.mp isStart with rfl | isWaiting
      · exact .inl rfl
      · exact .inr ⟨start, List.mem_append_left added isWaiting, .refl⟩
  | @tail last next _ follows inductionHypothesis =>
      obtain ⟨imports, isNew⟩ := follows
      obtain ⟨isDependency, isNamed⟩ := imports_iff.mp imports
      by_cases isSeen : next.name ∈ file.dependencies
      · have isAdded := (meets.mem_added next).mpr ⟨isNamed, isSeen, isNew⟩
        exact .inr ⟨next, List.mem_append_right queue isAdded, .refl⟩
      · rcases inductionHypothesis with rfl | ⟨waiting, isWaiting, reached⟩
        · exact absurd isDependency isSeen
        · refine .inr ⟨waiting, isWaiting, reached.tail ⟨imports, fun isMet => ?_⟩⟩
          exact ((meets.seen next.name).mp isMet).elim isNew isSeen

/-- What a search finds is what can be reached from the files that wait, by names that were not
seen. -/
theorem mem_run (pool : DescriptorPool) (search : Search) (found : FileDescriptor) :
    found ∈ search.run pool ↔
      ∃ start ∈ search.queue, Relation.ReflTransGen (pool.Follows search.seen) start found := by
  fun_induction run pool search with
  | case1 seen => simp
  | case2 seen file queue inductionHypothesis =>
      obtain ⟨added, meets⟩ := exists_meets pool ⟨seen, queue⟩ file.dependencies
      have fewer : seen ⊆ (file.dependencies.foldl (meet pool) ⟨seen, queue⟩).seen :=
        fun name isSeen => (meets.seen name).mpr (.inl isSeen)
      rw [List.mem_cons, inductionHypothesis, meets.queue]
      constructor
      · rintro (rfl | ⟨start, isStart, reached⟩)
        · exact ⟨found, List.mem_cons_self, .refl⟩
        · have reached :=
            Relation.ReflTransGen.mono (fun _ _ => Follows.of_subset fewer) _ _ reached
          rcases List.mem_append.mp isStart with isWaiting | isAdded
          · exact ⟨start, List.mem_cons_of_mem file isWaiting, reached⟩
          · obtain ⟨isNamed, isDependency, isNew⟩ := (meets.mem_added start).mp isAdded
            exact ⟨file, List.mem_cons_self,
              .head ⟨imports_iff.mpr ⟨isDependency, isNamed⟩, isNew⟩ reached⟩
      · rintro ⟨start, isStart, reached⟩
        exact reached_of_meets meets isStart reached

/-- A search finds each name once, if the files that wait have different names, all of them seen. -/
theorem nodup_run (pool : DescriptorPool) (search : Search)
    (once : (search.queue.map FileDescriptor.name).Nodup)
    (known : ∀ file ∈ search.queue, file.name ∈ search.seen) :
    ((search.run pool).map FileDescriptor.name).Nodup := by
  fun_induction run pool search with
  | case1 seen => exact List.nodup_nil
  | case2 seen file queue inductionHypothesis =>
      obtain ⟨added, meets⟩ := exists_meets pool ⟨seen, queue⟩ file.dependencies
      obtain ⟨notWaiting, onceRest⟩ := List.nodup_cons.mp once
      have isSeen : file.name ∈ seen := known file List.mem_cons_self
      have waiting : ∀ other ∈ queue ++ added, other.name ≠ file.name ∧
          other.name ∈ (file.dependencies.foldl (meet pool) ⟨seen, queue⟩).seen := by
        intro other member
        rw [meets.seen]
        rcases List.mem_append.mp member with isWaiting | isAdded
        · have isKnown := known other (List.mem_cons_of_mem file isWaiting)
          exact ⟨fun same => notWaiting (same ▸ List.mem_map_of_mem isWaiting), .inl isKnown⟩
        · obtain ⟨_, isDependency, isNew⟩ := (meets.mem_added other).mp isAdded
          exact ⟨fun same => isNew (same ▸ isSeen), .inr isDependency⟩
      have onceAll : ((queue ++ added).map FileDescriptor.name).Nodup := by
        rw [List.map_append, List.nodup_append]
        refine ⟨onceRest, meets.once, ?_⟩
        rintro name isWaiting _ isAdded rfl
        obtain ⟨first, isFirst, rfl⟩ := List.mem_map.mp isWaiting
        obtain ⟨second, isSecond, same⟩ := List.mem_map.mp isAdded
        have isNew := ((meets.mem_added second).mp isSecond).2.2
        exact isNew (same ▸ known first (List.mem_cons_of_mem file isFirst))
      rw [List.map_cons, List.nodup_cons]
      refine ⟨fun isAgain => ?_, inductionHypothesis ?_ ?_⟩
      · obtain ⟨other, isFound, same⟩ := List.mem_map.mp isAgain
        obtain ⟨start, isStart, reached⟩ := (mem_run pool _ other).mp isFound
        rw [meets.queue] at isStart
        rcases Relation.ReflTransGen.cases_tail reached with rfl | ⟨last, _, follows⟩
        · exact (waiting other isStart).1 same
        · exact follows.2 (same ▸ (meets.seen file.name).mpr (.inl isSeen))
      · rw [meets.queue]
        exact onceAll
      · rw [meets.queue]
        exact fun other member => (waiting other member).2

end Search

/-! ## What a file builds on -/

/-- A file builds on those that it reaches by imports, where the name of the file itself is not
followed any more. -/
def BuildsOn (pool : DescriptorPool) (file : FileDescriptor) : FileDescriptor → Prop :=
  Relation.TransGen (pool.Follows [file.name]) file

/-- What is found of a file is the file itself, then what it builds on, each name once. -/
theorem exists_withDependencies (pool : DescriptorPool) (file : FileDescriptor) :
    ∃ further, pool.withDependencies file = file :: further ∧
      (∀ other, other ∈ further ↔ pool.BuildsOn file other) ∧
      ((file :: further).map FileDescriptor.name).Nodup := by
  have isWhole (other : FileDescriptor) : other ∈ pool.withDependencies file ↔
      Relation.ReflTransGen (pool.Follows [file.name]) file other := by
    rw [withDependencies, Search.mem_run]
    simp
  have once : ((pool.withDependencies file).map FileDescriptor.name).Nodup :=
    Search.nodup_run pool ⟨[file.name], [file]⟩ (by simp) (by simp)
  obtain ⟨further, isCons⟩ : ∃ further, pool.withDependencies file = file :: further :=
    ⟨_, by rw [withDependencies, Search.run]⟩
  rw [isCons] at once isWhole
  refine ⟨further, isCons, fun other => ?_, once⟩
  have notAgain := (List.nodup_cons.mp once).1
  constructor
  · intro member
    have reached := (isWhole other).mp (List.mem_cons_of_mem file member)
    rcases Relation.reflTransGen_iff_eq_or_transGen.mp reached with rfl | isReached
    · exact absurd (List.mem_map_of_mem member) notAgain
    · exact isReached
  · intro isReached
    rcases List.mem_cons.mp ((isWhole other).mpr isReached.to_reflTransGen) with rfl | member
    · obtain ⟨_, _, follows⟩ := Relation.TransGen.tail'_iff.mp isReached
      exact absurd List.mem_cons_self follows.2
    · exact member

/-- Of the last file of a name nothing is cut off: it builds on all other files that it reaches by
imports. -/
theorem buildsOn_iff_of_isNamed {file : FileDescriptor} (isNamed : pool.IsNamed file.name file)
    (other : FileDescriptor) :
    pool.BuildsOn file other ↔ Relation.TransGen pool.Imports file other ∧ other ≠ file := by
  constructor
  · intro isReached
    obtain ⟨_, _, follows⟩ := Relation.TransGen.tail'_iff.mp isReached
    refine ⟨Relation.TransGen.mono (fun _ _ follows => follows.1) _ _ isReached, ?_⟩
    rintro rfl
    exact follows.2 List.mem_cons_self
  · rintro ⟨isReached, isOther⟩
    -- A way that comes back to the file can begin there.
    have either : other = file ∨ pool.BuildsOn file other := by
      clear isOther
      induction isReached with
      | @single next imports =>
          by_cases same : next.name = file.name
          · exact .inl ((imports_iff.mp imports).2.unique (same ▸ isNamed))
          · exact .inr (.single ⟨imports, by simpa using same⟩)
      | @tail last next _ imports inductionHypothesis =>
          by_cases same : next.name = file.name
          · exact .inl ((imports_iff.mp imports).2.unique (same ▸ isNamed))
          · have follows : pool.Follows [file.name] last next := ⟨imports, by simpa using same⟩
            rcases inductionHypothesis with rfl | isBefore
            · exact .inr (.single follows)
            · exact .inr (isBefore.tail follows)
    exact either.resolve_left isOther

end DescriptorPool

end RpcEcho.Descriptor
