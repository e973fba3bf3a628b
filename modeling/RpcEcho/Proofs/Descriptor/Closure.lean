import Mathlib.Data.Nat.Find
import RpcEcho.Proofs.Descriptor.Dependencies

/-!
# The closure of a file

A file and what it builds on are listed by distance. All files that are one import away are looked
at before those that are two imports away, and so on: after each such level the search has seen the
names that nearer files list, and the files that wait are those of the next distance.

In a search that begins at a file, the name of that file stands for the file itself. Where the file
is the last one of its name, every name stands for the last file of the name.

* `Leads`, `IsAway`: how many imports lead to a file, and how many at least.
* `IsClosure`: a file and what it builds on, each name once and near files first.
* `Search.run_append`: the files that wait are looked at one after the other.
* `Search.IsLevel.next`: from one distance to the next.
* `Search.spreads_run`: the order of all files that are found.
* `DescriptorPool.isClosure_withDependencies`: what is found of a file is its closure.
-/

namespace RpcEcho.Descriptor

/-! ## Distances -/

section Distance

/-- A number of imports in a row leads to a file, where each name stands for the file that is given
for it. -/
inductive Leads (stands : String → Option FileDescriptor) (start : FileDescriptor) :
    Nat → FileDescriptor → Prop
  | here : Leads stands start 0 start
  | next {count : Nat} {one other : FileDescriptor} {name : String}
      (leads : Leads stands start count one) (isDependency : name ∈ one.dependencies)
      (isFound : stands name = some other) : Leads stands start (count + 1) other

/-- So many imports lead to a file, and no fewer. -/
structure IsAway (stands : String → Option FileDescriptor) (start : FileDescriptor)
    (distance : Nat) (file : FileDescriptor) : Prop where
  leads : Leads stands start distance file
  least : ∀ count, Leads stands start count file → distance ≤ count

variable {stands : String → Option FileDescriptor} {start file : FileDescriptor}

theorem IsAway.unique {near far : Nat} (isNear : IsAway stands start near file)
    (isFar : IsAway stands start far file) : near = far :=
  Nat.le_antisymm (isNear.least far isFar.leads) (isFar.least near isNear.leads)

theorem Leads.exists_isAway {count : Nat} (leads : Leads stands start count file) :
    ∃ distance ≤ count, IsAway stands start distance file := by
  classical
  have exists_ : ∃ count, Leads stands start count file := ⟨count, leads⟩
  exact ⟨Nat.find exists_, Nat.find_min' exists_ leads, Nat.find_spec exists_,
    fun other isLed => Nat.find_min' exists_ isLed⟩

/-- Whatever leads to a file that lists a name leads to the file of the name by one more import. -/
theorem IsAway.le_add_one {one : FileDescriptor} {distance count : Nat} {name : String}
    (isAway : IsAway stands start distance file) (leads : Leads stands start count one)
    (isDependency : name ∈ one.dependencies) (isFound : stands name = some file) :
    distance ≤ count + 1 :=
  isAway.least _ (leads.next isDependency isFound)

/-- A list of files is the closure of a file: it holds the file and all that the file builds on,
each name once and near files first. -/
structure IsClosure (stands : String → Option FileDescriptor) (start : FileDescriptor)
    (files : List FileDescriptor) : Prop where
  begins : files.head? = some start
  /-- No name stands twice. -/
  once : (files.map FileDescriptor.name).Nodup
  /-- The names are those that stand for a file to which imports lead. -/
  names : ∀ name, name ∈ files.map FileDescriptor.name ↔
    name = start.name ∨ ∃ file, stands name = some file ∧ ∃ count, Leads stands start count file
  /-- A name in the list stands for the file in the list. -/
  found : ∀ file ∈ files, file = start ∨ stands file.name = some file
  /-- Each file but the first is listed by one before it. -/
  listed : ∀ before file behind, files = before ++ file :: behind → before ≠ [] →
    ∃ earlier ∈ before, file.name ∈ earlier.dependencies
  away : ∀ file ∈ files, ∃ distance, IsAway stands start distance file
  /-- No file stands behind one that is farther away. -/
  outward : files.Pairwise fun one other => ∀ near far,
    IsAway stands start near one → IsAway stands start far other → near ≤ far

end Distance

namespace DescriptorPool

variable {pool : DescriptorPool}

/-- What a name stands for in a search that begins at a file: the name of the file for the file
itself, and any other name for the last file of the name. -/
def fileFrom? (pool : DescriptorPool) (start : FileDescriptor) (name : String) :
    Option FileDescriptor :=
  if name = start.name then some start else pool.fileNamed? name

theorem fileFrom?_self (pool : DescriptorPool) (start : FileDescriptor) :
    pool.fileFrom? start start.name = some start := if_pos rfl

theorem fileFrom?_eq_some_iff {start file : FileDescriptor} {name : String}
    (isOther : name ≠ start.name) :
    pool.fileFrom? start name = some file ↔ pool.IsNamed name file := by
  rw [fileFrom?, if_neg isOther, fileNamed?_eq_some_iff]

theorem name_eq_of_fileFrom? {start file : FileDescriptor} {name : String}
    (isFound : pool.fileFrom? start name = some file) : file.name = name := by
  by_cases same : name = start.name
  · subst same
    cases (fileFrom?_self pool start).symm.trans isFound
    rfl
  · exact ((fileFrom?_eq_some_iff same).mp isFound).answers

/-- For the last file of a name it makes no difference where the search begins. -/
theorem fileFrom?_eq_of_isNamed {start : FileDescriptor}
    (isNamed : pool.IsNamed start.name start) : pool.fileFrom? start = pool.fileNamed? := by
  funext name
  by_cases same : name = start.name
  · rw [same, fileFrom?_self, fileNamed?_eq_some_iff.mpr isNamed]
  · rw [fileFrom?, if_neg same]

/-- Imports lead to files that their names stand for. -/
theorem fileFrom?_of_leads {start file : FileDescriptor} {count : Nat}
    (leads : Leads (pool.fileFrom? start) start count file) :
    pool.fileFrom? start file.name = some file := by
  cases leads with
  | here => exact fileFrom?_self pool start
  | next _ _ isFound => rwa [name_eq_of_fileFrom? isFound]

end DescriptorPool

namespace DescriptorPool.Search

variable {pool : DescriptorPool} {start : FileDescriptor}

/-! ## Levels -/

/-- A search with more files to be looked at first. -/
def behind (front : List FileDescriptor) (search : Search) : Search :=
  ⟨search.seen, front ++ search.queue⟩

theorem meet_behind (front : List FileDescriptor) (search : Search) (name : String) :
    (search.behind front).meet pool name = (search.meet pool name).behind front := by
  unfold meet behind
  dsimp only
  split
  · rfl
  · split <;> simp

theorem foldl_meet_behind (front : List FileDescriptor) (search : Search) (names : List String) :
    names.foldl (meet pool) (search.behind front) =
      (names.foldl (meet pool) search).behind front := by
  induction names generalizing search with
  | nil => rfl
  | cons name names inductionHypothesis =>
      rw [List.foldl_cons, List.foldl_cons, meet_behind, inductionHypothesis]

/-- The files in front are looked at one after the other, and what they list waits behind the
others. -/
theorem run_append (pool : DescriptorPool) (seen : List String)
    (front queue : List FileDescriptor) :
    run pool ⟨seen, front ++ queue⟩ = front ++ run pool
      ((front.flatMap FileDescriptor.dependencies).foldl (meet pool) ⟨seen, queue⟩) := by
  induction front generalizing seen queue with
  | nil => rfl
  | cons file front inductionHypothesis =>
      have asBehind : (⟨seen, front ++ queue⟩ : Search) = behind front ⟨seen, queue⟩ := rfl
      rw [List.cons_append, run, asBehind, foldl_meet_behind, behind, inductionHypothesis,
        List.flatMap_cons, List.foldl_append, List.cons_append]

/-- Before a search looks at the files of a distance, it has seen what the nearer ones list. -/
structure IsLevel (pool : DescriptorPool) (start : FileDescriptor) (distance : Nat)
    (search : Search) : Prop where
  seen : ∀ name, name ∈ search.seen ↔ name = start.name ∨
    ∃ count one, count < distance ∧ Leads (pool.fileFrom? start) start count one ∧
      name ∈ one.dependencies
  queue : ∀ file, file ∈ search.queue ↔ IsAway (pool.fileFrom? start) start distance file

theorem isLevel_start (pool : DescriptorPool) (start : FileDescriptor) :
    IsLevel pool start 0 ⟨[start.name], [start]⟩ where
  seen name := by simp
  queue file := by
    rw [List.mem_singleton]
    constructor
    · rintro rfl
      exact ⟨.here, fun _ _ => Nat.zero_le _⟩
    · rintro ⟨leads, _⟩
      cases leads
      rfl

section Next

variable {distance : Nat} {search : Search}

/-- A name that was seen stands for a file at most as far away as the level. -/
theorem IsLevel.le_of_seen (isLevel : IsLevel pool start distance search) {name : String}
    {file : FileDescriptor} {far : Nat} (isSeen : name ∈ search.seen)
    (isFound : pool.fileFrom? start name = some file)
    (isAway : IsAway (pool.fileFrom? start) start far file) : far ≤ distance := by
  rcases (isLevel.seen name).mp isSeen with rfl | ⟨count, one, isNearer, leads, isDependency⟩
  · cases (fileFrom?_self pool start).symm.trans isFound
    exact Nat.le_trans (isAway.least 0 .here) (Nat.zero_le distance)
  · exact Nat.le_trans (isAway.le_add_one leads isDependency isFound) isNearer

/-- What the files of a level list is one import farther away, unless it was seen. -/
theorem IsLevel.next (isLevel : IsLevel pool start distance search) :
    IsLevel pool start (distance + 1)
      ((search.queue.flatMap FileDescriptor.dependencies).foldl (meet pool)
        ⟨search.seen, []⟩) := by
  obtain ⟨added, meets⟩ := exists_meets pool ⟨search.seen, []⟩
    (search.queue.flatMap FileDescriptor.dependencies)
  have isListed (name : String) : name ∈ search.queue.flatMap FileDescriptor.dependencies ↔
      ∃ one, IsAway (pool.fileFrom? start) start distance one ∧ name ∈ one.dependencies := by
    simp only [List.mem_flatMap, isLevel.queue]
  constructor
  case seen =>
    intro name
    rw [meets.seen, isListed, isLevel.seen]
    constructor
    · rintro ((isStart | ⟨count, one, isNearer, leads, isDependency⟩) | ⟨one, isAway, isDependency⟩)
      · exact .inl isStart
      · exact .inr ⟨count, one, Nat.lt_succ_of_lt isNearer, leads, isDependency⟩
      · exact .inr ⟨distance, one, Nat.lt_succ_self distance, isAway.leads, isDependency⟩
    · rintro (isStart | ⟨count, one, isNearer, leads, isDependency⟩)
      · exact .inl (.inl isStart)
      · obtain ⟨least, isLeast, isAway⟩ := leads.exists_isAway
        rcases Nat.lt_or_eq_of_le (Nat.le_trans isLeast (Nat.le_of_lt_succ isNearer)) with
          isBefore | rfl
        · exact .inl (.inr ⟨least, one, isBefore, isAway.leads, isDependency⟩)
        · exact .inr ⟨one, isAway, isDependency⟩
  case queue =>
    intro file
    rw [meets.queue, List.nil_append, meets.mem_added, isListed]
    constructor
    · rintro ⟨isNamed, ⟨one, isAway, isDependency⟩, isNew⟩
      have isOther : file.name ≠ start.name :=
        fun same => isNew ((isLevel.seen _).mpr (.inl same))
      have isFound := (fileFrom?_eq_some_iff isOther).mpr isNamed
      refine ⟨isAway.leads.next isDependency isFound, fun count leads => ?_⟩
      -- A shorter way would end with an import from a nearer file, which has been looked at.
      refine Nat.lt_of_not_le fun isShort => isNew ((isLevel.seen _).mpr ?_)
      cases leads with
      | here => exact absurd rfl isOther
      | @next count one _ name leads isDependency isFound =>
          rw [name_eq_of_fileFrom? isFound]
          exact .inr ⟨count, one, isShort, leads, isDependency⟩
    · intro isAway
      have notSeen : file.name ∉ search.seen := fun isSeen =>
        absurd (isLevel.le_of_seen isSeen (fileFrom?_of_leads isAway.leads) isAway)
          (Nat.not_succ_le_self distance)
      have isOther : file.name ≠ start.name :=
        fun same => notSeen ((isLevel.seen _).mpr (.inl same))
      have isNamed := (fileFrom?_eq_some_iff isOther).mp (fileFrom?_of_leads isAway.leads)
      refine ⟨isNamed, ?_, notSeen⟩
      obtain ⟨leads, least⟩ := isAway
      cases leads with
      | @next _ one _ name leads isDependency isFound =>
          refine ⟨one, ⟨leads, fun count isLed => ?_⟩, name_eq_of_fileFrom? isFound ▸ isDependency⟩
          exact Nat.le_of_succ_le_succ (least _ (isLed.next isDependency isFound))

/-! ## The order of what is found -/

/-- What is found from a level on is at least as far away, near files first, and each file that does
not wait yet is listed by one before it. -/
structure Spreads (pool : DescriptorPool) (start : FileDescriptor) (distance : Nat)
    (queue files : List FileDescriptor) : Prop where
  away : ∀ file ∈ files, ∃ far, distance ≤ far ∧ IsAway (pool.fileFrom? start) start far file
  outward : files.Pairwise fun one other => ∀ near far,
    IsAway (pool.fileFrom? start) start near one →
      IsAway (pool.fileFrom? start) start far other → near ≤ far
  listed : ∀ before file behind, files = before ++ file :: behind →
    file ∈ queue ∨ ∃ earlier ∈ before, file.name ∈ earlier.dependencies

theorem spreads_nil (pool : DescriptorPool) (start : FileDescriptor) (distance : Nat)
    (queue : List FileDescriptor) : Spreads pool start distance queue [] :=
  ⟨by simp, .nil, by simp⟩

/-- The files of a level stand before all that is farther away. -/
theorem Spreads.append {queue next files : List FileDescriptor}
    (level : ∀ file ∈ queue, IsAway (pool.fileFrom? start) start distance file)
    (isListed : ∀ file ∈ next, ∃ one ∈ queue, file.name ∈ one.dependencies)
    (spreads : Spreads pool start (distance + 1) next files) :
    Spreads pool start distance queue (queue ++ files) where
  away file member := by
    rcases List.mem_append.mp member with isNear | isFar
    · exact ⟨distance, Nat.le_refl _, level file isNear⟩
    · obtain ⟨far, isBehind, isAway⟩ := spreads.away file isFar
      exact ⟨far, Nat.le_of_succ_le isBehind, isAway⟩
  outward := by
    refine List.pairwise_append.mpr ⟨?_, spreads.outward, ?_⟩
    · apply List.pairwise_of_forall_mem_list
      intro one isOne other isOther near far isNear isFar
      rw [isNear.unique (level one isOne), isFar.unique (level other isOther)]
    · intro one isOne other isOther near far isNear isFar
      obtain ⟨least, isBehind, isAway⟩ := spreads.away other isOther
      rw [isNear.unique (level one isOne), isFar.unique isAway]
      exact Nat.le_of_succ_le isBehind
  listed before file behind whole := by
    have inRest : ∀ more, before = queue ++ more → files = more ++ file :: behind →
        ∃ earlier ∈ before, file.name ∈ earlier.dependencies := by
      rintro more rfl isRest
      rcases spreads.listed more file behind isRest with isNext | ⟨earlier, member, lists⟩
      · obtain ⟨one, member, lists⟩ := isListed file isNext
        exact ⟨one, List.mem_append_left more member, lists⟩
      · exact ⟨earlier, List.mem_append_right queue member, lists⟩
    rcases List.append_eq_append_iff.mp whole with
      ⟨more, isBefore, isRest⟩ | ⟨more, isLevel, isRest⟩
    · exact .inr (inRest more isBefore isRest)
    · cases more with
      | nil =>
          refine .inr (inRest [] ?_ isRest.symm)
          rw [isLevel, List.append_nil, List.append_nil]
      | cons first more =>
          obtain ⟨rfl, _⟩ := List.cons.inj isRest
          rw [isLevel]
          exact .inl (List.mem_append_right before List.mem_cons_self)

end Next

/-- From a level on, all that is found stands in order. -/
theorem spreads_run {distance : Nat} {search : Search}
    (isLevel : IsLevel pool start distance search) :
    Spreads pool start distance search.queue (search.run pool) := by
  -- A level with files in it leaves less work behind.
  induction left : search.work pool using Nat.strong_induction_on generalizing search distance with
  | _ work inductionHypothesis =>
    obtain ⟨seen, queue⟩ := search
    cases queue with
    | nil =>
        rw [run]
        exact spreads_nil pool start distance []
    | cons first rest =>
        let queue := first :: rest
        let next := (queue.flatMap FileDescriptor.dependencies).foldl (meet pool) ⟨seen, []⟩
        have isNext : IsLevel pool start (distance + 1) next := isLevel.next
        have less : next.work pool < work := by
          have bound : next.work pool ≤ _ :=
            work_foldl_le pool (queue.flatMap FileDescriptor.dependencies) ⟨seen, []⟩
          rw [← left]
          simp only [Search.work, List.length_nil, List.length_cons] at bound ⊢
          omega
        have isListed : ∀ file ∈ next.queue, ∃ one ∈ queue, file.name ∈ one.dependencies := by
          intro file isWaiting
          obtain ⟨added, meets⟩ := exists_meets pool ⟨seen, []⟩
            (queue.flatMap FileDescriptor.dependencies)
          have isAdded : file ∈ added := by
            have whole : next.queue = [] ++ added := meets.queue
            rwa [whole, List.nil_append] at isWaiting
          exact List.mem_flatMap.mp ((meets.mem_added file).mp isAdded).2.1
        have spreads := inductionHypothesis _ less isNext rfl
        have inFront : run pool ⟨seen, queue⟩ = queue ++ next.run pool := by
          have whole := run_append pool seen queue []
          rwa [List.append_nil] at whole
        rw [inFront]
        exact .append (fun file member => (isLevel.queue file).mp member) isListed spreads

/-- A search looks at no more files than it had work before it. -/
theorem length_run_le (pool : DescriptorPool) (search : Search) :
    (search.run pool).length ≤ search.work pool := by
  fun_induction run pool search with
  | case1 seen => exact Nat.zero_le _
  | case2 seen file queue inductionHypothesis =>
      have bound := work_foldl_le pool file.dependencies ⟨seen, queue⟩
      simp only [Search.work, List.length_cons] at inductionHypothesis bound ⊢
      omega

end DescriptorPool.Search

/-! ## The closure -/

namespace DescriptorPool

variable {pool : DescriptorPool}

/-- What a search that begins at a file can follow is what imports lead to, where the name of the
file stands for the file. -/
theorem exists_leads_iff {start file : FileDescriptor} :
    (∃ count, Leads (pool.fileFrom? start) start count file) ↔
      Relation.ReflTransGen (pool.Follows [start.name]) start file := by
  constructor
  · rintro ⟨count, leads⟩
    induction leads with
    | here => exact .refl
    | @next count one other name leads isDependency isFound inductionHypothesis =>
        have isName := name_eq_of_fileFrom? isFound
        subst isName
        by_cases same : other.name = start.name
        · rw [same] at isFound
          cases (fileFrom?_self pool start).symm.trans isFound
          exact .refl
        · have isNamed := (fileFrom?_eq_some_iff same).mp isFound
          exact inductionHypothesis.tail
            ⟨imports_iff.mpr ⟨isDependency, isNamed⟩, by simpa using same⟩
  · intro reached
    induction reached with
    | refl => exact ⟨0, .here⟩
    | tail _ follows inductionHypothesis =>
        obtain ⟨imports, isNew⟩ := follows
        obtain ⟨isDependency, isNamed⟩ := imports_iff.mp imports
        obtain ⟨count, leads⟩ := inductionHypothesis
        exact ⟨count + 1, leads.next isDependency
          ((fileFrom?_eq_some_iff (by simpa using isNew)).mpr isNamed)⟩

theorem mem_withDependencies_iff {start file : FileDescriptor} :
    file ∈ pool.withDependencies start ↔
      ∃ count, Leads (pool.fileFrom? start) start count file := by
  rw [exists_leads_iff, withDependencies, Search.mem_run]
  simp

theorem isClosure_fileFrom? (pool : DescriptorPool) (start : FileDescriptor) :
    IsClosure (pool.fileFrom? start) start (pool.withDependencies start) := by
  obtain ⟨further, isCons, _, once⟩ := exists_withDependencies pool start
  have spreads := Search.spreads_run (Search.isLevel_start pool start)
  refine ⟨by rw [isCons]; rfl, by rw [isCons]; exact once, fun name => ?_, fun file member => ?_,
    ?_, fun file member => ?_, spreads.outward⟩
  case refine_1 =>
    constructor
    · intro isName
      obtain ⟨file, member, rfl⟩ := List.mem_map.mp isName
      obtain ⟨count, leads⟩ := mem_withDependencies_iff.mp member
      exact .inr ⟨file, fileFrom?_of_leads leads, count, leads⟩
    · rintro (rfl | ⟨file, isFound, count, leads⟩)
      · exact List.mem_map_of_mem (mem_withDependencies_iff.mpr ⟨0, .here⟩)
      · rw [← name_eq_of_fileFrom? isFound]
        exact List.mem_map_of_mem (mem_withDependencies_iff.mpr ⟨count, leads⟩)
  case refine_2 =>
    obtain ⟨count, leads⟩ := mem_withDependencies_iff.mp member
    exact .inr (fileFrom?_of_leads leads)
  case refine_3 =>
    intro before file behind whole notFirst
    refine (spreads.listed before file behind whole).resolve_left fun isStart => ?_
    rw [List.mem_singleton] at isStart
    subst isStart
    -- The file at the start stands in front, and its name stands there once.
    cases before with
    | nil => exact notFirst rfl
    | cons first before =>
        rw [isCons, List.cons_append] at whole
        obtain ⟨rfl, isFurther⟩ := List.cons.inj whole
        refine (List.nodup_cons.mp once).1 (List.mem_map_of_mem ?_)
        rw [isFurther]
        exact List.mem_append_right before List.mem_cons_self
  case refine_4 =>
    obtain ⟨far, _, isAway⟩ := spreads.away file member
    exact ⟨far, isAway⟩

/-- What is found of a file is its closure, where the name of the file stands for the file itself.
Of the last file of its name, it is the closure by the files that the pool finds. The search looks
at no more files than the pool has, and the file where it begins. -/
theorem isClosure_withDependencies (pool : DescriptorPool) (start : FileDescriptor) :
    IsClosure (pool.fileFrom? start) start (pool.withDependencies start) ∧
      (pool.fileNamed? start.name = some start →
        IsClosure pool.fileNamed? start (pool.withDependencies start)) ∧
      (pool.withDependencies start).length ≤ pool.files.length + 1 := by
  have isClosure := isClosure_fileFrom? pool start
  refine ⟨isClosure, fun isFound => ?_, ?_⟩
  · have same := fileFrom?_eq_of_isNamed (fileNamed?_eq_some_iff.mp isFound)
    rwa [same] at isClosure
  · have bound := Search.length_run_le pool ⟨[start.name], [start]⟩
    have unmetAtMost : pool.unmet [start.name] ≤ pool.files.length := List.length_filter_le _ _
    simp only [Search.work, List.length_cons, List.length_nil] at bound
    rw [withDependencies]
    omega

/-! ## A file whose name another one has -/

/-- A file with a name and dependencies, and nothing else. -/
def bareFile (name : String) (dependencies : List String) : FileDescriptor :=
  ⟨(1, .text name) :: dependencies.map fun dependency => (3, .text dependency)⟩

/-- A file named "k" that defines "M" and depends on "a". -/
def roundStart : FileDescriptor :=
  ⟨(bareFile "k" ["a"]).content ++ [(4, .message [(1, .text "M")])]⟩

/-- Seven files that import each other, of which the first and the last one are both named "k". By
the last one, "b" is three imports away from the first one; without it, four. There is no file "z".
-/
def roundabout : DescriptorPool :=
  ⟨[roundStart, bareFile "a" ["k", "c"], bareFile "c" ["d"], bareFile "d" ["x", "b"],
    bareFile "x" [], bareFile "b" ["b", "z", "a"], bareFile "k" ["b"]]⟩

theorem isClosure_roundabout :
    roundabout.fileNamed? (bareFile "k" ["b"]).name = some (bareFile "k" ["b"]) ∧
      IsClosure roundabout.fileNamed? (bareFile "k" ["b"])
        (roundabout.withDependencies (bareFile "k" ["b"])) ∧
      (roundabout.withDependencies (bareFile "k" ["b"])).map FileDescriptor.name =
        ["k", "b", "a", "c", "d", "x"] := by
  have isFound : roundabout.fileNamed? (bareFile "k" ["b"]).name = some (bareFile "k" ["b"]) := rfl
  exact ⟨isFound, (isClosure_withDependencies roundabout _).2.1 isFound, by decide +kernel⟩

/-- How far a file of the pool is at least. -/
def roundRank (file : FileDescriptor) : Nat :=
  match file.name with
  | "a" => 1
  | "c" => 2
  | "d" | "b" => 3
  | "x" => 4
  | _ => if file.dependencies = ["b"] then 2 else 0

theorem roundRank_le {count : Nat} {file : FileDescriptor}
    (leads : Leads roundabout.fileNamed? roundStart count file) :
    file ∈ roundabout.files ∧ roundRank file ≤ count := by
  have grows : (roundabout.files.all fun one => one.dependencies.all fun name =>
      (roundabout.fileNamed? name).all fun other =>
        roundRank other ≤ roundRank one + 1) = true := by
    decide +kernel
  induction leads with
  | here => exact ⟨List.mem_cons_self, by decide +kernel⟩
  | @next count one other name leads isDependency isFound inductionHypothesis =>
      obtain ⟨member, isAtLeast⟩ := inductionHypothesis
      have oneMore := List.all_eq_true.mp (List.all_eq_true.mp grows one member) name isDependency
      rw [isFound, Option.all_some, decide_eq_true_iff] at oneMore
      exact ⟨(fileNamed?_eq_some_iff.mp isFound).mem, by omega⟩

/-- The first file of the pool reaches "b" by the last one, but is not followed there: "x" is found
before "b", although it is farther away. -/
theorem exists_not_isClosure : ¬ ∀ (pool : DescriptorPool) (start : FileDescriptor),
    start ∈ pool.files → IsClosure pool.fileNamed? start (pool.withDependencies start) := by
  intro claimed
  have isClosure := claimed roundabout roundStart List.mem_cons_self
  have found : roundabout.withDependencies roundStart =
      [roundStart, bareFile "a" ["k", "c"], bareFile "c" ["d"], bareFile "d" ["x", "b"],
        bareFile "x" [], bareFile "b" ["b", "z", "a"]] := by
    with_unfolding_all rfl
  have toA : Leads roundabout.fileNamed? roundStart 1 (bareFile "a" ["k", "c"]) :=
    .next .here (by decide +kernel : "a" ∈ roundStart.dependencies) rfl
  have toC : Leads roundabout.fileNamed? roundStart 2 (bareFile "c" ["d"]) :=
    toA.next (by decide +kernel : "c" ∈ (bareFile "a" ["k", "c"]).dependencies) rfl
  have toD : Leads roundabout.fileNamed? roundStart 3 (bareFile "d" ["x", "b"]) :=
    toC.next (by decide +kernel : "d" ∈ (bareFile "c" ["d"]).dependencies) rfl
  have toX : IsAway roundabout.fileNamed? roundStart 4 (bareFile "x" []) :=
    ⟨toD.next (by decide +kernel : "x" ∈ (bareFile "d" ["x", "b"]).dependencies) rfl,
      fun count leads => (roundRank_le leads).2⟩
  have toLast : Leads roundabout.fileNamed? roundStart 2 (bareFile "k" ["b"]) :=
    toA.next (by decide +kernel : "k" ∈ (bareFile "a" ["k", "c"]).dependencies) rfl
  have toB : IsAway roundabout.fileNamed? roundStart 3 (bareFile "b" ["b", "z", "a"]) :=
    ⟨toLast.next (by decide +kernel : "b" ∈ (bareFile "k" ["b"]).dependencies) rfl,
      fun count leads => (roundRank_le leads).2⟩
  have outward := isClosure.outward
  rw [found] at outward
  simp only [List.pairwise_cons] at outward
  obtain ⟨_, _, _, _, behindX, _⟩ := outward
  exact absurd (behindX (bareFile "b" ["b", "z", "a"]) List.mem_cons_self 4 3 toX toB) (by decide)

end DescriptorPool

end RpcEcho.Descriptor
