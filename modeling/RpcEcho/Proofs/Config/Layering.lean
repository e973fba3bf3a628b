import RpcEcho.Proofs.Config.Variables
import RpcEcho.Proofs.Text.Utf8

/-!
# Settings from an environment and a file

A file of lines `NAME='value'` is read as the pairs of its names and values: nothing in single
quotes means anything but itself, and nothing is open at the end of such a line. The environment
lies over the file, and of the lines for a name the last one counts.

* `EnvFile.Spells`: the files whose lines are such lines.
* `EnvFile.parse_of_spells`: they are read as their entries.
* `Settings.isLayered`: what an environment and such a file give is what the variables of both give.
-/

namespace RpcEcho

namespace EnvFile

/-! ## Files of quoted values -/

/-- The characters of a line that sets a name to a value between single quotes. -/
def assignment (entry : String × String) : List Char :=
  entry.1.toList ++ '=' :: '\'' :: (entry.2.toList ++ ['\''])

/-- A name that a line can set, and a value that single quotes can hold on one line. -/
structure IsPlain (entry : String × String) : Prop where
  start : ∃ first ∈ entry.1.toList.head?, isNameStart first = true
  name : ∀ c ∈ entry.1.toList, isNameChar c = true
  value : ∀ c ∈ entry.2.toList, c ≠ '\'' ∧ c ≠ '\\' ∧ c ≠ '\n'

instance (entry : String × String) : Decidable (IsPlain entry) :=
  decidable_of_iff
    (entry.1.toList.head?.any isNameStart = true ∧ entry.1.toList.all isNameChar = true ∧
      entry.2.toList.all (fun c => decide (c ≠ '\'' ∧ c ≠ '\\' ∧ c ≠ '\n')) = true)
    (by
      simp only [Option.any_eq_true, List.all_eq_true, decide_eq_true_eq]
      exact ⟨fun ⟨start, name, value⟩ => ⟨start, name, value⟩,
        fun isPlain => ⟨isPlain.start, isPlain.name, isPlain.value⟩⟩)

/-- The characters at the end of a line. -/
def IsLineEnd (ending : List Char) : Prop := ending = ['\n'] ∨ ending = ['\r', '\n']

/-- The octets of files whose lines set names to values between single quotes. The last line may go
without a line end. -/
inductive Spells : List (String × String) → Bytes → Prop
  | none : Spells [] []
  | last {entry : String × String} (isPlain : IsPlain entry) :
      Spells [entry] (Utf8.encode (String.ofList (assignment entry)))
  | line {entry : String × String} {ending : List Char} {entries : List (String × String)}
      {octets : Bytes} (isPlain : IsPlain entry) (isEnd : IsLineEnd ending)
      (rest : Spells entries octets) :
      Spells (entry :: entries)
        (Utf8.encode (String.ofList (assignment entry ++ ending)) ++ octets)

/-! ## Characters -/

theorem ne_of_isNameChar {c other : Char} (isName : isNameChar c = true)
    (noName : isNameChar other = false) : c ≠ other := by
  rintro rfl
  rw [noName] at isName
  exact Bool.false_ne_true isName

theorem isBlank_of_isNameChar {c : Char} (isName : isNameChar c = true) :
    Text.isBlank c = false := by
  have bounds : 46 ≤ c.toNat ∧ c.toNat ≤ 122 := by
    delta isNameChar Char.isAlphanum Char.isAlpha Char.isUpper Char.isLower Char.isDigit at isName
    simp only [Bool.or_eq_true, Bool.and_eq_true, decide_eq_true_eq, beq_iff_eq,
      UInt32.le_iff_toNat_le] at isName
    rcases isName with ((((upper | lower) | digit) | rfl) | rfl)
    · exact ⟨Nat.le_trans (by decide) upper.1, Nat.le_trans upper.2 (by decide)⟩
    · exact ⟨Nat.le_trans (by decide) lower.1, Nat.le_trans lower.2 (by decide)⟩
    · exact ⟨Nat.le_trans (by decide) digit.1, Nat.le_trans digit.2 (by decide)⟩
    · decide
    · decide
  simp only [Text.isBlank, Bool.or_eq_false_iff, Bool.and_eq_false_iff, decide_eq_false_iff_not,
    beq_eq_false_iff_ne]
  omega

theorem isNameChar_of_isNameStart {c : Char} (isStart : isNameStart c = true) :
    isNameChar c = true := by
  simp only [isNameStart, isNameChar, Char.isAlphanum, Bool.or_eq_true] at isStart ⊢
  tauto

theorem step_nothing_of_isNameChar {c : Char} (isName : isNameChar c = true) :
    Openness.nothing.step c = .nothing := by
  have noEscape := ne_of_isNameChar isName (by decide : isNameChar '\\' = false)
  have noDouble := ne_of_isNameChar isName (by decide : isNameChar '"' = false)
  have noSingle := ne_of_isNameChar isName (by decide : isNameChar '\'' = false)
  simp [Openness.step, Openness.ofBare, isBlank_of_isNameChar isName, noEscape, noDouble, noSingle]

/-! ## Lines -/

/-- A line that sets a name begins with the first character of the name. -/
theorem IsPlain.exists_assignment_eq {entry : String × String} (isPlain : IsPlain entry) :
    ∃ first rest, assignment entry = first :: rest ∧ isNameStart first = true := by
  obtain ⟨first, isFirst, isStart⟩ := isPlain.start
  obtain ⟨rest, shape⟩ := List.head?_eq_some_iff.mp isFirst
  exact ⟨first, rest ++ '=' :: '\'' :: (entry.2.toList ++ ['\'']),
    by rw [assignment, shape, List.cons_append], isStart⟩

/-- Nothing is opened by the characters of a name. -/
theorem scan_name {name : List Char} (isName : ∀ c ∈ name, isNameChar c = true) (rest : List Char) :
    ∀ reversed : List Char,
      scan .nothing reversed (name ++ rest) = scan .nothing (name.reverse ++ reversed) rest := by
  induction name with
  | nil => exact fun _ => rfl
  | cons c behind inductionHypothesis =>
      intro reversed
      obtain ⟨isNameC, isNameBehind⟩ := List.forall_mem_cons.mp isName
      rw [List.cons_append, scan, step_nothing_of_isNameChar isNameC, if_neg (by simp),
        inductionHypothesis isNameBehind, List.reverse_cons, List.append_assoc]
      rfl

/-- A single quote stays open behind the characters of a value. -/
theorem scan_single {value : List Char} (isValue : ∀ c ∈ value, c ≠ '\'' ∧ c ≠ '\\' ∧ c ≠ '\n')
    (rest : List Char) :
    ∀ reversed : List Char,
      scan .single reversed (value ++ rest) = scan .single (value.reverse ++ reversed) rest := by
  induction value with
  | nil => exact fun _ => rfl
  | cons c behind inductionHypothesis =>
      intro reversed
      obtain ⟨⟨noQuote, noEscape, _⟩, isValueBehind⟩ := List.forall_mem_cons.mp isValue
      have stays : Openness.single.step c = .single := by
        rw [Openness.step, if_neg noEscape, if_neg noQuote]
      rw [List.cons_append, scan, stays, if_neg (by simp), inductionHypothesis isValueBehind,
        List.reverse_cons, List.append_assoc]
      rfl

theorem scan_assignment {entry : String × String} (isPlain : IsPlain entry) (ending : List Char) :
    scan .nothing [] (assignment entry ++ ending) =
      scan .nothing (assignment entry).reverse ending := by
  rw [assignment, List.append_assoc, List.cons_append, List.cons_append, List.append_assoc,
    scan_name isPlain.name]
  have opened (reversed rest : List Char) :
      scan .nothing reversed ('=' :: '\'' :: rest) =
        scan .single ('\'' :: '=' :: reversed) rest := by
    rfl
  have closed (reversed rest : List Char) :
      scan .single reversed ('\'' :: rest) = scan .nothing ('\'' :: reversed) rest := by
    rfl
  rw [opened, scan_single isPlain.value, List.singleton_append, closed]
  simp

/-- A line that sets a name ends at its line end, or at the end of the file. -/
theorem scan_line {entry : String × String} (isPlain : IsPlain entry) {ending : List Char}
    (isEnd : ending = [] ∨ IsLineEnd ending) :
    scan .nothing [] (assignment entry ++ ending) = .complete (assignment entry).reverse := by
  have shape : (assignment entry).reverse =
      '\'' :: (entry.2.toList.reverse ++ '\'' :: '=' :: entry.1.toList.reverse) := by
    simp [assignment]
  rw [scan_assignment isPlain, shape]
  rcases isEnd with rfl | rfl | rfl <;> rfl

theorem isComment_line {entry : String × String} (isPlain : IsPlain entry) (ending : List Char) :
    isComment (assignment entry ++ ending) = false := by
  obtain ⟨first, rest, shape, isStart⟩ := isPlain.exists_assignment_eq
  have isName := isNameChar_of_isNameStart isStart
  have noMark := ne_of_isNameChar isName (by decide : isNameChar '#' = false)
  rw [isComment, shape, List.cons_append,
    List.dropWhile_cons_of_neg (by simp [isBlank_of_isNameChar isName])]
  simp [noMark]

/-! ## Entries -/

theorem valueFrom_single (lookup : Lookup) (size : Nat) {value : List Char}
    (isValue : ∀ c ∈ value, c ≠ '\'' ∧ c ≠ '\\' ∧ c ≠ '\n') (rest : List Char) :
    ∀ (read : List Char) (position : Nat),
      valueFrom lookup size .single read position (value ++ rest) =
        valueFrom lookup size .single (value.reverse ++ read) (position + value.length) rest := by
  induction value with
  | nil => exact fun _ _ => rfl
  | cons c behind inductionHypothesis =>
      intro read position
      obtain ⟨⟨noQuote, _⟩, isValueBehind⟩ := List.forall_mem_cons.mp isValue
      have taken : valueStep lookup .single read c = some (.single, c :: read) := by
        rw [valueStep, if_neg noQuote]
      rw [List.cons_append, valueFrom, if_neg (by simp), taken]
      dsimp only
      rw [inductionHypothesis isValueBehind, List.reverse_cons, List.append_assoc, List.length_cons,
        Nat.add_assoc, Nat.add_comm 1]
      rfl

/-- Text between single quotes stands for itself, dollar signs included. -/
theorem value_quoted (lookup : Lookup) {text : String}
    (isValue : ∀ c ∈ text.toList, c ≠ '\'' ∧ c ≠ '\\' ∧ c ≠ '\n') :
    value lookup ('\'' :: (text.toList ++ ['\''])) = .ok text := by
  have read (size : Nat) :
      valueFrom lookup size .bare [] 0 ('\'' :: (text.toList ++ ['\''])) = .ok text := by
    have opened (rest : List Char) : valueFrom lookup size .bare [] 0 ('\'' :: rest) =
        valueFrom lookup size .single [] 1 rest := rfl
    have closed (reversed : List Char) (position : Nat) :
        valueFrom lookup size .single reversed position ['\''] =
          .ok (String.ofList reversed.reverse) := rfl
    rw [opened, valueFrom_single lookup size isValue, closed, List.append_nil, List.reverse_reverse,
      String.ofList_toList]
  rw [value, read]

theorem skipBlanks_of_notBlank {cursor : Cursor} {first : Char} {rest : List Char}
    (shape : cursor.rest = first :: rest) (notBlank : Text.isBlank first = false) :
    cursor.skipBlanks = cursor := by
  obtain ⟨_, position⟩ := cursor
  obtain rfl := shape
  simp [Cursor.skipBlanks, Cursor.skip, notBlank, octetCount]

theorem trimEndChars_assignment (entry : String × String) :
    Text.trimEndChars (assignment entry) = assignment entry := by
  have shape : (assignment entry).reverse =
      '\'' :: (entry.2.toList.reverse ++ '\'' :: '=' :: entry.1.toList.reverse) := by
    simp [assignment]
  rw [Text.trimEndChars, shape, List.dropWhile_cons_of_neg (by decide), ← shape,
    List.reverse_reverse]

/-- The name of a line that sets it is read up to the equals sign. -/
theorem nameOfLine_assignment {entry : String × String} (isPlain : IsPlain entry) (position : Nat) :
    ∃ behind, nameOfLine ⟨assignment entry, position⟩ =
      .ok (entry.1, ⟨'\'' :: (entry.2.toList ++ ['\'']), behind⟩) := by
  obtain ⟨first, rest, shape, isStart⟩ := isPlain.exists_assignment_eq
  have noName : ¬ isNameChar '=' = true := by decide
  have taken : (assignment entry).takeWhile isNameChar = entry.1.toList := by
    rw [assignment, List.takeWhile_append_of_pos isPlain.name, List.takeWhile_cons_of_neg noName,
      List.append_nil]
  have left : (assignment entry).dropWhile isNameChar =
      '=' :: '\'' :: (entry.2.toList ++ ['\'']) := by
    rw [assignment, List.dropWhile_append_of_pos isPlain.name, List.dropWhile_cons_of_neg noName]
  have behindName : (Cursor.skip ⟨assignment entry, position⟩ isNameChar).skipBlanks =
      Cursor.skip ⟨assignment entry, position⟩ isNameChar :=
    skipBlanks_of_notBlank left (by decide)
  have word : name ⟨assignment entry, position⟩ =
      .ok (entry.1, Cursor.skip ⟨assignment entry, position⟩ isNameChar) := by
    rw [name, shape]
    dsimp only
    rw [if_pos isStart, ← shape, behindName, taken, String.ofList_toList]
  refine ⟨position + octetCount entry.1.toList + 1, ?_⟩
  rw [nameOfLine, word, Cursor.skip, left, taken]
  rfl

/-- The entry of a line that sets a name. -/
theorem entryOf?_assignment (lookup : Lookup) {entry : String × String} (isPlain : IsPlain entry) :
    entryOf? lookup (assignment entry) = .ok (some entry) := by
  obtain ⟨first, rest, shape, isStart⟩ := isPlain.exists_assignment_eq
  have isName := isNameChar_of_isNameStart isStart
  have noMark := ne_of_isNameChar isName (by decide : isNameChar '#' = false)
  have start : (Cursor.mk (assignment entry) 0).skipBlanks = ⟨assignment entry, 0⟩ :=
    skipBlanks_of_notBlank shape (isBlank_of_isNameChar isName)
  have notVoid : isVoid (assignment entry) = false := by
    rw [shape, isVoid, beq_eq_false_iff_ne]
    exact noMark
  obtain ⟨position, named⟩ := nameOfLine_assignment isPlain 0
  have behind : (Cursor.mk ('\'' :: (entry.2.toList ++ ['\''])) position).skipBlanks =
      ⟨'\'' :: (entry.2.toList ++ ['\'']), position⟩ :=
    skipBlanks_of_notBlank rfl (by decide)
  have spelled : isVoid ('\'' :: (entry.2.toList ++ ['\''])) = false := rfl
  have quoted := value_quoted lookup isPlain.value
  rw [entryOf?, trimEndChars_assignment]
  simp only [start, notVoid, named, behind, spelled, quoted, Bool.false_eq_true, if_false]
  rfl

/-! ## Files -/

theorem linesOnto_eq (octets : Bytes) :
    ∀ (before : List Bytes) (current : Bytes),
      linesOnto before current octets = before.reverse ++ linesOnto [] current octets := by
  induction octets with
  | nil =>
      intro before current
      rw [linesOnto, linesOnto]
      split <;> simp
  | cons octet rest inductionHypothesis =>
      intro before current
      rw [linesOnto, linesOnto]
      split
      · rw [inductionHypothesis, inductionHypothesis [_], List.reverse_cons, List.append_assoc]
        rfl
      · exact inductionHypothesis before (octet :: current)

/-- A part without a line feed is a line together with the line feed behind it. -/
theorem linesOnto_append {front : Bytes} (noEnd : 10 ∉ front) (rest : Bytes) :
    ∀ current : Bytes, linesOnto [] current (front ++ 10 :: rest) =
      (current.reverse ++ front ++ [10]) :: linesOnto [] [] rest := by
  induction front with
  | nil =>
      intro current
      rw [List.nil_append, linesOnto, if_pos rfl, linesOnto_eq]
      simp
  | cons octet behind inductionHypothesis =>
      intro current
      have other : octet ≠ 10 := fun same => noEnd (same ▸ List.mem_cons_self)
      have noEndBehind : 10 ∉ behind := fun member => noEnd (List.mem_cons_of_mem _ member)
      rw [List.cons_append, linesOnto, if_neg other, inductionHypothesis noEndBehind]
      simp

theorem linesOnto_of_noEnd {octets : Bytes} (noEnd : 10 ∉ octets) :
    ∀ {current : Bytes}, current.reverse ++ octets ≠ [] →
      linesOnto [] current octets = [current.reverse ++ octets] := by
  induction octets with
  | nil =>
      intro current notEmpty
      rw [linesOnto, if_neg (by simpa using notEmpty)]
      simp
  | cons octet rest inductionHypothesis =>
      intro current _
      have other : octet ≠ 10 := fun same => noEnd (same ▸ List.mem_cons_self)
      have noEndBehind : 10 ∉ rest := fun member => noEnd (List.mem_cons_of_mem _ member)
      rw [linesOnto, if_neg other, inductionHypothesis noEndBehind (by simp)]
      simp

theorem not_mem_encode {chars : List Char} (noEnd : '\n' ∉ chars) :
    10 ∉ Utf8.encode (String.ofList chars) := by
  rw [Utf8.encode_ofList, List.mem_flatMap]
  rintro ⟨c, member, isEnd⟩
  have isFeed : c = '\n' := (Utf8.eq_ofNat_iff_of_mem_utf8EncodeChar (by decide) isEnd).mp rfl
  exact noEnd (isFeed ▸ member)

theorem IsPlain.not_mem_assignment {entry : String × String} (isPlain : IsPlain entry) :
    '\n' ∉ assignment entry := by
  intro member
  simp only [assignment, List.mem_append, List.mem_cons, List.not_mem_nil, or_false] at member
  rcases member with inName | isEquals | isQuote | inValue | isQuote
  · exact ne_of_isNameChar (isPlain.name _ inName) (by decide) rfl
  · exact absurd isEquals (by decide)
  · exact absurd isQuote (by decide)
  · exact (isPlain.value _ inValue).2.2 rfl
  · exact absurd isQuote (by decide)

/-- A file is cut behind the line end of its first line. -/
theorem linesOnto_line {entry : String × String} (isPlain : IsPlain entry) {ending : List Char}
    (isEnd : IsLineEnd ending) (octets : Bytes) :
    linesOnto [] [] (Utf8.encode (String.ofList (assignment entry ++ ending)) ++ octets) =
      Utf8.encode (String.ofList (assignment entry ++ ending)) :: linesOnto [] [] octets := by
  obtain ⟨body, noEnd, rfl⟩ : ∃ body, '\n' ∉ body ∧ ending = body ++ ['\n'] := by
    rcases isEnd with rfl | rfl
    · exact ⟨[], by decide, rfl⟩
    · exact ⟨['\r'], by decide, rfl⟩
  have noEndInFront : '\n' ∉ assignment entry ++ body := by
    rw [List.mem_append, not_or]
    exact ⟨isPlain.not_mem_assignment, noEnd⟩
  have shape : Utf8.encode (String.ofList (assignment entry ++ (body ++ ['\n']))) =
      Utf8.encode (String.ofList (assignment entry ++ body)) ++ [10] := by
    rw [← List.append_assoc, Utf8.encode_ofList, List.flatMap_append, ← Utf8.encode_ofList]
    rfl
  rw [shape, List.append_assoc, List.singleton_append,
    linesOnto_append (not_mem_encode noEndInFront)]
  rfl

theorem parseLines_line (outside : Lookup) (before : List (String × String))
    {entry : String × String} (isPlain : IsPlain entry) {ending : List Char}
    (isEnd : ending = [] ∨ IsLineEnd ending) (rest : List Bytes) :
    parseLines outside before .nothing []
        (Utf8.encode (String.ofList (assignment entry ++ ending)) :: rest) =
      parseLines outside (entry :: before) .nothing [] rest := by
  rw [parseLines, Utf8.decode?_encode]
  simp only [String.toList_ofList, isComment_line isPlain, Bool.and_false, Bool.false_eq_true,
    if_false, scan_line isPlain isEnd, List.reverse_reverse, entryOf?_assignment _ isPlain]
  rfl

/-- A file whose lines set names to quoted values is read as its entries, last first. -/
theorem parse_of_spells (outside : Lookup) {entries : List (String × String)} {octets : Bytes}
    (spells : Spells entries octets) : parse outside octets = .ok entries.reverse := by
  have behind : ∀ before, parseLines outside before .nothing [] (linesOnto [] [] octets) =
      .ok (entries.reverse ++ before) := by
    induction spells with
    | none => exact fun _ => rfl
    | @last entry isPlain =>
        intro before
        have notEmpty : Utf8.encode (String.ofList (assignment entry)) ≠ [] := by
          obtain ⟨first, rest, shape, _⟩ := isPlain.exists_assignment_eq
          rw [Utf8.encode_ofList, shape, List.flatMap_cons]
          exact List.append_ne_nil_of_left_ne_nil String.utf8EncodeChar_ne_nil _
        have oneLine : linesOnto [] [] (Utf8.encode (String.ofList (assignment entry))) =
            [Utf8.encode (String.ofList (assignment entry))] :=
          linesOnto_of_noEnd (not_mem_encode isPlain.not_mem_assignment) notEmpty
        have read := parseLines_line outside before isPlain (.inl (rfl : ([] : List Char) = [])) []
        rw [List.append_nil] at read
        rw [oneLine, read]
        rfl
    | line isPlain isEnd rest inductionHypothesis =>
        intro before
        rw [linesOnto_line isPlain isEnd, parseLines_line outside before isPlain (.inr isEnd),
          inductionHypothesis, List.reverse_cons, List.append_assoc]
        rfl
  have all := behind []
  rwa [List.append_nil] at all

end EnvFile

namespace Settings

open EnvFile

/-! ## Layers -/

/-- The value of the last entry of a name. -/
def lastValue? (entries : List (String × String)) (name : String) : Option String :=
  ((entries.filter fun entry => entry.1 = name).getLast?).map Prod.snd

/-- The variables of an environment, even the empty ones, and under them those of a file. -/
def layered (environment : Lookup) (entries : List (String × String)) : Lookup := fun name =>
  (environment name).or (lastValue? entries name)

theorem known_reverse (environment : Lookup) (entries : List (String × String)) :
    known environment entries.reverse = layered environment entries := by
  funext name
  have last : (entries.reverse.find? fun entry => entry.1 = name) =
      (entries.filter fun entry => entry.1 = name).getLast? := by
    rw [← List.head?_filter, List.filter_reverse, List.head?_reverse]
  rw [known, layered, lastValue?, last]
  cases environment name <;> rfl

theorem load_of_spells (environment outside : Lookup) {entries : List (String × String)}
    {octets : Bytes} (spells : Spells entries octets) :
    load environment outside (some octets) = ofLookup (layered environment entries) := by
  rw [load, parse_of_spells outside spells, ← known_reverse]

theorem load_none (environment outside : Lookup) :
    load environment outside none = load environment outside (some []) := by
  rw [load_of_spells environment outside .none]
  have nothing : layered environment [] = environment := by
    funext name
    exact Option.or_none
  rw [nothing, load]

/-- How settings depend on an environment and a file. -/
structure IsLayered (environment outside : Lookup) : Prop where
  /-- A file of names and quoted values lies under the environment. -/
  file : ∀ entries octets, Spells entries octets →
    load environment outside (some octets) = ofLookup (layered environment entries)
  missing : load environment outside none = load environment outside (some [])
  /-- A lookup gives settings unless its value for the port spells none. -/
  accepted : ∀ lookup, (∀ value, ¬ Refuses lookup value) →
    ∃ settings, ofLookup lookup = .ok settings ∧ Gives lookup settings
  refused : ∀ lookup value, Refuses lookup value →
    ∃ fault, ofLookup lookup = .error (.invalidPort value fault)
  independent : ∀ lookup other, IsIndependent lookup other

/-- The settings that an environment and a file of quoted values give are those that the variables
of both give, those of the environment first and the later lines of the file before the earlier
ones. Each of the settings is read from its own variable, and only the port can be refused. -/
theorem isLayered (environment outside : Lookup) : IsLayered environment outside where
  file _ _ := load_of_spells environment outside
  missing := load_none environment outside
  accepted _ notRefused := by
    obtain ⟨settings, read⟩ := exists_ofLookup notRefused
    exact ⟨settings, read, gives_of_ofLookup read⟩
  refused _ _ := exists_fault_of_refuses
  independent := isIndependent

/-- The empty port of the environment hides the one of the file, the second host hides the first,
and nothing in quotes is read as a name, a comment or the end of a value. A port that is one too
large is refused with the blanks around it. -/
theorem isLayered_shadowed :
    let environment : Lookup := fun name => if name = "PORT" then some "" else none
    let file := Utf8.encode "HOST='a'\r\nHOST='$PORT \"#'\nPORT='1'\nDISABLE_GRPC='on'"
    load environment environment (some file) =
        .ok { host := "$PORT \"#", protocols := { grpc := false } } ∧
      ∃ fault, ofLookup (fun name => if name = "PORT" then some " 65536" else none) =
        .error (.invalidPort " 65536" fault) := by
  intro environment file
  have firstHost : IsPlain ("HOST", "a") := by decide
  have secondHost : IsPlain ("HOST", "$PORT \"#") := by decide
  have port : IsPlain ("PORT", "1") := by decide
  have grpc : IsPlain ("DISABLE_GRPC", "on") := by decide
  have spells : Spells [("HOST", "a"), ("HOST", "$PORT \"#"), ("PORT", "1"),
      ("DISABLE_GRPC", "on")] file := by
    refine Eq.mp (congrArg (Spells _) ?_) (Spells.line firstHost (.inr rfl)
      (.line secondHost (.inl rfl) (.line port (.inl rfl) (.last grpc))))
    decide
  have noPort : ∀ number, ¬ Port.Spells (Text.trim " 65536").toList number := by
    intro number isPort
    have parsed := Port.parse_eq_ok_iff.mpr isPort
    have refused : Port.parse (Text.trim " 65536") = .error .tooLarge := by decide
    rw [refused] at parsed
    cases parsed
  constructor
  · rw [(isLayered environment environment).file _ _ spells]
    rfl
  · exact (isLayered environment environment).refused _ _ ⟨rfl, by decide, noPort⟩

end Settings

end RpcEcho
