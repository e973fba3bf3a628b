import RpcEcho.Config.Settings
import RpcEcho.Proofs.Text.Decimal

/-!
# Settings and their variables

Each of the settings is read from a variable of its own, and only the port can be wrong.

* `Port.Spells`: the texts that spell a port.
* `Settings.Gives`: what settings a lookup gives, variable by variable.
* `Settings.Refuses`: the values of the port that make a lookup give no settings.
* `Settings.IsIndependent`: what two lookups share if they agree on some variables.
-/

namespace RpcEcho

/-! ## Ports -/

namespace Port

/-- Some characters spell a port: digits of a small number, perhaps behind a plus sign. -/
inductive Spells : List Char → Nat → Prop
  | plain {digits : List Char} (notEmpty : digits ≠ [])
      (areDigits : ∀ c ∈ digits, c.isDigit = true) (small : Decimal.value digits ≤ 65535) :
      Spells digits (Decimal.value digits)
  | plus {digits : List Char} (notEmpty : digits ≠ [])
      (areDigits : ∀ c ∈ digits, c.isDigit = true) (small : Decimal.value digits ≤ 65535) :
      Spells ('+' :: digits) (Decimal.value digits)

theorem le_foldl (digits : List Char) (before : Nat) :
    before ≤ digits.foldl (fun value digit => value * 10 + (digit.toNat - 48)) before :=
  calc before
    _ ≤ before * 10 ^ digits.length := Nat.le_mul_of_pos_right before (Nat.pow_pos (by decide))
    _ ≤ _ := Decimal.mul_pow_le_foldl digits before

/-- Reading fails as soon as the number is too large, and then more digits would not help. -/
theorem ofDigits_eq_ok_iff {digits : List Char} {number : Nat} :
    ∀ {read : Nat}, read ≤ largest → (ofDigits read digits = .ok number ↔
      (∀ c ∈ digits, c.isDigit = true) ∧
        digits.foldl (fun value digit => value * 10 + (digit.toNat - 48)) read = number ∧
        number ≤ largest) := by
  induction digits with
  | nil =>
      intro read small
      rw [ofDigits, Except.ok.injEq, List.foldl_nil]
      constructor
      · rintro rfl
        exact ⟨fun _ member => absurd member List.not_mem_nil, rfl, small⟩
      · rintro ⟨_, same, _⟩
        exact same
  | cons c rest inductionHypothesis =>
      intro read small
      rw [ofDigits, List.foldl_cons, List.forall_mem_cons]
      by_cases isDigit : c.isDigit = true
      · simp only [isDigit, Bool.not_true, Bool.false_eq_true, if_false, true_and]
        by_cases tooLarge : largest < read * 10 + (c.toNat - 48)
        · rw [if_pos tooLarge]
          constructor
          · intro impossible
            cases impossible
          · rintro ⟨_, rfl, fits⟩
            exact absurd (Nat.le_trans (le_foldl rest _) fits) (Nat.not_le.mpr tooLarge)
        · rw [if_neg tooLarge]
          exact inductionHypothesis (Nat.not_lt.mp tooLarge)
      · simp [isDigit]

theorem ofDigits_zero_eq_ok_iff {digits : List Char} {number : Nat} :
    ofDigits 0 digits = .ok number ↔
      (∀ c ∈ digits, c.isDigit = true) ∧ Decimal.value digits = number ∧ number ≤ 65535 :=
  ofDigits_eq_ok_iff (Nat.zero_le largest)

theorem spells_plus_iff {digits : List Char} {number : Nat} :
    Spells ('+' :: digits) number ↔
      digits ≠ [] ∧ (∀ c ∈ digits, c.isDigit = true) ∧ Decimal.value digits = number ∧
        number ≤ 65535 := by
  constructor
  · rintro (⟨_, areDigits, _⟩ | ⟨notEmpty, areDigits, small⟩)
    · exact absurd (areDigits '+' List.mem_cons_self) (by decide)
    · exact ⟨notEmpty, areDigits, rfl, small⟩
  · rintro ⟨notEmpty, areDigits, rfl, small⟩
    exact .plus notEmpty areDigits small

theorem spells_iff_of_ne {chars : List Char} (noPlus : chars.head? ≠ some '+') {number : Nat} :
    Spells chars number ↔
      chars ≠ [] ∧ (∀ c ∈ chars, c.isDigit = true) ∧ Decimal.value chars = number ∧
        number ≤ 65535 := by
  constructor
  · rintro (⟨notEmpty, areDigits, small⟩ | _)
    · exact ⟨notEmpty, areDigits, rfl, small⟩
    · exact absurd rfl noPlus
  · rintro ⟨notEmpty, areDigits, rfl, small⟩
    exact .plain notEmpty areDigits small

/-- A text is read as a port exactly if it spells it. -/
theorem parse_eq_ok_iff {text : String} {number : Nat} :
    parse text = .ok number ↔ Spells text.toList number := by
  unfold parse
  split
  next empty =>
    rw [empty, spells_iff_of_ne (by simp)]
    simp
  next alone =>
    rw [alone, spells_plus_iff]
    simp
  next digits notAlone signed =>
    have notEmpty : digits ≠ [] := notAlone
    rw [signed, spells_plus_iff, ofDigits_zero_eq_ok_iff]
    simp [notEmpty]
  next notEmpty _ unsigned =>
    have noPlus : text.toList.head? ≠ some '+' := by
      intro isPlus
      obtain ⟨digits, signed⟩ := List.head?_eq_some_iff.mp isPlus
      exact unsigned digits signed
    rw [spells_iff_of_ne noPlus, ofDigits_zero_eq_ok_iff]
    simp [show text.toList ≠ [] from notEmpty]

end Port

/-! ## Flags -/

theorem Flag.parse_false_eq_true_iff {text : Option String} :
    parse text false = true ↔ ∃ spelling ∈ trueTexts, text = some spelling := by
  cases text with
  | none => simp [parse]
  | some text =>
      by_cases isTrue : text ∈ trueTexts
      · simp [parse, isTrue]
      · simp [parse, isTrue]

/-- The flags among the variables. Five of them switch something off. -/
inductive Switch where
  | connectOff
  | grpcOff
  | grpcWebOff
  | v1Off
  | v1alphaOff
  | withDependencies
  deriving DecidableEq, Repr

namespace Switch

/-- The variable of a flag. -/
def name : Switch → String
  | connectOff => "DISABLE_CONNECTRPC"
  | grpcOff => "DISABLE_GRPC"
  | grpcWebOff => "DISABLE_GRPC_WEB"
  | v1Off => "DISABLE_REFLECTION_V1"
  | v1alphaOff => "DISABLE_REFLECTION_V1ALPHA"
  | withDependencies => "REFLECTION_INCLUDE_DEPENDENCIES"

/-- Whether settings have a flag set. -/
def isSet (settings : Settings) : Switch → Bool
  | connectOff => !settings.protocols.connect
  | grpcOff => !settings.protocols.grpc
  | grpcWebOff => !settings.protocols.grpcWeb
  | v1Off => !settings.reflection.v1
  | v1alphaOff => !settings.reflection.v1alpha
  | withDependencies => settings.reflection.withDependencies

end Switch

/-! ## Lookups -/

namespace Settings

/-- The variables that settings are read from. -/
def names : List String :=
  ["HOST", "PORT", "DISABLE_CONNECTRPC", "DISABLE_GRPC", "DISABLE_GRPC_WEB",
    "DISABLE_REFLECTION_V1", "DISABLE_REFLECTION_V1ALPHA", "REFLECTION_INCLUDE_DEPENDENCIES"]

/-- A variable is not set, or empty. -/
def IsVoid (lookup : EnvFile.Lookup) (name : String) : Prop :=
  lookup name = none ∨ lookup name = some ""

/-- What settings a lookup gives. -/
structure Gives (lookup : EnvFile.Lookup) (settings : Settings) : Prop where
  defaultHost : IsVoid lookup "HOST" → settings.host = "0.0.0.0"
  ownHost : ∀ host, lookup "HOST" = some host → host ≠ "" → settings.host = host
  defaultPort : IsVoid lookup "PORT" → settings.port = 8080
  ownPort : ∀ text, lookup "PORT" = some text → text ≠ "" →
    Port.Spells (Text.trim text).toList settings.port
  switches : ∀ switch : Switch, switch.isSet settings = true ↔
    ∃ spelling ∈ ["1", "true", "TRUE", "True", "yes", "YES", "on", "ON"],
      lookup switch.name = some spelling

/-- The value of a lookup for the port spells none. -/
structure Refuses (lookup : EnvFile.Lookup) (value : String) : Prop where
  found : lookup "PORT" = some value
  notEmpty : value ≠ ""
  noPort : ∀ number, ¬ Port.Spells (Text.trim value).toList number

/-- Two lookups that agree on a variable agree on what is read from it, and no other variable
matters. -/
structure IsIndependent (lookup other : EnvFile.Lookup) : Prop where
  failure : lookup "PORT" = other "PORT" →
    ∀ error, ofLookup lookup = .error error ↔ ofLookup other = .error error
  host : ∀ settings others, ofLookup lookup = .ok settings → ofLookup other = .ok others →
    lookup "HOST" = other "HOST" → settings.host = others.host
  port : ∀ settings others, ofLookup lookup = .ok settings → ofLookup other = .ok others →
    lookup "PORT" = other "PORT" → settings.port = others.port
  switches : ∀ settings others, ofLookup lookup = .ok settings → ofLookup other = .ok others →
    ∀ switch : Switch, lookup switch.name = other switch.name →
      switch.isSet settings = switch.isSet others
  all : (∀ name ∈ names, lookup name = other name) → ofLookup lookup = ofLookup other

section Lookups

variable {lookup other : EnvFile.Lookup} {settings : Settings}

theorem nonEmpty?_of_isVoid {name : String} (isVoid : IsVoid lookup name) :
    nonEmpty? lookup name = none := by
  rcases isVoid with unset | empty
  · rw [nonEmpty?, unset, Option.filter_none]
  · rw [nonEmpty?, empty]
    rfl

theorem nonEmpty?_of_ne {name value : String} (found : lookup name = some value)
    (notEmpty : value ≠ "") : nonEmpty? lookup name = some value := by
  rw [nonEmpty?, found]
  simp [notEmpty]

theorem isVoid_or_exists (lookup : EnvFile.Lookup) (name : String) :
    IsVoid lookup name ∨ ∃ value, lookup name = some value ∧ value ≠ "" := by
  cases found : lookup name with
  | none => exact .inl (.inl found)
  | some value =>
      by_cases empty : value = ""
      · exact .inl (.inr (empty ▸ found))
      · exact .inr ⟨value, rfl, empty⟩

theorem portOf_of_ne {value : String} (found : lookup "PORT" = some value) (notEmpty : value ≠ "") :
    portOf lookup = (Port.parse (Text.trim value)).mapError (SettingsError.invalidPort value) := by
  rw [portOf, nonEmpty?_of_ne found notEmpty]

theorem portOf_congr (same : lookup "PORT" = other "PORT") : portOf lookup = portOf other := by
  rw [portOf, portOf, nonEmpty?, nonEmpty?, same]

/-- Everything but the port is there in any case. -/
theorem ofLookup_eq_ok_iff :
    ofLookup lookup = .ok settings ↔
      portOf lookup = .ok settings.port ∧
        settings.host = (nonEmpty? lookup "HOST").getD "0.0.0.0" ∧
        ∀ switch : Switch, switch.isSet settings = flag lookup switch.name := by
  rw [ofLookup]
  cases portOf lookup with
  | error error => simp [Except.map]
  | ok port =>
      simp only [Except.map, Except.ok.injEq]
      constructor
      · rintro rfl
        refine ⟨rfl, rfl, fun switch => ?_⟩
        cases switch <;> simp [Switch.isSet, Switch.name]
      · rintro ⟨rfl, isHost, switches⟩
        obtain ⟨host, port, ⟨connect, grpc, grpcWeb⟩, v1, v1alpha, withDependencies⟩ := settings
        have noConnect := switches .connectOff
        have noGrpc := switches .grpcOff
        have noGrpcWeb := switches .grpcWebOff
        have noV1 := switches .v1Off
        have noV1alpha := switches .v1alphaOff
        have dependencies := switches .withDependencies
        simp only [Switch.isSet, Switch.name] at *
        simp [← noConnect, ← noGrpc, ← noGrpcWeb, ← noV1, ← noV1alpha, ← dependencies, isHost]

theorem ofLookup_eq_error_iff {error : SettingsError} :
    ofLookup lookup = .error error ↔ portOf lookup = .error error := by
  rw [ofLookup]
  cases portOf lookup <;> simp [Except.map]

/-- The settings that are read are those that the lookup gives. -/
theorem gives_of_ofLookup (read : ofLookup lookup = .ok settings) : Gives lookup settings := by
  obtain ⟨isPort, isHost, switches⟩ := ofLookup_eq_ok_iff.mp read
  constructor
  case defaultHost =>
    intro isVoid
    rw [isHost, nonEmpty?_of_isVoid isVoid, Option.getD_none]
  case ownHost =>
    intro host found notEmpty
    rw [isHost, nonEmpty?_of_ne found notEmpty, Option.getD_some]
  case defaultPort =>
    intro isVoid
    rw [portOf, nonEmpty?_of_isVoid isVoid] at isPort
    exact (Except.ok.inj isPort).symm
  case ownPort =>
    intro text found notEmpty
    rw [portOf_of_ne found notEmpty] at isPort
    refine Port.parse_eq_ok_iff.mp ?_
    cases parsed : Port.parse (Text.trim text) with
    | error fault =>
        rw [parsed] at isPort
        cases isPort
    | ok number =>
        rw [parsed] at isPort
        exact congrArg Except.ok (Except.ok.inj isPort)
  case switches =>
    intro switch
    rw [switches switch, flag, Flag.parse_false_eq_true_iff]
    rfl

/-- Settings are read unless the value for the port spells none. -/
theorem exists_ofLookup (accepted : ∀ value, ¬ Refuses lookup value) :
    ∃ settings, ofLookup lookup = .ok settings := by
  have isPort : ∃ port, portOf lookup = .ok port := by
    rcases isVoid_or_exists lookup "PORT" with isVoid | ⟨value, found, notEmpty⟩
    · rw [portOf, nonEmpty?_of_isVoid isVoid]
      exact ⟨_, rfl⟩
    · rw [portOf_of_ne found notEmpty]
      cases parsed : Port.parse (Text.trim value) with
      | ok port => exact ⟨port, rfl⟩
      | error fault =>
          refine absurd ⟨found, notEmpty, fun number spells => ?_⟩ (accepted value)
          rw [Port.parse_eq_ok_iff.mpr spells] at parsed
          cases parsed
  obtain ⟨port, isPort⟩ := isPort
  rw [ofLookup, isPort]
  exact ⟨_, rfl⟩

/-- A value that spells no port is the whole reason of the failure, as it stands in the variable. -/
theorem exists_fault_of_refuses {value : String} (refuses : Refuses lookup value) :
    ∃ fault, ofLookup lookup = .error (.invalidPort value fault) := by
  obtain ⟨found, notEmpty, noPort⟩ := refuses
  cases parsed : Port.parse (Text.trim value) with
  | ok number => exact absurd (Port.parse_eq_ok_iff.mp parsed) (noPort number)
  | error fault =>
      refine ⟨fault, ofLookup_eq_error_iff.mpr ?_⟩
      rw [portOf_of_ne found notEmpty, parsed]
      rfl

theorem isIndependent (lookup other : EnvFile.Lookup) : IsIndependent lookup other := by
  constructor
  case failure =>
    intro same error
    rw [ofLookup_eq_error_iff, ofLookup_eq_error_iff, portOf_congr same]
  case host =>
    intro settings others read readOther same
    rw [(ofLookup_eq_ok_iff.mp read).2.1, (ofLookup_eq_ok_iff.mp readOther).2.1, nonEmpty?,
      nonEmpty?, same]
  case port =>
    intro settings others read readOther same
    have isPort := (ofLookup_eq_ok_iff.mp read).1
    rw [portOf_congr same, (ofLookup_eq_ok_iff.mp readOther).1] at isPort
    exact (Except.ok.inj isPort).symm
  case switches =>
    intro settings others read readOther switch same
    rw [(ofLookup_eq_ok_iff.mp read).2.2, (ofLookup_eq_ok_iff.mp readOther).2.2, flag, flag, same]
  case all =>
    intro same
    have sameFlag (switch : Switch) : flag lookup switch.name = flag other switch.name := by
      have known : switch.name ∈ names := by cases switch <;> decide
      rw [flag, flag, same _ known]
    have sameHost : nonEmpty? lookup "HOST" = nonEmpty? other "HOST" := by
      rw [nonEmpty?, nonEmpty?, same "HOST" (by decide)]
    have samePort := portOf_congr (same "PORT" (by decide))
    cases read : ofLookup other with
    | error error =>
        rw [ofLookup_eq_error_iff] at read ⊢
        rw [samePort, read]
    | ok settings =>
        rw [ofLookup_eq_ok_iff] at read ⊢
        simpa only [samePort, sameHost, sameFlag] using read

end Lookups

end Settings

end RpcEcho
