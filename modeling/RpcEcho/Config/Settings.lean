import RpcEcho.Config.EnvFile
import RpcEcho.Text.Quoted
import RpcEcho.WireFormat

/-!
# Settings of a server

Where a server listens, which protocols it speaks and which reflection services it offers, read from
variables. A variable that is set in the environment hides the entry of a file.

* `Settings.ofLookup`: the settings that variables give.
* `Settings.load`: the settings that an environment and a file give.
* `Settings.validate`: whether a server with the settings can serve anything.
-/

namespace RpcEcho

/-! ## Faults -/

/-- Why a text is no port. -/
inductive PortFault where
  | empty
  | invalidDigit
  | tooLarge
  deriving DecidableEq, Repr

/-- The words for a fault. -/
def PortFault.message : PortFault → String
  | empty => "cannot parse integer from empty string"
  | invalidDigit => "invalid digit found in string"
  | tooLarge => "number too large to fit in target type"

/-- Why there are no settings, or no usable ones. -/
inductive SettingsError where
  | noProtocolEnabled
  | invalidPort (value : String) (fault : PortFault)
  | envFile (error : EnvFile.Error)
  deriving DecidableEq, Repr

/-- The words for an error. -/
def SettingsError.message : SettingsError → String
  | noProtocolEnabled => "At least one protocol must be enabled"
  | invalidPort value fault => "invalid PORT " ++ Text.quoted value ++ ": " ++ fault.message
  | envFile error => "failed to read .env file: " ++ error.message

/-! ## Values -/

namespace Port

/-- The largest port. -/
def largest : Nat := 65535

/-- The port that digits spell behind those read so far. The first fault counts. -/
def ofDigits (read : Nat) : List Char → Except PortFault Nat
  | [] => .ok read
  | c :: rest =>
    if !c.isDigit then .error .invalidDigit
    else
      let longer := read * 10 + (c.toNat - 48)
      if largest < longer then .error .tooLarge else ofDigits longer rest

/-- The port that a text spells: digits, perhaps behind a plus sign. -/
def parse (text : String) : Except PortFault Nat :=
  match text.toList with
  | [] => .error .empty
  | ['+'] => .error .invalidDigit
  | '+' :: digits => ofDigits 0 digits
  | digits => ofDigits 0 digits

end Port

namespace Flag

/-- The spellings of a set flag. -/
def trueTexts : List String := ["1", "true", "TRUE", "True", "yes", "YES", "on", "ON"]

/-- The spellings of a flag that is not set. -/
def falseTexts : List String := ["0", "false", "FALSE", "False", "no", "NO", "off", "OFF"]

/-- Whether a text sets a flag; a text that is no spelling, and no text, leave the default. -/
def parse (text : Option String) (default : Bool) : Bool :=
  match text with
  | none => default
  | some text =>
    if trueTexts.contains text then true
    else if falseTexts.contains text then false
    else default

end Flag

/-! ## Settings -/

/-- Which protocols a server speaks. -/
structure ProtocolSettings where
  connect : Bool := true
  grpc : Bool := true
  grpcWeb : Bool := true
  deriving DecidableEq, Repr

namespace ProtocolSettings

/-- Whether a protocol is spoken. -/
def isEnabled (settings : ProtocolSettings) : Protocol → Bool
  | .connect => settings.connect
  | .grpc => settings.grpc
  | .grpcWeb => settings.grpcWeb

/-- The protocols that are spoken. -/
def enabled (settings : ProtocolSettings) : List Protocol :=
  [Protocol.connect, .grpc, .grpcWeb].filter settings.isEnabled

end ProtocolSettings

/-- Which reflection services a server offers. -/
structure ReflectionSettings where
  v1 : Bool := true
  v1alpha : Bool := true
  /-- Whether the files that a file builds on are sent with it. -/
  withDependencies : Bool := false
  deriving DecidableEq, Repr

/-- The settings of a server. -/
structure Settings where
  host : String := "0.0.0.0"
  port : Nat := 8080
  protocols : ProtocolSettings := {}
  reflection : ReflectionSettings := {}
  deriving DecidableEq, Repr

namespace Settings

/-- The value of a variable, unless it is empty. -/
def nonEmpty? (lookup : EnvFile.Lookup) (name : String) : Option String :=
  (lookup name).filter fun value => !value.isEmpty

/-- Whether a variable is a set flag. -/
def flag (lookup : EnvFile.Lookup) (name : String) : Bool := Flag.parse (lookup name) false

/-- The port that a variable gives; an empty one gives the default. -/
def portOf (lookup : EnvFile.Lookup) : Except SettingsError Nat :=
  match nonEmpty? lookup "PORT" with
  | none => .ok ({} : Settings).port
  | some value => (Port.parse (Text.trim value)).mapError (SettingsError.invalidPort value)

/-- The settings that variables give. -/
def ofLookup (lookup : EnvFile.Lookup) : Except SettingsError Settings :=
  (portOf lookup).map fun port =>
    { host := (nonEmpty? lookup "HOST").getD ({} : Settings).host
      port := port
      protocols :=
        { connect := !flag lookup "DISABLE_CONNECTRPC"
          grpc := !flag lookup "DISABLE_GRPC"
          grpcWeb := !flag lookup "DISABLE_GRPC_WEB" }
      reflection :=
        { v1 := !flag lookup "DISABLE_REFLECTION_V1"
          v1alpha := !flag lookup "DISABLE_REFLECTION_V1ALPHA"
          withDependencies := flag lookup "REFLECTION_INCLUDE_DEPENDENCIES" } }

/-- The settings that an environment and a file give, if there is a file. The variables that the
values in the file may refer to are given apart. -/
def load (environment outside : EnvFile.Lookup) (file : Option Bytes) :
    Except SettingsError Settings :=
  match file with
  | none => ofLookup environment
  | some octets =>
    match EnvFile.parse outside octets with
    | .error error => .error (.envFile error)
    | .ok entries => ofLookup (EnvFile.known environment entries)

/-- Whether a server with the settings can serve anything. -/
def validate (settings : Settings) : Except SettingsError Unit :=
  if settings.protocols.enabled.isEmpty then .error .noProtocolEnabled else .ok ()

/-- The address to listen at. A host with colons goes in brackets. -/
def bindAddress (settings : Settings) : String :=
  let host :=
    if settings.host.toList.contains ':' && settings.host.toList.head? ≠ some '[' then
      "[" ++ settings.host ++ "]"
    else settings.host
  host ++ ":" ++ settings.port.repr

end Settings

end RpcEcho
