import StreamSql.Format
import StreamSql.Sorted.Map
import StreamSql.Sorted.Set

/-!
# Configuration

The settings of an engine, and the properties by which a session overrides them. A property is known
by its name and takes its value from text; `Setting.read` is that reading. The settings a session
runs under are those of the engine with every override put in, unless one of them is immutable,
unknown or unreadable.
-/

namespace StreamSql

/-! ## Durations -/

/-- A length of time. -/
structure Duration where
  nanoseconds : Nat
  deriving DecidableEq

namespace Duration

def ofSeconds (seconds : Nat) : Duration := ⟨seconds * 1_000_000_000⟩

def ofMillis (millis : Nat) : Duration := ⟨millis * 1_000_000⟩

def ofMicros (micros : Nat) : Duration := ⟨micros * 1_000⟩

/-- Whole seconds. -/
def seconds (d : Duration) : Nat := d.nanoseconds / 1_000_000_000

/-- The nanoseconds beyond the whole seconds. -/
def subsecond (d : Duration) : Nat := d.nanoseconds % 1_000_000_000

/-- Whole milliseconds. -/
def millis (d : Duration) : Nat := d.nanoseconds / 1_000_000

/-- Whole microseconds. -/
def micros (d : Duration) : Nat := d.nanoseconds / 1_000

end Duration

/-! ## Properties -/

inductive Property where
  | serviceId
  | createOrReplaceEnabled
  | keyFormatsEnabled
  | defaultKeyFormat
  | defaultValueFormat
  | pullTableScanEnabled
  | pullForwardTimeout
  | materializationPartitions
  deriving DecidableEq

namespace Property

def all : List Property :=
  [serviceId, createOrReplaceEnabled, keyFormatsEnabled, defaultKeyFormat, defaultValueFormat,
    pullTableScanEnabled, pullForwardTimeout, materializationPartitions]

def name : Property → String
  | serviceId => "rill.service.id"
  | createOrReplaceEnabled => "rill.create.or.replace.enabled"
  | keyFormatsEnabled => "rill.key.formats.enabled"
  | defaultKeyFormat => "rill.persistence.default.format.key"
  | defaultValueFormat => "rill.persistence.default.format.value"
  | pullTableScanEnabled => "rill.query.pull.table.scan.enabled"
  | pullForwardTimeout => "rill.query.pull.forward.timeout.ms"
  | materializationPartitions => "rill.materialization.partitions"

def ofName? (name : String) : Option Property := all.find? (·.name == name)

end Property

/-! ## Settings -/

structure Settings where
  serviceId : String := "default_"
  createOrReplaceEnabled : Bool := true
  keyFormatsEnabled : SortedSet Format := .ofList [.kafka, .json, .delimited, .none]
  defaultKeyFormat : Format := .kafka
  defaultValueFormat : Format := .json
  pullTableScanEnabled : Bool := false
  pullForwardTimeout : Duration := .ofSeconds 10
  materializationPartitions : Nat := 1
  /-- The names of the properties that a session may not override. -/
  immutableProperties : SortedSet String :=
    .ofList [Property.serviceId.name, Property.materializationPartitions.name]
  deriving DecidableEq

namespace Settings

instance : Inhabited Settings := ⟨{}⟩

def isKeyFormatEnabled (config : Settings) (format : Format) : Bool :=
  config.keyFormatsEnabled.contains format

def isImmutable (config : Settings) (property : String) : Bool :=
  config.immutableProperties.contains property

end Settings

/-- One property with a value for it. -/
inductive Setting where
  | serviceId (id : String)
  | createOrReplaceEnabled (enabled : Bool)
  | keyFormatsEnabled (formats : SortedSet Format)
  | defaultKeyFormat (format : Format)
  | defaultValueFormat (format : Format)
  | pullTableScanEnabled (enabled : Bool)
  | pullForwardTimeout (timeout : Duration)
  | materializationPartitions (count : Nat)
  deriving DecidableEq

/-- Puts one setting in. There is always at least one partition. -/
def Settings.set (config : Settings) : Setting → Settings
  | .serviceId id => { config with serviceId := id }
  | .createOrReplaceEnabled enabled => { config with createOrReplaceEnabled := enabled }
  | .keyFormatsEnabled formats => { config with keyFormatsEnabled := formats }
  | .defaultKeyFormat format => { config with defaultKeyFormat := format }
  | .defaultValueFormat format => { config with defaultValueFormat := format }
  | .pullTableScanEnabled enabled => { config with pullTableScanEnabled := enabled }
  | .pullForwardTimeout timeout => { config with pullForwardTimeout := timeout }
  | .materializationPartitions count => { config with materializationPartitions := max count 1 }

/-- Why an override is refused. -/
inductive ConfigError where
  | immutable (property : String)
  | invalidValue (property value expected : String)
  | unknown (property : String)
  deriving DecidableEq

instance : Reportable ConfigError where
  diagnostic
    | .immutable property =>
      { code := "CONFIG_001"
        message := s!"Cannot override property '{property}'"
        label := some "immutable property"
        help := some <| "Remove the property from the request overrides; " ++
          "it can only be set in the engine configuration" }
    | .invalidValue property value expected =>
      { code := "CONFIG_002"
        message := s!"Invalid value '{value}' for property '{property}'"
        help := some s!"Property '{property}' expects {expected}" }
    | .unknown property =>
      { code := "CONFIG_003", message := s!"Unknown property '{property}'" }

namespace Setting

def readBool? (value : String) : Option Bool :=
  match Text.lower (Text.trim value) with
  | "true" => some true
  | "false" => some false
  | _ => none

def readFormat? (value : String) : Option Format := (Format.ofName value).toOption

/-- A list of format names between commas; blank names are passed over. -/
def readFormats? (value : String) : Option (SortedSet Format) :=
  (((Text.splitCommas value).filter (!Text.isBlankText ·)).mapM readFormat?).map .ofList

/-- What a property's value is to be. -/
def expected : Property → String
  | .serviceId => "a text"
  | .createOrReplaceEnabled | .pullTableScanEnabled => "true or false"
  | .keyFormatsEnabled => "a list of formats"
  | .defaultKeyFormat | .defaultValueFormat => "a format name"
  | .pullForwardTimeout => "a number of milliseconds"
  | .materializationPartitions => "a positive integer"

/-- The setting that a value gives to a property, where it can be read. -/
def ofText? (property : Property) (value : String) : Option Setting :=
  match property with
  | .serviceId => some (.serviceId value)
  | .createOrReplaceEnabled => (readBool? value).map .createOrReplaceEnabled
  | .keyFormatsEnabled => (readFormats? value).map .keyFormatsEnabled
  | .defaultKeyFormat => (readFormat? value).map .defaultKeyFormat
  | .defaultValueFormat => (readFormat? value).map .defaultValueFormat
  | .pullTableScanEnabled => (readBool? value).map .pullTableScanEnabled
  | .pullForwardTimeout => (Text.readWord? 64 value).map fun n => .pullForwardTimeout (.ofMillis n)
  | .materializationPartitions =>
    ((Text.readWord? 32 value).filter (0 < ·)).map .materializationPartitions

/-- The setting that a property's name and the text of its value stand for. -/
def read (name value : String) : Except ConfigError Setting :=
  match Property.ofName? name with
  | none => .error (.unknown name)
  | some property =>
    match ofText? property value with
    | some setting => .ok setting
    | none => .error (.invalidValue name value (expected property))

end Setting

/-! ## Sessions -/

/-- The engine's settings as seen by one request, with the properties that the request overrides. -/
structure Session where
  base : Settings := {}
  overrides : SortedMap String String := .empty
  deriving DecidableEq

namespace Session

instance : Inhabited Session := ⟨{}⟩

def override (session : Session) (property value : String) : Session :=
  { session with overrides := session.overrides.insert property value }

/-- Puts one override in. What is immutable is a matter of the engine's settings alone. -/
def apply (base effective : Settings) (override : String × String) :
    Except ConfigError Settings :=
  if base.isImmutable override.1 then .error (.immutable override.1)
  else do
    let setting ← Setting.read override.1 override.2
    return effective.set setting

/-- The settings that the request runs under; the overrides go in by ascending property name. -/
def effective (session : Session) : Except ConfigError Settings :=
  session.overrides.entries.foldlM (apply session.base) session.base

end Session

end StreamSql
