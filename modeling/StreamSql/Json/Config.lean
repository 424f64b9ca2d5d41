import StreamSql.Config
import StreamSql.Json.Value

/-!
# JSON forms of formats and settings

A setting that is missing has its default.
-/

namespace StreamSql

namespace Format

/-- The name of a format as a JSON variant. -/
def tag : Format → String
  | kafka => "Kafka"
  | json => "Json"
  | avro => "Avro"
  | protobuf => "Protobuf"
  | delimited => "Delimited"
  | none => "None"

instance : JsonForm Format where
  toJson f := .text f.tag
  ofJson := Json.readName tag all

end Format

/-- The members in ascending order, read in any order and with repetitions. -/
instance {α : Type} [Ord α] [Std.TransOrd α] [JsonForm α] : JsonForm (SortedSet α) where
  toJson s := toJson s.toList
  ofJson j := return .ofList (← ofJson j)

instance : JsonForm Settings where
  toJson c := .object
    [("service_id", toJson c.serviceId),
      ("create_or_replace_enabled", toJson c.createOrReplaceEnabled),
      ("key_formats_enabled", toJson c.keyFormatsEnabled),
      ("default_key_format", toJson c.defaultKeyFormat),
      ("default_value_format", toJson c.defaultValueFormat),
      ("pull_table_scan_enabled", toJson c.pullTableScanEnabled),
      ("pull_forward_timeout", toJson c.pullForwardTimeout),
      ("materialization_partitions", .integer c.materializationPartitions),
      ("immutable_properties", toJson c.immutableProperties)]
  ofJson j := do
    let standard : Settings := {}
    return {
      serviceId := ← j.fieldAtOr 0 "service_id" standard.serviceId
      createOrReplaceEnabled :=
        ← j.fieldAtOr 1 "create_or_replace_enabled" standard.createOrReplaceEnabled
      keyFormatsEnabled := ← j.fieldAtOr 2 "key_formats_enabled" standard.keyFormatsEnabled
      defaultKeyFormat := ← j.fieldAtOr 3 "default_key_format" standard.defaultKeyFormat
      defaultValueFormat := ← j.fieldAtOr 4 "default_value_format" standard.defaultValueFormat
      pullTableScanEnabled :=
        ← j.fieldAtOr 5 "pull_table_scan_enabled" standard.pullTableScanEnabled
      pullForwardTimeout := ← j.fieldAtOr 6 "pull_forward_timeout" standard.pullForwardTimeout
      materializationPartitions :=
        ← j.fieldAtWith 7 "materialization_partitions" (some standard.materializationPartitions)
          (some standard.materializationPartitions) fun m _ => m.readWord 32
      immutableProperties := ← j.fieldAtOr 8 "immutable_properties" standard.immutableProperties }

/-- Puts in the value of the setting of a name; none if there is no such setting. -/
def Settings.setField? (config : Settings) (value : Json) :
    String → Option (Except DecodeError Settings)
  | "service_id" => some do return config.set (.serviceId (← ofJson value))
  | "create_or_replace_enabled" => some do
    return config.set (.createOrReplaceEnabled (← ofJson value))
  | "key_formats_enabled" => some do return config.set (.keyFormatsEnabled (← ofJson value))
  | "default_key_format" => some do return config.set (.defaultKeyFormat (← ofJson value))
  | "default_value_format" => some do return config.set (.defaultValueFormat (← ofJson value))
  | "pull_table_scan_enabled" => some do
    return config.set (.pullTableScanEnabled (← ofJson value))
  | "pull_forward_timeout" => some do
    return config.set (.pullForwardTimeout (.ofMillis (← value.readWord 64)))
  | "materialization_partitions" => some do
    return config.set (.materializationPartitions (← value.readWord 32))
  | "immutable_property" => some do
    return { config with
      immutableProperties := config.immutableProperties.insert (← ofJson value) }
  | _ => none

/-- An object with a member for every override. -/
def Session.overridesOfJson : Json → Except DecodeError (SortedMap String String)
  | .object members => do
    return .ofList (← members.mapM fun (name, m) => return (name, ← m.readText))
  | _ => .error .malformed

end StreamSql
