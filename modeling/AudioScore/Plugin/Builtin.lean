import AudioScore.Plugin.Basic

/-!
# The built-in plugins

Dynamics processors, filters, time processors and sources, each with its kind, config fields,
parameters and ports.
-/

namespace AudioScore

/-! ## Enumerations of their config -/

/-- How a dynamics processor measures the level of its input. -/
inductive DetectionMode where
  /-- By peaks. -/
  | max
  /-- By the root of the mean square. -/
  | rms
deriving DecidableEq

instance : WireEnum DetectionMode where
  typeName := "DetectionMode"
  values := [.max, .rms]
  name
    | .max => "Max"
    | .rms => "Rms"
  wire
    | .max => "max"
    | .rms => "rms"
  mem_values a := by cases a <;> simp
  wire_injective a b := by cases a <;> cases b <;> simp

/-- The shape of the transition at a threshold. -/
inductive KneeMode where
  | hard
  | soft
deriving DecidableEq

instance : WireEnum KneeMode where
  typeName := "KneeMode"
  values := [.hard, .soft]
  name
    | .hard => "Hard"
    | .soft => "Soft"
  wire
    | .hard => "hard"
    | .soft => "soft"
  mem_values a := by cases a <;> simp
  wire_injective a b := by cases a <;> cases b <;> simp

/-- Which frequencies a filter lets through. -/
inductive FilterType where
  | lowPass
  | highPass
  | bandPass
deriving DecidableEq

instance : WireEnum FilterType where
  typeName := "FilterType"
  values := [.lowPass, .highPass, .bandPass]
  name
    | .lowPass => "LowPass"
    | .highPass => "HighPass"
    | .bandPass => "BandPass"
  wire
    | .lowPass => "lowPass"
    | .highPass => "highPass"
    | .bandPass => "bandPass"
  mem_values a := by cases a <;> simp
  wire_injective a b := by cases a <;> cases b <;> simp

namespace Builtin

/-! ## Parts of declarations -/

/-- The double of a decimal, `digits · 10 ^ exponent`. -/
def double (digits : Nat) (exponent : Int) : Binary64 := Decimal.toBinary64 false ⟨digits, exponent⟩

/-- A parameter with a whole initial value. -/
def whole (name : String) (initial : Int) : Param := ⟨name, .ofInt initial⟩

/-- A parameter with a decimal initial value. -/
def fractional (name : String) (digits : Nat) (exponent : Int) : Param :=
  ⟨name, double digits exponent⟩

/-- A port for sound. -/
def audio (name : String) : PortSpec := ⟨name, .audio⟩

/-- A time that may be left out. -/
def timeField (name : String) : ConfigField := .withDefault name (.scalar .time) .zero

/-- The kind of a plugin, from its name in the family of built-in plugins. -/
def kind (name : String) : String := "com.nativeformat.plugin." ++ name

/-! ## Dynamics -/

/-- The config fields that dynamics processors share. -/
def dynamicsConfig : List ConfigField := [
  .withDefault "detectionMode" (.scalar (.ofEnum DetectionMode)) DetectionMode.max,
  .withDefault "kneeMode" (.scalar (.ofEnum KneeMode)) KneeMode.hard,
  .withDefault "cutoffs" (.list .float) []]

/-- The parameters of a processor with one threshold. -/
def thresholdParams : List Param := [
  whole "thresholdDb" (-24), whole "kneeDb" 30, whole "ratioDb" 12,
  fractional "attack" 3 (-4), fractional "release" 25 (-2)]

/-- Lowers what is above a threshold. -/
def compressor : Plugin where
  kind := kind "compressor.compressor"
  config := dynamicsConfig
  params := thresholdParams
  inputs := [audio "audio", audio "sidechain"]
  outputs := [audio "audio"]

/-- Lowers what is below a threshold. -/
def expander : Plugin where
  kind := kind "compressor.expander"
  config := dynamicsConfig
  params := thresholdParams
  inputs := [audio "audio", audio "sidechain"]
  outputs := [audio "audio"]

/-- A compressor and an expander in one. -/
def compander : Plugin where
  kind := kind "compressor.compander"
  config := dynamicsConfig
  params := [
    whole "compressorThresholdDb" (-24), whole "compressorKneeDb" 30,
    whole "compressorRatioDb" 12,
    whole "expanderThresholdDb" (-24), whole "expanderKneeDb" 30,
    whole "expanderRatioDb" 12,
    fractional "attack" 3 (-4), fractional "release" 25 (-2)]
  inputs := [audio "audio", audio "sidechain"]
  outputs := [audio "audio"]

/-! ## Level and frequency -/

/-- Delays its input. -/
def delay : Plugin where
  kind := kind "waa.delay"
  config := []
  params := [whole "delayTime" 0]
  inputs := [audio "audio"]
  outputs := [audio "audio"]

/-- Scales the amplitude. -/
def gain : Plugin where
  kind := kind "waa.gain"
  config := []
  params := [whole "gain" 1]
  inputs := [audio "audio"]
  outputs := [audio "audio"]

/-- Lets a range of frequencies through. -/
def filter : Plugin where
  kind := kind "eq.filter"
  config := [.withDefault "filterType" (.scalar (.ofEnum FilterType)) FilterType.bandPass]
  params := [whole "lowCutoff" 0, whole "highCutoff" 22050]
  inputs := [audio "audio"]
  outputs := [audio "audio"]

/-- Changes the level of three bands. -/
def equalizer : Plugin where
  kind := kind "eq.eq3band"
  config := []
  params := [
    whole "lowCutoff" 264, whole "midFrequency" 1000, whole "highCutoff" 3300,
    whole "lowGain" 0, whole "midGain" 0, whole "highGain" 0]
  inputs := [audio "audio"]
  outputs := [audio "audio"]

/-! ## Time -/

/-- Changes speed and pitch. -/
def stretch : Plugin where
  kind := kind "time.stretch"
  config := []
  params := [whole "pitchRatio" 1, whole "stretch" 1, whole "formantRatio" 1]
  inputs := [audio "audio"]
  outputs := [audio "audio"]

/-- Repeats a window of its input, for ever if the count is negative. -/
def loop : Plugin where
  kind := kind "time.loop"
  config := [
    .required "when" (.scalar .time),
    .required "duration" (.scalar .time),
    .withDefault "loopCount" (.scalar .int) (-1 : Int64)]
  params := []
  inputs := [audio "audio"]
  outputs := [audio "audio"]

/-! ## Sources -/

/-- Plays a file. -/
def file : Plugin where
  kind := kind "file.file"
  config := [
    .required "file" (.scalar .string),
    timeField "when", timeField "duration", timeField "offset"]
  params := []
  inputs := []
  outputs := [audio "audio"]

/-- White noise. -/
def noise : Plugin where
  kind := kind "noise.noise"
  config := [timeField "when", timeField "duration"]
  params := []
  inputs := []
  outputs := [audio "audio"]

/-- Silence. -/
def silence : Plugin where
  kind := kind "noise.silence"
  config := [timeField "when", timeField "duration"]
  params := []
  inputs := []
  outputs := [audio "audio"]

/-- A sine wave. -/
def sine : Plugin where
  kind := kind "wave.sine"
  config := [
    .withDefault "frequency" (.scalar .float) (Binary64.zero false),
    timeField "when", timeField "duration"]
  params := []
  inputs := []
  outputs := [audio "audio"]

end Builtin

end AudioScore
