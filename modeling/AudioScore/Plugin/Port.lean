import AudioScore.WireEnum

/-!
# Declared ports

A plugin declares its inputs and outputs, each with a name and the content that it carries.
-/

namespace AudioScore

/-- What a port carries. -/
inductive ContentType where
  | audio
  | control
deriving DecidableEq

instance : WireEnum ContentType where
  typeName := "ContentType"
  values := [.audio, .control]
  name
    | .audio => "Audio"
    | .control => "Control"
  wire
    | .audio => "audio"
    | .control => "control"
  mem_values a := by cases a <;> simp
  wire_injective a b := by cases a <;> cases b <;> simp

/-- A port with a name and a content. -/
structure PortSpec where
  name : String
  contentType : ContentType
deriving DecidableEq

/-- The first port of a name. -/
def PortSpec.find? (ports : List PortSpec) (name : String) : Option PortSpec :=
  ports.find? fun p => p.name == name

end AudioScore
