import AudioScore.Codec.Basic

/-!
# Loading policies

A loading policy tells how much content must be loaded before playback may start.
-/

namespace AudioScore

/-- How much content must be loaded before playback may start. -/
inductive LoadingPolicy where
  /-- Playback may start once some content is there. -/
  | someContent
  /-- Playback waits until all content is there. -/
  | allContent
deriving DecidableEq

namespace LoadingPolicy

instance : WireEnum LoadingPolicy where
  typeName := "LoadingPolicy"
  values := [.someContent, .allContent]
  name
    | .someContent => "SomeContentPlaythrough"
    | .allContent => "AllContentPlaythrough"
  wire
    | .someContent => "someContentPlaythrough"
    | .allContent => "allContentPlaythrough"
  mem_values a := by cases a <;> simp
  wire_injective a b := by cases a <;> cases b <;> simp

/-- What holds where no policy is given: wait for all content. -/
instance : Inhabited LoadingPolicy := ⟨.allContent⟩

/-- Loading policies in documents. -/
def codec : Codec LoadingPolicy := .wireEnum

end LoadingPolicy

end AudioScore
