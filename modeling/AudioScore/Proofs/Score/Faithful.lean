import AudioScore.Proofs.Codec.Faithful
import AudioScore.Score.Basic

/-!
# Scores are read as they are written

The forms of scores and of all their parts are faithful.

* `Node.faithful_codec`, `Graph.faithful_codec`, `Score.faithful_codec`: nodes, graphs and scores.
-/

namespace AudioScore

theorem Port.faithful_codec : Port.codec.Faithful :=
  (Codec.Faithful.string.optional fun _ => Json.noConfusion).map fun p => by cases p <;> rfl

theorem Port.faithful_field (name : String) : (Port.field name).Faithful where
  codec := Port.faithful_codec
  absent_of_omits p h := by
    cases p with
    | default => rfl
    | named name => cases h

theorem LoadingPolicy.faithful_field :
    (Field.optional "loadingPolicy" LoadingPolicy.codec).Faithful :=
  .optional _ .wireEnum fun _ => Json.noConfusion

theorem Command.faithful_codec : Command.codec.Faithful :=
  .record (by decide) ⟨.required _ .string, .dict _ .value, trivial⟩

theorem Edge.faithful_codec : Edge.codec.Faithful :=
  .record (by decide) ⟨.required _ .string, .required _ .string, .required _ .string,
    Port.faithful_field _, Port.faithful_field _, trivial⟩

theorem Script.faithful_codec : Script.codec.Faithful :=
  .record (by decide) ⟨.required _ .string, .required _ .string, trivial⟩

theorem Node.faithful_codec : Node.codec.Faithful :=
  .record (by decide) ⟨.required _ .string, .required _ .string,
    .optional _ .string fun _ => Json.noConfusion, LoadingPolicy.faithful_field,
    .dict _ Command.faithful_codec.list, .dict _ .value, trivial⟩

theorem Graph.faithful_codec : Graph.codec.Faithful :=
  .record (by decide) ⟨.required _ .string, LoadingPolicy.faithful_field,
    .list _ Node.faithful_codec, .list _ Edge.faithful_codec, .list _ Script.faithful_codec, trivial⟩

theorem Score.faithful_codec : Score.codec.Faithful :=
  .record (by decide) ⟨.required _ Graph.faithful_codec, .required _ .string, trivial⟩

end AudioScore
