import AudioScore.Proofs.Codec.Grammar
import AudioScore.Proofs.Converter.Basic

/-!
# The grammar of scores

* `Score.form`: which documents are scores, and how they are normally written.
* `Score.meets_form`: the form of scores is read and written as its grammar says.
* `Converter.ofValue_iff_fits`: without reference checks, converters accept exactly the grammar and
  write back the normal form.
-/

namespace AudioScore

/-! ## Forms -/

/-- The strings that name loading policies. -/
def LoadingPolicy.form : Form := .oneOf ["someContentPlaythrough", "allContentPlaythrough"]

/-- Commands: a name, and arguments of any kind. -/
def Command.form : Form := .record [⟨"name", .required, .string⟩, ⟨"args", .collection, .dict .any⟩]

/-- Edges: two nodes by their ids, and maybe the names of their ports. -/
def Edge.form : Form :=
  .record [⟨"id", .required, .string⟩, ⟨"source", .required, .string⟩,
    ⟨"target", .required, .string⟩, ⟨"sourcePort", .nullable, .string⟩,
    ⟨"targetPort", .nullable, .string⟩]

/-- Scripts: a name, and code. -/
def Script.form : Form := .record [⟨"name", .required, .string⟩, ⟨"code", .required, .string⟩]

/-- Nodes: logs of commands by parameter, and config values of any kind. -/
def Node.form : Form :=
  .record [⟨"id", .required, .string⟩, ⟨"kind", .required, .string⟩, ⟨"label", .nullable, .string⟩,
    ⟨"loadingPolicy", .nullable, LoadingPolicy.form⟩,
    ⟨"params", .collection, .dict (.list Command.form)⟩, ⟨"config", .collection, .dict .any⟩]

/-- Graphs: nodes, edges and scripts. -/
def Graph.form : Form :=
  .record [⟨"id", .required, .string⟩, ⟨"loadingPolicy", .nullable, LoadingPolicy.form⟩,
    ⟨"nodes", .collection, .list Node.form⟩, ⟨"edges", .collection, .list Edge.form⟩,
    ⟨"scripts", .collection, .list Script.form⟩]

/-- Scores: a graph, and a version. -/
def Score.form : Form :=
  .record [⟨"graph", .required, Graph.form⟩, ⟨"version", .required, .string⟩]

/-! ## Reading and writing -/

theorem LoadingPolicy.meets_form : LoadingPolicy.codec.Meets LoadingPolicy.form := .wireEnum

theorem Port.meets_field (name : String) :
    (Port.field name).Meets ⟨name, .nullable, .string⟩ := by
  have hnullable : (Port.field name).Nullable .string Port.ofName? Port.name? := by
    refine ⟨fun _ => rfl, fun p s h => ?_, rfl, fun p => ?_, fun o => ?_⟩
    · change Codec.string.optional.encode p.name? = _
      rw [h]
      rfl
    · cases p <;> rfl
    · cases o <;> rfl
  exact hnullable.meets .string

theorem Command.meets_form : Command.codec.Meets Command.form :=
  .record (by decide) ⟨.required _ .string, .dict _ .value, rfl⟩ fun _ => rfl

theorem Edge.meets_form : Edge.codec.Meets Edge.form :=
  .record (by decide) ⟨.required _ .string, .required _ .string, .required _ .string,
    Port.meets_field _, Port.meets_field _, rfl⟩ fun _ => rfl

theorem Script.meets_form : Script.codec.Meets Script.form :=
  .record (by decide) ⟨.required _ .string, .required _ .string, rfl⟩ fun _ => rfl

theorem Node.meets_form : Node.codec.Meets Node.form :=
  .record (by decide) ⟨.required _ .string, .required _ .string, .optional _ .string,
    .optional _ LoadingPolicy.meets_form, .dict _ Command.meets_form.list, .dict _ .value, rfl⟩
    fun _ => rfl

theorem Graph.meets_form : Graph.codec.Meets Graph.form :=
  .record (by decide) ⟨.required _ .string, .optional _ LoadingPolicy.meets_form,
    .list _ Node.meets_form, .list _ Edge.meets_form, .list _ Script.meets_form, rfl⟩ fun _ => rfl

theorem Score.meets_form : Score.codec.Meets Score.form :=
  .record (by decide) ⟨.required _ Graph.meets_form, .required _ .string, rfl⟩ fun _ => rfl

/-! ## Converters -/

namespace Converter

/-- Without reference checks a converter reads a score from a value exactly if the value fits the
grammar, and writes the score back as the normal form of that value. -/
theorem ofValue_iff_fits (pretty : Bool) (v : Value) :
    ((∃ s, (ofValue ⟨⟨pretty, false⟩⟩ v).result = .ok s) ↔ Score.form.fits v.json) ∧
      ∀ s, (ofValue ⟨⟨pretty, false⟩⟩ v).result = .ok s →
        ∃ w, (toValue ⟨⟨pretty, false⟩⟩ s).result = .ok w ∧ w.json = Score.form.canon v.json := by
  have hcheck : ∀ s, (check ⟨⟨pretty, false⟩⟩ s).result = .ok () := result_check _
  have hread : ∀ s, (ofValue ⟨⟨pretty, false⟩⟩ v).result = .ok s
      ↔ Score.codec.decode .value v.json.toTree = .ok s := by
    intro s
    rw [result_ofValue_eq_ok_iff]
    exact and_iff_left (hcheck s)
  refine ⟨?_, fun s hs => ?_⟩
  · simp only [hread]
    exact Score.meets_form.reads v
  · refine ⟨Score.codec.toValue s, ?_, Score.meets_form.writes ((hread s).mp hs)⟩
    rw [result_toValue, hcheck]
    rfl

/-- A score may be given by place, its graph by name, with what may be absent spelled out. -/
example :
    Score.form.canon (.array [.object [("id", .string "g"), ("loadingPolicy", .null),
        ("nodes", .array [])], .string "1"])
      = .object [("graph", .object [("id", .string "g")]), ("version", .string "1")] := rfl

end Converter

end AudioScore
