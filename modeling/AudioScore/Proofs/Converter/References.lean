import AudioScore.Proofs.Converter.Basic
import AudioScore.Proofs.Score.References

/-!
# What the check of references changes

With the check a converter gives back what it gives back without it, as long as that is about a
graph whose references are sound. In place of anything else it gives back the fault of the graph.

* `Graph.gate`: a result about a graph, or the fault of the graph.
* `Gated`: how a result with the check depends on the result without it.
* `Converter.check_gates_all`: text and values, in both directions, and the fault that is reported.
-/

namespace AudioScore

/-! ## Gates -/

/-- A result about a graph, or the fault of the graph where its references are not sound. -/
def Graph.gate {α : Type} (g : Graph) (a : α) : Except ScoreError α :=
  g.checkReferences.result.map fun _ => a

theorem Graph.gate_eq_ok_iff {α : Type} {g : Graph} {a b : α} :
    g.gate a = .ok b ↔ g.SoundReferences ∧ a = b := by
  rw [gate, Except.map_eq_ok, ← checkReferences_eq_ok_iff]
  constructor
  · rintro ⟨u, hu, hab⟩
    exact ⟨hu, hab⟩
  · rintro ⟨hu, hab⟩
    exact ⟨(), hu, hab⟩

/-- What `strict` is, given `lenient`: the same, unless that is a result about a graph whose
references are not sound. `graph` tells which graph a result is about. -/
structure Gated {α : Type} (graph : α → Graph) (strict lenient : Except ScoreError α) : Prop where
  /-- Every failure stays, and every success has to pass the check. -/
  eq_bind : strict = lenient >>= fun a => (graph a).gate a
  /-- So nothing gets through but what is sound, and everything sound gets through. -/
  eq_ok_iff : ∀ a, strict = .ok a ↔ lenient = .ok a ∧ (graph a).SoundReferences

theorem Gated.of_eq_bind {α : Type} {graph : α → Graph} {strict lenient : Except ScoreError α}
    (h : strict = lenient >>= fun a => (graph a).gate a) : Gated graph strict lenient := by
  refine ⟨h, fun a => ?_⟩
  rw [h, Except.bind_eq_ok]
  constructor
  · rintro ⟨b, hb, hgate⟩
    obtain ⟨hsound, rfl⟩ := Graph.gate_eq_ok_iff.mp hgate
    exact ⟨hb, hsound⟩
  · rintro ⟨ha, hsound⟩
    exact ⟨a, ha, Graph.gate_eq_ok_iff.mpr ⟨hsound, rfl⟩⟩

/-! ## Converters -/

namespace Converter

/-- The converter that checks references and is otherwise as the options say. -/
def strict (o : ConverterOptions) : Converter := ⟨o.withReferenceChecks true⟩

/-- The converter that does not check references and is otherwise as the options say. -/
def lenient (o : ConverterOptions) : Converter := ⟨o.withReferenceChecks false⟩

variable (o : ConverterOptions)

theorem result_check_strict (s : Score) :
    ((strict o).check s).result = s.graph.checkReferences.result := by
  rw [result_check]
  rfl

theorem result_check_lenient (s : Score) : ((lenient o).check s).result = .ok () := by
  rw [result_check]
  rfl

/-- A score that was read is checked after it was read. -/
theorem gated_read (read : Except ScoreError Score) :
    Gated Score.graph (read >>= fun s => ((strict o).check s).result.map fun _ => s)
      (read >>= fun s => ((lenient o).check s).result.map fun _ => s) := by
  refine .of_eq_bind ?_
  cases read with
  | error e => rfl
  | ok s =>
    have hread : ∀ f : Score → Except ScoreError Score, (Except.ok s >>= f) = f s := fun _ => rfl
    rw [hread, hread, result_check_strict, result_check_lenient]
    rfl

/-- A score that is written is checked before it is written. -/
theorem gated_write {α : Type} (s : Score) (written : α) :
    Gated (fun _ => s.graph) (((strict o).check s).result.map fun _ => written)
      (((lenient o).check s).result.map fun _ => written) := by
  refine .of_eq_bind ?_
  rw [result_check_strict, result_check_lenient]
  rfl

theorem gated_ofText (text : String) :
    Gated Score.graph ((strict o).ofText text).result ((lenient o).ofText text).result := by
  rw [result_ofText, result_ofText]
  exact gated_read o _

theorem gated_ofValue (v : Value) :
    Gated Score.graph ((strict o).ofValue v).result ((lenient o).ofValue v).result := by
  rw [result_ofValue, result_ofValue]
  exact gated_read o _

theorem gated_toText (s : Score) :
    Gated (fun _ => s.graph) ((strict o).toText s).result ((lenient o).toText s).result := by
  rw [result_toText, result_toText]
  exact gated_write o s _

theorem gated_toValue (s : Score) :
    Gated (fun _ => s.graph) ((strict o).toValue s).result ((lenient o).toValue s).result := by
  rw [result_toValue, result_toValue]
  exact gated_write o s _

/-- The check succeeds exactly on sound references, names the first repeated id where there is one,
and the first edge with a missing end otherwise. In each of the four ways through a converter, with
the check on, it stands between the result with the check off and the caller, and changes nothing
else. Without the check every score is written, so with it every sound one is. -/
theorem check_gates_all :
    (∀ g : Graph, (g.checkReferences.result = .ok () ↔ g.SoundReferences) ∧
      (g.SoundReferences ∨
        (¬ (g.nodes.map Node.id).Nodup ∧
          ∃ n, g.FirstRepeat n ∧ g.checkReferences.result = .error (.duplicateNode n.id)) ∨
        ((g.nodes.map Node.id).Nodup ∧
          ∃ e id, g.FirstDangling e id ∧
            g.checkReferences.result = .error (.danglingEdge e.id id)))) ∧
    ∀ o : ConverterOptions,
      (∀ text, Gated Score.graph ((strict o).ofText text).result ((lenient o).ofText text).result) ∧
      (∀ v, Gated Score.graph ((strict o).ofValue v).result ((lenient o).ofValue v).result) ∧
      ∀ s,
        Gated (fun _ => s.graph) ((strict o).toText s).result ((lenient o).toText s).result ∧
        Gated (fun _ => s.graph) ((strict o).toValue s).result ((lenient o).toValue s).result ∧
        (∃ text, ((lenient o).toText s).result = .ok text) ∧
        ∃ v, ((lenient o).toValue s).result = .ok v := by
  refine ⟨fun g => ?_, fun o => ⟨gated_ofText o, gated_ofValue o, fun s => ?_⟩⟩
  · exact ⟨Graph.checkReferences_eq_ok_iff, g.checkReferences_verdict⟩
  · have htext : ∃ text, ((lenient o).toText s).result = .ok text := by
      rw [result_toText, result_check_lenient]
      exact ⟨_, rfl⟩
    have hvalue : ∃ v, ((lenient o).toValue s).result = .ok v := by
      rw [result_toValue, result_check_lenient]
      exact ⟨_, rfl⟩
    exact ⟨gated_toText o s, gated_toValue o s, htext, hvalue⟩

/-- An edge without a target is not noticed where two nodes share an id. -/
example :
    (Graph.mk "g" none [.new "a" "k", .new "a" "l"] [.new "e" "a" "b"] []).checkReferences.result
      = .error (.duplicateNode "a") := by
  decide

end Converter

end AudioScore
