import AudioScore.Proofs.Arg.Conforms
import AudioScore.Proofs.Plugin.Obtained

/-!
# Nodes conform to their schemas

Whatever was done with an instance, its node has what its schema declares, in the declared form, and
nothing else. A number that is not finite would be written as `null`, and no `null` is written.

* `Schema.Describes`: nodes that conform to a schema.
* `Plugin.Instance.Arises`: the instances that come about by making or reading them, and by calls.
* `Plugin.Instance.Arises.log`: what is in their logs.
* `Registry.builtin_describes`: the nodes of all instances of built-in plugins.
-/

namespace AudioScore

/-- A node with exactly the config fields and parameters of a schema, and with values of the declared
kinds. -/
structure Schema.Describes (s : Schema) (m : Node) : Prop where
  kind : m.kind = s.kind
  config_keys : ∀ k, k ∈ m.config.keys ↔ k ∈ s.config.map ArgSpec.name
  config : ∀ a ∈ s.config, ∃ v, m.config.get? a.name = some v ∧ a.kind.conforms v.json ∧
    v.json.nullFree
  params_keys : ∀ k, k ∈ m.params.keys ↔ k ∈ s.params.map ParamSpec.name

/-! ## Logs -/

namespace Automation

/-- A log that goes on after a given one, by calls with finite numbers. -/
def Extends (a : Automation) (given : List Command) : Prop :=
  ∃ calls : List Call, a.commands = given ++ calls.map Call.command ∧
    ∀ call ∈ calls, ∀ x ∈ call.numbers, x.isFinite

theorem Extends.apply {a a' : Automation} {given : List Command} {call : Call}
    (h : a.Extends given) (ha : a.apply call = .ok a') : a'.Extends given := by
  obtain ⟨calls, hcommands, hfinite⟩ := h
  obtain ⟨hcall, rfl⟩ := apply_eq_ok_iff.mp ha
  refine ⟨calls ++ [call], ?_, ?_⟩
  · rw [append, hcommands, List.map_append, List.append_assoc]
    rfl
  · rw [List.forall_mem_append, List.forall_mem_singleton]
    exact ⟨hfinite, hcall⟩

end Automation

/-! ## Instances -/

namespace Plugin.Instance

variable {p : Plugin} {x : p.Instance}

/-- The instances that come about without parameters of other instances, and the logs that were there
at first: made by the plugin, or read from a node, perhaps given labels, and changed by calls on their
parameters. -/
inductive Arises : Dict (List Command) → p.Instance → Prop where
  | create {fresh : String} {id : Option String} {policy : LoadingPolicy} {settings : p.Settings}
      {x : p.Instance} (h : (p.create fresh id policy settings).result = .ok x) : Arises .empty x
  | ofNode {n : Node} {x : p.Instance} (h : p.ofNode n = .ok x) : Arises n.params x
  | withLabel {given : Dict (List Command)} {x : p.Instance} (h : Arises given x) (label : String) :
      Arises given (x.withLabel label)
  | attempt {given : Dict (List Command)} {x : p.Instance} (h : Arises given x) (name : String)
      (call : Automation.Call) : Arises given (x.attempt name call)

theorem Arises.obtained {given : Dict (List Command)} (h : x.Arises given) : x.Obtained false := by
  induction h with
  | create h => exact .create h
  | ofNode h => exact .ofNode h
  | withLabel h label ih => exact .withLabel ih label
  | attempt h name call ih => exact .attempt ih name call

/-- Every log goes on after the one that was there at first. -/
theorem Arises.log {given : Dict (List Command)} (h : x.Arises given) :
    x.params.Every fun q a => a.Extends ((given.get? q.name).getD []) := by
  have hnone : ∀ call ∈ ([] : List Automation.Call), ∀ x ∈ call.numbers, x.isFinite :=
    fun call hcall => absurd hcall List.not_mem_nil
  induction h with
  | create h =>
    obtain ⟨config, -, rfl⟩ := exists_config_of_create h
    refine Row.every_ofFn fun q _ => ⟨[], ?_, hnone⟩
    rw [Dict.get?_empty]
    rfl
  | ofNode h =>
    obtain ⟨-, -, -, hparams⟩ := ofNode_eq_ok_iff.mp h
    rw [hparams]
    exact Row.every_ofFn fun q _ => ⟨[], (List.append_nil _).symm, hnone⟩
  | withLabel h label ih => exact ih
  | attempt h name call ih =>
    exact every_params_attempt (fun q a a' ha => ha.apply) ih name

/-- The node of an instance conforms to the schema, if its config can be written. -/
theorem describes_toNode (hp : p.Sound) (h : x.config.Every fun f a => f.type.arg.encodable a) :
    p.schema.Describes (Component.toNode x) := by
  constructor
  case kind => rfl
  case config_keys => exact mem_config_keys_iff hp x
  case config =>
    have hget := Row.every_get? hp.config_nodup (fun f a => f.type.arg.encode a) x.config
    refine List.forall_mem_map.mpr fun f hf => ?_
    obtain ⟨a, hget, ha⟩ := (hget.and h).exists_of_mem f hf
    have hconforms := f.type.conforms_encode ha
    exact ⟨f.type.arg.encode a, hget, hconforms, ArgKind.nullFree_of_conforms hconforms⟩
  case params_keys => exact mem_params_keys_iff hp x

end Plugin.Instance

/-! ## Registries -/

namespace Registry

/-- The node of an instance of a built-in plugin conforms to the schema of the plugin. Every content
of its config is read back, and all of it is read as the instance. Its logs are those that were there
at first, and after them commands of calls with finite numbers, so that no `null` was added. -/
theorem builtin_describes {x : builtin.Instance} {given : Dict (List Command)}
    (h : x.node.Arises given) :
    x.schema.Describes (Component.toNode x) ∧
      (x.node.config.Every fun f a => f.arg.readConfig (Component.toNode x).config = .ok a) ∧
      (builtin.decode (Component.toNode x)).result = .ok x ∧
      ∀ q ∈ x.schema.params, ∃ calls : List Automation.Call,
        (Component.toNode x).params.get? q.name
          = some ((given.get? q.name).getD [] ++ calls.map Automation.Call.command) ∧
        ∀ call ∈ calls, (∀ y ∈ call.numbers, y.isFinite) ∧ call.command.NullFree := by
  have hp := builtin_sound.plugin _ (List.getElem_mem x.index.isLt)
  have hconfig := h.obtained.encodable hp
  refine ⟨Plugin.Instance.describes_toNode hp hconfig,
    Row.build_eq_ok_iff.mp (Plugin.Instance.build_config hp hconfig),
    decode_toNode_of_declared builtin_sound hconfig (h.obtained.declared hp), ?_⟩
  have hget := Row.every_get? hp.params_nodup (fun q a => q.write a) x.node.params
  refine List.forall_mem_map.mpr fun q hq => ?_
  obtain ⟨a, hget, calls, hlog, hfinite⟩ := (hget.and h.log).exists_of_mem q hq
  refine ⟨calls, hget.trans (congrArg some hlog), fun call hcall => ?_⟩
  exact ⟨hfinite call hcall, Automation.Call.nullFree_command (hfinite call hcall)⟩

/-- A compressor as it is made. -/
def compressed : Builtin.compressor.Instance :=
  ⟨⟨"glue", .allContent, none⟩, (DetectionMode.rms, KneeMode.hard, [.zero false, .zero true], ⟨⟩),
    Row.ofFn Param.create Builtin.compressor.params⟩

/-- The compressor with a label, after a call that failed and one that did not. -/
def glue : builtin.Instance :=
  ⟨0, ((compressed.withLabel "Glue").attempt "attack" (.setCurve [.zero false, .nan]
    .zero .zero)).attempt "attack" (.linearRamp (.zero false) .zero)⟩

theorem builtin_describes_glue :
    glue.schema.Describes (Component.toNode glue) ∧
      (builtin.decode (Component.toNode glue)).result = .ok glue := by
  have hmade : compressed.Arises .empty := by
    have hcreate : (Builtin.compressor.create "fresh" (some "glue") .allContent
        (some DetectionMode.rms, none, some [.zero false, .zero true], ⟨⟩)).result
          = .ok compressed := rfl
    exact .create hcreate
  have harises : glue.node.Arises .empty := .attempt (.attempt (.withLabel hmade "Glue") _ _) _ _
  obtain ⟨hdescribes, -, hback, -⟩ := builtin_describes harises
  exact ⟨hdescribes, hback⟩

end Registry

end AudioScore
