import AudioScore.Proofs.Arg.Kept
import AudioScore.Proofs.Plugin.Registry

/-!
# What is kept of a node that is read

A node that is read as an instance of a plugin is written back without what the plugin does not
declare, and with what it declares spelled out. From then on nothing changes.

* `Schema.Keeps`: which node is written for a node.
* `Plugin.keeps_of_ofNode`, `Plugin.encodable_of_ofNode`: nodes that one plugin reads.
* `Registry.builtin_keeps`: nodes that the built-in plugins read.
-/

namespace AudioScore

/-- The node `m` keeps of the node `n` what a schema declares, and nothing else: the header with a
policy spelled out, one value for each config field, and one log for each parameter. -/
structure Schema.Keeps (s : Schema) (n m : Node) : Prop where
  id : m.id = n.id
  kind : m.kind = n.kind
  label : m.label = n.label
  loadingPolicy : m.loadingPolicy = some (n.loadingPolicy.getD .allContent)
  config_keys : ∀ k, k ∈ m.config.keys ↔ k ∈ s.config.map ArgSpec.name
  config : ∀ a ∈ s.config, ∃ v, m.config.get? a.name = some v ∧ a.Keeps (n.config.get? a.name) v
  params_keys : ∀ k, k ∈ m.params.keys ↔ k ∈ s.params.map ParamSpec.name
  params : ∀ q ∈ s.params, m.params.get? q.name = some ((n.params.get? q.name).getD [])

/-! ## One plugin -/

namespace Plugin

variable {p : Plugin} {n : Node} {x : p.Instance}

theorem ofNode_eq_ok_iff : p.ofNode n = .ok x ↔ n.kind = p.kind ∧ x.header = .ofNode n ∧
    (x.config.Every fun f a => f.arg.readConfig n.config = .ok a) ∧
    x.params = Row.ofFn (fun q => q.read n.params) p.params := by
  by_cases hkind : n.kind = p.kind
  · rw [ofNode_of_kind hkind, Except.map_eq_ok]
    constructor
    · rintro ⟨config, hconfig, rfl⟩
      exact ⟨hkind, rfl, Row.build_eq_ok_iff.mp hconfig, rfl⟩
    · obtain ⟨header, config, params⟩ := x
      rintro ⟨-, hheader, hconfig, hparams⟩
      cases hheader
      cases hparams
      exact ⟨config, Row.build_eq_ok_iff.mpr hconfig, rfl⟩
  · unfold ofNode
    rw [if_neg hkind]
    constructor
    · intro h
      cases h
    · rintro ⟨h, -⟩
      exact absurd h hkind

/-- The config of an instance that was read can be written. -/
theorem encodable_of_ofNode (hp : p.Sound) (h : p.ofNode n = .ok x) :
    x.config.Every fun f a => f.type.arg.encodable a := by
  obtain ⟨-, -, hconfig, -⟩ := ofNode_eq_ok_iff.mp h
  refine hconfig.imp_of_mem fun f hf a ha => ?_
  exact Arg.encodable_of_read (a := f.arg) f.type.keeping_arg (fun d => hp.encodable_default hf) ha

/-- An instance that was read has the initial values that are declared. -/
theorem declared_of_ofNode (h : p.ofNode n = .ok x) :
    x.params.Every fun q a => a.initial = q.initial := by
  obtain ⟨-, -, -, hparams⟩ := ofNode_eq_ok_iff.mp h
  rw [hparams]
  exact Row.every_ofFn fun q _ => rfl

namespace Instance

/-- The config of a node that is written has the names that the schema declares. -/
theorem mem_config_keys_iff (hp : p.Sound) (x : p.Instance) (k : String) :
    k ∈ (Component.toNode x).config.keys ↔ k ∈ p.schema.config.map ArgSpec.name := by
  have hnames : p.schema.config.map ArgSpec.name = p.config.map ConfigField.name := List.map_map
  rw [hnames]
  exact Row.mem_keys_iff hp.config_nodup (fun f a => f.type.arg.encode a) x.config k

/-- The logs of a node that is written have the names that the schema declares. -/
theorem mem_params_keys_iff (hp : p.Sound) (x : p.Instance) (k : String) :
    k ∈ (Component.toNode x).params.keys ↔ k ∈ p.schema.params.map ParamSpec.name := by
  have hnames : p.schema.params.map ParamSpec.name = p.params.map Param.name := List.map_map
  rw [hnames]
  exact Row.mem_keys_iff hp.params_nodup (fun q a => q.write a) x.params k

end Instance

/-- The node of an instance that was read keeps what the schema declares. -/
theorem keeps_of_ofNode (hp : p.Sound) (h : p.ofNode n = .ok x) :
    p.schema.Keeps n (Component.toNode x) := by
  obtain ⟨hkind, hheader, hconfig, hparams⟩ := ofNode_eq_ok_iff.mp h
  constructor
  case id => exact congrArg Header.id hheader
  case kind => exact hkind.symm
  case label => exact congrArg Header.label hheader
  case loadingPolicy => exact congrArg some (congrArg Header.loadingPolicy hheader)
  case config_keys => exact Instance.mem_config_keys_iff hp x
  case config =>
    have hget := Row.every_get? hp.config_nodup (fun f a => f.type.arg.encode a) x.config
    refine List.forall_mem_map.mpr fun f hf => ?_
    obtain ⟨a, hget, ha⟩ := (hget.and hconfig).exists_of_mem f hf
    exact ⟨f.type.arg.encode a, hget, Arg.keeps_of_read (a := f.arg) f.type.keeping_arg ha⟩
  case params_keys => exact Instance.mem_params_keys_iff hp x
  case params =>
    have hget := Row.every_get? hp.params_nodup (fun q a => q.write a) x.params
    have hlog : x.params.Every fun q a => q.write a = (n.params.get? q.name).getD [] := by
      rw [hparams]
      exact Row.every_ofFn fun q _ => rfl
    refine List.forall_mem_map.mpr fun q hq => ?_
    obtain ⟨a, hget, ha⟩ := (hget.and hlog).exists_of_mem q hq
    exact hget.trans (congrArg some ha)

end Plugin

/-! ## Registries -/

namespace Registry

variable {r : Registry}

theorem schema?_of_index? {kind : String} {i : Fin r.entries.length}
    (h : r.index? kind = some i) : r.schema? kind = some (r.entries.get i).plugin.schema := by
  rw [schema?_eq, h]
  rfl

/-- A node that a built-in plugin reads is written back as a node that keeps what the schema of the
plugin declares, and nothing else. That node is read as the same instance, and written as it is. -/
theorem builtin_keeps {n : Node} {x : builtin.Instance} (h : (builtin.decode n).result = .ok x) :
    builtin.schema? n.kind = some x.schema ∧ x.schema.Keeps n (Component.toNode x) ∧
      (builtin.decode (Component.toNode x)).result = .ok x ∧
      (builtin.decode (Component.toNode x)).result.map Component.toNode
        = .ok (Component.toNode x) := by
  obtain ⟨hindex, hnode⟩ := decode_eq_ok_iff.mp h
  have hp := builtin_sound.plugin _ (List.getElem_mem x.index.isLt)
  -- What was read has nothing that its node does not hold.
  have hback : (builtin.decode (Component.toNode x)).result = .ok x := by
    rw [decode_toNode_eq_redeclared builtin_sound (Plugin.encodable_of_ofNode hp hnode),
      Instance.redeclared_eq_iff.mpr (Plugin.declared_of_ofNode hnode)]
  refine ⟨schema?_of_index? hindex, Plugin.keeps_of_ofNode hp hnode, hback, ?_⟩
  rw [hback]
  rfl

/-- A compressor as another program may write it: an integer for a double, `null` for a default,
no policy, and names that the schema does not know. -/
def foreign : Node where
  id := "squash"
  kind := "com.nativeformat.plugin.compressor.compressor"
  label := some "Squash"
  loadingPolicy := none
  params := .ofList [("wobble", [.new "shake"]), ("attack", [.new "hold"])]
  config := .ofList [("kneeMode", .null), ("detectionMode", .string "rms"),
    ("tone", .string "warm"),
    ("cutoffs", .array [.number (.integer 100 (by decide)), .number (.float (.zero true))])]

/-- The compressor that is read from it. -/
def squash : builtin.Instance :=
  ⟨⟨0, by decide⟩, ⟨"squash", .allContent, some "Squash"⟩,
    (DetectionMode.rms, KneeMode.hard, [.ofInt 100, .zero true], ⟨⟩),
    Row.ofFn (fun q => if q.name = "attack" then q.ofCommands [.new "hold"] else q.create)
      Builtin.compressor.params⟩

theorem builtin_keeps_squash :
    (builtin.decode foreign).result = .ok squash ∧
      squash.schema.Keeps foreign (Component.toNode squash) ∧
      (builtin.decode (Component.toNode squash)).result = .ok squash := by
  have hindex : builtin.index? foreign.kind = some squash.index := by decide
  have hnode : Builtin.compressor.ofNode foreign = .ok squash.node :=
    Plugin.ofNode_eq_ok_iff.mpr ⟨rfl, rfl, ⟨rfl, rfl, rfl, trivial⟩, rfl⟩
  have h : (builtin.decode foreign).result = .ok squash := decode_eq_ok_iff.mpr ⟨hindex, hnode⟩
  obtain ⟨-, hkeeps, hback, -⟩ := builtin_keeps h
  exact ⟨h, hkeeps, hback⟩

end Registry

end AudioScore
