import AudioScore.Plugin.Connect
import AudioScore.Proofs.Plugin.Refusal

/-!
# Ways to the plugin of a kind

What is published about the plugin of a kind, its schema, and the reading of nodes are found in a
registry each in its own way, and all of them come to the same plugin. A plugin by itself reads what
it reads as a part of the registry, and an instance does not change when it is taken as one of many.

* `Component.Alike`: components that cannot be told apart.
* `Registry.ofEntries_eq`: registering plugins one after another gives the list of them.
* `Registry.builtin_coherent`: the ways to the built-in plugins come to the same.
-/

namespace AudioScore

/-! ## Components that cannot be told apart -/

namespace Component

variable {α β γ : Type} [Component α] [Component β] [Component γ] {a : α} {b : β}

/-- Two components that are written as the same node, have the same ports, and are connected with
any third one alike, whichever of the two is the source and whichever is named first. -/
structure Alike (a : α) (b : β) : Prop where
  toNode : Component.toNode a = Component.toNode b
  inputs : Component.inputs a = Component.inputs b
  outputs : Component.outputs a = Component.outputs b
  source : ∀ {γ : Type} [Component γ] (fresh : String) (c : γ),
    connect fresh a c = connect fresh b c ∧ connectFrom fresh c a = connectFrom fresh c b
  target : ∀ {γ : Type} [Component γ] (fresh : String) (c : γ),
    connect fresh c a = connect fresh c b ∧ connectFrom fresh a c = connectFrom fresh b c
  sourcePorts : ∀ {γ : Type} [Component γ] (fresh : String) (c : γ) (output input : String),
    connectPorts fresh a c output input = connectPorts fresh b c output input ∧
      connectPortsFrom fresh c a output input = connectPortsFrom fresh c b output input
  targetPorts : ∀ {γ : Type} [Component γ] (fresh : String) (c : γ) (output input : String),
    connectPorts fresh c a output input = connectPorts fresh c b output input ∧
      connectPortsFrom fresh a c output input = connectPortsFrom fresh b c output input

theorem connect_congr_source (hid : id a = id b) (h : outputs a = outputs b) (fresh : String)
    (c : γ) : connect fresh a c = connect fresh b c := by
  unfold connect
  rw [h, hid]

theorem connect_congr_target (hid : id a = id b) (h : inputs a = inputs b) (fresh : String)
    (c : γ) : connect fresh c a = connect fresh c b := by
  unfold connect
  rw [h, hid]

theorem connectPorts_congr_source (hid : id a = id b) (h : outputs a = outputs b)
    (fresh : String) (c : γ) (output input : String) :
    connectPorts fresh a c output input = connectPorts fresh b c output input := by
  unfold connectPorts output?
  rw [h, hid]

theorem connectPorts_congr_target (hid : id a = id b) (h : inputs a = inputs b)
    (fresh : String) (c : γ) (output input : String) :
    connectPorts fresh c a output input = connectPorts fresh c b output input := by
  unfold connectPorts input?
  rw [h, hid]

/-- A connection depends on the ports of the two and on their ids, which are in their nodes. -/
theorem alike_of_toNode (h : toNode a = toNode b) (hinputs : inputs a = inputs b)
    (houtputs : outputs a = outputs b) : Alike a b := by
  have hid : id a = id b := congrArg Node.id h
  constructor
  case toNode => exact h
  case inputs => exact hinputs
  case outputs => exact houtputs
  case source =>
    intro γ _ fresh c
    have hconnect := connect_congr_source hid houtputs fresh c
    exact ⟨hconnect, hconnect⟩
  case target =>
    intro γ _ fresh c
    have hconnect := connect_congr_target hid hinputs fresh c
    exact ⟨hconnect, hconnect⟩
  case sourcePorts =>
    intro γ _ fresh c output input
    have hconnect := connectPorts_congr_source hid houtputs fresh c output input
    exact ⟨hconnect, hconnect⟩
  case targetPorts =>
    intro γ _ fresh c output input
    have hconnect := connectPorts_congr_target hid hinputs fresh c output input
    exact ⟨hconnect, hconnect⟩

end Component

/-! ## Registries -/

namespace Registry

variable {r : Registry} {n : Node}

/-- Registering entries one after another gives the list of them. -/
theorem ofEntries_eq (es : List RegistryEntry) : ofEntries es = ⟨es⟩ := by
  have h : ∀ r : Registry, es.foldl register r = ⟨r.entries ++ es⟩ := by
    induction es with
    | nil => exact fun r => congrArg mk (List.append_nil _).symm
    | cons e es ih =>
      intro r
      rw [List.foldl_cons, ih, register, List.append_assoc]
      rfl
  exact h ⟨[]⟩

theorem isSome_index?_iff {kind : String} : (r.index? kind).isSome ↔ kind ∈ r.kinds := by
  rw [Option.isSome_iff_ne_none, Ne, index?_eq_none_iff, not_not]

theorem isSome_descriptor?_iff {kind : String} : (r.descriptor? kind).isSome ↔ kind ∈ r.kinds := by
  rw [descriptor?_eq, Option.isSome_map, isSome_index?_iff]

theorem isSome_schema?_iff {kind : String} : (r.schema? kind).isSome ↔ kind ∈ r.kinds := by
  rw [schema?_eq, Option.isSome_map, isSome_index?_iff]

/-- Reading a node fails for its kind exactly if no plugin has it. -/
theorem decode_eq_unknownKind_iff (hr : r.Sound) :
    (r.decode n).result = .error (.unknownKind n.kind) ↔ n.kind ∉ r.kinds := by
  rw [decode_eq_error_iff hr]
  constructor
  · rintro (⟨hkind, -⟩ | ⟨entry, -, -, before, f, after, -, -, -, hfailure⟩)
    · exact hkind
    · cases hfailure
  · exact fun hkind => .inl ⟨hkind, rfl⟩

theorem decode_ne_unknownKind_iff (hr : r.Sound) :
    (r.decode n).result ≠ .error (.unknownKind n.kind) ↔ n.kind ∈ r.kinds := by
  rw [Ne, decode_eq_unknownKind_iff hr, not_not]

/-- A node is read by a registry as by the plugin of its kind. -/
theorem result_decode_of_kind (hr : r.Sound) (i : Fin r.entries.length)
    (h : n.kind = (r.entries.get i).plugin.kind) :
    (r.decode n).result = ((r.entries.get i).plugin.ofNode n).map (Instance.mk i) := by
  have hindex : r.index? n.kind = some i := h ▸ index?_kind hr i
  rw [decode_of_index? hindex]

/-- What is read of a node is an instance of the plugin that is published under its kind. -/
theorem published_of_decode (hnames : (r.entries.map RegistryEntry.name).Nodup) {x : r.Instance}
    (h : (r.decode n).result = .ok x) :
    Component.kind x = n.kind ∧ r.schema? n.kind = some x.schema ∧
      ∃ d, r.descriptor? n.kind = some d ∧ r.indexOfName? d.name = some x.index := by
  obtain ⟨hindex, -⟩ := decode_eq_ok_iff.mp h
  refine ⟨kind_of_index? hindex, ?_, x.entry.descriptor, ?_, findFinIdx?_key hnames x.index⟩
  · rw [schema?_eq, hindex]
    rfl
  · rw [descriptor?_eq, hindex]
    rfl

theorem Instance.alike_node (x : r.Instance) : Component.Alike x x.node :=
  Component.alike_of_toNode rfl rfl rfl

/-! ## The built-in plugins -/

theorem builtin_eq_listed : builtin = listed := ofEntries_eq builtinEntries

theorem listed_sound : listed.Sound := builtin_eq_listed ▸ builtin_sound

/-- All ways to the built-in plugins come to the same. A kind has a descriptor and a schema, and its
nodes are not refused for it, whether they are read by the registry or as they are listed, all or
none of these. Both read every node alike, and never refuse it as one of another plugin. What is
read is an instance of the plugin that is published under the kind, by its schema and by the name of
its descriptor. A plugin by itself refuses what has another kind, and reads all else like the
registry. Its instances stay what they are when they are taken as instances of built-in plugins. -/
theorem builtin_coherent (n : Node) :
    ((builtin.descriptor? n.kind).isSome ↔ (builtin.schema? n.kind).isSome) ∧
    ((builtin.schema? n.kind).isSome ↔ (builtin.decode n).result ≠ .error (.unknownKind n.kind)) ∧
    ((builtin.schema? n.kind).isSome ↔ (listed.decode n).result ≠ .error (.unknownKind n.kind)) ∧
    builtin.decode n = listed.decode n ∧
    (∀ expected actual, (builtin.decode n).result ≠ .error (.unexpectedKind expected actual)) ∧
    (∀ x, (builtin.decode n).result = .ok x →
      Component.kind x = n.kind ∧ builtin.schema? n.kind = some x.schema ∧
        ∃ d, builtin.descriptor? n.kind = some d ∧ builtin.indexOfName? d.name = some x.index) ∧
    (∀ i : Fin listed.entries.length,
      (n.kind ≠ (listed.entries.get i).plugin.kind → (listed.entries.get i).plugin.ofNode n
        = .error (.unexpectedKind (listed.entries.get i).plugin.kind n.kind)) ∧
      (n.kind = (listed.entries.get i).plugin.kind → (listed.decode n).result
        = ((listed.entries.get i).plugin.ofNode n).map (Instance.mk i))) ∧
    ∀ x : listed.Instance, Component.Alike x x.node := by
  have hschema : (builtin.schema? n.kind).isSome ↔ n.kind ∈ builtin.kinds := isSome_schema?_iff
  refine ⟨isSome_descriptor?_iff.trans hschema.symm,
    hschema.trans (decode_ne_unknownKind_iff builtin_sound).symm,
    hschema.trans (decode_ne_unknownKind_iff listed_sound).symm, rfl, fun expected actual h => ?_,
    fun x => published_of_decode (by decide),
    fun i => ⟨fun h => if_neg h, result_decode_of_kind listed_sound i⟩, Instance.alike_node⟩
  exact ((decode_eq_error_iff builtin_sound).mp h).ne.2 expected actual rfl

/-- A delay of which nothing is said but its id. -/
def untimed : Node := .new "echo" "com.nativeformat.plugin.waa.delay"

/-- The delay that is read from it. -/
def slapback : builtin.Instance :=
  ⟨3, ⟨"echo", .allContent, none⟩, ⟨⟩, Row.ofFn Param.create Builtin.delay.params⟩

theorem builtin_coherent_untimed :
    (builtin.decode untimed).result = .ok slapback ∧
      builtin.schema? untimed.kind = some Builtin.delay.schema ∧
      Builtin.delay.ofNode untimed = .ok slapback.node ∧
      Builtin.file.ofNode untimed = .error (.unexpectedKind Builtin.file.kind untimed.kind) ∧
      Component.Alike slapback slapback.node := by
  have hdelay : Builtin.delay.ofNode untimed = .ok slapback.node :=
    Plugin.ofNode_eq_ok_iff.mpr ⟨rfl, rfl, trivial, rfl⟩
  obtain ⟨-, -, -, hlisted, -, hpublished, hplugins, halike⟩ := builtin_coherent untimed
  obtain ⟨-, hread⟩ := hplugins ⟨3, by decide⟩
  obtain ⟨hrefused, -⟩ := hplugins ⟨9, by decide⟩
  have hdecode : (builtin.decode untimed).result = .ok slapback := by
    rw [hlisted, hread rfl]
    exact congrArg (Except.map _) hdelay
  obtain ⟨-, hschema, -⟩ := hpublished slapback hdecode
  exact ⟨hdecode, hschema, hdelay, hrefused (by decide), halike slapback⟩

end Registry

end AudioScore
