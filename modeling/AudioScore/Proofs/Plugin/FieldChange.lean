import AudioScore.Proofs.Arg.Conforms
import AudioScore.Proofs.Plugin.Kept

/-!
# Nodes that differ in one config field

When one entry of the config of a node changes, and the node was read before, what is published about
the field tells what comes of the change, and everything else stays as it was.

* `Node.putConfig`: the change of one entry.
* `Plugin.ofNode_putConfig`, `Registry.decode_putConfig`: what is read after the change.
* `Registry.builtin_schema_governs`: the schemas of the built-in plugins tell it.
-/

namespace AudioScore

/-- The node with one entry of its config set, or taken out. -/
def Node.putConfig (n : Node) (key : String) : Option Value → Node
  | some v => n.withConfig key v
  | none => { n with config := n.config.erase key }

namespace Node

variable (n : Node) (key : String) (given : Option Value)

theorem get?_putConfig (k : String) :
    (n.putConfig key given).config.get? k = if k = key then given else n.config.get? k := by
  cases given with
  | none => exact Dict.get?_erase n.config key k
  | some v => exact Dict.get?_insert n.config key k v

theorem kind_putConfig : (n.putConfig key given).kind = n.kind := by cases given <;> rfl

theorem params_putConfig : (n.putConfig key given).params = n.params := by cases given <;> rfl

theorem header_putConfig : Header.ofNode (n.putConfig key given) = Header.ofNode n := by
  cases given <;> rfl

end Node

/-! ## One plugin -/

/-- Whether an instance is another one with at most the content of one config field changed. -/
def Plugin.Instance.SameBut {p : Plugin} (name : String) (x y : p.Instance) : Prop :=
  ∃ config : p.Config, y = { x with config := config } ∧
    x.config.AgreeOn (fun f => f.name ≠ name) config

/-- After a change of one entry, a node that was read before is read as the same instance with another
content of that field, or fails as that field does. -/
theorem Plugin.ofNode_putConfig {p : Plugin} (hp : p.Sound) {n : Node} {x : p.Instance}
    (h : p.ofNode n = .ok x) {f : ConfigField} (hf : f ∈ p.config) :
    ∃ put : f.Carrier → p.Instance, (∀ a, x.SameBut f.name (put a)) ∧
      ∀ given, p.ofNode (n.putConfig f.name given) = (f.arg.read given).map put := by
  obtain ⟨hkind, hheader, hconfig, hparams⟩ := ofNode_eq_ok_iff.mp h
  obtain ⟨put, hagree, hput⟩ :=
    Row.build_update (Row.build_eq_ok_iff.mpr hconfig) hp.config_nodup hf
  refine ⟨fun a => { x with config := put a }, fun a => ⟨put a, rfl, hagree a⟩, fun given => ?_⟩
  have hothers : ∀ g ∈ p.config, g.name ≠ f.name →
      g.arg.readConfig (n.putConfig f.name given).config = g.arg.readConfig n.config := by
    intro g _ hg
    change g.arg.read ((n.putConfig f.name given).config.get? g.name) = _
    rw [n.get?_putConfig, if_neg hg]
    rfl
  have hself : f.arg.readConfig (n.putConfig f.name given).config = f.arg.read given := by
    change f.arg.read ((n.putConfig f.name given).config.get? f.name) = _
    rw [n.get?_putConfig, if_pos rfl]
  obtain ⟨header, config, params⟩ := x
  obtain rfl : header = .ofNode n := hheader
  obtain rfl : params = Row.ofFn (fun q => q.read n.params) p.params := hparams
  rw [ofNode_of_kind ((n.kind_putConfig f.name given).trans hkind), hput _ hothers, hself,
    n.header_putConfig, n.params_putConfig]
  cases f.arg.read given <;> rfl

/-! ## Registries -/

namespace Registry

variable {r : Registry}

/-- Whether an instance is another one of the same plugin with at most the content of one config
field changed. -/
def Instance.SameBut (name : String) (x y : r.Instance) : Prop :=
  ∃ node : x.entry.plugin.Instance, y = ⟨x.index, node⟩ ∧
    Plugin.Instance.SameBut (p := x.entry.plugin) name x.node node

theorem decode_putConfig (hr : r.Sound) {n : Node} {x : r.Instance}
    (h : (r.decode n).result = .ok x) {f : ConfigField} (hf : f ∈ x.entry.plugin.config) :
    ∃ put : f.Carrier → r.Instance, (∀ a, x.SameBut f.name (put a)) ∧
      ∀ given, (r.decode (n.putConfig f.name given)).result = (f.arg.read given).map put := by
  obtain ⟨hindex, hnode⟩ := decode_eq_ok_iff.mp h
  obtain ⟨put, hsame, hput⟩ := Plugin.ofNode_putConfig (hr.plugin _ (List.getElem_mem _)) hnode hf
  refine ⟨fun a => ⟨x.index, put a⟩, fun a => ⟨put a, rfl, hsame a⟩, fun given => ?_⟩
  rw [decode_of_index? (i := x.index) ((n.kind_putConfig f.name given).symm ▸ hindex)]
  refine (congrArg (Except.map (Instance.mk x.index)) (hput given)).trans ?_
  cases f.arg.read given <;> rfl

/-- The schema of a kind is that of the entry that reads nodes of the kind. -/
theorem schema_eq_of_mem (hr : r.Sound) {s : Schema} (hs : s ∈ r.schemas) {x : r.Instance}
    (h : r.index? s.kind = some x.index) : s = x.schema := by
  obtain ⟨e, he, rfl⟩ := List.mem_map.mp hs
  obtain ⟨i, rfl⟩ := List.get_of_mem he
  have hi : r.index? (r.entries.get i).plugin.schema.kind = some i := index?_kind hr i
  obtain rfl : i = x.index := Option.some.inj (hi.symm.trans h)
  rfl

/-- Of a node that a built-in plugin reads, the schema of its kind tells for each config field what
comes of taking its entry out, of `null` and of any other value in its place. Wherever the changed node
is read too, nothing but the content of that field has changed. -/
theorem builtin_schema_governs {s : Schema} (hs : s ∈ builtin.schemas) {n : Node}
    (hkind : n.kind = s.kind) {x : builtin.Instance} (hx : (builtin.decode n).result = .ok x)
    {a : ArgSpec} (ha : a ∈ s.config) :
    a.Governs (fun given => (builtin.decode (n.putConfig a.name given)).result) ∧
      ∀ given y, (builtin.decode (n.putConfig a.name given)).result = .ok y →
        x.SameBut a.name y := by
  obtain ⟨hindex, -⟩ := decode_eq_ok_iff.mp hx
  obtain rfl := schema_eq_of_mem builtin_sound hs (hkind ▸ hindex)
  obtain ⟨f, hf, rfl⟩ := List.mem_map.mp ha
  have hp := builtin_sound.plugin _ (List.getElem_mem x.index.isLt)
  obtain ⟨put, hsame, hput⟩ := decode_putConfig builtin_sound hx hf
  have hgoverns : f.arg.spec.Governs f.arg.read :=
    Arg.governs_read f.type.kinded_arg f.type.faithful_arg fun d => hp.encodable_default hf
  have hname : f.arg.spec.name = f.name := rfl
  rw [hname]
  refine ⟨?_, fun given y hy => ?_⟩
  · rw [funext hput]
    exact hgoverns.map put
  · rw [hput given] at hy
    obtain ⟨b, -, rfl⟩ := Except.map_eq_ok.mp hy
    exact hsame b

/-- A file that is played from the tenth second on. -/
def playback : Node :=
  ((Node.new "take" "com.nativeformat.plugin.file.file").withConfig "file" (.string "take.ogg")).withConfig
    "when" (.ofInt64 10000000000)

/-- What is read of it. -/
def played : builtin.Instance :=
  ⟨⟨9, by decide⟩, ⟨"take", .allContent, none⟩, ("take.ogg", ⟨10000000000⟩, .zero, .zero, ⟨⟩), ⟨⟩⟩

theorem builtin_schema_governs_playback :
    (builtin.decode playback).result = .ok played ∧
      (builtin.decode (playback.putConfig "file" none)).result
        = .error (.missingArgument "file") ∧
      (builtin.decode (playback.putConfig "when" (some (.string "later")))).result
        = .error (.kindMismatch "when" (.scalar .time) .string) ∧
      ∃ y, (builtin.decode (playback.putConfig "when" (some .null))).result = .ok y ∧
        played.SameBut "when" y := by
  have hx : (builtin.decode playback).result = .ok played := by
    have hindex : builtin.index? playback.kind = some played.index := by decide
    have hnode : Builtin.file.ofNode playback = .ok played.node :=
      Plugin.ofNode_eq_ok_iff.mpr ⟨rfl, rfl, ⟨rfl, rfl, rfl, rfl, trivial⟩, rfl⟩
    exact decode_eq_ok_iff.mpr ⟨hindex, hnode⟩
  have hs : Builtin.file.schema ∈ builtin.schemas :=
    List.mem_map.mpr ⟨_, List.get_mem builtin.entries ⟨9, by decide⟩, rfl⟩
  have hfile : ⟨"file", .scalar .string, true, none⟩ ∈ Builtin.file.schema.config :=
    List.mem_cons_self
  have hwhen : ⟨"when", .scalar .time, false, some (.ofInt64 0)⟩ ∈ Builtin.file.schema.config :=
    List.mem_cons_of_mem _ List.mem_cons_self
  obtain ⟨hgoverns, -⟩ := builtin_schema_governs hs rfl hx hfile
  obtain ⟨hgoverns', hsame⟩ := builtin_schema_governs hs rfl hx hwhen
  obtain ⟨-, y, -, -, hy⟩ := hgoverns'.optional Bool.false_ne_true
  have hnull := hy (some .null) (.inr rfl)
  refine ⟨hx, hgoverns.required rfl none (.inl rfl), ?_, y, hnull, hsame (some .null) y hnull⟩
  exact (hgoverns'.mismatch (.string "later") fun h => by cases h).mpr Bool.false_ne_true

end Registry

end AudioScore
