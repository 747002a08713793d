import AudioScore.Plugin.Builtin
import AudioScore.Score.Graph

/-!
# Registries

A registry is a list of plugins with names and descriptions. It finds the plugin of a node by
its kind and reads the node with it. Its instances remember which entry they belong to.

* `Registry.decode`, `Registry.decodeGraph`: reading nodes.
* `Registry.builtin`, `Registry.listed`: the built-in plugins, registered and as they are listed.
-/

namespace AudioScore

/-- A plugin with a name and a description. -/
structure RegistryEntry where
  name : String
  description : String
  plugin : Plugin

/-- What is published about an entry. -/
structure Descriptor where
  kind : String
  name : String
  description : String
deriving DecidableEq

/-- The descriptor of an entry. -/
def RegistryEntry.descriptor (e : RegistryEntry) : Descriptor :=
  ⟨e.plugin.kind, e.name, e.description⟩

/-- Plugins in the order of their registration. -/
structure Registry where
  entries : List RegistryEntry

namespace Registry

/-! ## Looking -/

/-- Adds an entry at the end. -/
def register (r : Registry) (e : RegistryEntry) : Registry := ⟨r.entries ++ [e]⟩

/-- The registry of some entries, registered one after another. -/
def ofEntries (es : List RegistryEntry) : Registry := es.foldl register ⟨[]⟩

/-- The descriptors of all entries. -/
def descriptors (r : Registry) : List Descriptor := r.entries.map RegistryEntry.descriptor

/-- The kinds of all plugins. -/
def kinds (r : Registry) : List String := r.entries.map fun e => e.plugin.kind

/-- The descriptor of a kind. -/
def descriptor? (r : Registry) (kind : String) : Option Descriptor :=
  r.descriptors.find? fun d => d.kind == kind

/-- The schemas of all plugins. -/
def schemas (r : Registry) : List Schema := r.entries.map fun e => e.plugin.schema

/-- The schema of a kind. -/
def schema? (r : Registry) (kind : String) : Option Schema :=
  r.schemas.find? fun s => s.kind == kind

/-- The place of the first entry of a kind. -/
def index? (r : Registry) (kind : String) : Option (Fin r.entries.length) :=
  r.entries.findFinIdx? fun e => e.plugin.kind == kind

/-- The place of the first entry of a name. -/
def indexOfName? (r : Registry) (name : String) : Option (Fin r.entries.length) :=
  r.entries.findFinIdx? fun e => e.name == name

/-! ## Instances -/

/-- An instance of one of the plugins of a registry. -/
structure Instance (r : Registry) where
  index : Fin r.entries.length
  node : r.entries[index].plugin.Instance

namespace Instance

variable {r : Registry}

/-- The entry of an instance. -/
def entry (x : r.Instance) : RegistryEntry := r.entries[x.index]

/-- What is published about the plugin of an instance. -/
def schema (x : r.Instance) : Schema := x.entry.plugin.schema

instance : Component r.Instance where
  header x := x.node.header
  kind x := Component.kind x.node
  inputs x := Component.inputs x.node
  outputs x := Component.outputs x.node
  config x := Component.config x.node
  params x := Component.params x.node

/-- Equality of instances: the same plugin, and contents compared by `Plugin.Instance.same`. -/
def same (x y : r.Instance) : Bool :=
  if h : x.index = y.index then (h ▸ x.node).same y.node else false

end Instance

/-! ## Reading nodes -/

/-- Reads a node as an instance of the plugin of its kind. -/
def decode (r : Registry) (n : Node) : Run MappingError r.Instance :=
  match r.index? n.kind with
  | none => do
    Run.report (.pluginMissing n.kind)
    Run.fail (.unknownKind n.kind)
  | some i => do
    Run.report (.pluginFound n.id r.entries[i].name)
    let x ← Run.ofExcept (r.entries[i].plugin.ofNode n)
    return ⟨i, x⟩

/-- Reads all nodes of a graph in order, up to the first failure. -/
def decodeGraph (r : Registry) (g : Graph) : Run MappingError (List r.Instance) :=
  g.nodes.mapM r.decode

/-! ## The built-in plugins -/

/-- The entries of the built-in plugins. -/
def builtinEntries : List RegistryEntry := [
  ⟨"Compressor", "Downward compressor with sidechain and multiband support", Builtin.compressor⟩,
  ⟨"Expander", "Downward expander with sidechain and multiband support", Builtin.expander⟩,
  ⟨"Compander", "Combined compressor and expander", Builtin.compander⟩,
  ⟨"Delay", "Variable delay line", Builtin.delay⟩,
  ⟨"Gain", "Amplitude scaling", Builtin.gain⟩,
  ⟨"Filter", "Low, high or band pass filter", Builtin.filter⟩,
  ⟨"Eq3band", "Three-band equalizer", Builtin.equalizer⟩,
  ⟨"Stretch", "Time stretching and pitch shifting", Builtin.stretch⟩,
  ⟨"Loop", "Repeats a window of its input", Builtin.loop⟩,
  ⟨"File", "Audio file playback", Builtin.file⟩,
  ⟨"Noise", "White noise source", Builtin.noise⟩,
  ⟨"Silence", "Silent source", Builtin.silence⟩,
  ⟨"Sine", "Sine wave source", Builtin.sine⟩]

/-- The registry of the built-in plugins. -/
def builtin : Registry := .ofEntries builtinEntries

/-- The built-in plugins as they are listed. Their instances are the nodes of the built-in kinds,
for which no registry has to be made. -/
def listed : Registry := ⟨builtinEntries⟩

end Registry

end AudioScore
