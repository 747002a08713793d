import AudioScore.Proofs.Plugin.RoundTrip
import Mathlib.Algebra.GroupWithZero.Nat
import Mathlib.Data.List.Nodup

/-!
# Instances read back by a registry

A registry finds the entry of an instance by the kind of its node, so that the instances of
several plugins are read back together.

* `Registry.index?_kind`: where kinds do not repeat, an entry is found by its kind.
* `Registry.descriptor?_eq`, `Registry.schema?_eq`: what is published is found like the entries.
* `Registry.decode_eq_ok_iff`: which plugin reads a node.
* `Registry.decode_toNode`, `Registry.decodeGraph_map_toNode`: one instance, and all in a graph.
* `Registry.builtin_sound`: the built-in plugins meet the conditions.
-/

namespace AudioScore

namespace Registry

/-- Kinds do not repeat, and the declarations of the plugins are sound. -/
structure Sound (r : Registry) : Prop where
  kinds_nodup : r.kinds.Nodup
  plugin : ∀ e ∈ r.entries, e.plugin.Sound

variable {r : Registry}

/-! ## Looking -/

/-- Where keys do not repeat, an item is found by its key. -/
theorem findFinIdx?_key {α : Type*} {xs : List α} {key : α → String} (h : (xs.map key).Nodup)
    (i : Fin xs.length) : xs.findFinIdx? (fun x => key x == key (xs.get i)) = some i := by
  rw [List.findFinIdx?_eq_some_iff]
  refine ⟨beq_self_eq_true _, fun j hji hkey => ?_⟩
  have hlen : xs.length = (xs.map key).length := (List.length_map ..).symm
  have hget : ∀ k : Fin xs.length, (xs.map key).get (k.cast hlen) = key xs[k] :=
    fun k => List.getElem_map ..
  have hcast : j.cast hlen = i.cast hlen := by
    apply h.get_inj_iff.mp
    rw [hget, hget]
    exact beq_iff_eq.mp hkey
  have hval : (j.cast hlen).val = (i.cast hlen).val := congrArg Fin.val hcast
  exact Fin.ne_of_lt hji (Fin.ext hval)

theorem index?_kind (hr : r.Sound) (i : Fin r.entries.length) :
    r.index? (r.entries.get i).plugin.kind = some i :=
  findFinIdx?_key hr.kinds_nodup i

/-- What is published about the entries is found like the entries. -/
theorem find?_map_entries {β : Type*} (publish : RegistryEntry → β) (key : β → String)
    (hkey : ∀ entry, key (publish entry) = entry.plugin.kind) (kind : String) :
    (r.entries.map publish).find? (fun b => key b == kind)
      = (r.index? kind).map fun i => publish (r.entries.get i) := by
  have hfind : r.entries.find? (fun entry => entry.plugin.kind == kind)
      = (r.index? kind).map r.entries.get := List.find?_eq_map_findFinIdx?_getElem
  rw [List.find?_map, Function.comp_def]
  simp only [hkey]
  rw [hfind, Option.map_map]
  rfl

theorem descriptor?_eq (r : Registry) (kind : String) :
    r.descriptor? kind = (r.index? kind).map fun i => (r.entries.get i).descriptor :=
  find?_map_entries RegistryEntry.descriptor Descriptor.kind (fun _ => rfl) kind

theorem schema?_eq (r : Registry) (kind : String) :
    r.schema? kind = (r.index? kind).map fun i => (r.entries.get i).plugin.schema :=
  find?_map_entries (fun e => e.plugin.schema) Schema.kind (fun _ => rfl) kind

/-! ## Reading -/

/-- A node whose kind is registered is read by the plugin of that kind. -/
theorem decode_of_index? {n : Node} {i : Fin r.entries.length} (h : r.index? n.kind = some i) :
    r.decode n = ⟨((r.entries.get i).plugin.ofNode n).map (Instance.mk i),
      [.pluginFound n.id (r.entries.get i).name]⟩ := by
  unfold decode
  rw [h]
  dsimp only [List.get_eq_getElem, Fin.getElem_fin]
  cases (r.entries[i.val]).plugin.ofNode n <;> rfl

theorem decode_of_index?_none {n : Node} (h : r.index? n.kind = none) :
    r.decode n = ⟨.error (.unknownKind n.kind), [.pluginMissing n.kind]⟩ := by
  unfold decode
  rw [h]
  rfl

/-- A node is read as an instance exactly if the plugin of its kind reads it so. -/
theorem decode_eq_ok_iff {n : Node} {x : r.Instance} : (r.decode n).result = .ok x ↔
    r.index? n.kind = some x.index ∧ x.entry.plugin.ofNode n = .ok x.node := by
  cases hindex : r.index? n.kind with
  | none =>
    rw [decode_of_index?_none hindex]
    constructor
    · intro h
      cases h
    · rintro ⟨h, -⟩
      cases h
  | some i =>
    rw [decode_of_index? hindex, Except.map_eq_ok]
    constructor
    · rintro ⟨y, hy, rfl⟩
      exact ⟨rfl, hy⟩
    · obtain ⟨j, y⟩ := x
      rintro ⟨h, hy⟩
      cases h
      exact ⟨y, hy, rfl⟩

/-- The instance with the initial values of its parameters as its plugin declares them. -/
def Instance.redeclared (x : r.Instance) : r.Instance :=
  ⟨x.index, Plugin.Instance.redeclared (p := x.entry.plugin) x.node⟩

theorem Instance.redeclared_eq_iff {x : r.Instance} :
    x.redeclared = x ↔ x.node.params.Every fun q a => a.initial = q.initial := by
  rw [← Plugin.Instance.redeclared_eq_iff]
  obtain ⟨i, node⟩ := x
  constructor
  · intro h
    exact eq_of_heq (Instance.mk.inj h).2
  · intro h
    exact congrArg (Instance.mk i) h

/-- An instance is read back from its node, with the initial values of parameters as they are
declared, if its config can be written. -/
theorem decode_toNode_eq_redeclared (hr : r.Sound) {x : r.Instance}
    (h : x.node.config.Every fun f a => f.type.arg.encodable a) :
    (r.decode (Component.toNode x)).result = .ok x.redeclared :=
  decode_eq_ok_iff.mpr ⟨index?_kind hr x.index,
    Plugin.Instance.ofNode_toNode (hr.plugin _ (List.getElem_mem _)) h⟩

theorem decode_toNode_of_declared (hr : r.Sound) {x : r.Instance}
    (hconfig : x.node.config.Every fun f a => f.type.arg.encodable a)
    (hparams : x.node.params.Every fun q a => a.initial = q.initial) :
    (r.decode (Component.toNode x)).result = .ok x := by
  rw [decode_toNode_eq_redeclared hr hconfig, Instance.redeclared_eq_iff.mpr hparams]

/-- A sound instance is read back from its node. -/
theorem decode_toNode (hr : r.Sound) {x : r.Instance} (h : x.node.Sound) :
    (r.decode (Component.toNode x)).result = .ok x :=
  decode_toNode_of_declared hr h.config (h.params.imp fun _ _ ha => ha.initial_eq)

/-- Sound instances are read back from a graph in their order. -/
theorem decodeGraph_map_toNode (hr : r.Sound) {g : Graph} {xs : List r.Instance}
    (hnodes : g.nodes = xs.map Component.toNode) (h : ∀ x ∈ xs, x.node.Sound) :
    (r.decodeGraph g).result = .ok xs := by
  rw [decodeGraph, hnodes, Run.result_mapM, Except.mapM_eq_ok, List.forall₂_map_left_iff,
    List.forall₂_same]
  exact fun x hx => decode_toNode hr (h x hx)

/-! ## The built-in plugins -/

instance : NeZero builtin.entries.length := ⟨by decide⟩

theorem builtin_sound : builtin.Sound where
  kinds_nodup := by decide
  plugin e he := by
    have h : ∀ e ∈ builtin.entries, (e.plugin.config.map ConfigField.name).Nodup
        ∧ (e.plugin.params.map Param.name).Nodup
        ∧ ∀ f ∈ e.plugin.config, f.encodableDefault := by decide
    obtain ⟨hconfig, hparams, hdefault⟩ := h e he
    exact ⟨hconfig, hparams, hdefault⟩

end Registry

end AudioScore
