import AudioScore.Proofs.Plugin.Kept

/-!
# What is not declared does not matter

Two nodes with the same header are read alike if they agree on the config fields and the parameters
that the plugin of their kind declares. This holds of failures as well, and whatever else the two hold.

* `Node.SameHeader`, `Schema.Alike`: nodes that agree on what a schema declares.
* `Plugin.ofNode_congr`, `Registry.decode_congr`: such nodes are read alike.
* `Registry.builtin_decode_alike`: the built-in plugins, and the kinds that none of them has.
-/

namespace AudioScore

/-! ## Nodes that agree -/

/-- The same header, where the usual policy may be left out. -/
structure Node.SameHeader (m n : Node) : Prop where
  id : m.id = n.id
  kind : m.kind = n.kind
  label : m.label = n.label
  loadingPolicy : m.loadingPolicy.getD .allContent = n.loadingPolicy.getD .allContent

/-- Entries that are equal, or each of which is absent or `null`. -/
def SameEntry (v w : Option Value) : Prop :=
  v = w ∨ (v = none ∨ v = some .null) ∧ (w = none ∨ w = some .null)

/-- Nodes that agree on what a schema declares. A parameter without a log has an empty one. -/
structure Schema.Alike (s : Schema) (m n : Node) : Prop where
  config : ∀ a ∈ s.config, SameEntry (m.config.get? a.name) (n.config.get? a.name)
  params : ∀ q ∈ s.params, (m.params.get? q.name).getD [] = (n.params.get? q.name).getD []

variable {m n : Node}

theorem Header.ofNode_congr (h : m.SameHeader n) : Header.ofNode m = Header.ofNode n := by
  have hpolicy : m.loadingPolicy.getD default = n.loadingPolicy.getD default := h.loadingPolicy
  rw [ofNode, ofNode, h.id, h.label, hpolicy]

/-- An argument does not tell absent entries and `null` apart. -/
theorem Arg.read_congr {α : Type} {a : Arg α} {v w : Option Value} (h : SameEntry v w) :
    a.read v = a.read w := by
  rcases h with rfl | ⟨hv, hw⟩
  · rfl
  · rw [read_absent hv, read_absent hw]

/-! ## Reading -/

theorem Plugin.ofNode_congr {p : Plugin} (hheader : m.SameHeader n) (h : p.schema.Alike m n) :
    p.ofNode m = p.ofNode n := by
  by_cases hkind : m.kind = p.kind
  · have hconfig : Row.build (fun f => f.arg.readConfig m.config) p.config
        = Row.build (fun f => f.arg.readConfig n.config) p.config := by
      refine Row.build_congr fun f hf => ?_
      exact Arg.read_congr (h.config f.arg.spec (List.mem_map_of_mem hf))
    have hparams : Row.ofFn (fun q => q.read m.params) p.params
        = Row.ofFn (fun q => q.read n.params) p.params := by
      refine Row.ofFn_eq (Row.every_ofFn fun q hq => ?_)
      exact congrArg q.ofCommands (h.params q.spec (List.mem_map_of_mem hq))
    rw [ofNode_of_kind hkind, ofNode_of_kind (hheader.kind ▸ hkind), hconfig, hparams,
      Header.ofNode_congr hheader]
  · unfold ofNode
    rw [if_neg hkind, if_neg (hheader.kind ▸ hkind), hheader.kind]

namespace Registry

variable {r : Registry}

theorem kind_of_index? {kind : String} {i : Fin r.entries.length} (h : r.index? kind = some i) :
    (r.entries.get i).plugin.kind = kind :=
  beq_iff_eq.mp (List.findFinIdx?_eq_some_iff.mp h).1

theorem index?_eq_none_iff {kind : String} : r.index? kind = none ↔ kind ∉ r.kinds := by
  unfold index? kinds
  rw [List.findFinIdx?_eq_none_iff, List.mem_map, not_exists]
  simp only [beq_iff_eq, not_and]

/-- Nodes that agree on what the plugin of their kind declares are read alike. -/
theorem decode_congr (hheader : m.SameHeader n)
    (h : ∀ s ∈ r.schemas, s.kind = m.kind → s.Alike m n) : r.decode m = r.decode n := by
  cases hindex : r.index? m.kind with
  | none =>
    rw [decode_of_index?_none hindex, decode_of_index?_none (hheader.kind ▸ hindex), hheader.kind]
  | some i =>
    have halike : (r.entries.get i).plugin.schema.Alike m n :=
      h _ (List.mem_map_of_mem (List.get_mem r.entries i)) (kind_of_index? hindex)
    rw [decode_of_index? hindex, decode_of_index? (hheader.kind ▸ hindex), hheader.id,
      Plugin.ofNode_congr hheader halike]

/-- Nodes that agree on what the built-in plugin of their kind declares are read alike, whether that
succeeds or fails, and whatever else they hold. Where no built-in plugin has the kind, both fail for
that reason. -/
theorem builtin_decode_alike (hheader : m.SameHeader n)
    (h : ∀ s ∈ builtin.schemas, s.kind = m.kind → s.Alike m n) :
    builtin.decode m = builtin.decode n ∧
      (m.kind ∉ builtin.kinds → (builtin.decode m).result = .error (.unknownKind m.kind) ∧
        (builtin.decode n).result = .error (.unknownKind m.kind)) := by
  have hsame := decode_congr hheader h
  refine ⟨hsame, fun hkind => ?_⟩
  rw [← hsame, decode_of_index?_none (index?_eq_none_iff.mpr hkind)]
  exact ⟨rfl, rfl⟩

/-- A filter with what it declares spelled out, among other things. -/
def verbose : Node where
  id := "low"
  kind := "com.nativeformat.plugin.eq.filter"
  label := none
  loadingPolicy := some .allContent
  params := .ofList [("lowCutoff", []), ("resonance", [.new "hold"])]
  config := .ofList [("filterType", .null), ("slope", .ofInt64 24)]

theorem builtin_decode_alike_verbose :
    verbose ≠ Node.new "low" "com.nativeformat.plugin.eq.filter" ∧
      builtin.decode verbose
        = builtin.decode (Node.new "low" "com.nativeformat.plugin.eq.filter") := by
  have hne : verbose ≠ Node.new "low" "com.nativeformat.plugin.eq.filter" := by
    intro h
    cases congrArg Node.loadingPolicy h
  refine ⟨hne, ?_⟩
  have hheader : verbose.SameHeader (Node.new "low" "com.nativeformat.plugin.eq.filter") :=
    ⟨rfl, rfl, rfl, rfl⟩
  refine (builtin_decode_alike hheader fun s hs hkind => ?_).1
  have hindex : builtin.index? verbose.kind = some ⟨5, by decide⟩ := by decide
  obtain ⟨e, he, rfl⟩ := List.mem_map.mp hs
  obtain ⟨i, rfl⟩ := List.get_of_mem he
  have hi : builtin.index? (builtin.entries.get i).plugin.schema.kind = some i :=
    index?_kind builtin_sound i
  obtain rfl := Option.some.inj (hi.symm.trans ((congrArg builtin.index? hkind).trans hindex))
  constructor
  case config => exact List.forall_mem_singleton.mpr (.inr ⟨.inr rfl, .inl rfl⟩)
  case params => exact List.forall_mem_cons.mpr ⟨rfl, List.forall_mem_singleton.mpr rfl⟩

end Registry

end AudioScore
