import AudioScore.Proofs.Plugin.Undeclared

/-!
# Which failure is reported

A node is read field by field in the order of their declaration, and a graph node by node, up to
the first failure. What fails is that no plugin has a kind, or a field that is declared. Parameters
do not fail, and no other failure is reached.

* `Arg.Failure`: how an argument fails to be read.
* `Plugin.Refuses`, `Registry.Refuses`: how a node fails to be read.
* `Registry.Reads`: when a node is read.
* `Registry.announcement`: what is reported of a node before it is read.
* `Registry.builtin_decodeGraph_first`: the first failure in a graph, and what is reported up to it.
-/

namespace AudioScore

/-! ## Arguments -/

/-- How an argument fails to be read. All its failures name it. -/
inductive Arg.Failure {α : Type} (a : Arg α) : MappingError → Prop where
  | missing (h : a.default = none) : a.Failure (.missingArgument a.name)
  | kind (actual : ValueKind) : a.Failure (.kindMismatch a.name a.type.kind actual)
  | name (source : UnrecognizedName) : a.Failure (.unrecognizedName a.name source)

namespace Arg

variable {α : Type} {a : Arg α} {e : MappingError}

theorem failure_of_missing (h : a.missing = .error e) : a.Failure e := by
  unfold missing at h
  split at h
  · cases h
  · cases h
    exact .missing ‹_›

theorem failure_of_readValue {v : Value} (h : a.readValue v = .error e) : a.Failure e := by
  unfold readValue at h
  split at h
  · cases hdecode : a.type.decode v.json with
    | ok x =>
      rw [hdecode] at h
      cases h
    | error d =>
      rw [hdecode] at h
      cases h
      cases d with
      | kind actual => exact .kind actual
      | name source => exact .name source
  · cases h
    exact .kind _

theorem failure_of_read {given : Option Value} (h : a.read given = .error e) : a.Failure e := by
  cases given with
  | none => exact failure_of_missing h
  | some v =>
    by_cases hv : v = .null
    · rw [read_absent (.inr (congrArg some hv))] at h
      exact failure_of_missing h
    · rw [read_present hv] at h
      exact failure_of_readValue h

end Arg

/-! ## Plugins -/

namespace Plugin

variable {p : Plugin} {n : Node} {e : MappingError}

/-- How a plugin fails to read a node of its kind: as the first of its fields that is not read. -/
def Refuses (p : Plugin) (n : Node) (e : MappingError) : Prop :=
  First (fun f => ∃ a, f.arg.readConfig n.config = .ok a)
    (fun f => f.arg.readConfig n.config = .error e ∧ f.arg.Failure e) p.config

theorem ofNode_eq_error_iff (h : n.kind = p.kind) : p.ofNode n = .error e ↔ p.Refuses n e := by
  rw [ofNode_of_kind h, Except.map_eq_error, Row.build_eq_error_iff]
  constructor
  · exact fun hfirst => hfirst.imp (fun f hf => hf) fun f hf => ⟨hf, Arg.failure_of_read hf⟩
  · exact fun hfirst => hfirst.imp (fun f hf => hf) fun f hf => hf.1

end Plugin

/-! ## Registries -/

/-- The node without its parameters. -/
def Node.withoutParams (n : Node) : Node := { n with params := .empty }

namespace Registry

variable {r : Registry} {n : Node} {e : MappingError}

/-- A node is read if a plugin has its kind and all fields of the plugin are read. -/
def Reads (r : Registry) (n : Node) : Prop :=
  ∃ entry ∈ r.entries, entry.plugin.kind = n.kind ∧
    ∀ f ∈ entry.plugin.config, ∃ a, f.arg.readConfig n.config = .ok a

/-- How a node fails to be read: no plugin has its kind, or the one that has it refuses the node. -/
def Refuses (r : Registry) (n : Node) (e : MappingError) : Prop :=
  n.kind ∉ r.kinds ∧ e = .unknownKind n.kind ∨
    ∃ entry ∈ r.entries, entry.plugin.kind = n.kind ∧ entry.plugin.Refuses n e

theorem exists_decode_iff (hr : r.Sound) : (∃ x, (r.decode n).result = .ok x) ↔ r.Reads n := by
  constructor
  · rintro ⟨x, hx⟩
    obtain ⟨hindex, hnode⟩ := decode_eq_ok_iff.mp hx
    obtain ⟨-, -, hconfig, -⟩ := Plugin.ofNode_eq_ok_iff.mp hnode
    exact ⟨x.entry, List.getElem_mem _, kind_of_index? hindex, hconfig.exists_of_mem⟩
  · rintro ⟨entry, hentry, hkind, hfields⟩
    obtain ⟨i, rfl⟩ := List.get_of_mem hentry
    have hindex : r.index? n.kind = some i := hkind ▸ index?_kind hr i
    obtain ⟨config, hconfig⟩ := Row.exists_build_iff.mpr hfields
    rw [decode_of_index? hindex, Plugin.ofNode_of_kind hkind.symm, hconfig]
    exact ⟨_, rfl⟩

theorem decode_eq_error_iff (hr : r.Sound) : (r.decode n).result = .error e ↔ r.Refuses n e := by
  cases hindex : r.index? n.kind with
  | none =>
    have hkind : n.kind ∉ r.kinds := index?_eq_none_iff.mp hindex
    rw [decode_of_index?_none hindex]
    constructor
    · intro h
      cases h
      exact .inl ⟨hkind, rfl⟩
    · rintro (⟨-, rfl⟩ | ⟨entry, hentry, hsame, -⟩)
      · rfl
      · exact absurd (List.mem_map.mpr ⟨entry, hentry, hsame⟩) hkind
  | some i =>
    have hkind := kind_of_index? hindex
    rw [decode_of_index? hindex, Except.map_eq_error, Plugin.ofNode_eq_error_iff hkind.symm]
    constructor
    · exact fun h => .inr ⟨_, List.get_mem r.entries i, hkind, h⟩
    · rintro (⟨hnone, -⟩ | ⟨entry, hentry, hsame, h⟩)
      · rw [index?_eq_none_iff.mpr hnone] at hindex
        cases hindex
      · obtain ⟨j, rfl⟩ := List.get_of_mem hentry
        obtain rfl : j = i := Option.some.inj ((index?_kind hr j).symm.trans (hsame ▸ hindex))
        exact h

/-- Neither a number that is not finite nor the kind that a plugin expects is what reading a node
fails for. -/
theorem Refuses.ne (h : r.Refuses n e) :
    (∀ arg, e ≠ .nonFinite arg) ∧ ∀ expected actual, e ≠ .unexpectedKind expected actual := by
  obtain ⟨-, rfl⟩ | ⟨entry, -, -, before, f, after, -, -, -, hfailure⟩ := h
  · exact ⟨nofun, nofun⟩
  · cases hfailure <;> exact ⟨nofun, nofun⟩

/-! ## What is reported -/

/-- What is reported of a node before it is read: the name of the plugin of its kind, or that there
is none. -/
def announcement (r : Registry) (n : Node) : Event :=
  match r.descriptor? n.kind with
  | some d => .pluginFound n.id d.name
  | none => .pluginMissing n.kind

theorem events_decode (r : Registry) (n : Node) : (r.decode n).events = [r.announcement n] := by
  unfold announcement
  rw [descriptor?_eq]
  cases hindex : r.index? n.kind with
  | none => rw [decode_of_index?_none hindex]; rfl
  | some i => rw [decode_of_index? hindex]; rfl

theorem flatMap_events_decode (r : Registry) (ns : List Node) :
    (ns.flatMap fun n => (r.decode n).events) = ns.map r.announcement := by
  simp only [events_decode]
  exact List.map_eq_flatMap.symm

/-! ## Graphs -/

variable {g : Graph}

theorem exists_decodeGraph_iff (hr : r.Sound) :
    (∃ xs, (r.decodeGraph g).result = .ok xs) ↔ ∀ n ∈ g.nodes, r.Reads n := by
  unfold decodeGraph
  rw [Run.result_mapM, Except.exists_mapM_iff]
  exact forall₂_congr fun n _ => exists_decode_iff hr

theorem decodeGraph_eq_error_iff (hr : r.Sound) :
    (r.decodeGraph g).result = .error e ↔ First r.Reads (fun n => r.Refuses n e) g.nodes := by
  unfold decodeGraph
  rw [Run.result_mapM, Except.mapM_eq_error]
  simp only [exists_decode_iff hr, decode_eq_error_iff hr]

/-- Parameters make no difference to a failure. -/
theorem decodeGraph_withoutParams (hr : r.Sound) {g' : Graph}
    (h : g'.nodes.map Node.withoutParams = g.nodes.map Node.withoutParams) :
    (r.decodeGraph g').result = .error e ↔ (r.decodeGraph g).result = .error e := by
  -- Whether and how a node is read depends on its kind and its config only.
  have hdrop : ∀ ns : List Node, First r.Reads (fun n => r.Refuses n e) ns ↔
      First r.Reads (fun n => r.Refuses n e) (ns.map Node.withoutParams) := by
    intro ns
    exact (first_map (P := r.Reads) (Q := fun n => r.Refuses n e) (f := Node.withoutParams)).symm
  rw [decodeGraph_eq_error_iff hr, decodeGraph_eq_error_iff hr, hdrop, h, ← hdrop]

/-- A graph that is read has an instance for each node, and each node was announced. -/
theorem decodeGraph_of_ok {xs : List r.Instance} (h : (r.decodeGraph g).result = .ok xs) :
    List.Forall₂ (fun n x => (r.decode n).result = .ok x) g.nodes xs ∧
      (r.decodeGraph g).events = g.nodes.map r.announcement := by
  unfold decodeGraph at h ⊢
  rw [Run.result_mapM] at h
  refine ⟨Except.mapM_eq_ok.mp h, ?_⟩
  rw [Run.events_mapM (Except.exists_mapM_iff.mp ⟨xs, h⟩), flatMap_events_decode]

/-- The first node that is not read is announced, and no node after it is. -/
theorem decodeGraph_of_refused (hr : r.Sound) {before after : List Node}
    (hsplit : g.nodes = before ++ n :: after) (hbefore : ∀ m ∈ before, r.Reads m)
    (hn : ¬ r.Reads n) : ∃ e, (r.decodeGraph g).result = .error e ∧ r.Refuses n e ∧
      (r.decodeGraph g).events = (before ++ [n]).map r.announcement := by
  cases he : (r.decode n).result with
  | ok x => exact absurd ((exists_decode_iff hr).mp ⟨x, he⟩) hn
  | error e =>
    have hrefuses : r.Refuses n e := (decode_eq_error_iff hr).mp he
    refine ⟨e, ?_, hrefuses, ?_⟩
    · exact (decodeGraph_eq_error_iff hr).mpr ⟨before, n, after, hsplit, hbefore, hrefuses⟩
    · have hok : ∀ m ∈ before, ∃ x, (r.decode m).result = .ok x :=
        fun m hm => (exists_decode_iff hr).mpr (hbefore m hm)
      unfold decodeGraph
      rw [hsplit, Run.events_mapM_of_error hok he, flatMap_events_decode]

/-- A graph is read by the built-in plugins exactly if each of its nodes is, and then as the
instances of its nodes in their order. Otherwise the failure is that of the first node that is not
read: that no plugin has its kind, or how the first field of its plugin fails that is not read.
Nothing else is a failure, and the parameters are none. Nodes are announced in their order, up to
the first that is not read. -/
theorem builtin_decodeGraph_first (g : Graph) :
    ((∃ xs, (builtin.decodeGraph g).result = .ok xs) ↔ ∀ n ∈ g.nodes, builtin.Reads n) ∧
    (∀ xs, (builtin.decodeGraph g).result = .ok xs →
      List.Forall₂ (fun n x => (builtin.decode n).result = .ok x) g.nodes xs ∧
        (builtin.decodeGraph g).events = g.nodes.map builtin.announcement) ∧
    (∀ before n after, g.nodes = before ++ n :: after → (∀ m ∈ before, builtin.Reads m) →
      ¬ builtin.Reads n → ∃ e, (builtin.decodeGraph g).result = .error e ∧ builtin.Refuses n e ∧
        (builtin.decodeGraph g).events = (before ++ [n]).map builtin.announcement) ∧
    (∀ e, (builtin.decodeGraph g).result = .error e →
      (∀ arg, e ≠ .nonFinite arg) ∧ ∀ expected actual, e ≠ .unexpectedKind expected actual) ∧
    ∀ g' : Graph, g'.nodes.map Node.withoutParams = g.nodes.map Node.withoutParams → ∀ e,
      (builtin.decodeGraph g').result = .error e ↔ (builtin.decodeGraph g).result = .error e := by
  refine ⟨exists_decodeGraph_iff builtin_sound, fun xs => decodeGraph_of_ok,
    fun before n after => decodeGraph_of_refused builtin_sound, fun e he => ?_,
    fun g' h e => decodeGraph_withoutParams builtin_sound h⟩
  obtain ⟨before, n, after, -, -, hrefuses⟩ := (decodeGraph_eq_error_iff builtin_sound).mp he
  exact hrefuses.ne

/-- A gain, a file without its name, and a node of a kind that no plugin has. -/
def reel : Graph :=
  (((Graph.new "reel").withNode (.new "quiet" "com.nativeformat.plugin.waa.gain")).withNode
    ((Node.new "take" "com.nativeformat.plugin.file.file").withConfig "when"
      (.string "later"))).withNode
    (.new "hall" "com.example.reverb")

theorem builtin_decodeGraph_first_reel :
    (builtin.decodeGraph reel).result = .error (.missingArgument "file") ∧
      (builtin.decodeGraph reel).events
        = [.pluginFound "quiet" "Gain", .pluginFound "take" "File"] := by
  have hquiet : builtin.Reads (.new "quiet" "com.nativeformat.plugin.waa.gain") :=
    ⟨_, List.get_mem builtin.entries ⟨4, by decide⟩, rfl, fun f hf => absurd hf List.not_mem_nil⟩
  have htake : (builtin.decode ((Node.new "take" "com.nativeformat.plugin.file.file").withConfig
      "when" (.string "later"))).result = .error (.missingArgument "file") := by
    rw [decode_of_index? (i := ⟨9, by decide⟩) (by decide)]
    rfl
  have hreads : ¬ builtin.Reads ((Node.new "take" "com.nativeformat.plugin.file.file").withConfig
      "when" (.string "later")) := by
    intro h
    obtain ⟨x, hx⟩ := (exists_decode_iff builtin_sound).mpr h
    cases htake.symm.trans hx
  obtain ⟨-, -, hrefused, -, -⟩ := builtin_decodeGraph_first reel
  obtain ⟨e, he, hrefuses, hevents⟩ :=
    hrefused [_] _ [_] rfl (List.forall_mem_singleton.mpr hquiet) hreads
  have hmissing := htake.symm.trans ((decode_eq_error_iff builtin_sound).mpr hrefuses)
  cases hmissing
  exact ⟨he, hevents.trans (by decide)⟩

end Registry

end AudioScore
