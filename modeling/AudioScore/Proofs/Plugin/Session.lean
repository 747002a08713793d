import AudioScore.Plugin.Connect
import AudioScore.Proofs.Converter.Basic
import AudioScore.Proofs.Plugin.Registry
import AudioScore.Proofs.Score.Depth
import AudioScore.Proofs.Score.Faithful
import AudioScore.Proofs.Score.References

/-!
# Sessions recovered from text

A session is what someone has made in code: instances of the plugins of a registry, the edges
that connect them, and scripts. Its graph is written as text and read back, and the instances are
read from the nodes.

* `Component.Connects.ends`: a connection leads from its source to its target.
* `Session.soundReferences`, `Session.depth_score_le`: its graph passes the check of references, and
  its score nests nine brackets at most.
* `Session.recovered`: a session of built-in plugins is recovered as it was.
-/

namespace AudioScore

/-! ## Connections -/

namespace Component

variable {α β : Type} [Component α] [Component β]

/-- The edges that a call gives back which connects two components. -/
inductive Connects (a : α) (b : β) (e : Edge) : Prop where
  | connect {fresh : String} (h : (connect fresh a b).result = .ok e)
  | connectPorts {fresh output input : String}
      (h : (connectPorts fresh a b output input).result = .ok e)
  | connectFrom {fresh : String} (h : (connectFrom fresh b a).result = .ok e)
  | connectPortsFrom {fresh output input : String}
      (h : (connectPortsFrom fresh b a output input).result = .ok e)

theorem ends_of_connect {fresh : String} {a : α} {b : β} {e : Edge}
    (h : (connect fresh a b).result = .ok e) : e.source = id a ∧ e.target = id b := by
  unfold connect at h
  split at h
  · cases h
  · split at h
    · cases h
    · cases h
      exact ⟨rfl, rfl⟩

theorem ends_of_connectPorts {fresh output input : String} {a : α} {b : β} {e : Edge}
    (h : (connectPorts fresh a b output input).result = .ok e) :
    e.source = id a ∧ e.target = id b := by
  unfold connectPorts at h
  split at h
  · cases h
  · split at h
    · cases h
    · split at h
      · cases h
        exact ⟨rfl, rfl⟩
      · cases h

/-- A connection leads from its source to its target, whichever of them was named first. -/
theorem Connects.ends {a : α} {b : β} {e : Edge} (h : Connects a b e) :
    e.source = id a ∧ e.target = id b := by
  cases h with
  | connect h => exact ends_of_connect h
  | connectPorts h => exact ends_of_connectPorts h
  | connectFrom h => exact ends_of_connect h
  | connectPortsFrom h => exact ends_of_connectPorts h

end Component

/-! ## Depth -/

/-- The arguments of commands are numbers and lists of numbers. -/
theorem Automation.Call.depthLE_command (call : Automation.Call) : call.command.DepthLE 1 := by
  rw [command_eq]
  refine Dict.forall_entries_ofList (P := fun v : Value => v.json.depth ≤ 1) ?_
  exact List.forall_mem_map.mpr fun w _ => w.field.type.faithful_arg.depth_encode w.value

theorem Automation.Recorded.depth_le {a : Automation} {q : Param} (h : a.Recorded q) :
    ∀ c ∈ a.commands, (Command.codec.encode c).depth ≤ 3 := by
  intro c hc
  obtain ⟨call, rfl⟩ := h.command c hc
  exact call.depthLE_command.encode

/-- The node of a sound instance nests at most six brackets: its own, those around all logs, one
log, one command, the arguments of it, and a list of numbers. -/
theorem Plugin.Instance.Sound.depth_toNode_le {p : Plugin} {x : p.Instance} (h : x.Sound) :
    (Node.codec.encode (Component.toNode x)).depth ≤ 6 := by
  refine Node.depth_le (n := 3) ?_ ?_
  · exact Row.Every.forall_entries (P := fun cs => ∀ c ∈ cs, (Command.codec.encode c).depth ≤ 3)
      (h.params.imp fun q a ha => ha.depth_le)
  · refine Row.Every.forall_entries (P := fun v : Value => v.json.depth ≤ 3)
      (h.config.imp fun f a _ => ?_)
    exact Nat.le_trans (f.type.faithful_arg.depth_encode a) (by decide)

/-! ## Sessions -/

/-- Instances and edges between them, with scripts, and what else makes a graph. -/
structure Session (r : Registry) where
  id : String
  loadingPolicy : Option LoadingPolicy
  instances : List r.Instance
  edges : List Edge
  scripts : List Script

namespace Session

variable {r : Registry}

/-- The graph of a session, with a node for each instance. -/
def graph (s : Session r) : Graph :=
  ⟨s.id, s.loadingPolicy, s.instances.map Component.toNode, s.edges, s.scripts⟩

/-- The instances were made by calls and have ids of their own, and every edge was given back by a
call that connected two of them. -/
structure Made (s : Session r) : Prop where
  made : ∀ x ∈ s.instances, x.node.Made
  ids_nodup : (s.instances.map Component.id).Nodup
  connected : ∀ e ∈ s.edges, ∃ a ∈ s.instances, ∃ b ∈ s.instances, Component.Connects a b e

theorem Made.sound (hr : r.Sound) {s : Session r} (h : s.Made) :
    ∀ x ∈ s.instances, x.node.Sound :=
  fun x hx => (h.made x hx).sound (hr.plugin _ (List.getElem_mem _))

theorem ids_graph (s : Session r) : s.graph.nodes.map Node.id = s.instances.map Component.id := by
  rw [graph, List.map_map]
  rfl

theorem Made.soundReferences {s : Session r} (h : s.Made) : s.graph.SoundReferences where
  nodup := by
    rw [ids_graph]
    exact h.ids_nodup
  source_mem e he := by
    obtain ⟨a, ha, b, -, hconnects⟩ := h.connected e he
    rw [ids_graph, hconnects.ends.1]
    exact List.mem_map_of_mem ha
  target_mem e he := by
    obtain ⟨a, -, b, hb, hconnects⟩ := h.connected e he
    rw [ids_graph, hconnects.ends.2]
    exact List.mem_map_of_mem hb

theorem Made.depth_score_le (hr : r.Sound) {s : Session r} (h : s.Made) :
    (Score.codec.encode (.new s.graph)).depth ≤ 9 := by
  refine Score.depth_le (n := 5) fun n hn => ?_
  obtain ⟨x, hx, rfl⟩ := List.mem_map.mp hn
  exact (h.sound hr x hx).depth_toNode_le

theorem Made.result_check {s : Session r} (h : s.Made) (c : Converter) :
    (c.check (.new s.graph)).result = .ok () := by
  rw [Converter.result_check]
  split
  · exact Graph.checkReferences_eq_ok_iff.mpr h.soundReferences
  · rfl

/-- A session of built-in plugins passes the check of references. Any converter writes its score
as text, any converter reads the text as the same score, and the nodes of that score are read as
the same instances in the same order. -/
theorem recovered {s : Session Registry.builtin} (h : s.Made) (c c' : Converter) :
    s.graph.checkReferences.result = .ok () ∧
      ∃ text t, (c.toText (.new s.graph)).result = .ok text ∧ (c'.ofText text).result = .ok t ∧
        t = .new s.graph ∧ (Registry.builtin.decodeGraph t.graph).result = .ok s.instances := by
  refine ⟨Graph.checkReferences_eq_ok_iff.mpr h.soundReferences,
    Score.codec.text c.options.layout (.new s.graph), .new s.graph, ?_, ?_, rfl, ?_⟩
  · rw [Converter.result_toText, h.result_check]
    rfl
  · have hvalue : (Score.codec.toValue (.new s.graph)).json.depth
        = (Score.codec.encode (.new s.graph)).depth :=
      (Score.faithful_codec.distinct _).depth_toValue
    have hdepth := h.depth_score_le Registry.builtin_sound
    rw [Converter.result_ofText_eq_ok_iff, Score.faithful_codec.ofText_text, if_pos (by omega)]
    exact ⟨rfl, h.result_check c'⟩
  · exact Registry.decodeGraph_map_toNode Registry.builtin_sound rfl
      (h.sound Registry.builtin_sound)

/-- A file. -/
def track : Builtin.file.Instance :=
  ⟨⟨"track", .allContent, none⟩, ("drums.wav", .zero, .zero, .zero, ⟨⟩), ⟨⟩⟩

/-- A gain that does nothing. -/
def gain : Builtin.gain.Instance :=
  ⟨⟨"fade", .someContent, none⟩, ⟨⟩, Row.ofFn Param.create Builtin.gain.params⟩

/-- The gain with a label, going from zero to one, after a call in between that failed. -/
def fade : Builtin.gain.Instance :=
  (((gain.withLabel "Fade in").attempt "gain" (.setValue (.zero false) .zero)).attempt "gain"
    (.setValue .nan .zero)).attempt "gain" (.exponentialRamp (.ofInt 1) ⟨10000000000⟩)

theorem id_fade : Component.id fade = "fade" := by
  change fade.header.id = "fade"
  rw [fade, Plugin.Instance.header_attempt, Plugin.Instance.header_attempt,
    Plugin.Instance.header_attempt]
  rfl

/-- The file faded in by the gain. -/
def fadeIn : Session Registry.builtin where
  id := "fade"
  loadingPolicy := none
  instances := [⟨9, track⟩, ⟨4, fade⟩]
  edges := [.new "edge" "track" "fade"]
  scripts := [⟨"main", "play()"⟩]

theorem recovered_fadeIn :
    fadeIn.Made ∧ fadeIn.graph.checkReferences.result = .ok () ∧
      ∃ text t, (Converter.toText ⟨⟨true, true⟩⟩ (.new fadeIn.graph)).result = .ok text ∧
        (Converter.ofText ⟨⟨false, false⟩⟩ text).result = .ok t ∧ t = .new fadeIn.graph ∧
          (Registry.builtin.decodeGraph t.graph).result = .ok fadeIn.instances := by
  have htrack : track.Made := by
    have hcreate : (Builtin.file.create "fresh" (some "track") .allContent
        (some "drums.wav", none, none, none, ⟨⟩)).result = .ok track := rfl
    exact .create hcreate
  have hgain : gain.Made := by
    have hcreate : (Builtin.gain.create "fresh" (some "fade") .someContent ⟨⟩).result = .ok gain :=
      rfl
    exact .create hcreate
  have hfade : fade.Made :=
    .attempt (.attempt (.attempt (.withLabel hgain "Fade in") _ _) _ _) _ _
  have hedge : (Component.connect "edge" track fade).result = .ok (.new "edge" "track" "fade") := by
    rw [← id_fade]
    rfl
  have hids : fadeIn.instances.map Component.id = ["track", "fade"] := by
    rw [← id_fade]
    rfl
  have hmade : fadeIn.Made := by
    refine ⟨?_, ?_, ?_⟩
    · exact List.forall_mem_cons.mpr ⟨htrack, List.forall_mem_cons.mpr ⟨hfade, fun x hx =>
        absurd hx List.not_mem_nil⟩⟩
    · rw [hids]
      decide
    · intro e he
      rw [List.mem_singleton.mp he]
      exact ⟨_, List.mem_cons_self .., _, List.mem_cons_of_mem _ (List.mem_cons_self ..),
        .connect hedge⟩
  exact ⟨hmade, recovered hmade ⟨⟨true, true⟩⟩ ⟨⟨false, false⟩⟩⟩

end Session

end AudioScore
