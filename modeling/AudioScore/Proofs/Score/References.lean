import AudioScore.Score.Graph

/-!
# When references are sound

* `Graph.SoundReferences`: ids that do not repeat, and edges between nodes that are there.
* `Graph.checkReferences_eq_ok_iff`: the check succeeds exactly then.
* `Graph.FirstRepeat`, `Graph.FirstDangling`: what is at fault otherwise.
* `Graph.checkReferences_verdict`: the check reports it, a repeated id before any edge.
-/

namespace AudioScore

namespace Graph

/-- No two nodes share an id, and every edge leads from a node of the graph to a node of it. -/
structure SoundReferences (g : Graph) : Prop where
  nodup : (g.nodes.map Node.id).Nodup
  source_mem : ∀ e ∈ g.edges, e.source ∈ g.nodes.map Node.id
  target_mem : ∀ e ∈ g.edges, e.target ∈ g.nodes.map Node.id

theorem repeatedId?_eq_none_iff {seen ids : List String} :
    repeatedId? seen ids = none ↔ ids.Nodup ∧ ∀ id ∈ ids, id ∉ seen := by
  induction ids generalizing seen with
  | nil => simp [repeatedId?]
  | cons id ids ih =>
    rw [repeatedId?, List.nodup_cons]
    by_cases hseen : id ∈ seen
    · rw [if_pos hseen]
      constructor
      · intro h
        cases h
      · rintro ⟨-, h⟩
        exact absurd hseen (h id (List.mem_cons_self ..))
    · rw [if_neg hseen, ih]
      constructor
      · rintro ⟨hnodup, hnew⟩
        refine ⟨⟨fun hmem => hnew id hmem (List.mem_cons_self ..), hnodup⟩, ?_⟩
        intro id' hid'
        rcases List.mem_cons.mp hid' with rfl | hid'
        · exact hseen
        · exact fun hmem => hnew id' hid' (List.mem_cons_of_mem _ hmem)
      · rintro ⟨⟨hnot, hnodup⟩, hnew⟩
        refine ⟨hnodup, fun id' hid' hmem => ?_⟩
        rcases List.mem_cons.mp hmem with rfl | hmem
        · exact hnot hid'
        · exact hnew id' (List.mem_cons_of_mem _ hid') hmem

/-- A repeated id that is found is the first one: none repeats before it. -/
theorem eq_append_of_repeatedId? {seen ids : List String} {id : String}
    (h : repeatedId? seen ids = some id) :
    ∃ before after, ids = before ++ id :: after ∧ before.Nodup ∧ (∀ i ∈ before, i ∉ seen) ∧
      (id ∈ before ∨ id ∈ seen) := by
  induction ids generalizing seen with
  | nil => cases h
  | cons i ids ih =>
    rw [repeatedId?] at h
    by_cases hseen : i ∈ seen
    · rw [if_pos hseen] at h
      cases h
      exact ⟨[], ids, rfl, List.nodup_nil, fun _ hi => absurd hi List.not_mem_nil, .inr hseen⟩
    · rw [if_neg hseen] at h
      obtain ⟨before, after, rfl, hnodup, hnew, hmem⟩ := ih h
      refine ⟨i :: before, after, rfl, ?_, ?_, ?_⟩
      · refine List.nodup_cons.mpr ⟨fun hi => ?_, hnodup⟩
        exact hnew i hi (List.mem_cons_self ..)
      · intro j hj
        rcases List.mem_cons.mp hj with rfl | hj
        · exact hseen
        · exact fun hmem => hnew j hj (List.mem_cons_of_mem _ hmem)
      · rcases hmem with hmem | hmem
        · exact .inl (List.mem_cons_of_mem _ hmem)
        · rcases List.mem_cons.mp hmem with rfl | hmem
          · exact .inl (List.mem_cons_self ..)
          · exact .inr hmem

theorem missingEnd?_eq_none_iff {ids : List String} {e : Edge} :
    missingEnd? ids e = none ↔ e.source ∈ ids ∧ e.target ∈ ids := by
  simp [missingEnd?]

/-- A missing end is the source, or the target where the source is there. -/
theorem missingEnd?_eq_some_iff {ids : List String} {e : Edge} {id : String} :
    missingEnd? ids e = some id ↔
      (e.source ∉ ids ∧ id = e.source) ∨ (e.source ∈ ids ∧ e.target ∉ ids ∧ id = e.target) := by
  have hends : missingEnd? ids e
      = if e.source ∉ ids then some e.source else if e.target ∉ ids then some e.target else none := by
    simp only [missingEnd?, List.find?_cons, List.find?_nil]
    by_cases hsource : e.source ∈ ids <;> by_cases htarget : e.target ∈ ids <;>
      simp [hsource, htarget]
  rw [hends]
  by_cases hsource : e.source ∈ ids
  · by_cases htarget : e.target ∈ ids
    · simp [hsource, htarget]
    · simp [hsource, htarget, eq_comm]
  · simp [hsource, eq_comm]

theorem dangling?_eq_none_iff {ids : List String} {es : List Edge} :
    dangling? ids es = none ↔ ∀ e ∈ es, e.source ∈ ids ∧ e.target ∈ ids := by
  simp [dangling?, missingEnd?_eq_none_iff]

/-- The check of references succeeds exactly on sound ones. -/
theorem checkReferences_eq_ok_iff {g : Graph} :
    g.checkReferences.result = .ok () ↔ g.SoundReferences := by
  unfold checkReferences
  dsimp only
  cases hid : repeatedId? [] (g.nodes.map Node.id) with
  | some id =>
    constructor
    · intro h
      cases h
    · intro h
      have hnone := repeatedId?_eq_none_iff.mpr ⟨h.nodup, fun _ _ => List.not_mem_nil⟩
      rw [hid] at hnone
      cases hnone
  | none =>
    have hnodup := (repeatedId?_eq_none_iff.mp hid).1
    cases hdangling : dangling? (g.nodes.map Node.id) g.edges with
    | some p =>
      constructor
      · intro h
        cases h
      · intro h
        have hnone := dangling?_eq_none_iff.mpr fun e he => ⟨h.source_mem e he, h.target_mem e he⟩
        rw [hdangling] at hnone
        cases hnone
    | none =>
      have hends := dangling?_eq_none_iff.mp hdangling
      exact ⟨fun _ => ⟨hnodup, fun e he => (hends e he).1, fun e he => (hends e he).2⟩, fun _ => rfl⟩

/-! ## What is at fault -/

/-- A node has the id of a node before it, and no two of the nodes before it share an id. -/
def FirstRepeat (g : Graph) (n : Node) : Prop :=
  ∃ before after, g.nodes = before ++ n :: after ∧ (before.map Node.id).Nodup ∧
    n.id ∈ before.map Node.id

/-- An edge has an end that is not there, its source or else its target, and every edge before it
has both ends. -/
def FirstDangling (g : Graph) (e : Edge) (id : String) : Prop :=
  ∃ before after, g.edges = before ++ e :: after ∧
    (∀ e' ∈ before, e'.source ∈ g.nodes.map Node.id ∧ e'.target ∈ g.nodes.map Node.id) ∧
    ((e.source ∉ g.nodes.map Node.id ∧ id = e.source) ∨
      (e.source ∈ g.nodes.map Node.id ∧ e.target ∉ g.nodes.map Node.id ∧ id = e.target))

theorem firstDangling_of_dangling? {g : Graph} {e : Edge} {id : String}
    (h : dangling? (g.nodes.map Node.id) g.edges = some (e, id)) : g.FirstDangling e id := by
  obtain ⟨before, e', after, hedges, hfound, hbefore⟩ := List.findSome?_eq_some_iff.mp h
  obtain ⟨id', hid', hpair⟩ := Option.map_eq_some_iff.mp hfound
  cases hpair
  refine ⟨before, after, hedges, fun e' he' => ?_, missingEnd?_eq_some_iff.mp hid'⟩
  exact missingEnd?_eq_none_iff.mp (Option.map_eq_none_iff.mp (hbefore e' he'))

/-- Where ids repeat the check names the first one that does, whatever the edges are. -/
theorem checkReferences_of_not_nodup {g : Graph} (h : ¬ (g.nodes.map Node.id).Nodup) :
    ∃ n, g.FirstRepeat n ∧ g.checkReferences.result = .error (.duplicateNode n.id) := by
  cases hid : repeatedId? [] (g.nodes.map Node.id) with
  | none => exact absurd (repeatedId?_eq_none_iff.mp hid).1 h
  | some id =>
    obtain ⟨before, after, hids, hnodup, -, hmem⟩ := eq_append_of_repeatedId? hid
    obtain ⟨ns, rest, hnodes, rfl, hrest⟩ := List.map_eq_append_iff.mp hids
    obtain ⟨n, ms, rfl, rfl, -⟩ := List.map_eq_cons_iff.mp hrest
    refine ⟨n, ⟨ns, ms, hnodes, hnodup, ?_⟩, ?_⟩
    · exact hmem.resolve_right List.not_mem_nil
    · unfold checkReferences
      dsimp only
      rw [hid]
      rfl

/-- Where no id repeats the check names the first edge with a missing end, and that end. -/
theorem checkReferences_of_nodup {g : Graph} (h : (g.nodes.map Node.id).Nodup)
    (hsound : ¬ g.SoundReferences) :
    ∃ e id, g.FirstDangling e id ∧ g.checkReferences.result = .error (.danglingEdge e.id id) := by
  have hid : repeatedId? [] (g.nodes.map Node.id) = none :=
    repeatedId?_eq_none_iff.mpr ⟨h, fun _ _ => List.not_mem_nil⟩
  cases hdangling : dangling? (g.nodes.map Node.id) g.edges with
  | none =>
    have hends := dangling?_eq_none_iff.mp hdangling
    exact absurd ⟨h, fun e he => (hends e he).1, fun e he => (hends e he).2⟩ hsound
  | some p =>
    obtain ⟨e, id⟩ := p
    refine ⟨e, id, firstDangling_of_dangling? hdangling, ?_⟩
    unfold checkReferences
    dsimp only
    rw [hid, hdangling]
    rfl

/-- A graph is sound, or its first repeated id is reported, or without one its first missing end. -/
theorem checkReferences_verdict (g : Graph) :
    g.SoundReferences ∨
      (¬ (g.nodes.map Node.id).Nodup ∧
        ∃ n, g.FirstRepeat n ∧ g.checkReferences.result = .error (.duplicateNode n.id)) ∨
      ((g.nodes.map Node.id).Nodup ∧
        ∃ e id, g.FirstDangling e id ∧
          g.checkReferences.result = .error (.danglingEdge e.id id)) := by
  by_cases hsound : g.SoundReferences
  · exact .inl hsound
  · by_cases hnodup : (g.nodes.map Node.id).Nodup
    · exact .inr (.inr ⟨hnodup, checkReferences_of_nodup hnodup hsound⟩)
    · exact .inr (.inl ⟨hnodup, checkReferences_of_not_nodup hnodup⟩)

end Graph

end AudioScore
