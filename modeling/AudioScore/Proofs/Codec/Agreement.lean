import AudioScore.Proofs.Codec.Faithful
import AudioScore.Proofs.Json.Spelled

/-!
# Reading a text and reading its value

A text can be read as it is spelled, or made a generic value first. What is read the first way is
also read the second way, with the same outcome. The converse holds where no key is repeated:
the value has forgotten all but the last member of a key.

* `Codec.Agrees`: the property.
* `Codec.Agrees.list`, `Codec.Agrees.dict`, `Codec.Agrees.record`: collections and records.
-/

namespace AudioScore

open AudioScore.Tree

/-- A tree that has a value is read like that value, if it repeats no key, and otherwise at least
where it is read at all. -/
structure Codec.Agrees {α : Type} (c : Codec α) : Prop where
  value_of_tree : ∀ {src t v a}, value? src t = some v →
    c.decode src t = .ok a → c.decode .value v.json.toTree = .ok a
  tree_of_value : ∀ {src t v a}, value? src t = some v → t.NoRepeats →
    c.decode .value v.json.toTree = .ok a → c.decode src t = .ok a

theorem Source.open?_of_enter {src inner : Source} (h : src.enter = some inner) :
    src.open? = .ok inner := by
  rw [Source.open?, h]

namespace Value

/-- The members of the tree of an object. -/
def members (d : Dict Value) : List (Option String × Tree) :=
  d.entries.map fun e => (some e.1, e.2.json.toTree)

theorem toTree_array (vs : List Value) :
    (Value.array vs).json.toTree = .array (vs.map fun v => v.json.toTree) := by
  have h : (Value.array vs).json.toTree = .array (Json.treesOfItems (vs.map Value.json)) := rfl
  rw [h, Json.treesOfItems_eq_map, List.map_map]
  rfl

theorem toTree_object (d : Dict Value) : (Value.object d).json.toTree = .object (members d) := by
  have h : (Value.object d).json.toTree
      = .object (Json.treesOfMembers (d.entries.map fun e => (e.1, e.2.json))) := rfl
  rw [h, Json.treesOfMembers_eq_map, List.map_map]
  rfl

theorem under_members (d : Dict Value) (k : String) :
    under k (members d) = ((d.get? k).map fun v => v.json.toTree).toList :=
  under_of_nodup (fun v : Value => v.json.toTree) d.increasing.nodup k

end Value

namespace Codec.Agrees

variable {α β : Type}

/-! ## Simple data -/

theorem of_decode_eq {c : Codec α} (h : ∀ {src t v}, value? src t = some v →
    c.decode src t = c.decode .value v.json.toTree) : c.Agrees where
  value_of_tree hv ha := h hv ▸ ha
  tree_of_value hv _ ha := (h hv).symm ▸ ha

/-- A codec that looks at leaves only, and not at where they come from. -/
theorem of_flat {c : Codec α} {e : DecodeError} {e' : DecodeError}
    (hleaf : ∀ src t, t.isLeaf → c.decode src t = c.decode .value t)
    (harray : ∀ src ts, c.decode src (.array ts) = .error e)
    (hobject : ∀ src ms, c.decode src (.object ms) = .error e') : c.Agrees := by
  refine of_decode_eq fun {src t v} hv => ?_
  obtain ⟨ht, hl⟩ | ⟨inner, ts, vs, rfl, -, -, rfl⟩ | ⟨inner, ms, d, rfl, -, -, rfl⟩ :=
    value?_cases hv
  · rw [← ht, hleaf src t hl]
  · rw [harray, Value.toTree_array, harray]
  · rw [hobject, Value.toTree_object, hobject]

theorem string : Codec.string.Agrees := by
  refine of_flat (fun src t hl => ?_) (fun _ _ => rfl) fun _ _ => rfl
  rcases t with _ | _ | _ | (_ | _) | _ | _ | _ <;> rfl

theorem int64 : Codec.int64.Agrees := by
  refine of_flat (fun src t hl => ?_) (fun _ _ => rfl) fun _ _ => rfl
  rcases t with _ | _ | (_ | (_ | _)) | _ | _ | _ | _ <;> rfl

theorem wireEnum [WireEnum α] : (Codec.wireEnum : Codec α).Agrees := by
  refine of_flat (fun src t hl => ?_) (fun _ _ => rfl) fun _ _ => rfl
  rcases t with _ | _ | _ | (_ | _) | _ | _ | _ <;> rfl

theorem value : Codec.value.Agrees := by
  refine of_decode_eq fun {src t v} hv => ?_
  have hvalue := Json.value?_value v.json
  rw [v.toValue_json] at hvalue
  simp only [Codec.value, hv, hvalue]

theorem map {c : Codec α} (hc : c.Agrees) (there : α → β) (back : β → α) :
    (c.map there back).Agrees where
  value_of_tree hv hb := by
    obtain ⟨a, ha, rfl⟩ := Except.map_eq_ok.mp hb
    exact Except.map_eq_ok.mpr ⟨a, hc.value_of_tree hv ha, rfl⟩
  tree_of_value hv hn hb := by
    obtain ⟨a, ha, rfl⟩ := Except.map_eq_ok.mp hb
    exact Except.map_eq_ok.mpr ⟨a, hc.tree_of_value hv hn ha, rfl⟩

/-! ## Collections -/

theorem optional_decode (c : Codec α) (src : Source) {t : Tree} (h : t ≠ .null) :
    c.optional.decode src t = (c.decode src t).map some := by
  cases t with
  | null => exact absurd rfl h
  | _ => rfl

theorem value?_eq_null_iff {src : Source} {t : Tree} {v : Value} (h : value? src t = some v) :
    v.json.toTree = .null ↔ t = .null := by
  obtain ⟨ht, -⟩ | ⟨inner, ts, vs, rfl, -, -, rfl⟩ | ⟨inner, ms, d, rfl, -, -, rfl⟩ :=
    value?_cases h
  · rw [ht]
  · rw [Value.toTree_array]
    simp
  · rw [Value.toTree_object]
    simp

theorem optional {c : Codec α} (hc : c.Agrees) : c.optional.Agrees where
  value_of_tree {src t v a} hv ha := by
    by_cases hnull : t = .null
    · subst hnull
      rw [(value?_eq_null_iff hv).mpr rfl]
      exact ha
    · rw [optional_decode c src hnull] at ha
      rw [optional_decode c .value fun h => hnull ((value?_eq_null_iff hv).mp h)]
      obtain ⟨b, hb, rfl⟩ := Except.map_eq_ok.mp ha
      exact Except.map_eq_ok.mpr ⟨b, hc.value_of_tree hv hb, rfl⟩
  tree_of_value {src t v a} hv hn ha := by
    by_cases hnull : t = .null
    · rw [(value?_eq_null_iff hv).mpr hnull] at ha
      rw [hnull]
      exact ha
    · rw [optional_decode c .value fun h => hnull ((value?_eq_null_iff hv).mp h)] at ha
      rw [optional_decode c src hnull]
      obtain ⟨b, hb, rfl⟩ := Except.map_eq_ok.mp ha
      exact Except.map_eq_ok.mpr ⟨b, hc.tree_of_value hv hn hb, rfl⟩

theorem list_leaf (c : Codec α) (src : Source) {t : Tree} (h : t.isLeaf) :
    c.list.decode src t = .error (t.mismatch .sequence) := by
  cases t with
  | array ts => cases h
  | _ => rfl

theorem list_array_eq_ok_iff {c : Codec α} {src inner : Source} (h : src.enter = some inner)
    {ts : List Tree} {xs : List α} : c.list.decode src (.array ts) = .ok xs
      ↔ List.Forall₂ (fun t x => c.decode inner t = .ok x) ts xs := by
  have hdecode : c.list.decode src (.array ts) = src.open? >>= fun inner =>
      ts.mapM (c.decode inner) := rfl
  rw [hdecode, Source.open?_of_enter h]
  exact Except.mapM_eq_ok

theorem list {c : Codec α} (hc : c.Agrees) : c.list.Agrees where
  value_of_tree {src t v xs} hv hxs := by
    obtain ⟨ht, hl⟩ | ⟨inner, ts, vs, rfl, hinner, hvs, rfl⟩ | ⟨inner, ms, d, rfl, -, -, rfl⟩ :=
      value?_cases hv
    · rw [list_leaf c src hl] at hxs
      cases hxs
    · rw [list_array_eq_ok_iff hinner] at hxs
      rw [Value.toTree_array, list_array_eq_ok_iff rfl, List.forall₂_map_left_iff]
      clear hv
      induction hvs generalizing xs with
      | nil =>
        cases hxs
        exact .nil
      | cons hv hvs ih =>
        cases hxs with
        | cons hx hxs => exact .cons (hc.value_of_tree hv hx) (ih hxs)
    · cases hxs
  tree_of_value {src t v xs} hv hn hxs := by
    obtain ⟨ht, hl⟩ | ⟨inner, ts, vs, rfl, hinner, hvs, rfl⟩ | ⟨inner, ms, d, rfl, -, -, rfl⟩ :=
      value?_cases hv
    · rw [← ht, list_leaf c .value hl] at hxs
      cases hxs
    · rw [Value.toTree_array, list_array_eq_ok_iff rfl, List.forall₂_map_left_iff] at hxs
      rw [list_array_eq_ok_iff hinner]
      rw [noRepeats_array] at hn
      clear hv
      induction hvs generalizing xs with
      | nil =>
        cases hxs
        exact .nil
      | cons hv hvs ih =>
        cases hxs with
        | cons hx hxs => exact .cons (hc.tree_of_value hv hn.1 hx) (ih hn.2 hxs)
    · rw [Value.toTree_object] at hxs
      cases hxs

theorem dict_leaf (c : Codec α) (src : Source) {t : Tree} (h : t.isLeaf) :
    c.dict.decode src t = .error (t.mismatch .map) := by
  cases t with
  | object ms => cases h
  | _ => rfl

theorem dict_object {c : Codec α} {src inner : Source} (h : src.enter = some inner)
    (ms : List (Option String × Tree)) :
    c.dict.decode src (.object ms) = c.entries inner .empty ms := by
  have hdecode : c.dict.decode src (.object ms) = src.open? >>= fun inner =>
      c.entries inner .empty ms := rfl
  rw [hdecode, Source.open?_of_enter h]
  rfl

theorem entries_cons_eq_ok_iff {c : Codec α} {src : Source} {d d' : Dict α} {key : Option String}
    {t : Tree} {ms : List (Option String × Tree)} :
    c.entries src d ((key, t) :: ms) = .ok d' ↔ ∃ k a, key = some k ∧ c.decode src t = .ok a ∧
      c.entries src (d.insert k a) ms = .ok d' := by
  cases key with
  | none =>
    constructor
    · intro h
      cases h
    · rintro ⟨k, a, h, -⟩
      cases h
  | some k =>
    rw [entries, Except.bind_eq_ok]
    constructor
    · rintro ⟨a, ha, h⟩
      exact ⟨k, a, rfl, ha, h⟩
    · rintro ⟨k', a, hk, ha, h⟩
      cases hk
      exact ⟨a, ha, h⟩

/-- Members are read into a dictionary exactly if each of them is read. -/
theorem exists_entries_iff (c : Codec α) (src : Source) (d : Dict α)
    (ms : List (Option String × Tree)) : (∃ d', c.entries src d ms = .ok d')
      ↔ ∀ m ∈ ms, ∃ k a, m.1 = some k ∧ c.decode src m.2 = .ok a := by
  induction ms generalizing d with
  | nil => exact ⟨fun _ m hm => absurd hm List.not_mem_nil, fun _ => ⟨d, rfl⟩⟩
  | cons m ms ih =>
    obtain ⟨key, t⟩ := m
    constructor
    · rintro ⟨d', h⟩
      obtain ⟨k, a, hk, ha, h⟩ := entries_cons_eq_ok_iff.mp h
      exact List.forall_mem_cons.mpr ⟨⟨k, a, hk, ha⟩, (ih _).mp ⟨d', h⟩⟩
    · intro h
      obtain ⟨⟨k, a, hk, ha⟩, h⟩ := List.forall_mem_cons.mp h
      obtain ⟨d', hd'⟩ := (ih (d.insert k a)).mpr h
      exact ⟨d', entries_cons_eq_ok_iff.mpr ⟨k, a, hk, ha, hd'⟩⟩

/-- The entries of values and those that are read stay related, member by member. -/
theorem related_entries {c : Codec α} (hc : c.Agrees) {src : Source} {d d' : Dict Value}
    {e e' : Dict α} {ms : List (Option String × Tree)} (hd : entries? src d ms = some d')
    (he : c.entries src e ms = .ok e')
    (h : Dict.Related (fun v a => c.decode .value v.json.toTree = .ok a) d.entries e.entries) :
    Dict.Related (fun v a => c.decode .value v.json.toTree = .ok a) d'.entries e'.entries := by
  induction ms generalizing d e with
  | nil =>
    cases hd
    cases he
    exact h
  | cons m ms ih =>
    obtain ⟨k, v, hk, hv, hd⟩ := entries?_cons_eq_some_iff.mp hd
    obtain ⟨k', a, hk', ha, he⟩ := entries_cons_eq_ok_iff.mp he
    obtain rfl : k = k' := Option.some.inj (hk.symm.trans hk')
    exact ih hd he (h.insertEntry k (hc.value_of_tree hv ha))

theorem entries_of_related {c : Codec α} {es : List (String × Value)} {fs : List (String × α)}
    (h : Dict.Related (fun v a => c.decode .value v.json.toTree = .ok a) es fs) (d : Dict α) :
    c.entries .value d (es.map fun e => (some e.1, e.2.json.toTree)) = .ok (d.insertAll fs) := by
  induction h generalizing d with
  | nil => rfl
  | @cons e f es fs hef hrest ih =>
    obtain ⟨k, v⟩ := e
    obtain ⟨l, a⟩ := f
    obtain ⟨rfl, ha⟩ := hef
    exact entries_cons_eq_ok_iff.mpr ⟨k, a, rfl, ha, ih (d.insert k a)⟩

theorem related_of_entries {c : Codec α} {es : List (String × Value)} {d d' : Dict α}
    (h : c.entries .value d (es.map fun e => (some e.1, e.2.json.toTree)) = .ok d') :
    ∃ fs, Dict.Related (fun v a => c.decode .value v.json.toTree = .ok a) es fs ∧
      d' = d.insertAll fs := by
  induction es generalizing d with
  | nil =>
    cases h
    exact ⟨[], .nil, rfl⟩
  | cons e es ih =>
    obtain ⟨k, a, hk, ha, h⟩ := entries_cons_eq_ok_iff.mp h
    obtain ⟨fs, hfs, rfl⟩ := ih h
    exact ⟨(k, a) :: fs, .cons ⟨Option.some.inj hk, ha⟩ hfs, rfl⟩

theorem dict {c : Codec α} (hc : c.Agrees) : c.dict.Agrees := by
  have hvalue : ∀ {src t v e}, value? src t = some v → c.dict.decode src t = .ok e →
      c.dict.decode .value v.json.toTree = .ok e := by
    intro src t v e hv he
    obtain ⟨ht, hl⟩ | ⟨inner, ts, vs, rfl, -, -, rfl⟩ | ⟨inner, ms, d, rfl, hinner, hd, rfl⟩ :=
      value?_cases hv
    · rw [dict_leaf c src hl] at he
      cases he
    · cases he
    · rw [dict_object hinner] at he
      rw [Value.toTree_object, dict_object rfl, Value.members,
        entries_of_related (related_entries hc hd he .nil)]
      exact congrArg Except.ok e.ofList_entries
  refine ⟨hvalue, fun {src t v e} hv hn he => ?_⟩
  obtain ⟨ht, hl⟩ | ⟨inner, ts, vs, rfl, -, -, rfl⟩ | ⟨inner, ms, d, rfl, hinner, hd, rfl⟩ :=
    value?_cases hv
  · rw [← ht, dict_leaf c .value hl] at he
    cases he
  · rw [Value.toTree_array] at he
    cases he
  · -- Every member is the last one of its key, so that the value has kept it.
    obtain ⟨hkeys, hvalues⟩ := noRepeats_object.mp hn
    have hmembers : ∀ m ∈ ms, ∃ k a, m.1 = some k ∧ c.decode inner m.2 = .ok a := by
      intro m hm
      obtain ⟨key, t⟩ := m
      obtain ⟨k, -, rfl, -⟩ := exists_value?_of_mem hd hm
      obtain ⟨v, hv, hget⟩ := get?_of_under_singleton hd (under_of_mem hkeys hm)
      have hmem : (some k, v.json.toTree) ∈ Value.members d :=
        List.mem_map.mpr ⟨_, Dict.mem_entries_of_get? hget, rfl⟩
      rw [Value.toTree_object, dict_object rfl] at he
      obtain ⟨-, a, -, ha⟩ := (exists_entries_iff c .value .empty _).mp ⟨e, he⟩ _ hmem
      exact ⟨k, a, rfl, hc.tree_of_value hv (noRepeatsMembers_iff.mp hvalues _ hm) ha⟩
    obtain ⟨e', he'⟩ := (exists_entries_iff c inner .empty ms).mpr hmembers
    rw [← dict_object hinner] at he'
    rw [hvalue hv he'] at he
    rw [he', Except.ok.inj he]

end Codec.Agrees

/-! ## Records -/

namespace Field

variable {α : Type} {f : Field α}

/-- A field takes from the entry with its name what it takes from the members. -/
theorem takes_members_of_takes (hf : f.codec.Agrees) {src : Source} {d : Dict Value}
    {ms : List (Option String × Tree)} (hd : entries? src .empty ms = some d) {a : α}
    (h : f.Takes src (under f.name ms) a) : f.Takes .value (under f.name (Value.members d)) a := by
  rw [Value.under_members]
  match hu : under f.name ms with
  | [] =>
    rw [hu] at h
    rw [get?_of_under_nil hd hu]
    exact h
  | [t] =>
    rw [hu] at h
    obtain ⟨v, hv, hget⟩ := get?_of_under_singleton hd hu
    rw [hget]
    exact hf.value_of_tree hv h
  | _ :: _ :: _ =>
    rw [hu] at h
    cases h

theorem takes_of_takes_members (hf : f.codec.Agrees) {src : Source} {d : Dict Value}
    {ms : List (Option String × Tree)} (hd : entries? src .empty ms = some d)
    (hn : (Tree.object ms).NoRepeats) {a : α}
    (h : f.Takes .value (under f.name (Value.members d)) a) :
    f.Takes src (under f.name ms) a := by
  rw [Value.under_members] at h
  obtain ⟨hkeys, hvalues⟩ := noRepeats_object.mp hn
  have hlength := length_under_le_one hkeys f.name
  match hu : under f.name ms with
  | [] =>
    rw [get?_of_under_nil hd hu] at h
    exact h
  | [t] =>
    obtain ⟨v, hv, hget⟩ := get?_of_under_singleton hd hu
    rw [hget] at h
    have hmem : (some f.name, t) ∈ ms := mem_under.mp (by rw [hu]; exact List.mem_singleton_self t)
    exact hf.tree_of_value hv (noRepeatsMembers_iff.mp hvalues _ hmem) h
  | _ :: _ :: _ =>
    rw [hu] at hlength
    simp at hlength

end Field

namespace Fields

variable {types : List Type} {fields : Row Field types}

theorem takes_members_of_takes (hfields : Every (fun f => f.codec.Agrees) fields) {src : Source}
    {d : Dict Value} {ms : List (Option String × Tree)} (hd : entries? src .empty ms = some d)
    {contents : Contents types} (h : Takes src ms fields contents) :
    Takes .value (Value.members d) fields contents := by
  induction types with
  | nil => trivial
  | cons α types ih =>
    obtain ⟨f, fs, rfl⟩ := fields.exists_cons
    obtain ⟨a, rest, rfl⟩ := contents.exists_cons
    exact ⟨Field.takes_members_of_takes hfields.1 hd h.1, ih hfields.2 h.2⟩

theorem takes_of_takes_members (hfields : Every (fun f => f.codec.Agrees) fields) {src : Source}
    {d : Dict Value} {ms : List (Option String × Tree)} (hd : entries? src .empty ms = some d)
    (hn : (Tree.object ms).NoRepeats) {contents : Contents types}
    (h : Takes .value (Value.members d) fields contents) : Takes src ms fields contents := by
  induction types with
  | nil => trivial
  | cons α types ih =>
    obtain ⟨f, fs, rfl⟩ := fields.exists_cons
    obtain ⟨a, rest, rfl⟩ := contents.exists_cons
    exact ⟨Field.takes_of_takes_members hfields.1 hd hn h.1, ih hfields.2 h.2⟩

theorem takesItems_values (hfields : Every (fun f => f.codec.Agrees) fields) {src : Source}
    {ts : List Tree} {vs : List Value} (hvs : List.Forall₂ (fun t v => value? src t = some v) ts vs)
    {contents : Contents types} (h : TakesItems src fields ts contents) :
    TakesItems .value fields (vs.map fun v => v.json.toTree) contents := by
  induction types generalizing ts vs with
  | nil =>
    cases h
    cases hvs
    rfl
  | cons α types ih =>
    obtain ⟨f, fs, rfl⟩ := fields.exists_cons
    obtain ⟨a, rest, rfl⟩ := contents.exists_cons
    cases hvs with
    | nil => exact ⟨h.1, ih hfields.2 .nil h.2⟩
    | cons hv hvs => exact ⟨hfields.1.value_of_tree hv h.1, ih hfields.2 hvs h.2⟩

theorem takesItems_trees (hfields : Every (fun f => f.codec.Agrees) fields) {src : Source}
    {ts : List Tree} {vs : List Value} (hvs : List.Forall₂ (fun t v => value? src t = some v) ts vs)
    (hn : NoRepeatsItems ts) {contents : Contents types}
    (h : TakesItems .value fields (vs.map fun v => v.json.toTree) contents) :
    TakesItems src fields ts contents := by
  induction types generalizing ts vs with
  | nil =>
    cases hvs with
    | nil => rfl
    | cons hv hvs => cases h
  | cons α types ih =>
    obtain ⟨f, fs, rfl⟩ := fields.exists_cons
    obtain ⟨a, rest, rfl⟩ := contents.exists_cons
    cases hvs with
    | nil => exact ⟨h.1, ih hfields.2 .nil hn h.2⟩
    | cons hv hvs => exact ⟨hfields.1.tree_of_value hv hn.1 h.1, ih hfields.2 hvs hn.2 h.2⟩

end Fields

theorem Json.passable_treesOfMembers (names : List String) (ms : List (String × Json)) :
    Passable names (treesOfMembers ms) := by
  intro m hm
  rw [treesOfMembers_eq_map] at hm
  obtain ⟨m', -, rfl⟩ := List.mem_map.mp hm
  exact ⟨m'.1, rfl, fun _ => intact_of_value? (value?_value m'.2)⟩

theorem Value.passable_members (names : List String) (d : Dict Value) :
    Passable names (members d) := by
  have h := Json.passable_treesOfMembers names (d.entries.map fun e => (e.1, e.2.json))
  rwa [Json.treesOfMembers_eq_map, List.map_map] at h

namespace Codec.Agrees

theorem passable_of_entries? {src : Source} {d d' : Dict Value} {ms : List (Option String × Tree)}
    (h : entries? src d ms = some d') (names : List String) : Passable names ms := by
  intro m hm
  obtain ⟨k, v, hk, hv⟩ := exists_value?_of_mem h hm
  exact ⟨k, hk, fun _ => intact_of_value? hv⟩

theorem record_leaf {ρ : Type} (fmt : RecordFormat ρ) (src : Source) {t : Tree} (h : t.isLeaf) :
    (Codec.record fmt).decode src t = .error (t.mismatch (.record fmt.title)) := by
  cases t with
  | array ts => cases h
  | object ms => cases h
  | _ => rfl

theorem record {ρ : Type} {fmt : RecordFormat ρ} (hnames : (Fields.names fmt.fields).Nodup)
    (hfields : Fields.Every (fun f => f.codec.Agrees) fmt.fields) : (Codec.record fmt).Agrees where
  value_of_tree {src t v r} hv hr := by
    obtain ⟨ht, hl⟩ | ⟨inner, ts, vs, rfl, hinner, hvs, rfl⟩ | ⟨inner, ms, d, rfl, hinner, hd, rfl⟩ :=
      value?_cases hv
    · rw [record_leaf fmt src hl] at hr
      cases hr
    · obtain ⟨inner', contents, hopen, htakes, rfl⟩ := record_array_eq_ok_iff.mp hr
      obtain rfl := Except.ok.inj ((Source.open?_of_enter hinner).symm.trans hopen)
      rw [Value.toTree_array]
      exact record_array_eq_ok_iff.mpr
        ⟨.value, contents, rfl, Fields.takesItems_values hfields hvs htakes, rfl⟩
    · obtain ⟨inner', contents, hopen, -, htakes, rfl⟩ := (record_object_eq_ok_iff hnames).mp hr
      obtain rfl := Except.ok.inj ((Source.open?_of_enter hinner).symm.trans hopen)
      rw [Value.toTree_object]
      exact (record_object_eq_ok_iff hnames).mpr ⟨.value, contents, rfl,
        Value.passable_members _ d, Fields.takes_members_of_takes hfields hd htakes, rfl⟩
  tree_of_value {src t v r} hv hn hr := by
    obtain ⟨ht, hl⟩ | ⟨inner, ts, vs, rfl, hinner, hvs, rfl⟩ | ⟨inner, ms, d, rfl, hinner, hd, rfl⟩ :=
      value?_cases hv
    · rw [← ht, record_leaf fmt .value hl] at hr
      cases hr
    · rw [Value.toTree_array] at hr
      obtain ⟨inner', contents, hopen, htakes, rfl⟩ := record_array_eq_ok_iff.mp hr
      cases hopen
      exact record_array_eq_ok_iff.mpr ⟨inner, contents, Source.open?_of_enter hinner,
        Fields.takesItems_trees hfields hvs (noRepeats_array.mp hn) htakes, rfl⟩
    · rw [Value.toTree_object] at hr
      obtain ⟨inner', contents, hopen, -, htakes, rfl⟩ := (record_object_eq_ok_iff hnames).mp hr
      cases hopen
      exact (record_object_eq_ok_iff hnames).mpr ⟨inner, contents, Source.open?_of_enter hinner,
        passable_of_entries? hd _, Fields.takes_of_takes_members hfields hd hn htakes, rfl⟩

end Codec.Agrees

/-! ## Whole documents -/

namespace Codec

variable {α : Type} {c : Codec α} {text : String}

theorem ofText_eq_ok_iff {a : α} : c.ofText text = .ok a
    ↔ (Tree.ofText text).2 = true ∧ c.decode .newText (Tree.ofText text).1 = .ok a := by
  have hread : c.ofText text = c.decode .newText (Tree.ofText text).1 >>= fun a =>
      if (Tree.ofText text).2 then pure a else throw .malformed := rfl
  rw [hread, Except.bind_eq_ok]
  constructor
  · rintro ⟨b, hb, h⟩
    split at h
    · rename_i hend
      cases h
      exact ⟨hend, hb⟩
    · cases h
  · rintro ⟨hend, ha⟩
    exact ⟨a, ha, if_pos hend⟩

/-- The value of a text is the value of its tree. -/
theorem value_ofText_eq_ok_iff {v : Value} : value.ofText text = .ok v
    ↔ (Tree.ofText text).2 = true ∧ (Tree.ofText text).1.value? .newText = some v := by
  rw [ofText_eq_ok_iff]
  refine and_congr_right fun _ => ?_
  unfold value
  dsimp only
  cases (Tree.ofText text).1.value? .newText with
  | none => exact ⟨(fun h => by cases h), fun h => by cases h⟩
  | some w => rw [Except.ok.injEq, Option.some_inj]

/-- The text of a document has the value of the document, unless it nests too deeply. -/
theorem value_ofText_text (layout : Layout) (j : Json) : value.ofText (j.text layout)
    = if j.depth ≤ 127 then .ok j.toValue else .error .malformed := by
  have hread : value.ofText (j.text layout) = value.decode .newText j.toTree >>= fun a =>
      if true then pure a else throw .malformed := by
    rw [ofText, Tree.ofText_text]
  have hadmits : Source.newText.Admits j.depth ↔ j.depth ≤ 127 := Iff.rfl
  rw [hread, value_decode, Json.value?_toTree]
  by_cases h : j.depth ≤ 127
  · rw [if_pos h, if_pos (hadmits.mpr h)]
    rfl
  · rw [if_neg h, if_neg (mt hadmits.mp h)]
    rfl

/-- What is written as text has the value that is written, unless it nests too deeply. -/
theorem Faithful.value_ofText (hc : c.Faithful) (layout : Layout) {a : α}
    (h : (c.toValue a).json.depth ≤ 127) :
    Codec.value.ofText (c.text layout a) = .ok (c.toValue a) := by
  have hdepth : (c.encode a).depth ≤ 127 := (hc.distinct a).depth_toValue ▸ h
  rw [Codec.text, value_ofText_text, if_pos hdepth, Codec.toValue]

/-- What is written as text repeats no key. -/
theorem Faithful.noRepeats_text (hc : c.Faithful) (layout : Layout) (a : α) :
    (Tree.ofText (c.text layout a)).1.NoRepeats := by
  rw [Codec.text, Tree.ofText_text]
  exact (hc.distinct a).noRepeats

namespace Agrees

/-- What is written as a value reads back. -/
theorem ofValue_toValue (hc : c.Agrees) (hf : c.Faithful) (a : α) :
    c.ofValue (c.toValue a) = .ok a :=
  hc.value_of_tree (Json.value?_value (c.encode a))
    ((hf.decode_encode .value a).trans (if_pos trivial))

theorem ofValue_of_ofText (hc : c.Agrees) {v : Value} {a : α} (hv : Codec.value.ofText text = .ok v)
    (ha : c.ofText text = .ok a) : c.ofValue v = .ok a :=
  hc.value_of_tree (value_ofText_eq_ok_iff.mp hv).2 (ofText_eq_ok_iff.mp ha).2

theorem ofText_of_ofValue (hc : c.Agrees) {v : Value} {a : α} (hv : Codec.value.ofText text = .ok v)
    (hn : (Tree.ofText text).1.NoRepeats) (ha : c.ofValue v = .ok a) : c.ofText text = .ok a := by
  obtain ⟨hend, hv⟩ := value_ofText_eq_ok_iff.mp hv
  exact ofText_eq_ok_iff.mpr ⟨hend, hc.tree_of_value hv hn ha⟩

end Agrees

end Codec

end AudioScore
