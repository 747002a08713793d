import AudioScore.Proofs.Codec.Members
import AudioScore.Proofs.Json.Depth

/-!
# Trees and their values

How the value of a tree depends on the trees below it, with members in any order and with
repeated keys.

* `Tree.value?_cases`: a tree with a value is a leaf, an array or an object.
* `Tree.get?_entries?`: of the members with one key the last one gives the entry.
* `Tree.intact_of_value?`: a tree with a value has no broken leaf.
* `Tree.NoRepeats`: no object repeats a key.
-/

namespace AudioScore

namespace Tree

/-! ## Layers -/

theorem values?_eq_some_iff {src : Source} {ts : List Tree} {vs : List Value} :
    values? src ts = some vs ↔ List.Forall₂ (fun t v => t.value? src = some v) ts vs := by
  induction ts generalizing vs with
  | nil =>
    rw [values?, List.forall₂_nil_left_iff, Option.some_inj, eq_comm]
  | cons t ts ih =>
    rw [values?, Option.bind_eq_bind, Option.bind_eq_some_iff]
    constructor
    · rintro ⟨v, hv, h⟩
      obtain ⟨rest, hrest, hvs⟩ := Option.bind_eq_some_iff.mp h
      cases hvs
      exact .cons hv (ih.mp hrest)
    · intro h
      cases h with
      | cons hv hrest => exact ⟨_, hv, Option.bind_eq_some_iff.mpr ⟨_, ih.mpr hrest, rfl⟩⟩

theorem entries?_cons_eq_some_iff {src : Source} {d d' : Dict Value} {key : Option String} {t : Tree}
    {ms : List (Option String × Tree)} :
    entries? src d ((key, t) :: ms) = some d' ↔ ∃ k v, key = some k ∧ t.value? src = some v ∧
      entries? src (d.insert k v) ms = some d' := by
  rw [entries?, Option.bind_eq_bind, Option.bind_eq_some_iff]
  constructor
  · rintro ⟨k, hk, h⟩
    obtain ⟨v, hv, h⟩ := Option.bind_eq_some_iff.mp h
    exact ⟨k, v, hk, hv, h⟩
  · rintro ⟨k, v, hk, hv, h⟩
    exact ⟨k, hk, Option.bind_eq_some_iff.mpr ⟨v, hv, h⟩⟩

/-- Whether a tree opens no bracket. -/
def isLeaf : Tree → Bool
  | .array _ | .object _ => false
  | _ => true

/-- A tree with a value is a leaf, an array whose items have values, or an object whose members
make up a dictionary. -/
theorem value?_cases {src : Source} {t : Tree} {v : Value} (h : t.value? src = some v) :
    (t = v.json.toTree ∧ t.isLeaf) ∨
    (∃ inner ts vs, t = .array ts ∧ src.enter = some inner ∧
      List.Forall₂ (fun t v => t.value? inner = some v) ts vs ∧ v = .array vs) ∨
    ∃ inner ms d, t = .object ms ∧ src.enter = some inner ∧
      entries? inner .empty ms = some d ∧ v = .object d := by
  cases t with
  | null =>
    cases h
    exact .inl ⟨rfl, rfl⟩
  | boolean b =>
    cases h
    exact .inl ⟨rfl, rfl⟩
  | number n =>
    obtain ⟨n, rfl, rfl⟩ := Option.map_eq_some_iff.mp h
    exact .inl ⟨rfl, rfl⟩
  | string s =>
    obtain ⟨s, rfl, rfl⟩ := Option.map_eq_some_iff.mp h
    exact .inl ⟨rfl, rfl⟩
  | array ts =>
    obtain ⟨inner, hinner, h⟩ := Option.bind_eq_some_iff.mp h
    obtain ⟨vs, hvs, h⟩ := Option.bind_eq_some_iff.mp h
    cases h
    exact .inr (.inl ⟨inner, ts, vs, rfl, hinner, values?_eq_some_iff.mp hvs, rfl⟩)
  | object ms =>
    obtain ⟨inner, hinner, h⟩ := Option.bind_eq_some_iff.mp h
    obtain ⟨d, hd, h⟩ := Option.bind_eq_some_iff.mp h
    cases h
    exact .inr (.inr ⟨inner, ms, d, rfl, hinner, hd, rfl⟩)
  | broken => cases h

/-! ## Members by key -/

/-- Of the members with one key the last one gives the entry. -/
theorem get?_entries? {src : Source} {d d' : Dict Value} {ms : List (Option String × Tree)}
    (h : entries? src d ms = some d') (k : String) :
    d'.get? k = match (under k ms).getLast? with
      | none => d.get? k
      | some t => t.value? src := by
  induction ms generalizing d with
  | nil =>
    cases h
    rfl
  | cons m ms ih =>
    obtain ⟨key, t⟩ := m
    obtain ⟨key, v, rfl, hv, h⟩ := entries?_cons_eq_some_iff.mp h
    rw [ih h]
    by_cases hkey : key = k
    · subst hkey
      rw [under_cons_self, List.getLast?_cons]
      cases (under key ms).getLast? with
      | none => simp [Dict.get?_insert, hv]
      | some t' => rfl
    · rw [under_cons_of_ne (m := (some key, t)) fun heq => hkey (Option.some.inj heq),
        Dict.get?_insert, if_neg (Ne.symm hkey)]

theorem exists_value?_of_mem {src : Source} {d d' : Dict Value} {ms : List (Option String × Tree)}
    (h : entries? src d ms = some d') {m : Option String × Tree} (hm : m ∈ ms) :
    ∃ k v, m.1 = some k ∧ m.2.value? src = some v := by
  induction ms generalizing d with
  | nil => cases hm
  | cons m' ms ih =>
    obtain ⟨k, v, hk, hv, h⟩ := entries?_cons_eq_some_iff.mp h
    rcases List.mem_cons.mp hm with rfl | hm
    · exact ⟨k, v, hk, hv⟩
    · exact ih h hm

theorem mem_under {k : String} {t : Tree} {ms : List (Option String × Tree)} :
    t ∈ under k ms ↔ (some k, t) ∈ ms := by
  rw [under, List.mem_filterMap]
  constructor
  · rintro ⟨⟨key, t'⟩, hm, h⟩
    obtain ⟨rfl, rfl⟩ : key = some k ∧ t' = t := by simpa using h
    exact hm
  · intro h
    exact ⟨_, h, if_pos rfl⟩

theorem get?_of_under_nil {src : Source} {d : Dict Value} {ms : List (Option String × Tree)}
    (h : entries? src .empty ms = some d) {k : String} (hk : under k ms = []) :
    d.get? k = none := by
  rw [get?_entries? h, hk]
  rfl

theorem get?_of_under_singleton {src : Source} {d : Dict Value} {ms : List (Option String × Tree)}
    (h : entries? src .empty ms = some d) {k : String} {t : Tree} (hk : under k ms = [t]) :
    ∃ v, t.value? src = some v ∧ d.get? k = some v := by
  have hmem : (some k, t) ∈ ms := mem_under.mp (by rw [hk]; exact List.mem_singleton_self t)
  obtain ⟨-, v, -, hv⟩ := exists_value?_of_mem h hmem
  refine ⟨v, hv, ?_⟩
  rw [get?_entries? h, hk]
  exact hv

/-- Members with distinct keys have at most one tree under each. -/
theorem under_of_nodup {β : Type} (g : β → Tree) {es : List (String × β)}
    (h : (es.map Prod.fst).Nodup) (k : String) :
    under k (es.map fun e => (some e.1, g e.2)) = ((es.lookup k).map g).toList := by
  induction es with
  | nil => rfl
  | cons e es ih =>
    obtain ⟨key, b⟩ := e
    rw [List.map_cons, List.nodup_cons] at h
    rw [List.map_cons, Dict.lookup_cons_ite]
    by_cases hkey : k = key
    · subst hkey
      have hnone : es.lookup k = none := by
        rw [List.lookup_eq_none_iff]
        intro p hp
        simp only [bne_iff_ne, ne_eq]
        rintro rfl
        exact h.1 (List.mem_map.mpr ⟨p, hp, rfl⟩)
      rw [under_cons_self, ih h.2, hnone, if_pos rfl]
      rfl
    · rw [under_cons_of_ne (m := (some key, g b)) fun heq => hkey (Option.some.inj heq).symm,
        ih h.2, if_neg hkey]

/-! ## Broken leaves -/

mutual

/-- A tree with a value has no broken leaf. -/
theorem intact_of_value? {src : Source} {t : Tree} {v : Value} (h : t.value? src = some v) :
    t.intact := by
  match t with
  | .null | .boolean _ | .number _ | .string _ => rfl
  | .array ts =>
    obtain ⟨inner, -, h⟩ := Option.bind_eq_some_iff.mp h
    obtain ⟨vs, hvs, -⟩ := Option.bind_eq_some_iff.mp h
    exact intactItems_of_values? hvs
  | .object ms =>
    obtain ⟨inner, -, h⟩ := Option.bind_eq_some_iff.mp h
    obtain ⟨d, hd, -⟩ := Option.bind_eq_some_iff.mp h
    exact intactMembers_of_entries? hd
termination_by structural t

theorem intactItems_of_values? {src : Source} {ts : List Tree} {vs : List Value}
    (h : values? src ts = some vs) : intactItems ts := by
  match ts with
  | [] => rfl
  | t :: ts =>
    obtain ⟨v, hv, h⟩ := Option.bind_eq_some_iff.mp h
    obtain ⟨rest, hrest, -⟩ := Option.bind_eq_some_iff.mp h
    rw [intactItems, intact_of_value? hv, intactItems_of_values? hrest]
    rfl
termination_by structural ts

theorem intactMembers_of_entries? {src : Source} {d d' : Dict Value}
    {ms : List (Option String × Tree)} (h : entries? src d ms = some d') : intactMembers ms := by
  match ms with
  | [] => rfl
  | (key, t) :: ms =>
    obtain ⟨k, v, -, hv, h⟩ := entries?_cons_eq_some_iff.mp h
    rw [intactMembers, intact_of_value? hv, intactMembers_of_entries? h]
    rfl
termination_by structural ms

end

/-! ## Repeated keys -/

mutual

/-- No object, at any depth, repeats a key. -/
def NoRepeats : Tree → Prop
  | .array items => NoRepeatsItems items
  | .object members => (members.map Prod.fst).Nodup ∧ NoRepeatsMembers members
  | _ => True
termination_by structural x => x

/-- No item repeats a key. -/
def NoRepeatsItems : List Tree → Prop
  | [] => True
  | x :: xs => x.NoRepeats ∧ NoRepeatsItems xs
termination_by structural x => x

/-- No value of a member repeats a key. -/
def NoRepeatsMembers : List (Option String × Tree) → Prop
  | [] => True
  | (_, x) :: ms => x.NoRepeats ∧ NoRepeatsMembers ms
termination_by structural x => x

end

theorem noRepeatsMembers_iff {ms : List (Option String × Tree)} :
    NoRepeatsMembers ms ↔ ∀ m ∈ ms, m.2.NoRepeats := by
  induction ms with
  | nil => simp [NoRepeatsMembers]
  | cons m ms ih => simp [NoRepeatsMembers, ih]

/-- Without repeated keys there is at most one member under each. -/
theorem length_under_le_one {ms : List (Option String × Tree)} (h : (ms.map Prod.fst).Nodup)
    (k : String) : (under k ms).length ≤ 1 := by
  induction ms with
  | nil => exact Nat.zero_le 1
  | cons m ms ih =>
    obtain ⟨key, t⟩ := m
    rw [List.map_cons, List.nodup_cons] at h
    by_cases hkey : key = some k
    · subst hkey
      have hnil : under k ms = [] := by
        refine List.filterMap_eq_nil_iff.mpr fun m hm => if_neg fun heq => h.1 ?_
        exact List.mem_map.mpr ⟨m, hm, heq⟩
      rw [under_cons_self, hnil]
      exact Nat.le_refl 1
    · rw [under_cons_of_ne (m := (key, t)) hkey]
      exact ih h.2

theorem under_of_mem {ms : List (Option String × Tree)} (h : (ms.map Prod.fst).Nodup) {k : String}
    {t : Tree} (hm : (some k, t) ∈ ms) : under k ms = [t] := by
  have hlength := length_under_le_one h k
  have hmem := mem_under.mpr hm
  match hu : under k ms with
  | [] =>
    rw [hu] at hmem
    cases hmem
  | [t'] =>
    rw [hu, List.mem_singleton] at hmem
    rw [hmem]
  | _ :: _ :: _ =>
    rw [hu] at hlength
    simp at hlength

end Tree

namespace Json

mutual

/-- The tree of a document without repeated keys repeats none. -/
theorem Distinct.noRepeats {j : Json} (h : j.Distinct) : j.toTree.NoRepeats := by
  match j with
  | .null | .boolean _ | .number _ | .string _ => trivial
  | .array xs => exact DistinctItems.noRepeats h
  | .object ms =>
    refine ⟨?_, DistinctMembers.noRepeats h.2⟩
    have hkeys : ((ms.map Prod.fst).map some).Nodup :=
      List.Pairwise.map some (fun a b hne heq => hne (Option.some.inj heq)) h.1
    rw [List.map_map] at hkeys
    rw [treesOfMembers_eq_map, List.map_map]
    exact hkeys
termination_by structural j

theorem DistinctItems.noRepeats {xs : List Json} (h : DistinctItems xs) :
    Tree.NoRepeatsItems (treesOfItems xs) := by
  match xs with
  | [] => trivial
  | x :: xs => exact ⟨h.1.noRepeats, DistinctItems.noRepeats h.2⟩
termination_by structural xs

theorem DistinctMembers.noRepeats {ms : List (String × Json)} (h : DistinctMembers ms) :
    Tree.NoRepeatsMembers (treesOfMembers ms) := by
  match ms with
  | [] => trivial
  | (k, x) :: ms => exact ⟨h.1.noRepeats, DistinctMembers.noRepeats h.2⟩
termination_by structural ms

end

end Json

namespace Tree

theorem noRepeats_array {ts : List Tree} : (array ts).NoRepeats ↔ NoRepeatsItems ts := Iff.rfl

theorem noRepeats_object {ms : List (Option String × Tree)} :
    (object ms).NoRepeats ↔ (ms.map Prod.fst).Nodup ∧ NoRepeatsMembers ms := Iff.rfl

-- Of a fixed text the property would otherwise be evaluated, scanner and all.
attribute [irreducible] NoRepeats

end Tree

end AudioScore
