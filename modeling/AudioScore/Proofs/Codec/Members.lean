import AudioScore.Proofs.Codec.Record
import AudioScore.Proofs.Except

/-!
# Records, whatever the order of their members

A record is read from the members of an object exactly if each field takes its content from the
members with its name, and what names no field can be passed over. From an array each field takes
at most one item. In both forms a field takes a list of at most one tree.

* `Field.Takes`: what a field makes of the trees that stand for it.
* `Fields.fillAll_finish_eq_ok_iff`: records from objects.
* `Fields.ofItems_eq_ok_iff`: records from arrays.
* `Codec.record_object_eq_ok_iff`, `Codec.record_array_eq_ok_iff`: the form of a record.
-/

namespace AudioScore

/-! ## Members with a key -/

namespace Tree

/-- The trees of the members with a key, in order. -/
def under (key : String) (ms : List (Option String × Tree)) : List Tree :=
  ms.filterMap fun m => if m.1 = some key then some m.2 else none

theorem under_cons_self (key : String) (t : Tree) (ms : List (Option String × Tree)) :
    under key ((some key, t) :: ms) = t :: under key ms :=
  List.filterMap_cons_some (if_pos rfl)

theorem under_cons_of_ne {key : String} {m : Option String × Tree} (h : m.1 ≠ some key)
    (ms : List (Option String × Tree)) : under key (m :: ms) = under key ms :=
  List.filterMap_cons_none (if_neg h)

theorem under_append (key : String) (ms ns : List (Option String × Tree)) :
    under key (ms ++ ns) = under key ms ++ under key ns :=
  List.filterMap_append

/-- The members without a key. -/
def others (key : String) (ms : List (Option String × Tree)) : List (Option String × Tree) :=
  ms.filter fun m => m.1 ≠ some key

theorem others_cons_self (key : String) (t : Tree) (ms : List (Option String × Tree)) :
    others key ((some key, t) :: ms) = others key ms :=
  List.filter_cons_of_neg (by simp)

theorem others_cons_of_ne {key : String} {m : Option String × Tree} (h : m.1 ≠ some key)
    (ms : List (Option String × Tree)) : others key (m :: ms) = m :: others key ms :=
  List.filter_cons_of_pos (by simpa using h)

theorem under_others {key name : String} (h : name ≠ key) (ms : List (Option String × Tree)) :
    under name (others key ms) = under name ms := by
  induction ms with
  | nil => rfl
  | cons m ms ih =>
    by_cases hkey : m.1 = some key
    · have hname : m.1 ≠ some name := by
        rw [hkey]
        exact fun heq => h (Option.some.inj heq).symm
      rw [under_cons_of_ne hname, ← ih]
      obtain ⟨k, t⟩ := m
      cases hkey
      rw [others_cons_self]
    · rw [others_cons_of_ne hkey]
      by_cases hname : m.1 = some name
      · obtain ⟨k, t⟩ := m
        cases hname
        rw [under_cons_self, under_cons_self, ih]
      · rw [under_cons_of_ne hname, under_cons_of_ne hname, ih]

end Tree

/-- Every member has a key, and those whose key is not among the names have no broken leaf. -/
def Passable (names : List String) (ms : List (Option String × Tree)) : Prop :=
  ∀ m ∈ ms, ∃ key, m.1 = some key ∧ (key ∉ names → m.2.intact)

theorem passable_cons {name : String} {names : List String} {ms : List (Option String × Tree)} :
    Passable (name :: names) ms ↔ Passable names (Tree.others name ms) := by
  constructor
  · intro h m hm
    obtain ⟨hm, hne⟩ := List.mem_filter.mp hm
    obtain ⟨key, hkey, hintact⟩ := h m hm
    refine ⟨key, hkey, fun hnot => hintact fun hmem => ?_⟩
    rcases List.mem_cons.mp hmem with rfl | hmem
    · simp [hkey] at hne
    · exact hnot hmem
  · intro h m hm
    by_cases hname : m.1 = some name
    · exact ⟨name, hname, fun hnot => absurd (List.mem_cons_self ..) hnot⟩
    · obtain ⟨key, hkey, hintact⟩ := h m (List.mem_filter.mpr ⟨hm, by simpa using hname⟩)
      exact ⟨key, hkey, fun hnot => hintact fun hmem => hnot (List.mem_cons_of_mem _ hmem)⟩

/-! ## Fields -/

/-- What a field makes of the trees that stand for it: one is read, and without any the content
is what absence stands for. -/
def Field.Takes {α : Type} (f : Field α) (src : Source) : List Tree → α → Prop
  | [], a => f.absent = some a
  | [t], a => f.codec.decode src t = .ok a
  | _, _ => False

namespace Fields

variable {α : Type} {types : List Type}

/-- Each field takes its content from the members with its name. -/
def Takes (src : Source) (ms : List (Option String × Tree)) :
    {types : List Type} → Row Field types → Contents types → Prop
  | [], _, _ => True
  | _ :: _, (f, fs), (a, rest) => f.Takes src (Tree.under f.name ms) a ∧ Takes src ms fs rest

/-- Each field takes its content from the item at its place. -/
def TakesItems (src : Source) : {types : List Type} → Row Field types → List Tree →
    Contents types → Prop
  | [], _, ts, _ => ts = []
  | _ :: _, (f, fs), ts, (a, rest) => f.Takes src (ts.take 1) a ∧ TakesItems src fs ts.tail rest

theorem takes_cons {src : Source} {ms : List (Option String × Tree)} {f : Field α}
    {fs : Row Field types} {a : α} {rest : Contents types} :
    Takes src ms (Row.cons f fs) (Row.cons a rest)
      ↔ f.Takes src (Tree.under f.name ms) a ∧ Takes src ms fs rest := Iff.rfl

theorem takesItems_cons {src : Source} {ts : List Tree} {f : Field α}
    {fs : Row Field types} {a : α} {rest : Contents types} :
    TakesItems src (Row.cons f fs) ts (Row.cons a rest)
      ↔ f.Takes src (ts.take 1) a ∧ TakesItems src fs ts.tail rest := Iff.rfl

theorem takes_congr {src : Source} {ms ms' : List (Option String × Tree)} {fields : Row Field types}
    (h : ∀ name ∈ names fields, Tree.under name ms = Tree.under name ms')
    (contents : Contents types) : Takes src ms fields contents ↔ Takes src ms' fields contents := by
  induction types with
  | nil => exact Iff.rfl
  | cons α types ih =>
    obtain ⟨f, fs, rfl⟩ := fields.exists_cons
    obtain ⟨a, rest, rfl⟩ := contents.exists_cons
    rw [names_cons] at h
    rw [takes_cons, takes_cons, h f.name (List.mem_cons_self ..),
      ih (fun name hname => h name (List.mem_cons_of_mem _ hname)) rest]

/-! ## Objects -/

/-- What becomes of one slot: it is filled by the first tree, and a second one is refused. -/
def Fills (f : Field α) (src : Source) : Option α → List Tree → Option α → Prop
  | slot, [], slot' => slot' = slot
  | none, t :: ts, slot' => ∃ a, f.codec.decode src t = .ok a ∧ Fills f src (some a) ts slot'
  | some _, _ :: _, _ => False

theorem fills_some {f : Field α} {src : Source} {a : α} {ts : List Tree} {slot : Option α} :
    Fills f src (some a) ts slot ↔ ts = [] ∧ slot = some a := by
  cases ts with
  | nil => simp [Fills]
  | cons t ts => simp [Fills]

/-- A filled or an empty slot gives a content exactly if the field takes it. -/
theorem exists_fills_iff {f : Field α} {src : Source} {ts : List Tree} {a : α} :
    (∃ slot, Fills f src none ts slot ∧ slot.or f.absent = some a) ↔ f.Takes src ts a := by
  match ts with
  | [] => simp [Fills, Field.Takes]
  | [t] => simp [Fills, Field.Takes]
  | t :: t' :: ts => simp [Fills, Field.Takes]

/-- The members fill the first slot and, apart from that, the others. -/
theorem fillAll_cons_eq_ok_iff (f : Field α) (fs : Row Field types) (src : Source)
    (ms : List (Option String × Tree)) (slot slot' : Option α) (slots slots' : Slots types) :
    fillAll (Row.cons f fs) src (Row.cons slot slots) ms = .ok (Row.cons slot' slots')
      ↔ Fills f src slot (Tree.under f.name ms) slot' ∧
        fillAll fs src slots (Tree.others f.name ms) = .ok slots' := by
  induction ms generalizing slot slots with
  | nil =>
    change Except.ok (Row.cons slot slots) = _ ↔ slot' = slot ∧ Except.ok slots = _
    rw [Except.ok.injEq, Except.ok.injEq, Row.cons_inj, eq_comm (a := slot)]
  | cons m ms ih =>
    obtain ⟨key, t⟩ := m
    cases key with
    | none =>
      rw [Tree.others_cons_of_ne (fun h => by cases h)]
      constructor
      · intro h
        cases h
      · rintro ⟨-, h⟩
        cases h
    | some key =>
      by_cases hkey : key = f.name
      · subst hkey
        rw [Tree.under_cons_self, Tree.others_cons_self, fillAll_cons]
        cases slot with
        | none =>
          rw [fill_first, Except.bind_eq_ok]
          constructor
          · rintro ⟨row, hrow, hrest⟩
            obtain ⟨a, ha, rfl⟩ := Except.map_eq_ok.mp hrow
            obtain ⟨hslot, hslots⟩ := (ih (some a) slots).mp hrest
            exact ⟨⟨a, ha, hslot⟩, hslots⟩
          · rintro ⟨⟨a, ha, hslot⟩, hslots⟩
            exact ⟨_, Except.map_eq_ok.mpr ⟨a, ha, rfl⟩, (ih (some a) slots).mpr ⟨hslot, hslots⟩⟩
        | some a =>
          rw [fill_twice, fills_some]
          constructor
          · intro h
            cases h
          · rintro ⟨⟨h, -⟩, -⟩
            cases h
      · have hne : (some key, t).1 ≠ some f.name := fun h => hkey (Option.some.inj h)
        rw [Tree.under_cons_of_ne hne, Tree.others_cons_of_ne hne, fillAll_cons, fillAll_cons,
          fill_others hkey, Except.bind_eq_ok, Except.bind_eq_ok]
        constructor
        · rintro ⟨row, hrow, hrest⟩
          obtain ⟨slots'', hfill, rfl⟩ := Except.map_eq_ok.mp hrow
          obtain ⟨hslot, hslots⟩ := (ih slot slots'').mp hrest
          exact ⟨hslot, slots'', hfill, hslots⟩
        · rintro ⟨hslot, slots'', hfill, hslots⟩
          exact ⟨_, Except.map_eq_ok.mpr ⟨slots'', hfill, rfl⟩, (ih slot slots'').mpr ⟨hslot, hslots⟩⟩

/-- Without fields every member is passed over. -/
theorem fillAll_nil_eq_ok_iff (fields : Row Field []) (src : Source)
    (ms : List (Option String × Tree)) (slots slots' : Slots []) :
    fillAll fields src slots ms = .ok slots' ↔ Passable [] ms := by
  induction ms with
  | nil => exact ⟨fun _ m hm => absurd hm List.not_mem_nil, fun _ => rfl⟩
  | cons m ms ih =>
    obtain ⟨key, t⟩ := m
    cases key with
    | none =>
      constructor
      · intro h
        cases h
      · intro h
        obtain ⟨key, hkey, -⟩ := h _ (List.mem_cons_self ..)
        cases hkey
    | some key =>
      have hstep : fillAll fields src slots ((some key, t) :: ms)
          = t.skip >>= fun _ => fillAll fields src slots ms := by
        rw [fillAll_cons]
        change (t.skip >>= fun _ => pure slots) >>= _ = _
        cases t.skip <;> rfl
      rw [hstep, Except.bind_eq_ok]
      unfold Tree.skip
      constructor
      · rintro ⟨u, hskip, hrest⟩ m hm
        rcases List.mem_cons.mp hm with rfl | hm
        · refine ⟨key, rfl, fun _ => ?_⟩
          by_contra hbroken
          rw [if_neg hbroken] at hskip
          cases hskip
        · exact ih.mp hrest m hm
      · intro h
        obtain ⟨key', _, hintact⟩ := h _ (List.mem_cons_self ..)
        exact ⟨(), if_pos (hintact List.not_mem_nil),
          ih.mpr fun m hm => h m (List.mem_cons_of_mem _ hm)⟩

/-- A record is read from the members of an object exactly if each field takes its content from
the members with its name, and the other members can be passed over. -/
theorem fillAll_finish_eq_ok_iff {fields : Row Field types} (hnames : (names fields).Nodup)
    (src : Source) (ms : List (Option String × Tree)) (contents : Contents types) :
    (∃ slots, fillAll fields src (blank types) ms = .ok slots ∧ finish fields slots = .ok contents)
      ↔ Passable (names fields) ms ∧ Takes src ms fields contents := by
  induction types generalizing ms with
  | nil =>
    constructor
    · rintro ⟨slots, h, -⟩
      exact ⟨(fillAll_nil_eq_ok_iff ..).mp h, trivial⟩
    · rintro ⟨h, -⟩
      exact ⟨blank [], (fillAll_nil_eq_ok_iff ..).mpr h, rfl⟩
  | cons α types ih =>
    obtain ⟨f, fs, rfl⟩ := fields.exists_cons
    obtain ⟨a, rest, rfl⟩ := contents.exists_cons
    rw [names_cons] at hnames ⊢
    obtain ⟨hnot, hnames⟩ := List.nodup_cons.mp hnames
    have hunder : ∀ name ∈ names fs,
        Tree.under name (Tree.others f.name ms) = Tree.under name ms := by
      intro name hname
      refine Tree.under_others ?_ ms
      rintro rfl
      exact hnot hname
    rw [passable_cons, takes_cons, ← exists_fills_iff, ← takes_congr hunder rest, blank_cons]
    have hothers := ih hnames (Tree.others f.name ms) rest
    constructor
    · rintro ⟨row, hfill, hfinish⟩
      obtain ⟨slot, slots, rfl⟩ := row.exists_cons
      obtain ⟨hslot, hslots⟩ := (fillAll_cons_eq_ok_iff ..).mp hfill
      rw [finish_cons] at hfinish
      cases hcontent : slot.or f.absent with
      | none =>
        rw [hcontent] at hfinish
        cases hfinish
      | some b =>
        rw [hcontent] at hfinish
        obtain ⟨rest', hrest, hrow⟩ := Except.map_eq_ok.mp hfinish
        obtain ⟨rfl, rfl⟩ := Row.cons_inj.mp hrow
        obtain ⟨hpass, htakes⟩ := hothers.mp ⟨slots, hslots, hrest⟩
        exact ⟨hpass, ⟨slot, hslot, hcontent⟩, htakes⟩
    · rintro ⟨hpass, ⟨slot, hslot, hcontent⟩, htakes⟩
      obtain ⟨slots, hslots, hrest⟩ := hothers.mpr ⟨hpass, htakes⟩
      refine ⟨Row.cons slot slots, (fillAll_cons_eq_ok_iff ..).mpr ⟨hslot, hslots⟩, ?_⟩
      rw [finish_cons, hcontent]
      exact Except.map_eq_ok.mpr ⟨rest, hrest, rfl⟩

/-! ## Arrays -/

/-- What a first content and the contents after it are made of. -/
theorem bind_cons_eq_ok {α ε : Type} {r : Except ε (Contents types)} {a b : α}
    {rest : Contents types} :
    (r >>= fun rest => pure (Row.cons a rest) : Except ε (Contents (α :: types)))
      = .ok (Row.cons b rest) ↔ a = b ∧ r = .ok rest := by
  rw [Except.bind_eq_ok]
  constructor
  · rintro ⟨rest', hrest, hrow⟩
    obtain ⟨rfl, rfl⟩ := Row.cons_inj.mp (Except.ok.inj hrow)
    exact ⟨rfl, hrest⟩
  · rintro ⟨rfl, hrest⟩
    exact ⟨rest, hrest, rfl⟩

theorem ofItems_nil {α : Type} (title : String) (size : Nat) (src : Source) (f : Field α)
    (fs : Row Field types) (before : Nat) :
    ofItems title size src (Row.cons f fs) before [] =
      match f.absent with
      | none => .error (.data (.tooFewItems before title size))
      | some a => ofItems title size src fs before [] >>= fun rest => pure (Row.cons a rest) := rfl

/-- A record is read from the items of an array exactly if each field takes the item at its place,
or stands for its absence after the last one, and no item is left. -/
theorem ofItems_eq_ok_iff (title : String) (size : Nat) (src : Source) (fields : Row Field types)
    (before : Nat) (ts : List Tree) (contents : Contents types) :
    ofItems title size src fields before ts = .ok contents ↔ TakesItems src fields ts contents := by
  induction types generalizing before ts with
  | nil =>
    cases ts with
    | nil => exact ⟨fun _ => rfl, fun _ => rfl⟩
    | cons t ts =>
      constructor
      · intro h
        cases h
      · intro h
        cases h
  | cons α types ih =>
    obtain ⟨f, fs, rfl⟩ := fields.exists_cons
    obtain ⟨a, rest, rfl⟩ := contents.exists_cons
    rw [takesItems_cons]
    cases ts with
    | nil =>
      rw [ofItems_nil, List.take_nil, List.tail_nil, ← ih fs before []]
      change _ ↔ f.absent = some a ∧ _
      cases habsent : f.absent with
      | none =>
        constructor
        · intro h
          cases h
        · rintro ⟨h, -⟩
          cases h
      | some b =>
        dsimp only
        rw [bind_cons_eq_ok, Option.some_inj]
    | cons t ts =>
      have hstep : ofItems title size src (Row.cons f fs) before (t :: ts)
          = f.codec.decode src t >>= fun a =>
            ofItems title size src fs (before + 1) ts >>= fun rest => pure (Row.cons a rest) := rfl
      rw [hstep, Except.bind_eq_ok, List.tail_cons, ← ih fs (before + 1) ts]
      change _ ↔ f.codec.decode src t = .ok a ∧ _
      constructor
      · rintro ⟨b, hb, h⟩
        obtain ⟨rfl, hrest⟩ := bind_cons_eq_ok.mp h
        exact ⟨hb, hrest⟩
      · rintro ⟨ha, hrest⟩
        exact ⟨a, ha, bind_cons_eq_ok.mpr ⟨rfl, hrest⟩⟩

end Fields

/-! ## The form of a record -/

namespace Codec

variable {ρ : Type} {fmt : RecordFormat ρ}

theorem record_object_eq_ok_iff (hnames : (Fields.names fmt.fields).Nodup) {src : Source}
    {ms : List (Option String × Tree)} {r : ρ} :
    (record fmt).decode src (.object ms) = .ok r ↔ ∃ inner contents, src.open? = .ok inner ∧
      Passable (Fields.names fmt.fields) ms ∧ Fields.Takes inner ms fmt.fields contents ∧
      fmt.make contents = r := by
  have hdecode : (record fmt).decode src (.object ms) = src.open? >>= fun inner =>
      Fields.fillAll fmt.fields inner (Fields.blank fmt.types) ms >>= fun slots =>
      Fields.finish fmt.fields slots >>= fun contents => pure (fmt.make contents) := rfl
  rw [hdecode, Except.bind_eq_ok]
  constructor
  · rintro ⟨inner, hopen, h⟩
    obtain ⟨slots, hslots, h⟩ := Except.bind_eq_ok.mp h
    obtain ⟨contents, hcontents, h⟩ := Except.bind_eq_ok.mp h
    obtain ⟨hpass, htakes⟩ := (Fields.fillAll_finish_eq_ok_iff hnames inner ms contents).mp
      ⟨slots, hslots, hcontents⟩
    exact ⟨inner, contents, hopen, hpass, htakes, Except.ok.inj h⟩
  · rintro ⟨inner, contents, hopen, hpass, htakes, rfl⟩
    obtain ⟨slots, hslots, hcontents⟩ :=
      (Fields.fillAll_finish_eq_ok_iff hnames inner ms contents).mpr ⟨hpass, htakes⟩
    exact ⟨inner, hopen, Except.bind_eq_ok.mpr ⟨slots, hslots,
      Except.bind_eq_ok.mpr ⟨contents, hcontents, rfl⟩⟩⟩

theorem record_array_eq_ok_iff {src : Source} {ts : List Tree} {r : ρ} :
    (record fmt).decode src (.array ts) = .ok r ↔ ∃ inner contents, src.open? = .ok inner ∧
      Fields.TakesItems inner fmt.fields ts contents ∧ fmt.make contents = r := by
  have hdecode : (record fmt).decode src (.array ts) = src.open? >>= fun inner =>
      Fields.ofItems fmt.title fmt.types.length inner fmt.fields 0 ts >>= fun contents =>
      pure (fmt.make contents) := rfl
  rw [hdecode, Except.bind_eq_ok]
  constructor
  · rintro ⟨inner, hopen, h⟩
    obtain ⟨contents, hcontents, h⟩ := Except.bind_eq_ok.mp h
    exact ⟨inner, contents, hopen, (Fields.ofItems_eq_ok_iff ..).mp hcontents, Except.ok.inj h⟩
  · rintro ⟨inner, contents, hopen, htakes, rfl⟩
    exact ⟨inner, hopen, Except.bind_eq_ok.mpr
      ⟨contents, (Fields.ofItems_eq_ok_iff ..).mpr htakes, rfl⟩⟩

end Codec

end AudioScore
