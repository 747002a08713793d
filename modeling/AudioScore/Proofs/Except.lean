import Mathlib.Data.List.Forall2

/-!
# Steps that succeed or fail

* `Except.bind_eq_ok`, `Except.map_eq_ok`, `Except.map_eq_error`: what came before an outcome.
* `Except.pair_eq_ok`, `Except.pair_eq_error`: two outcomes that are put together.
* `Except.mapM_eq_ok`: a list that is gone through with success, item by item.
* `First`, `Except.mapM_eq_error`: a list that is gone through up to its first item that fails.
* `Except.settleAll_eq`: changes in place, of which some fail.
-/

namespace AudioScore

universe u v

/-! ## First items -/

/-- Whether a list has an item with the property `Q`, and only items with the property `P` before
it. -/
def First {α : Type u} (P Q : α → Prop) (xs : List α) : Prop :=
  ∃ before x after, xs = before ++ x :: after ∧ (∀ y ∈ before, P y) ∧ Q x

section First

variable {α : Type u} {P Q : α → Prop} {x : α} {xs : List α}

theorem not_first_nil : ¬ First P Q [] := by
  rintro ⟨before, y, after, hsplit, -⟩
  cases before <;> cases hsplit

theorem first_cons : First P Q (x :: xs) ↔ Q x ∨ P x ∧ First P Q xs := by
  constructor
  · rintro ⟨before, y, after, hsplit, hbefore, hy⟩
    cases before with
    | nil =>
      cases hsplit
      exact .inl hy
    | cons z before =>
      cases hsplit
      obtain ⟨hz, hbefore⟩ := List.forall_mem_cons.mp hbefore
      exact .inr ⟨hz, before, y, after, rfl, hbefore, hy⟩
  · rintro (hx | ⟨hx, before, y, after, rfl, hbefore, hy⟩)
    · exact ⟨[], x, xs, rfl, fun z hz => absurd hz List.not_mem_nil, hx⟩
    · exact ⟨x :: before, y, after, rfl, List.forall_mem_cons.mpr ⟨hx, hbefore⟩, hy⟩

theorem first_map {β : Type v} {f : β → α} {ys : List β} :
    First P Q (ys.map f) ↔ First (fun y => P (f y)) (fun y => Q (f y)) ys := by
  induction ys with
  | nil => exact iff_of_false not_first_nil not_first_nil
  | cons y ys ih => rw [List.map_cons, first_cons, first_cons, ih]

theorem First.imp {P' Q' : α → Prop} (h : First P Q xs) (hP : ∀ y, P y → P' y)
    (hQ : ∀ y, Q y → Q' y) : First P' Q' xs := by
  obtain ⟨before, y, after, hsplit, hbefore, hy⟩ := h
  exact ⟨before, y, after, hsplit, fun z hz => hP z (hbefore z hz), hQ y hy⟩

end First

namespace Except

variable {ε δ α β : Type}

theorem bind_eq_ok {x : Except ε α} {f : α → Except ε β} {b : β} :
    x >>= f = .ok b ↔ ∃ a, x = .ok a ∧ f a = .ok b := by
  constructor
  · intro h
    cases x with
    | error e => cases h
    | ok a => exact ⟨a, rfl, h⟩
  · rintro ⟨a, rfl, h⟩
    exact h

theorem map_eq_ok {x : Except ε α} {f : α → β} {b : β} :
    x.map f = .ok b ↔ ∃ a, x = .ok a ∧ f a = b := by
  constructor
  · intro h
    cases x with
    | error e => cases h
    | ok a => exact ⟨a, rfl, Except.ok.inj h⟩
  · rintro ⟨a, rfl, rfl⟩
    rfl

theorem map_eq_error {x : Except ε α} {f : α → β} {e : ε} : x.map f = .error e ↔ x = .error e := by
  cases x <;> simp [Except.map]

theorem mapError_eq_ok {x : Except ε α} {f : ε → δ} {a : α} :
    x.mapError f = .ok a ↔ x = .ok a := by
  cases x <;> simp [Except.mapError]

theorem not_exists_ok {e : ε} : ¬ ∃ a : α, Except.error e = .ok a := by
  rintro ⟨a, h⟩
  cases h

/-! ## Outcomes that are put together -/

/-- Two outcomes that are put together succeed exactly if both do. -/
theorem pair_eq_ok {ε : Type u} {α β γ : Type v} {x : Except ε α} {y : Except ε β}
    {f : α → β → γ} {c : γ} : (x >>= fun a => y >>= fun b => pure (f a b)) = .ok c ↔
      ∃ a b, x = .ok a ∧ y = .ok b ∧ f a b = c := by
  constructor
  · intro h
    cases x with
    | error e => cases h
    | ok a =>
      cases y with
      | error e => cases h
      | ok b => exact ⟨a, b, rfl, rfl, Except.ok.inj h⟩
  · rintro ⟨a, b, rfl, rfl, rfl⟩
    rfl

theorem exists_pair_iff {ε : Type u} {α β γ : Type v} {x : Except ε α} {y : Except ε β}
    {f : α → β → γ} : (∃ c, (x >>= fun a => y >>= fun b => pure (f a b)) = .ok c) ↔
      (∃ a, x = .ok a) ∧ ∃ b, y = .ok b := by
  constructor
  · rintro ⟨c, h⟩
    obtain ⟨a, b, ha, hb, -⟩ := pair_eq_ok.mp h
    exact ⟨⟨a, ha⟩, b, hb⟩
  · rintro ⟨⟨a, ha⟩, b, hb⟩
    exact ⟨f a b, pair_eq_ok.mpr ⟨a, b, ha, hb, rfl⟩⟩

/-- Two outcomes that are put together fail as the first one does, or as the second one does after
the first one has succeeded. -/
theorem pair_eq_error {ε : Type u} {α β γ : Type v} {x : Except ε α} {y : Except ε β}
    {f : α → β → γ} {e : ε} : (x >>= fun a => y >>= fun b => pure (f a b)) = .error e ↔
      x = .error e ∨ (∃ a, x = .ok a) ∧ y = .error e := by
  cases x with
  | error d =>
    constructor
    · intro h
      cases h
      exact .inl rfl
    · rintro (h | ⟨⟨a, h⟩, -⟩)
      · cases h
        rfl
      · cases h
  | ok a =>
    have hright : (y >>= fun b => pure (f a b)) = .error e ↔ y = .error e := by
      cases y with
      | error d =>
        constructor <;> intro h <;> cases h <;> rfl
      | ok b =>
        constructor <;> intro h <;> cases h
    refine hright.trans ⟨fun h => .inr ⟨⟨a, rfl⟩, h⟩, ?_⟩
    rintro (h | ⟨-, h⟩)
    · cases h
    · exact h

/-! ## Lists -/

theorem mapM_eq_ok {f : α → Except ε β} {xs : List α} {ys : List β} :
    xs.mapM f = .ok ys ↔ List.Forall₂ (fun x y => f x = .ok y) xs ys := by
  induction xs generalizing ys with
  | nil =>
    rw [List.mapM_nil, List.forall₂_nil_left_iff]
    exact ⟨fun h => (Except.ok.inj h).symm, fun h => by rw [h]; rfl⟩
  | cons x xs ih =>
    rw [List.mapM_cons, pair_eq_ok, List.forall₂_cons_left_iff]
    exact exists₂_congr fun y rest => and_congr_right fun _ => and_congr ih eq_comm

theorem exists_mapM_iff {f : α → Except ε β} {xs : List α} :
    (∃ ys, xs.mapM f = .ok ys) ↔ ∀ x ∈ xs, ∃ y, f x = .ok y := by
  induction xs with
  | nil => exact ⟨fun _ x hx => absurd hx List.not_mem_nil, fun _ => ⟨[], rfl⟩⟩
  | cons x xs ih => rw [List.mapM_cons, exists_pair_iff, ih, List.forall_mem_cons]

/-- A list that is not gone through to its end stops at the first item that fails. -/
theorem mapM_eq_error {f : α → Except ε β} {xs : List α} {e : ε} : xs.mapM f = .error e ↔
    First (fun x => ∃ y, f x = .ok y) (fun x => f x = .error e) xs := by
  induction xs with
  | nil => exact iff_of_false (fun h => by cases h) not_first_nil
  | cons x xs ih => rw [List.mapM_cons, pair_eq_error, first_cons, ih]

/-! ## Changes in place -/

section Changes

variable {ε : Type} {σ : Type v} {α : Type u}

/-- Changes a state in place. Where the change fails, the state is the one that was there. -/
def settle (change : σ → Except ε σ) (s : σ) : Except ε Unit × σ :=
  match change s with
  | .ok t => (.ok (), t)
  | .error e => (.error e, s)

/-- Changes a state in place for one item after another, whether that succeeds or fails. -/
def settleAll (change : α → σ → Except ε σ) : List α → σ → List (Except ε Unit) × σ
  | [], s => ([], s)
  | x :: xs, s =>
    let (outcome, s) := settle (change x) s
    let (outcomes, s) := settleAll change xs s
    (outcome :: outcomes, s)

variable {change : α → σ → Except ε σ} {outcome : α → Except ε Unit} {next : σ → α → σ}

theorem settle_eq (h : ∀ x s, change x s = (outcome x).map fun _ => next s x) (x : α) (s : σ) :
    settle (change x) s = (outcome x, if (outcome x).isOk then next s x else s) := by
  rw [settle, h]
  cases outcome x <;> rfl

/-- Where each item alone decides whether its change succeeds, the state is what those make of it
that do. -/
theorem settleAll_eq (h : ∀ x s, change x s = (outcome x).map fun _ => next s x) (xs : List α)
    (s : σ) : settleAll change xs s
      = (xs.map outcome, (xs.filter fun x => (outcome x).isOk).foldl next s) := by
  induction xs generalizing s with
  | nil => rfl
  | cons x xs ih =>
    simp only [settleAll, settle_eq h, ih, List.map_cons, List.filter_cons]
    cases outcome x <;> rfl

end Changes

end Except

end AudioScore
