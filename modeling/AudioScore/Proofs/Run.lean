import AudioScore.Proofs.Except
import AudioScore.Run

/-!
# Runs of several operations

The result of a run of several operations depends on the results of each, and not on what they
report. What is reported is what the operations report that are carried out.

* `Run.result_bind`, `Run.result_mapM`: one operation after another, and a list of them.
* `Run.events_mapM`, `Run.events_mapM_of_error`: what is reported for a list of operations.
-/

namespace AudioScore

namespace Run

variable {ε α β : Type}

theorem ext {r s : Run ε α} (hresult : r.result = s.result) (hevents : r.events = s.events) :
    r = s := by
  obtain ⟨a, es⟩ := r
  obtain ⟨b, fs⟩ := s
  cases hresult
  cases hevents
  rfl

theorem result_bind (r : Run ε α) (f : α → Run ε β) :
    (r >>= f).result = r.result >>= fun a => (f a).result := by
  obtain ⟨result, es⟩ := r
  cases result <;> rfl

theorem result_ofExcept (r : Except ε α) : (ofExcept r).result = r := rfl

instance : LawfulMonad (Run ε) := LawfulMonad.mk' (Run ε)
  (by
    intro α r
    obtain ⟨result, es⟩ := r
    cases result with
    | error e => rfl
    | ok a => exact ext rfl (List.append_nil es))
  (by
    intro α β a f
    exact ext rfl (List.nil_append _))
  (by
    intro α β γ r f g
    obtain ⟨result, es⟩ := r
    cases result with
    | error e => rfl
    | ok a =>
      rw [bind_ok, bind_ok]
      cases h : f a with
      | mk result fs =>
        cases result with
        | error e => rfl
        | ok b => exact ext rfl (List.append_assoc ..))

/-- A list is gone through as its results are. -/
theorem result_mapM (f : α → Run ε β) (xs : List α) :
    (xs.mapM f).result = xs.mapM fun x => (f x).result := by
  induction xs with
  | nil => rfl
  | cons x xs ih =>
    rw [List.mapM_cons, List.mapM_cons, result_bind, ← ih]
    refine congrArg _ (funext fun y => ?_)
    rw [result_bind]
    rfl

/-! ## Events -/

theorem events_bind_of_ok {r : Run ε α} {a : α} (h : r.result = .ok a) (f : α → Run ε β) :
    (r >>= f).events = r.events ++ (f a).events := by
  obtain ⟨result, es⟩ := r
  cases h
  rfl

theorem events_bind_of_error {r : Run ε α} {e : ε} (h : r.result = .error e) (f : α → Run ε β) :
    (r >>= f).events = r.events := by
  obtain ⟨result, es⟩ := r
  cases h
  rfl

theorem events_bind_pure (r : Run ε α) (f : α → β) :
    (r >>= fun a => pure (f a)).events = r.events := by
  cases h : r.result with
  | ok a => rw [events_bind_of_ok h, pure_def, List.append_nil]
  | error e => exact events_bind_of_error h _

/-- A list that is gone through to its end reports what is reported for each item. -/
theorem events_mapM {f : α → Run ε β} {xs : List α} (h : ∀ x ∈ xs, ∃ y, (f x).result = .ok y) :
    (xs.mapM f).events = xs.flatMap fun x => (f x).events := by
  induction xs with
  | nil => rfl
  | cons x xs ih =>
    obtain ⟨⟨y, hy⟩, hxs⟩ := List.forall_mem_cons.mp h
    rw [List.mapM_cons, events_bind_of_ok hy, events_bind_pure, ih hxs, List.flatMap_cons]

/-- A list that is gone through up to an item that fails reports nothing for those after it. -/
theorem events_mapM_of_error {f : α → Run ε β} {before : List α} {x : α} {e : ε}
    (hbefore : ∀ y ∈ before, ∃ z, (f y).result = .ok z) (hx : (f x).result = .error e)
    (after : List α) :
    ((before ++ x :: after).mapM f).events = (before ++ [x]).flatMap fun x => (f x).events := by
  induction before with
  | nil =>
    rw [List.nil_append, List.nil_append, List.mapM_cons, events_bind_of_error hx,
      List.flatMap_singleton]
  | cons y before ih =>
    obtain ⟨⟨z, hz⟩, hbefore⟩ := List.forall_mem_cons.mp hbefore
    rw [List.cons_append, List.cons_append, List.mapM_cons, events_bind_of_ok hz, events_bind_pure,
      ih hbefore, List.flatMap_cons]

end Run

end AudioScore
