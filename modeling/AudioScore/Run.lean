import AudioScore.Event

/-!
# Runs

A run of an operation has a result, which may be a failure, and the events that were reported on
the way. Runs compose in order, and what was reported before a failure stays reported.

* `Run.bind_ok`, `Run.bind_error`: one run after another.
-/

namespace AudioScore

/-- A result and the events reported before it. -/
structure Run (ε α : Type) where
  result : Except ε α
  events : List Event

namespace Run

variable {ε α β : Type}

/-- A run without events. -/
def ofExcept (r : Except ε α) : Run ε α := ⟨r, []⟩

/-- Reports an event. -/
def report (e : Event) : Run ε Unit := ⟨.ok (), [e]⟩

/-- Fails. -/
def fail (e : ε) : Run ε α := ⟨.error e, []⟩

/-- One run after another, unless the first one fails. -/
protected def bind (r : Run ε α) (f : α → Run ε β) : Run ε β :=
  match r.result with
  | .error e => ⟨.error e, r.events⟩
  | .ok a => ⟨(f a).result, r.events ++ (f a).events⟩

instance : Monad (Run ε) where
  pure a := ⟨.ok a, []⟩
  bind := Run.bind

theorem pure_def (a : α) : (pure a : Run ε α) = ⟨.ok a, []⟩ := rfl

theorem bind_ok (a : α) (es : List Event) (f : α → Run ε β) :
    ((⟨.ok a, es⟩ : Run ε α) >>= f) = ⟨(f a).result, es ++ (f a).events⟩ := rfl

theorem bind_error (e : ε) (es : List Event) (f : α → Run ε β) :
    ((⟨.error e, es⟩ : Run ε α) >>= f) = ⟨.error e, es⟩ := rfl

end Run

end AudioScore
