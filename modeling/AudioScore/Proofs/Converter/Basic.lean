import AudioScore.Converter.Basic
import AudioScore.Proofs.Run

/-!
# Results of converters

What a converter gives back, apart from the events that it reports: what the form of scores gives,
unless the check of references fails.

* `Converter.result_ofText`, `Converter.result_toText`: text.
* `Converter.result_ofValue`, `Converter.result_toValue`: values.
-/

namespace AudioScore

namespace Converter

theorem result_check (c : Converter) (s : Score) :
    (c.check s).result
      = if c.options.checkReferences then s.graph.checkReferences.result else .ok () := by
  unfold check
  split <;> rfl

theorem result_toText (c : Converter) (s : Score) :
    (c.toText s).result = (c.check s).result.map fun _ => Score.codec.text c.options.layout s := by
  unfold toText
  rw [Run.result_bind]
  cases (c.check s).result <;> rfl

theorem result_ofText (c : Converter) (text : String) :
    (c.ofText text).result = (Score.codec.ofText text).mapError .document >>= fun s =>
      (c.check s).result.map fun _ => s := by
  unfold ofText read
  rw [Run.result_bind, Run.result_ofExcept]
  refine congrArg _ (funext fun s => ?_)
  rw [Run.result_bind]
  cases (c.check s).result <;> rfl

theorem result_toValue (c : Converter) (s : Score) :
    (c.toValue s).result = (c.check s).result.map fun _ => Score.codec.toValue s := by
  unfold toValue
  rw [Run.result_bind]
  cases (c.check s).result <;> rfl

theorem result_ofValue (c : Converter) (v : Value) :
    (c.ofValue v).result = (Score.codec.ofValue v).mapError .document >>= fun s =>
      (c.check s).result.map fun _ => s := by
  unfold ofValue read
  rw [Run.result_bind, Run.result_ofExcept]
  refine congrArg _ (funext fun s => ?_)
  rw [Run.result_bind]
  cases (c.check s).result <;> rfl

theorem result_ofText_eq_ok_iff {c : Converter} {text : String} {s : Score} :
    (c.ofText text).result = .ok s
      ↔ Score.codec.ofText text = .ok s ∧ (c.check s).result = .ok () := by
  rw [result_ofText, Except.bind_eq_ok]
  simp only [Except.mapError_eq_ok, Except.map_eq_ok]
  constructor
  · rintro ⟨s', hs, ⟨⟩, hcheck, rfl⟩
    exact ⟨hs, hcheck⟩
  · rintro ⟨hs, hcheck⟩
    exact ⟨s, hs, (), hcheck, rfl⟩

theorem result_ofValue_eq_ok_iff {c : Converter} {v : Value} {s : Score} :
    (c.ofValue v).result = .ok s
      ↔ Score.codec.ofValue v = .ok s ∧ (c.check s).result = .ok () := by
  rw [result_ofValue, Except.bind_eq_ok]
  simp only [Except.mapError_eq_ok, Except.map_eq_ok]
  constructor
  · rintro ⟨s', hs, ⟨⟩, hcheck, rfl⟩
    exact ⟨hs, hcheck⟩
  · rintro ⟨hs, hcheck⟩
    exact ⟨s, hs, (), hcheck, rfl⟩

end Converter

end AudioScore
