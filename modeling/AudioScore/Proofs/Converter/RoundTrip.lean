import AudioScore.Proofs.Converter.Basic
import AudioScore.Proofs.Score.Faithful

/-!
# Text of scores reads back

* `Converter.ofText_toText`: the text of any score reads back, unless it nests too deeply.
-/

namespace AudioScore

namespace Converter

/-- Without reference checks any score is written as text, and any node. Reading the text, in
whichever layout, gives the score or node back if its value nests at most 127 arrays and objects,
and is refused as malformed otherwise. -/
theorem ofText_toText (pretty pretty' : Bool) :
    (∀ s : Score, ∃ text, (toText ⟨⟨pretty, false⟩⟩ s).result = .ok text ∧
      (ofText ⟨⟨pretty', false⟩⟩ text).result =
        if (Score.codec.toValue s).json.depth ≤ 127 then .ok s else .error (.document .malformed)) ∧
    ∀ n : Node, nodeOfText ⟨⟨pretty', false⟩⟩ (nodeToText ⟨⟨pretty, false⟩⟩ n) =
      if (Node.codec.toValue n).json.depth ≤ 127 then .ok n else .error (.document .malformed) := by
  constructor
  · intro s
    refine ⟨_, (result_toText _ s).trans (congrArg _ (result_check _ s)), ?_⟩
    rw [result_ofText, Score.faithful_codec.ofText_text]
    split
    · change ((check ⟨⟨pretty', false⟩⟩ s).result.map fun _ => s) = .ok s
      rw [result_check]
      rfl
    · rfl
  · intro n
    rw [nodeOfText, nodeToText, Node.faithful_codec.ofText_text]
    split <;> rfl

end Converter

end AudioScore
