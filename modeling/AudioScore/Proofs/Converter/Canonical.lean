import AudioScore.Proofs.Codec.Bounded
import AudioScore.Proofs.Converter.Basic
import AudioScore.Proofs.Score.Faithful

/-!
# Canonical text

Reading a text and writing what was read gives the canonical text of the score, which is read and
written unchanged. A score that was read is never written as text that would be refused.

* `Score.bounded_codec`: the form of scores, and those of their parts, write nothing deeper than
  what they read.
* `Converter.ofText_canonical`: whatever a converter reads it writes, and reads again.
-/

namespace AudioScore

/-! ## Parts of scores -/

theorem Port.bounded_field (name : String) : (Port.field name).Bounded where
  codec := Codec.Bounded.string.optional.map fun o => by cases o <;> rfl
  omits_of_absent p h := by
    cases h
    rfl

theorem LoadingPolicy.bounded_field :
    (Field.optional "loadingPolicy" LoadingPolicy.codec).Bounded := .optional _ .wireEnum

theorem Command.bounded_codec : Command.codec.Bounded :=
  .record (by decide) ⟨.required _ .string, .dict _ .value, trivial⟩ fun _ => rfl

theorem Edge.bounded_codec : Edge.codec.Bounded :=
  .record (by decide) ⟨.required _ .string, .required _ .string, .required _ .string,
    Port.bounded_field _, Port.bounded_field _, trivial⟩ fun _ => rfl

theorem Script.bounded_codec : Script.codec.Bounded :=
  .record (by decide) ⟨.required _ .string, .required _ .string, trivial⟩ fun _ => rfl

theorem Node.bounded_codec : Node.codec.Bounded :=
  .record (by decide) ⟨.required _ .string, .required _ .string, .optional _ .string,
    LoadingPolicy.bounded_field, .dict _ Command.bounded_codec.list, .dict _ .value, trivial⟩
    fun _ => rfl

theorem Graph.bounded_codec : Graph.codec.Bounded :=
  .record (by decide) ⟨.required _ .string, LoadingPolicy.bounded_field,
    .list _ Node.bounded_codec, .list _ Edge.bounded_codec, .list _ Script.bounded_codec, trivial⟩
    fun _ => rfl

theorem Score.bounded_codec : Score.codec.Bounded :=
  .record (by decide) ⟨.required _ Graph.bounded_codec, .required _ .string, trivial⟩ fun _ => rfl

/-! ## Text in an odd shape -/

namespace Json

/-- A number of brackets inside each other. -/
def nested : Nat → Json
  | 0 => .null
  | n + 1 => .array [nested n]

theorem depth_nested (n : Nat) : (nested n).depth = n := by
  induction n with
  | zero => rfl
  | succ n ih => rw [nested, depth, depthItems, depthItems, ih, Nat.max_zero]

/-- A score whose graph is given by place and its node by name, with a member that is deeper than
any text may be written, absences spelled out, and a key that is repeated. -/
def sugared : Json :=
  .object [("remark", nested 200), ("version", .string "1"),
    ("graph", .array [.string "g", .null, .array [.object [("label", .null), ("id", .string "n"),
      ("kind", .string "gain"), ("config", .object [("a", .null), ("a", .boolean true)])]]])]

end Json

/-- The score that a text in an odd shape is about. -/
def Score.plain : Score :=
  ⟨(Graph.new "g").withNode ((Node.new "n" "gain").withConfig "a" (.boolean true)), "1"⟩

theorem Score.decode_sugared : Score.codec.decode .newText Json.sugared.toTree = .ok plain := by
  -- The deep member is only passed over, so that nothing has to be computed about it.
  refine (Codec.record_object_eq_ok_iff (by decide)).mpr
    ⟨.text 126, (plain.graph, "1", ⟨⟩), rfl, Json.passable_treesOfMembers _ _, ?_, rfl⟩
  exact ⟨rfl, rfl, trivial⟩

/-! ## Converters -/

namespace Converter

/-- A converter that reads a score from a text, of whatever shape and depth, writes the score as a
text. It reads the score back from that text, and writes it as that text again. -/
theorem ofText_canonical (c : Converter) {text : String} {s : Score}
    (h : (c.ofText text).result = .ok s) :
    ∃ text', (c.toText s).result = .ok text' ∧ (c.ofText text').result = .ok s ∧
      ((c.ofText text').result >>= fun s' => (c.toText s').result) = .ok text' := by
  obtain ⟨hread, hcheck⟩ := result_ofText_eq_ok_iff.mp h
  have hwrite : (c.toText s).result = .ok (Score.codec.text c.options.layout s) := by
    rw [result_toText, hcheck]
    rfl
  have hagain : (c.ofText (Score.codec.text c.options.layout s)).result = .ok s :=
    result_ofText_eq_ok_iff.mpr
      ⟨Score.bounded_codec.ofText_text Score.faithful_codec hread c.options.layout, hcheck⟩
  refine ⟨_, hwrite, hagain, ?_⟩
  rw [hagain]
  exact hwrite

/-- For example, text in an odd shape, with more brackets than a text may have. -/
theorem ofText_canonical_sugared :
    127 < Json.sugared.depth ∧
      (ofText ⟨⟨true, true⟩⟩ (Json.sugared.text .compact)).result = .ok .plain ∧
      ∃ text', (toText ⟨⟨true, true⟩⟩ .plain).result = .ok text' ∧
        (ofText ⟨⟨true, true⟩⟩ text').result = .ok .plain := by
  have hread : Score.codec.ofText (Json.sugared.text .compact) = .ok .plain := by
    rw [Codec.ofText_eq_ok_iff, Tree.ofText_text]
    exact ⟨rfl, Score.decode_sugared⟩
  have h : (ofText ⟨⟨true, true⟩⟩ (Json.sugared.text .compact)).result = .ok .plain :=
    result_ofText_eq_ok_iff.mpr ⟨hread, rfl⟩
  obtain ⟨text', hwrite, hagain, -⟩ := ofText_canonical ⟨⟨true, true⟩⟩ h
  refine ⟨?_, h, text', hwrite, hagain⟩
  rw [Json.sugared, Json.depth, Json.depthMembers, Json.depth_nested]
  omega

end Converter

end AudioScore
