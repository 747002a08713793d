import AudioScore.Converter.Basic
import AudioScore.Proofs.Codec.KeyOrder
import AudioScore.Proofs.Score.Building
import AudioScore.Proofs.Score.Faithful

/-!
# The text of what was built

In whatever order the parts of a command or of a node were set, the text depends only on what each
of them was last set to. That is because dictionaries are written in the order of their keys and not
in the order in which these were put in.

* `Command.ordered_codec`, `Node.ordered_codec`: every dictionary is written with increasing keys.
* `Converter.building_confluent`: building in two ways, and the text of what is built.
-/

namespace AudioScore

theorem Command.ordered_codec : Command.codec.OrderedWithin :=
  .record ⟨.string, .dict .value, trivial⟩

theorem Node.ordered_codec : Node.codec.OrderedWithin :=
  .record ⟨.string, .string, .optional .string, .optional .wireEnum,
    .dict Command.ordered_codec.list, .dict .value, trivial⟩

namespace Converter

theorem nodeToText_inj {c : Converter} {m n : Node} : c.nodeToText m = c.nodeToText n ↔ m = n :=
  Node.faithful_codec.text_inj c.options.layout

/-- A command and a node have in each of their parts what it was last set to. Two ways to build them
from the same beginning give the same, and the same text, exactly if each part was last set to the
same in both. In this text the keys of every dictionary increase. -/
theorem building_confluent (c : Converter) :
    (∀ (m : Command) (args : List (String × Value)), Command.After m args (m.withArgs args)) ∧
    (∀ (name : String) (args args' : List (String × Value)),
      let m := (Command.new name).withArgs args
      let m' := (Command.new name).withArgs args'
      (m = m' ↔ Command.AgreeLast args args') ∧
      (Command.codec.text c.options.layout m = Command.codec.text c.options.layout m' ↔
        Command.AgreeLast args args')) ∧
    (∀ m : Command, KeysInByteOrder (Command.codec.text c.options.layout m)) ∧
    (∀ (n : Node) (ss : List Node.Setting), Node.After n ss (n.setAll ss)) ∧
    (∀ (id kind : String) (ss ts : List Node.Setting),
      let n := (Node.new id kind).setAll ss
      let n' := (Node.new id kind).setAll ts
      (n = n' ↔ Node.Setting.AgreeLast ss ts) ∧
      (c.nodeToText n = c.nodeToText n' ↔ Node.Setting.AgreeLast ss ts)) ∧
    ∀ n : Node, KeysInByteOrder (c.nodeToText n) := by
  refine ⟨Command.after_withArgs, fun name args args' => ⟨Command.withArgs_new_eq_iff, ?_⟩,
    Command.ordered_codec.keysInByteOrder _, Node.after_setAll,
    fun id kind ss ts => ⟨Node.setAll_new_eq_iff, ?_⟩, Node.ordered_codec.keysInByteOrder _⟩
  · exact (Command.faithful_codec.text_inj _).trans Command.withArgs_new_eq_iff
  · exact nodeToText_inj.trans Node.setAll_new_eq_iff

end Converter

end AudioScore
