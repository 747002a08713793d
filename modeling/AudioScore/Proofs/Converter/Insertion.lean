import AudioScore.Proofs.Codec.Insertion
import AudioScore.Proofs.Converter.Basic

/-!
# Scores with members that stand for nothing

A text of a score may have members in its records that name no field, with any JSON for a value. They
do not change what is read, however deep they nest, whatever numbers and strings they hold, and
wherever they are put between others.

* `Score.outline`: where records stand in the text of a score.
* `Score.ignores_codec`: the form of scores passes such members over.
* `Converter.ofText_inserted`: a converter reads the same with one member more.
-/

namespace AudioScore

open Spelling

/-! ## Outlines -/

def Command.outline : Outline := .record [("name", .plain), ("args", .plain)]

def Edge.outline : Outline :=
  .record [("id", .plain), ("source", .plain), ("target", .plain), ("sourcePort", .plain),
    ("targetPort", .plain)]

def Script.outline : Outline := .record [("name", .plain), ("code", .plain)]

/-- The params of a node are lists of commands by name. -/
def Node.outline : Outline :=
  .record [("id", .plain), ("kind", .plain), ("label", .plain), ("loadingPolicy", .plain),
    ("params", .dict (.list Command.outline)), ("config", .plain)]

def Graph.outline : Outline :=
  .record [("id", .plain), ("loadingPolicy", .plain), ("nodes", .list Node.outline),
    ("edges", .list Edge.outline), ("scripts", .list Script.outline)]

def Score.outline : Outline := .record [("graph", Graph.outline), ("version", .plain)]

theorem Command.ignores_codec : Command.codec.Ignores Command.outline :=
  .record (by decide) ⟨rfl, .plain _, rfl, .plain _, trivial⟩

theorem Edge.ignores_codec : Edge.codec.Ignores Edge.outline :=
  .record (by decide) ⟨rfl, .plain _, rfl, .plain _, rfl, .plain _, rfl, .plain _, rfl, .plain _,
    trivial⟩

theorem Script.ignores_codec : Script.codec.Ignores Script.outline :=
  .record (by decide) ⟨rfl, .plain _, rfl, .plain _, trivial⟩

theorem Node.ignores_codec : Node.codec.Ignores Node.outline :=
  .record (by decide) ⟨rfl, .plain _, rfl, .plain _, rfl, .plain _, rfl, .plain _,
    rfl, .dict (.list Command.ignores_codec), rfl, .plain _, trivial⟩

theorem Graph.ignores_codec : Graph.codec.Ignores Graph.outline :=
  .record (by decide) ⟨rfl, .plain _, rfl, .plain _, rfl, .list Node.ignores_codec,
    rfl, .list Edge.ignores_codec, rfl, .list Script.ignores_codec, trivial⟩

theorem Score.ignores_codec : Score.codec.Ignores Score.outline :=
  .record (by decide) ⟨rfl, Graph.ignores_codec, rfl, .plain _, trivial⟩

/-! ## A text with line breaks -/

/-- A line break. -/
def Spelling.Blank.newline : Blank := ⟨['\n'], by simp [blanks]⟩

/-- A member whose key is written as it is, without white space but after its value. -/
def Spelling.member (key : List Char) (h : key.all isPlain) (value : Spelling) (trail : Blank) :
    Key × Spelling × Blank :=
  (⟨.none, key.pmap .plain (List.all_eq_true.mp h), .none, .none⟩, value, trail)

/-- The id of the graph, and what stands after it. -/
def Score.graphId (trail : Blank) : Key × Spelling × Blank :=
  member ['i', 'd'] rfl (.string [.plain 'g' rfl]) trail

/-- The text of a score, with the members of its graph. -/
def Score.framed (members : List (Key × Spelling × Blank)) : Spelling :=
  .object .none
    [member ['v', 'e', 'r', 's', 'i', 'o', 'n'] rfl (.string [.plain '1' rfl]) .newline,
      member ['g', 'r', 'a', 'p', 'h'] rfl (.object .none members) .newline]

/-- A value that could not be read where one is asked for. -/
def Score.remark : Spelling :=
  .array .none [
    (.none, .number ⟨⟨true, ['1'], none, some (false, ['9', '9', '9'])⟩,
      ⟨⟨by simp, by simp, by simp⟩, by simp, by simp⟩, ⟨true, false⟩⟩, .none),
    (.none, .string [.unit ⟨'D', by decide⟩ ⟨'8', by decide⟩ ⟨'0', by decide⟩ ⟨'0', by decide⟩], .none),
    (.none, .object .none [member [] rfl .null .none, member [] rfl .null .none], .none)]

/-! ## Converters -/

namespace Converter

theorem result_ofText_spelling_eq_ok_iff {c : Converter} {lead trail : Blank} {x : Spelling}
    {s : Score} : (c.ofText (x.text lead trail)).result = .ok s
      ↔ Score.codec.decode .newText x.tree = .ok s ∧ (c.check s).result = .ok () := by
  rw [result_ofText_eq_ok_iff, Codec.ofText_eq_ok_iff, Tree.ofText_spelling]
  exact and_congr_left' (and_iff_right rfl)

/-- Whatever its options, a converter reads a score from a text exactly if it reads the same score
from the text with a member more in one of the records, if the key of the member names no field. -/
theorem ofText_inserted {x x' : Spelling} (h : Score.outline.Inserted x x') (lead trail : Blank)
    (c : Converter) (s : Score) :
    (c.ofText (x'.text lead trail)).result = .ok s
      ↔ (c.ofText (x.text lead trail)).result = .ok s := by
  rw [result_ofText_spelling_eq_ok_iff, result_ofText_spelling_eq_ok_iff,
    Score.ignores_codec.alike h .newText s]

/-- For example, with a number that no double comes near, half of a surrogate pair, and an object that
repeats a key. The member is put straight after a value, before the line break that followed it. -/
theorem ofText_inserted_remark :
    (ofText ⟨⟨false, true⟩⟩ ((Score.framed [Score.graphId .none,
      member ['i', 'D'] rfl Score.remark .newline]).text .none .none)).result
        = .ok ⟨.new "g", "1"⟩ := by
  have hkey : (member ['i', 'D'] rfl Score.remark .newline).1.string? = some "iD" := rfl
  have hspaced : List.Forall₂ Respaced [Score.graphId .newline] [Score.graphId .none] :=
    .cons ⟨rfl, rfl⟩ .nil
  have hgraph : Graph.outline.Inserted (.object .none [Score.graphId .newline]) _ :=
    .member hkey (by decide) hspaced .nil Score.remark .none .none .newline
  have hinserted : Score.outline.Inserted (Score.framed [Score.graphId .newline])
      (Score.framed [Score.graphId .none, member ['i', 'D'] rfl Score.remark .newline]) :=
    @Outline.Inserted.field _ [_] [] _ _ _ _ _ rfl List.mem_cons_self hgraph .none .newline
  rw [ofText_inserted hinserted, result_ofText_spelling_eq_ok_iff]
  exact ⟨rfl, rfl⟩

end Converter

end AudioScore
