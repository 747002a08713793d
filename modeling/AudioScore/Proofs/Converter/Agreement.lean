import AudioScore.Proofs.Codec.Agreement
import AudioScore.Proofs.Converter.Basic
import AudioScore.Proofs.Score.Faithful

/-!
# Scores as text and scores as values

* `Score.agrees_codec`: the form of scores, and those of their parts, read a tree like its value.
* `Converter.ofText_agrees_ofValue`: a converter reads text like the value of that text.
* `Converter.toText_agrees_toValue`: a converter writes text of the value that it writes.
-/

namespace AudioScore

/-! ## Parts of scores -/

theorem Port.agrees_codec : Port.codec.Agrees := Codec.Agrees.string.optional.map _ _

theorem LoadingPolicy.agrees_codec : LoadingPolicy.codec.Agrees := .wireEnum

theorem Command.agrees_codec : Command.codec.Agrees :=
  .record (by decide) ⟨.string, Codec.Agrees.value.dict, trivial⟩

theorem Edge.agrees_codec : Edge.codec.Agrees :=
  .record (by decide) ⟨.string, .string, .string, Port.agrees_codec, Port.agrees_codec, trivial⟩

theorem Script.agrees_codec : Script.codec.Agrees :=
  .record (by decide) ⟨.string, .string, trivial⟩

theorem Node.agrees_codec : Node.codec.Agrees :=
  .record (by decide) ⟨.string, .string, Codec.Agrees.string.optional,
    LoadingPolicy.agrees_codec.optional, Command.agrees_codec.list.dict, Codec.Agrees.value.dict,
    trivial⟩

theorem Graph.agrees_codec : Graph.codec.Agrees :=
  .record (by decide) ⟨.string, LoadingPolicy.agrees_codec.optional, Node.agrees_codec.list,
    Edge.agrees_codec.list, Script.agrees_codec.list, trivial⟩

theorem Score.agrees_codec : Score.codec.Agrees :=
  .record (by decide) ⟨Graph.agrees_codec, .string, trivial⟩

/-! ## A text in one of many forms -/

/-- Two nodes and an edge between them. The one node is an object and the other an array, as is the
edge, and the members of the objects are not sorted. -/
def Json.mixed : Json :=
  .object [("version", .string "1"),
    ("graph", .object [
      ("nodes", .array [
        .object [("kind", .string "gain"), ("label", .null), ("id", .string "a")],
        .array [.string "b", .string "delay"]]),
      ("id", .string "g"),
      ("edges", .array [.array [.string "e", .string "a", .string "b"]])])]

theorem Json.distinct_mixed : mixed.Distinct := by
  simp [mixed, Distinct, DistinctItems, DistinctMembers]

/-- The score that the text is about. -/
def Score.wired : Score :=
  ⟨(((Graph.new "g").withNode (.new "a" "gain")).withNode (.new "b" "delay")).withEdge
    (.new "e" "a" "b"), "1"⟩

/-! ## Converters -/

namespace Converter

/-- Whatever its options, a converter that reads a score from a text reads the same score from the
value of the text. Where the text repeats no key, it reads as much from the text as from the
value. -/
theorem ofText_agrees_ofValue (c : Converter) {text : String} {v : Value}
    (hv : Codec.value.ofText text = .ok v) :
    (∀ s, (c.ofText text).result = .ok s → (c.ofValue v).result = .ok s) ∧
      ((Tree.ofText text).1.NoRepeats →
        ∀ s, (c.ofText text).result = .ok s ↔ (c.ofValue v).result = .ok s) := by
  have hvalue : ∀ s, (c.ofText text).result = .ok s → (c.ofValue v).result = .ok s := by
    intro s hs
    obtain ⟨hread, hcheck⟩ := result_ofText_eq_ok_iff.mp hs
    exact result_ofValue_eq_ok_iff.mpr ⟨Score.agrees_codec.ofValue_of_ofText hv hread, hcheck⟩
  refine ⟨hvalue, fun hn s => ⟨hvalue s, fun hs => ?_⟩⟩
  obtain ⟨hread, hcheck⟩ := result_ofValue_eq_ok_iff.mp hs
  exact result_ofText_eq_ok_iff.mpr ⟨Score.agrees_codec.ofText_of_ofValue hv hn hread, hcheck⟩

/-- For example with a text in which members stand in any order, a node and an edge are written as
arrays, and a label is `null`. -/
theorem ofText_agrees_ofValue_mixed :
    Codec.value.ofText (Json.mixed.text .indented) = .ok Json.mixed.toValue ∧
      (Tree.ofText (Json.mixed.text .indented)).1.NoRepeats ∧
      (ofText ⟨⟨false, true⟩⟩ (Json.mixed.text .indented)).result = .ok .wired ∧
      (ofValue ⟨⟨false, true⟩⟩ Json.mixed.toValue).result = .ok .wired := by
  have hv : Codec.value.ofText (Json.mixed.text .indented) = .ok Json.mixed.toValue :=
    (Codec.value_ofText_text .indented Json.mixed).trans (if_pos (by decide))
  have hn : (Tree.ofText (Json.mixed.text .indented)).1.NoRepeats := by
    rw [Tree.ofText_text]
    exact Json.distinct_mixed.noRepeats
  have hread : Score.codec.ofText (Json.mixed.text .indented) = .ok .wired := by
    rw [Codec.ofText_eq_ok_iff, Tree.ofText_text]
    exact ⟨rfl, rfl⟩
  have htext : (ofText ⟨⟨false, true⟩⟩ (Json.mixed.text .indented)).result = .ok .wired :=
    result_ofText_eq_ok_iff.mpr ⟨hread, rfl⟩
  obtain ⟨-, hagree⟩ := ofText_agrees_ofValue ⟨⟨false, true⟩⟩ hv
  exact ⟨hv, hn, htext, (hagree hn .wired).mp htext⟩

/-- Whatever its options, a converter fails to write a score as text exactly if it fails to write it
as a value, and in the same way. Otherwise the text has the value that is written, with all its
members and no repeated key. So the texts of one score have one value, in either layout. -/
theorem toText_agrees_toValue (c : Converter) {s : Score}
    (h : (Score.codec.toValue s).json.depth ≤ 127) :
    (∀ e, (c.toText s).result = .error e ↔ (c.toValue s).result = .error e) ∧
      (∀ text, (c.toText s).result = .ok text → ∃ v, (c.toValue s).result = .ok v ∧
        Codec.value.ofText text = .ok v ∧ (Tree.ofText text).1.NoRepeats) ∧
      ∀ (c' : Converter) (text text' : String), (c.toText s).result = .ok text →
        (c'.toText s).result = .ok text' → Codec.value.ofText text = Codec.value.ofText text' := by
  have hvalue : ∀ layout : Layout,
      Codec.value.ofText (Score.codec.text layout s) = .ok (Score.codec.toValue s) :=
    fun layout => Score.faithful_codec.value_ofText layout h
  refine ⟨fun e => ?_, fun text htext => ?_, fun c' text text' htext htext' => ?_⟩
  · rw [result_toText, result_toValue, Except.map_eq_error, Except.map_eq_error]
  · rw [result_toText, Except.map_eq_ok] at htext
    obtain ⟨⟨⟩, hcheck, rfl⟩ := htext
    refine ⟨Score.codec.toValue s, ?_, hvalue _, Score.faithful_codec.noRepeats_text _ s⟩
    rw [result_toValue, hcheck]
    rfl
  · rw [result_toText, Except.map_eq_ok] at htext htext'
    obtain ⟨-, -, rfl⟩ := htext
    obtain ⟨-, -, rfl⟩ := htext'
    rw [hvalue, hvalue]

/-- An edge between nodes that are not there. -/
def loose : Score := .new ((Graph.new "g").withEdge (.new "e" "a" "b"))

theorem toText_agrees_toValue_loose :
    (toValue ⟨⟨true, true⟩⟩ loose).result = .error (.danglingEdge "e" "a") ∧
      ∃ v, (toValue ⟨⟨true, false⟩⟩ loose).result = .ok v ∧
        Codec.value.ofText (Score.codec.text .indented loose) = .ok v ∧
        Codec.value.ofText (Score.codec.text .compact loose) = .ok v := by
  have hdepth : (Score.codec.toValue loose).json.depth ≤ 127 := by decide
  have hstrict : (toText ⟨⟨true, true⟩⟩ loose).result = .error (.danglingEdge "e" "a") := rfl
  have hlenient : ∀ pretty, (toText ⟨⟨pretty, false⟩⟩ loose).result
      = .ok (Score.codec.text (ConverterOptions.layout ⟨pretty, false⟩) loose) := fun pretty => rfl
  obtain ⟨hfails, -, -⟩ := toText_agrees_toValue ⟨⟨true, true⟩⟩ hdepth
  obtain ⟨-, hwritten, hsame⟩ := toText_agrees_toValue ⟨⟨true, false⟩⟩ hdepth
  obtain ⟨v, hv, hindented, -⟩ := hwritten _ (hlenient true)
  refine ⟨(hfails _).mp hstrict, v, hv, hindented, ?_⟩
  rw [← hindented]
  exact (hsame ⟨⟨false, false⟩⟩ _ _ (hlenient true) (hlenient false)).symm

end Converter

end AudioScore
