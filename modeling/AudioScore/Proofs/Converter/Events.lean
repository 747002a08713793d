import AudioScore.Proofs.Converter.Basic

/-!
# What converters report

The events of a run are settled by its result. A score that is read or written as text is reported
once, a fault of references once, with the same ids as the fault, and nothing else is.

* `Run.Checks`, `Run.Reads`: how a run may end, and what it has reported then.
* `Run.Checks.bind`, `Run.Reads.bind`: one run after another, if the first reports no success.
* `Converter.reports_outcome`: the four ways through a converter.
-/

namespace AudioScore

namespace Run

variable {α β : Type}

/-- How a run ends that may find a fault of references, and what it has reported then: a result with
what is `told` of it, or a fault with a warning of the same fault. -/
inductive Checks (told : α → List Event) : Run ScoreError α → Prop where
  | result (a : α) : Checks told ⟨.ok a, told a⟩
  | duplicateNode (node : String) :
    Checks told ⟨.error (.duplicateNode node), [.duplicateNode node]⟩
  | danglingEdge (edge node : String) :
    Checks told ⟨.error (.danglingEdge edge node), [.danglingEdge edge node]⟩

/-- The same of a run that begins with reading a document, of which nothing is reported where it
does not read. -/
inductive Reads (told : α → List Event) : Run ScoreError α → Prop where
  | document (e : DecodeError) : Reads told ⟨.error (.document e), []⟩
  | checks {r : Run ScoreError α} (h : r.Checks told) : Reads told r

variable {told : β → List Event} {f : α → Run ScoreError β}

theorem Checks.bind {r : Run ScoreError α} (h : r.Checks fun _ => []) (hf : ∀ a, (f a).Checks told) :
    (r >>= f).Checks told := by
  cases h with
  | result a => exact hf a
  | duplicateNode node => exact .duplicateNode node
  | danglingEdge edge node => exact .danglingEdge edge node

theorem Reads.bind {r : Run ScoreError α} (h : r.Reads fun _ => []) (hf : ∀ a, (f a).Checks told) :
    (r >>= f).Reads told := by
  cases h with
  | document e => exact .document e
  | checks h => exact .checks (h.bind hf)

end Run

/-! ## The check of references -/

theorem Graph.checks_checkReferences (g : Graph) : g.checkReferences.Checks fun _ => [] := by
  unfold checkReferences
  dsimp only
  split
  · exact .duplicateNode _
  · split
    · exact .danglingEdge _ _
    · exact .result ()

/-! ## Converters -/

/-- What is reported of a score that was read. -/
def Score.decoded (s : Score) : Event :=
  .scoreDecoded s.graph.id s.graph.nodes.length s.graph.edges.length s.version

/-- What is reported of a score that was written as a text. -/
def Score.encoded (s : Score) (text : String) : Event := .scoreEncoded s.graph.id text.toUTF8.size

namespace Converter

theorem checks_check (c : Converter) (s : Score) : (c.check s).Checks fun _ => [] := by
  unfold check
  split
  · exact s.graph.checks_checkReferences
  · exact .result ()

theorem reads_read {α : Type} (r : Except DecodeError α) : (read r).Reads fun _ => [] := by
  cases r with
  | error e => exact .document e
  | ok a => exact .checks (.result a)

/-- Whatever its options, a converter that reads a score from text reports the score, after it
passed the check, and one that writes a score as text reports the length of the text in UTF-8. Where
a converter finds a fault of references, it reports that fault as a warning and nothing else. A
document that does not read is not reported, and values that are read or written are not either.
Only reading can fail because of a document. -/
theorem reports_outcome (c : Converter) :
    (∀ text, (c.ofText text).Reads fun s => [s.decoded]) ∧
    (∀ s, (c.toText s).Checks fun text => [s.encoded text]) ∧
    (∀ v, (c.ofValue v).Reads fun _ => []) ∧
    (∀ s, (c.toValue s).Checks fun _ => []) ∧
    (∀ (s : Score) text, s.decoded.level = .debug ∧ (s.encoded text).level = .debug) ∧
    ∀ edge node, (Event.duplicateNode node).level = .warn ∧
      (Event.danglingEdge edge node).level = .warn := by
  refine ⟨fun text => ?_, fun s => ?_, fun v => ?_, fun s => ?_, fun s text => ⟨rfl, rfl⟩,
    fun edge node => ⟨rfl, rfl⟩⟩
  · refine (reads_read (Score.codec.ofText text)).bind fun s => ?_
    exact (c.checks_check s).bind fun _ => .result s
  · exact (c.checks_check s).bind fun _ => .result (Score.codec.text c.options.layout s)
  · refine (reads_read (Score.codec.ofValue v)).bind fun s => ?_
    exact (c.checks_check s).bind fun _ => .result s
  · exact (c.checks_check s).bind fun _ => .result (Score.codec.toValue s)

/-- For example, nothing is reported of a graph whose edge has no source but that edge. -/
example : (toText ⟨⟨false, true⟩⟩ (.new ((Graph.new "g").withEdge (.new "e" "a" "b")))).events
    = [.danglingEdge "e" "a"] := by
  decide

end Converter

end AudioScore
