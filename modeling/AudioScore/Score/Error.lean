import AudioScore.Codec.Error

/-!
# Why a score is refused

* `ScoreError`: the causes.
* `ScoreError.message`: their wording.
-/

namespace AudioScore

/-- Why a score, or the options of a converter, are refused. -/
inductive ScoreError where
  /-- A document does not read. -/
  | document (e : DecodeError)
  /-- The text of options does not read. -/
  | options
  | unrecognizedName (e : UnrecognizedName)
  /-- An edge ends at a node that its graph does not have. -/
  | danglingEdge (edge node : String)
  /-- Two nodes of a graph have one id. -/
  | duplicateNode (node : String)
deriving DecidableEq

/-- What is reported about a refusal. There is no fixed wording for text that is not well
formed. -/
def ScoreError.message? : ScoreError → Option String
  | .document .malformed => none
  | .document (.data reason) => some ("JSON codec error: " ++ reason.message)
  | .options => none
  | .unrecognizedName e => some e.message
  | .danglingEdge edge node => some ("edge '" ++ edge ++ "' references unknown node '" ++ node ++ "'")
  | .duplicateNode node => some ("duplicate node id: " ++ node)

end AudioScore
