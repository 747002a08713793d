import AudioScore.Codec.Record

/-!
# Commands

A command is one recorded instruction of an automation: a name, and arguments by name that are
left to whoever plays the score.
-/

namespace AudioScore

/-- A named instruction with arguments. -/
structure Command where
  name : String
  args : Dict Value

namespace Command

/-- A command without arguments. -/
def new (name : String) : Command := ⟨name, .empty⟩

/-- Sets an argument, over an earlier one of the same name. -/
def withArg (c : Command) (key : String) (value : Value) : Command :=
  { c with args := c.args.insert key value }

/-- The argument of a name. -/
def arg? (c : Command) (key : String) : Option Value := c.args.get? key

/-- Equality of commands, with numbers compared by `Number.same`. -/
def same (c d : Command) : Bool := c.name == d.name && c.args.sameBy Value.same d.args

/-- The fields of a command. -/
def format : RecordFormat Command where
  title := "Command"
  types := [String, Dict Value]
  fields := (.required "name" .string, .dict "args" .value, ⟨⟩)
  make := fun (name, args, _) => ⟨name, args⟩
  parts c := (c.name, c.args, ⟨⟩)
  make_parts _ := rfl

/-- Commands in documents. -/
def codec : Codec Command := .record format

end Command

/-- Equality of command logs. -/
def sameLog (cs ds : List Command) : Bool :=
  cs.length == ds.length && (cs.zip ds).all fun p => p.1.same p.2

end AudioScore
