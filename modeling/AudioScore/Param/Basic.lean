import AudioScore.Param.Automation

/-!
# Parameters

A parameter of a plugin is a name and an initial value. Reading it never fails: the commands are
taken as they are, and where there are none the log is empty.
-/

namespace AudioScore

/-- What is published about a parameter. -/
structure ParamSpec where
  name : String
  /-- The initial value as it is written. -/
  initial : Value

/-- A named parameter. -/
structure Param where
  name : String
  initial : Binary64
deriving DecidableEq

namespace Param

/-- A parameter that keeps its value. -/
def create (p : Param) : Automation := .new p.initial

/-- The parameter with a log of commands. -/
def ofCommands (p : Param) (commands : List Command) : Automation := ⟨p.initial, commands⟩

/-- Reads the log under the parameter's name. -/
def read (p : Param) (params : Dict (List Command)) : Automation :=
  p.ofCommands ((params.get? p.name).getD [])

/-- The log of a parameter, as it is. -/
def write (_ : Param) (a : Automation) : List Command := a.commands

/-- Writes the log under the parameter's name. -/
def writeTo (p : Param) (a : Automation) (params : Dict (List Command)) : Dict (List Command) :=
  params.insert p.name (p.write a)

/-- What is published about the parameter. -/
def spec (p : Param) : ParamSpec := ⟨p.name, .ofBinary64 p.initial⟩

end Param

end AudioScore
