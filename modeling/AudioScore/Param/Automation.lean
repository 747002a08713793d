import AudioScore.Arg.Error
import AudioScore.Score.Command
import AudioScore.Time

/-!
# Automation

A parameter that changes over time has an initial value and a log of commands. Each call appends
one command, unless one of its numbers is not finite; times are neither checked nor sorted.

* `Automation.Call`: the calls.
* `Automation.apply`: appends the command of a call.
-/

namespace AudioScore

/-- An initial value and the commands after it, in the order of the calls. -/
structure Automation where
  initial : Binary64
  commands : List Command

namespace Automation

/-- A call that changes the course of a parameter. -/
inductive Call where
  /-- Jumps to a value. -/
  | setValue (value : Binary64) (start : Time)
  /-- Goes to a value in a straight line. -/
  | linearRamp (value : Binary64) (stop : Time)
  /-- Goes to a value by constant ratios. -/
  | exponentialRamp (value : Binary64) (stop : Time)
  /-- Comes closer to a value from a time on. -/
  | setTarget (target : Binary64) (start : Time) (timeConstant : Binary64)
  /-- Follows values spread evenly over a span. -/
  | setCurve (values : List Binary64) (start duration : Time)

namespace Call

/-- The command that a call appends. -/
def command : Call → Command
  | .setValue value start =>
    ((Command.new "setValueAtTime").withArg "value" (.ofBinary64 value)).withArg
      "startTime" (.ofInt64 start.nanos)
  | .linearRamp value stop =>
    ((Command.new "linearRampToValueAtTime").withArg "value" (.ofBinary64 value)).withArg
      "endTime" (.ofInt64 stop.nanos)
  | .exponentialRamp value stop =>
    ((Command.new "exponentialRampToValueAtTime").withArg "value" (.ofBinary64 value)).withArg
      "endTime" (.ofInt64 stop.nanos)
  | .setTarget target start timeConstant =>
    (((Command.new "setTargetAtTime").withArg "target" (.ofBinary64 target)).withArg
      "startTime" (.ofInt64 start.nanos)).withArg "timeConstant" (.ofBinary64 timeConstant)
  | .setCurve values start duration =>
    (((Command.new "setValueCurveAtTime").withArg "values"
      (.array (values.map .ofBinary64))).withArg "startTime" (.ofInt64 start.nanos)).withArg
      "duration" (.ofInt64 duration.nanos)

/-- The first number of a call that is not finite, by its name. -/
def nonFinite? : Call → Option String
  | .setValue value _ => if value.isFinite then none else some "value"
  | .linearRamp value _ => if value.isFinite then none else some "value"
  | .exponentialRamp value _ => if value.isFinite then none else some "value"
  | .setTarget target _ timeConstant =>
    if !target.isFinite then some "target"
    else if !timeConstant.isFinite then some "timeConstant"
    else none
  | .setCurve values _ _ => if values.all Binary64.isFinite then none else some "values"

end Call

/-- A parameter that keeps its value. -/
def new (initial : Binary64) : Automation := ⟨initial, []⟩

/-- Appends the command of a call. -/
def apply (p : Automation) (call : Call) : Except MappingError Automation :=
  match call.nonFinite? with
  | some arg => .error (.nonFinite arg)
  | none => .ok { p with commands := p.commands ++ [call.command] }

/-- Equality, with doubles compared as numbers. -/
def same (p q : Automation) : Bool := p.initial.same q.initial && sameLog p.commands q.commands

end Automation

end AudioScore
