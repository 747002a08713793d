import AudioScore.Param.Basic
import AudioScore.Proofs.Arg.Conforms
import AudioScore.Proofs.Arg.Writes

/-!
# Logs of calls

A call is an operation with arguments, and its command holds what is written of them. A call with a
number that is not finite fails and leaves the parameter as it was, and any other appends its command
to the log. Reading the arguments of the command gives back the call.

* `Automation.Call.args`, `Automation.Call.command_eq`: what is in the command of a call.
* `Automation.apply_eq_ok_iff`: what a call does that succeeds.
* `Automation.Call.ofCommand?_command`: a call is told by its command.
* `Automation.Call.nullFree_command`: no `null` is written.
* `Automation.attemptAll_recovered`: what is in the log after several calls.
-/

namespace AudioScore

/-! ## Commands of calls -/

namespace Write

/-- A number under a name. -/
def number (name : String) (x : Binary64) : Write := ⟨.required name (.scalar .float), x⟩

/-- A list of numbers under a name. -/
def numbers (name : String) (xs : List Binary64) : Write := ⟨.required name (.list .float), xs⟩

/-- A time under a name. -/
def time (name : String) (t : Time) : Write := ⟨.required name (.scalar .time), t⟩

@[simp]
theorem finite_number (name : String) (x : Binary64) : (number name x).finite = x.isFinite :=
  Bool.and_true _

@[simp]
theorem finite_numbers (name : String) (xs : List Binary64) :
    (numbers name xs).finite = xs.all Binary64.isFinite := by
  have hdoubles : FieldType.doubles (.list .float) xs = xs := List.flatMap_singleton' xs
  exact congrArg (List.all · Binary64.isFinite) hdoubles

@[simp]
theorem finite_time (name : String) (t : Time) : (time name t).finite = true := rfl

end Write

namespace Automation

namespace Call

/-- The operation of a call. -/
def operation : Call → String
  | .setValue .. => "setValueAtTime"
  | .linearRamp .. => "linearRampToValueAtTime"
  | .exponentialRamp .. => "exponentialRampToValueAtTime"
  | .setTarget .. => "setTargetAtTime"
  | .setCurve .. => "setValueCurveAtTime"

/-- The arguments of a call, in order. -/
def args : Call → List Write
  | .setValue value start => [.number "value" value, .time "startTime" start]
  | .linearRamp value stop => [.number "value" value, .time "endTime" stop]
  | .exponentialRamp value stop => [.number "value" value, .time "endTime" stop]
  | .setTarget target start timeConstant =>
    [.number "target" target, .time "startTime" start, .number "timeConstant" timeConstant]
  | .setCurve values start duration =>
    [.numbers "values" values, .time "startTime" start, .time "duration" duration]

/-- The numbers of a call. -/
def numbers : Call → List Binary64
  | .setValue value _ => [value]
  | .linearRamp value _ => [value]
  | .exponentialRamp value _ => [value]
  | .setTarget target _ timeConstant => [target, timeConstant]
  | .setCurve values _ _ => values

/-- Whether all numbers of a call are finite. -/
def finite (call : Call) : Bool := call.numbers.all Binary64.isFinite

/-- What a call reports: the first of its arguments that is not finite, if there is one. -/
def outcome (call : Call) : Except MappingError Unit :=
  match call.args.find? fun w => !w.finite with
  | none => .ok ()
  | some w => .error (.nonFinite w.field.name)

variable {call : Call}

theorem command_eq (call : Call) : call.command
    = ⟨call.operation, Dict.ofList (call.args.map fun w => (w.field.name, w.encoding))⟩ := by
  cases call <;> rfl

theorem names_nodup (call : Call) :
    ((call.args.map fun w => (w.field.name, w.encoding)).map Prod.fst).Nodup := by
  cases call with
  | setValue value start => exact (by decide : ["value", "startTime"].Nodup)
  | linearRamp value stop | exponentialRamp value stop =>
    exact (by decide : ["value", "endTime"].Nodup)
  | setTarget target start timeConstant =>
    exact (by decide : ["target", "startTime", "timeConstant"].Nodup)
  | setCurve values start duration =>
    exact (by decide : ["values", "startTime", "duration"].Nodup)

theorem finite_eq (call : Call) : call.finite = call.args.all Write.finite := by
  cases call <;> simp [finite, numbers, args]

theorem finite_iff : call.finite ↔ ∀ x ∈ call.numbers, x.isFinite := List.all_eq_true

/-- The check of a call goes through its arguments in order. -/
theorem nonFinite?_eq (call : Call) : call.nonFinite?
    = (call.args.find? fun w => !w.finite).map fun w => w.field.name := by
  cases call with
  | setValue value start | linearRamp value stop | exponentialRamp value stop =>
    cases h : value.isFinite <;> simp [nonFinite?, args, h]
    rfl
  | setTarget target start timeConstant =>
    cases htarget : target.isFinite <;> cases hconstant : timeConstant.isFinite <;>
      simp [nonFinite?, args, htarget, hconstant] <;> rfl
  | setCurve values start duration =>
    cases h : values.all Binary64.isFinite <;>
      simp [nonFinite?, args, h, -List.all_eq_true, -List.all_eq_false]
    rfl

@[simp]
theorem isOk_outcome (call : Call) : call.outcome.isOk = call.finite := by
  have h : call.outcome.isOk = !(call.args.find? fun w => !w.finite).isSome := by
    unfold outcome
    cases call.args.find? fun w => !w.finite <;> rfl
  rw [h, List.isSome_find?, List.not_any_eq_all_not, finite_eq]
  simp only [Bool.not_not]

theorem outcome_eq_ok_iff : call.outcome = .ok () ↔ ∀ x ∈ call.numbers, x.isFinite := by
  rw [← finite_iff, ← isOk_outcome]
  cases call.outcome <;> simp [Except.isOk, Except.toBool]

end Call

end Automation

/-! ## What is read of a log -/

/-- A command whose arguments neither are nor hold `null`. -/
def Command.NullFree (c : Command) : Prop := ∀ k v, c.args.get? k = some v → v.json.nullFree

/-- The argument of a name, read as a type. -/
def Command.read? (c : Command) (τ : FieldType) (name : String) : Option τ.Carrier :=
  ((ConfigField.required name τ).arg.readCommand c).toOption

/-- A log is read back from where it is written. -/
theorem Param.read_writeTo (q : Param) (a : Automation) (params : Dict (List Command)) :
    q.read (q.writeTo a params) = q.ofCommands a.commands := by
  rw [Param.read, Param.writeTo, Dict.get?_insert, if_pos rfl]
  rfl

namespace Automation

namespace Call

variable {call : Call}

theorem get?_command {w : Write} (hw : w ∈ call.args) :
    call.command.args.get? w.field.name = some w.encoding := by
  rw [command_eq]
  exact Dict.get?_ofList_of_mem call.names_nodup (List.mem_map_of_mem hw)

/-- Finite numbers are written as numbers. -/
theorem nullFree_command (h : ∀ x ∈ call.numbers, x.isFinite) : call.command.NullFree := by
  rw [← finite_iff, finite_eq, List.all_eq_true] at h
  intro k v hv
  rw [command_eq, Dict.get?_ofList_eq_some_iff call.names_nodup] at hv
  obtain ⟨w, hw, heq⟩ := List.mem_map.mp hv
  cases heq
  exact ArgKind.nullFree_of_conforms (w.field.type.conforms_encode (Write.finite_iff.mp (h w hw)))

/-- The call that appends a command, by the name of the command and by what its arguments are read
as. -/
def ofCommand? (c : Command) : Option Call :=
  match c.name with
  | "setValueAtTime" => do
    return .setValue (← c.read? (.scalar .float) "value") (← c.read? (.scalar .time) "startTime")
  | "linearRampToValueAtTime" => do
    return .linearRamp (← c.read? (.scalar .float) "value") (← c.read? (.scalar .time) "endTime")
  | "exponentialRampToValueAtTime" => do
    return .exponentialRamp (← c.read? (.scalar .float) "value")
      (← c.read? (.scalar .time) "endTime")
  | "setTargetAtTime" => do
    return .setTarget (← c.read? (.scalar .float) "target") (← c.read? (.scalar .time) "startTime")
      (← c.read? (.scalar .float) "timeConstant")
  | "setValueCurveAtTime" => do
    return .setCurve (← c.read? (.list .float) "values") (← c.read? (.scalar .time) "startTime")
      (← c.read? (.scalar .time) "duration")
  | _ => none

theorem read?_command {w : Write} (hw : w ∈ call.args) (h : w.finite) :
    call.command.read? w.field.type w.field.name = some w.value := by
  have hread := Arg.readConfig_of_get? (a := (ConfigField.required w.field.name w.field.type).arg)
    w.field.type.faithful_arg (Write.finite_iff.mp h) (get?_command hw)
  rw [Command.read?, Arg.readCommand, hread]
  rfl

/-- Reading the arguments of a command gives back the call, if all its numbers are finite. -/
theorem ofCommand?_command (h : call.finite) : ofCommand? call.command = some call := by
  rw [finite_eq, List.all_eq_true] at h
  have hread : call.args.Forall fun w =>
      call.command.read? w.field.type w.field.name = some w.value :=
    List.forall_iff_forall_mem.mpr fun w hw => read?_command hw (h w hw)
  cases call with
  | setValue value start =>
    obtain ⟨hvalue, hstart⟩ := hread
    exact Option.bind_eq_some_iff.mpr ⟨value, hvalue,
      Option.bind_eq_some_iff.mpr ⟨start, hstart, rfl⟩⟩
  | linearRamp value stop | exponentialRamp value stop =>
    obtain ⟨hvalue, hstop⟩ := hread
    exact Option.bind_eq_some_iff.mpr ⟨value, hvalue,
      Option.bind_eq_some_iff.mpr ⟨stop, hstop, rfl⟩⟩
  | setTarget target start timeConstant =>
    obtain ⟨htarget, hstart, hconstant⟩ := hread
    exact Option.bind_eq_some_iff.mpr ⟨target, htarget,
      Option.bind_eq_some_iff.mpr ⟨start, hstart,
        Option.bind_eq_some_iff.mpr ⟨timeConstant, hconstant, rfl⟩⟩⟩
  | setCurve values start duration =>
    obtain ⟨hvalues, hstart, hduration⟩ := hread
    exact Option.bind_eq_some_iff.mpr ⟨values, hvalues,
      Option.bind_eq_some_iff.mpr ⟨start, hstart,
        Option.bind_eq_some_iff.mpr ⟨duration, hduration, rfl⟩⟩⟩

end Call

/-! ## What a call does -/

variable {p p' : Automation} {call : Call}

/-- The parameter with the command of a call at the end of its log. -/
def append (p : Automation) (call : Call) : Automation := ⟨p.initial, p.commands ++ [call.command]⟩

theorem apply_eq (call : Call) (p : Automation) :
    p.apply call = call.outcome.map fun _ => p.append call := by
  rw [apply, Call.nonFinite?_eq, Call.outcome]
  cases call.args.find? fun w => !w.finite <;> rfl

theorem apply_eq_ok_iff :
    p.apply call = .ok p' ↔ (∀ x ∈ call.numbers, x.isFinite) ∧ p' = p.append call := by
  rw [apply_eq, Except.map_eq_ok]
  constructor
  · rintro ⟨⟨⟩, h, rfl⟩
    exact ⟨Call.outcome_eq_ok_iff.mp h, rfl⟩
  · rintro ⟨h, rfl⟩
    exact ⟨(), Call.outcome_eq_ok_iff.mpr h, rfl⟩

/-- Makes a call in place. -/
def attempt (p : Automation) (call : Call) : Except MappingError Unit × Automation :=
  Except.settle (·.apply call) p

/-- Makes calls one after another, whether they succeed or fail. -/
def attemptAll (p : Automation) (calls : List Call) :
    List (Except MappingError Unit) × Automation :=
  Except.settleAll (fun call p => p.apply call) calls p

theorem attempt_eq (p : Automation) (call : Call) :
    p.attempt call = (call.outcome, if call.finite then p.append call else p) := by
  have h := Except.settle_eq apply_eq call p
  rwa [Call.isOk_outcome] at h

theorem foldl_append (calls : List Call) (p : Automation) :
    calls.foldl append p = ⟨p.initial, p.commands ++ calls.map Call.command⟩ := by
  induction calls generalizing p with
  | nil => rw [List.map_nil, List.append_nil, List.foldl_nil]
  | cons call calls ih =>
    rw [List.foldl_cons, ih, append, List.append_assoc, List.map_cons, List.singleton_append]

/-- The log is what it was, and after it the commands of the calls that succeeded. -/
theorem attemptAll_eq (p : Automation) (calls : List Call) : p.attemptAll calls
    = (calls.map Call.outcome,
      ⟨p.initial, p.commands ++ (calls.filter Call.finite).map Call.command⟩) := by
  rw [attemptAll, Except.settleAll_eq apply_eq, ← foldl_append]
  simp only [Call.isOk_outcome]

theorem drop_commands_attemptAll (p : Automation) (calls : List Call) :
    (p.attemptAll calls).2.commands.drop p.commands.length
      = (calls.filter Call.finite).map Call.command := by
  rw [attemptAll_eq]
  exact List.drop_left

/-- A call fails if an argument is or holds a number that is not finite, naming the first such
argument, and then changes nothing. Any other call puts its command at the end of the log. So several
calls leave the initial value and the log as they were, but for the commands of those that succeed,
which are put after it in order. Reading the arguments of these commands gives back those calls, and
no `null` is in them. The log is read back from where it is written. -/
theorem attemptAll_recovered (p : Automation) (calls : List Call) :
    (∀ (q : Automation) call,
      q.attempt call = (call.outcome, if call.finite then q.append call else q)) ∧
    (∀ call : Call, call.outcome = .ok () ↔ ∀ x ∈ call.numbers, x.isFinite) ∧
    p.attemptAll calls = (calls.map Call.outcome,
      ⟨p.initial, p.commands ++ (calls.filter Call.finite).map Call.command⟩) ∧
    ((p.attemptAll calls).2.commands.drop p.commands.length).map Call.ofCommand?
      = (calls.filter Call.finite).map some ∧
    (∀ c ∈ (p.attemptAll calls).2.commands.drop p.commands.length, c.NullFree) ∧
    ∀ (q : Param) params, q.read (q.writeTo (p.attemptAll calls).2 params)
      = q.ofCommands (p.attemptAll calls).2.commands := by
  refine ⟨attempt_eq, fun call => Call.outcome_eq_ok_iff, attemptAll_eq p calls, ?_, ?_,
    fun q params => Param.read_writeTo q _ params⟩
  · rw [drop_commands_attemptAll, List.map_map]
    refine List.map_congr_left fun call hcall => ?_
    exact Call.ofCommand?_command (List.mem_filter.mp hcall).2
  · rw [drop_commands_attemptAll, List.forall_mem_map]
    intro call hcall
    exact Call.nullFree_command (Call.finite_iff.mp (List.mem_filter.mp hcall).2)

/-- A parameter that someone else told to hold its value. -/
def held : Automation := ⟨.zero false, [.new "hold"]⟩

/-- Calls of which the first and the third succeed. -/
def fades : List Call :=
  [.setCurve [.zero true, .zero false] .zero ⟨-1⟩,
    .setTarget (.zero false) ⟨5⟩ (.infinite true),
    .linearRamp (.zero true) ⟨10000000000⟩,
    .setTarget .nan .zero (.infinite false)]

theorem attemptAll_recovered_fades :
    (held.attemptAll fades).1 = [.ok (), .error (.nonFinite "timeConstant"), .ok (),
        .error (.nonFinite "target")] ∧
      (held.attemptAll fades).2.initial = .zero false ∧
      ((held.attemptAll fades).2.commands.drop 1).map Call.ofCommand?
        = [some (.setCurve [.zero true, .zero false] .zero ⟨-1⟩),
          some (.linearRamp (.zero true) ⟨10000000000⟩)] := by
  obtain ⟨-, -, hrun, hcalls, -, -⟩ := attemptAll_recovered held fades
  refine ⟨?_, ?_, hcalls⟩
  · rw [hrun]
    rfl
  · rw [hrun]
    rfl

end Automation

end AudioScore
