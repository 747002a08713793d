import AudioScore.Proofs.Plugin.Kept

/-!
# What a node does not hold of an instance

Whatever was done with an instance, it is read back from its node. Only the initial values of
parameters are not in the node, and come back as the plugin declares them.

* `Plugin.Instance.Obtained`: the instances that can come about, and whether parameters were put in
  place of others on the way.
* `Plugin.Instance.Obtained.encodable`: their config can be written.
* `Registry.builtin_decode_toNode`: what is read back, and when it is the instance itself.
-/

namespace AudioScore

namespace Plugin.Instance

variable {p : Plugin}

/-! ## How instances come about -/

/-- The instance with the parameter of a name replaced, if there is one. -/
def assign (x : p.Instance) (name : String) (a : Automation) : p.Instance :=
  match changeParam name (fun _ => .ok a) p.params x.params with
  | some (.ok params) => { x with params }
  | _ => x

@[simp]
theorem config_assign (x : p.Instance) (name : String) (a : Automation) :
    (x.assign name a).config = x.config := by
  unfold assign
  split <;> rfl

/-- The instances that can come about: made by the plugin or read from nodes, perhaps given labels,
and changed by calls on their parameters or by putting other ones in their places. Whether any
parameter was put in place of another is told apart. -/
inductive Obtained : Bool → p.Instance → Prop where
  | create {fresh : String} {id : Option String} {policy : LoadingPolicy} {settings : p.Settings}
      {x : p.Instance} (h : (p.create fresh id policy settings).result = .ok x) : Obtained false x
  | ofNode {n : Node} {x : p.Instance} (h : p.ofNode n = .ok x) : Obtained false x
  | withLabel {assigned : Bool} {x : p.Instance} (h : Obtained assigned x) (label : String) :
      Obtained assigned (x.withLabel label)
  | attempt {assigned : Bool} {x : p.Instance} (h : Obtained assigned x) (name : String)
      (call : Automation.Call) : Obtained assigned (x.attempt name call)
  | assign {assigned : Bool} {x : p.Instance} (h : Obtained assigned x) (name : String)
      (a : Automation) : Obtained true (x.assign name a)

namespace Obtained

variable {assigned : Bool} {x : p.Instance}

/-- Nothing that is done with an instance puts anything into its config that could not be
written. -/
theorem encodable (hp : p.Sound) (h : x.Obtained assigned) :
    x.config.Every fun f a => f.type.arg.encodable a := by
  induction h with
  | create h => exact (Sound.create hp h).config
  | ofNode h => exact encodable_of_ofNode hp h
  | withLabel h label ih => exact ih
  | attempt h name call ih =>
    rw [config_attempt]
    exact ih
  | assign h name a ih =>
    rw [config_assign]
    exact ih

/-- As long as no parameter is put in place of another, initial values stay as they are
declared. -/
theorem declared (hp : p.Sound) (h : x.Obtained false) :
    x.params.Every fun q a => a.initial = q.initial := by
  -- The induction needs an index of its own, which then rules the last case out.
  generalize hassigned : false = assigned at h
  induction h with
  | create h => exact (Sound.create hp h).params.imp fun q a ha => ha.initial_eq
  | ofNode h => exact declared_of_ofNode h
  | withLabel h label ih => exact ih hassigned
  | attempt h name call ih =>
    refine every_params_attempt (fun q a a' ha hcall => ?_) (ih hassigned) name
    obtain ⟨-, rfl⟩ := Automation.apply_eq_ok_iff.mp hcall
    exact ha
  | assign h name a ih => cases hassigned

end Obtained

end Plugin.Instance

namespace Registry

/-- Any instance of a built-in plugin is read back from its node, with the initial values of its
parameters as they are declared and with nothing else changed. So it is read back exactly if they
all are as declared, and they are as long as no parameter was put in place of another. -/
theorem builtin_decode_toNode {x : builtin.Instance} {assigned : Bool}
    (h : x.node.Obtained assigned) :
    (builtin.decode (Component.toNode x)).result = .ok x.redeclared ∧
      ((builtin.decode (Component.toNode x)).result = .ok x ↔
        x.node.params.Every fun q a => a.initial = q.initial) ∧
      (assigned = false → (builtin.decode (Component.toNode x)).result = .ok x) := by
  have hp := builtin_sound.plugin _ (List.getElem_mem x.index.isLt)
  have hback := decode_toNode_eq_redeclared builtin_sound (h.encodable hp)
  have hexact : (builtin.decode (Component.toNode x)).result = .ok x ↔
      x.node.params.Every fun q a => a.initial = q.initial := by
    rw [hback, Except.ok.injEq, Instance.redeclared_eq_iff]
  refine ⟨hback, hexact, ?_⟩
  rintro rfl
  exact hexact.mpr (h.declared hp)

/-- A delay as it is made. -/
def undelayed : Builtin.delay.Instance :=
  ⟨⟨"echo", .someContent, none⟩, ⟨⟩, Row.ofFn Param.create Builtin.delay.params⟩

/-- The delay with a label, after a call that failed, with a parameter in place of its own that
does not start at a number. -/
def echo : builtin.Instance :=
  ⟨⟨3, by decide⟩, ((undelayed.withLabel "Echo").attempt "delayTime" (.setValue .nan .zero)).assign
    "delayTime" ⟨.nan, [.new "hold"]⟩⟩

theorem builtin_decode_toNode_echo :
    echo.node.Obtained true ∧
      (builtin.decode (Component.toNode echo)).result = .ok echo.redeclared ∧
      (builtin.decode (Component.toNode echo)).result ≠ .ok echo := by
  have hmade : undelayed.Obtained false := by
    have hcreate : (Builtin.delay.create "fresh" (some "echo") .someContent ⟨⟩).result
        = .ok undelayed := rfl
    exact .create hcreate
  have hobtained : echo.node.Obtained true :=
    .assign (.attempt (.withLabel hmade "Echo") _ _) "delayTime" ⟨.nan, [.new "hold"]⟩
  obtain ⟨hback, hexact, -⟩ := builtin_decode_toNode hobtained
  refine ⟨hobtained, hback, fun h => ?_⟩
  obtain ⟨hinitial, -⟩ := hexact.mp h
  have hzero : Binary64.nan = (Builtin.whole "delayTime" 0).initial := hinitial
  obtain ⟨y, hy, -⟩ := Binary64.ofInt_isNearest (n := 0) (by decide)
  rw [Builtin.whole, hy] at hzero
  cases hzero

end Registry

end AudioScore
