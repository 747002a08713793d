import AudioScore.Plugin.Registry
import AudioScore.Proofs.Param.Automation
import AudioScore.Proofs.Row
import AudioScore.Proofs.Run

/-!
# Instances read back from their nodes

The node of an instance does not hold the initial values of parameters, so that they are read back
as they are declared. An instance that was made by its plugin, and changed only by calls on its
parameters, still has these, and is read back from its node exactly as it is.

* `Plugin.Instance.Made`: the instances that can come about without documents.
* `Plugin.Instance.Made.sound`: what is true of all of them.
* `Plugin.Instance.ofNode_toNode`: what is read back of an instance whose config can be written.
* `Plugin.Instance.redeclared_eq_iff`: which instances are read back exactly.
-/

namespace AudioScore

/-! ## Declarations -/

/-- Whether the default of a field, if there is one, reads back from what is written of it. -/
def ConfigField.encodableDefault (f : ConfigField) : Bool :=
  match f.default with
  | none => true
  | some d => f.type.arg.encodable d

/-- The fields and the parameters of a plugin have names of their own, and defaults read back. -/
structure Plugin.Sound (p : Plugin) : Prop where
  config_nodup : (p.config.map ConfigField.name).Nodup
  params_nodup : (p.params.map Param.name).Nodup
  encodableDefault : ∀ f ∈ p.config, f.encodableDefault

theorem Plugin.Sound.encodable_default {p : Plugin} (hp : p.Sound) {f : ConfigField}
    (hf : f ∈ p.config) {d : f.Carrier} (hd : f.default = some d) : f.type.arg.encodable d := by
  have h := hp.encodableDefault f hf
  unfold ConfigField.encodableDefault at h
  rwa [hd] at h

/-! ## Logs -/

/-- The initial value is the declared one, and every command was appended by a call. -/
structure Automation.Recorded (a : Automation) (q : Param) : Prop where
  initial_eq : a.initial = q.initial
  command : ∀ c ∈ a.commands, ∃ call : Automation.Call, c = call.command

namespace Automation.Recorded

theorem create (q : Param) : q.create.Recorded q where
  initial_eq := rfl
  command _ hc := absurd hc List.not_mem_nil

/-- A call that succeeds appends its command. -/
theorem apply {a a' : Automation} {q : Param} (h : a.Recorded q) {call : Automation.Call}
    (ha : a.apply call = .ok a') : a'.Recorded q := by
  obtain ⟨-, rfl⟩ := apply_eq_ok_iff.mp ha
  refine ⟨h.initial_eq, fun c hc => ?_⟩
  rcases List.mem_append.mp hc with hc | hc
  · exact h.command c hc
  · exact ⟨call, List.mem_singleton.mp hc⟩

end Automation.Recorded

namespace Plugin

theorem ofNode_of_kind {p : Plugin} {n : Node} (h : n.kind = p.kind) : p.ofNode n
    = (Row.build (fun f => f.arg.readConfig n.config) p.config).map fun config =>
      ⟨.ofNode n, config, Row.ofFn (fun q => q.read n.params) p.params⟩ := by
  unfold ofNode
  rw [if_pos h]
  cases Row.build (fun f => f.arg.readConfig n.config) p.config <;> rfl

theorem result_create (p : Plugin) (fresh : String) (id : Option String) (policy : LoadingPolicy)
    (settings : p.Settings) : (p.create fresh id policy settings).result
      = (p.resolve settings).map fun config =>
        ⟨.new fresh id policy, config, Row.ofFn Param.create p.params⟩ := by
  unfold create
  rw [Run.result_bind, Run.result_ofExcept]
  cases p.resolve settings <;> rfl

/-- A change of one parameter keeps what it keeps of that parameter. -/
theorem every_changeParam {name : String} {change : Automation → Except MappingError Automation}
    {P : Param → Automation → Prop} (hchange : ∀ q a a', P q a → change a = .ok a' → P q a')
    {params : List Param} {row row' : Row (fun _ : Param => Automation) params}
    (h : changeParam name change params row = some (.ok row')) (hrow : row.Every P) :
    row'.Every P := by
  induction params with
  | nil => cases h
  | cons q params ih =>
    obtain ⟨a, rest, rfl⟩ := row.exists_cons
    have hstep : changeParam name change (q :: params) (Row.cons a rest)
        = if q.name = name then some ((change a).map fun a => Row.cons a rest)
          else (changeParam name change params rest).map fun r =>
            r.map fun rest => Row.cons (F := fun _ : Param => Automation) (i := q) a rest := rfl
    rw [hstep] at h
    split at h
    · obtain ⟨a', ha', rfl⟩ := Except.map_eq_ok.mp (Option.some.inj h)
      exact ⟨hchange q a a' hrow.1 ha', hrow.2⟩
    · obtain ⟨r, hr, h⟩ := Option.map_eq_some_iff.mp h
      obtain ⟨rest', rfl, rfl⟩ := Except.map_eq_ok.mp h
      exact ⟨hrow.1, ih hr hrow.2⟩

namespace Instance

variable {p : Plugin}

/-! ## How instances come about -/

/-- The instance after a call on one of its parameters. A call that fails changes nothing. -/
def attempt (x : p.Instance) (name : String) (call : Automation.Call) : p.Instance :=
  match x.automate? name call with
  | some (.ok y) => y
  | _ => x

/-- A call leaves the instance alone, or puts parameters in place after a change of one of them. -/
theorem attempt_cases (x : p.Instance) (name : String) (call : Automation.Call) :
    x.attempt name call = x ∨ ∃ params, x.attempt name call = { x with params } ∧
      changeParam name (·.apply call) p.params x.params = some (.ok params) := by
  unfold attempt
  split
  · rename_i y hy
    obtain ⟨r, hr, hmap⟩ := Option.map_eq_some_iff.mp hy
    obtain ⟨params, rfl, rfl⟩ := Except.map_eq_ok.mp hmap
    exact .inr ⟨params, rfl, hr⟩
  · exact .inl rfl

@[simp]
theorem header_attempt (x : p.Instance) (name : String) (call : Automation.Call) :
    (x.attempt name call).header = x.header := by
  obtain h | ⟨params, h, -⟩ := x.attempt_cases name call <;> rw [h]

@[simp]
theorem config_attempt (x : p.Instance) (name : String) (call : Automation.Call) :
    (x.attempt name call).config = x.config := by
  obtain h | ⟨params, h, -⟩ := x.attempt_cases name call <;> rw [h]

/-- What every successful call keeps of a parameter, an attempt keeps of all of them. -/
theorem every_params_attempt {P : Param → Automation → Prop} {call : Automation.Call}
    (hcall : ∀ q a a', P q a → a.apply call = .ok a' → P q a') {x : p.Instance}
    (hx : x.params.Every P) (name : String) : (x.attempt name call).params.Every P := by
  obtain h | ⟨params, h, hchange⟩ := x.attempt_cases name call <;> rw [h]
  · exact hx
  · exact every_changeParam hcall hchange hx

-- From here on calls on closed instances are not carried out when terms are compared.
attribute [irreducible] Instance.attempt

/-- The instances that can come about: made by the plugin, perhaps given labels, and changed by
calls on their parameters. -/
inductive Made : p.Instance → Prop where
  | create {fresh : String} {id : Option String} {policy : LoadingPolicy} {settings : p.Settings}
      {x : p.Instance} (h : (p.create fresh id policy settings).result = .ok x) : Made x
  | withLabel {x : p.Instance} (h : Made x) (label : String) : Made (x.withLabel label)
  | attempt {x : p.Instance} (h : Made x) (name : String) (call : Automation.Call) :
      Made (x.attempt name call)

/-- Every content of the config reads back, and every log was written by calls. -/
structure Sound (x : p.Instance) : Prop where
  config : x.config.Every fun f a => f.type.arg.encodable a
  params : x.params.Every fun q a => a.Recorded q

/-- A new instance has the config that was resolved, and empty logs. -/
theorem exists_config_of_create {fresh : String} {id : Option String} {policy : LoadingPolicy}
    {settings : p.Settings} {x : p.Instance}
    (h : (p.create fresh id policy settings).result = .ok x) : ∃ config,
      p.resolve settings = .ok config ∧
      x = ⟨.new fresh id policy, config, Row.ofFn Param.create p.params⟩ := by
  rw [result_create] at h
  obtain ⟨config, hconfig, rfl⟩ := Except.map_eq_ok.mp h
  exact ⟨config, hconfig, rfl⟩

theorem Sound.create (hp : p.Sound) {fresh : String} {id : Option String} {policy : LoadingPolicy}
    {settings : p.Settings} {x : p.Instance}
    (h : (p.create fresh id policy settings).result = .ok x) : x.Sound := by
  obtain ⟨config, hconfig, rfl⟩ := exists_config_of_create h
  refine ⟨?_, Row.every_ofFn fun q _ => .create q⟩
  refine Row.every_of_traverse (fun f hf given a ha => ?_) hconfig
  exact Arg.encodable_of_valueOrDefault (a := f.arg) (fun d => hp.encodable_default hf) ha

theorem Sound.withLabel {x : p.Instance} (h : x.Sound) (label : String) :
    (x.withLabel label).Sound := ⟨h.config, h.params⟩

theorem Sound.attempt {x : p.Instance} (h : x.Sound) (name : String) (call : Automation.Call) :
    (x.attempt name call).Sound where
  config := by
    rw [config_attempt]
    exact h.config
  params := every_params_attempt (fun q a a' ha => ha.apply) h.params name

/-- Every instance that can come about is sound. -/
theorem Made.sound (hp : p.Sound) {x : p.Instance} (h : x.Made) : x.Sound := by
  induction h with
  | create h => exact .create hp h
  | withLabel h label ih => exact ih.withLabel label
  | attempt h name call ih => exact ih.attempt name call

/-! ## Nodes -/

/-- The instance with the initial values of its parameters as its plugin declares them. -/
def redeclared (x : p.Instance) : p.Instance :=
  { x with params := x.params.map fun q a => q.ofCommands a.commands }

theorem redeclared_eq_iff {x : p.Instance} :
    x.redeclared = x ↔ x.params.Every fun q a => a.initial = q.initial := by
  have hparams : x.redeclared = x ↔ x.redeclared.params = x.params := by
    constructor
    · exact congrArg Instance.params
    · intro h
      obtain ⟨header, config, params⟩ := x
      exact congrArg (Instance.mk header config) h
  rw [hparams, redeclared, Row.map_eq_iff]
  constructor
  · exact Row.Every.imp fun q a h => (congrArg Automation.initial h).symm
  · refine Row.Every.imp fun q a h => ?_
    rw [Param.ofCommands, ← h]

theorem build_config (hp : p.Sound) {x : p.Instance}
    (h : x.config.Every fun f a => f.type.arg.encodable a) :
    Row.build (fun f => f.arg.readConfig x.configDict) p.config = .ok x.config := by
  have hget := Row.every_get? hp.config_nodup (fun f a => f.type.arg.encode a) x.config
  refine Row.build_eq_ok_iff.mpr ((hget.and h).imp ?_)
  rintro f a ⟨hget, ha⟩
  exact Arg.readConfig_of_get? (a := f.arg) f.type.faithful_arg ha hget

theorem read_params (hp : p.Sound) (x : p.Instance) :
    Row.ofFn (fun q => q.read x.paramsDict) p.params = x.redeclared.params := by
  have hget := Row.every_get? hp.params_nodup (fun q a => q.write a) x.params
  refine Row.ofFn_eq (Row.every_map.mpr (hget.imp ?_))
  intro q a hget
  rw [Param.read, paramsDict, hget]
  rfl

/-- An instance is read back from its node, with the initial values of parameters as they are
declared, if its config can be written. -/
theorem ofNode_toNode (hp : p.Sound) {x : p.Instance}
    (h : x.config.Every fun f a => f.type.arg.encodable a) :
    p.ofNode (Component.toNode x) = .ok x.redeclared := by
  have hconfig : Row.build (fun f => f.arg.readConfig (Component.toNode x).config) p.config
      = .ok x.config := build_config hp h
  have hparams : Row.ofFn (fun q => q.read (Component.toNode x).params) p.params
      = x.redeclared.params := read_params hp x
  rw [ofNode_of_kind rfl, hconfig, hparams]
  rfl

end Instance

end Plugin

end AudioScore
