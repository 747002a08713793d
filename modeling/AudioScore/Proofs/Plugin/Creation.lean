import AudioScore.Proofs.Arg.Writable
import AudioScore.Proofs.Plugin.Registry

/-!
# Instances made in code and instances read

An instance is made in code from the fields that are set. Written down, these make a node, and the
plugin reads the node as it makes the instance, or fails in the same way. Only a double that is
infinite or not a number makes a difference: no node holds it, and in code it is refused.

* `ConfigField.refusal?`: why a field is refused in code.
* `Plugin.settingsNode`, `Plugin.ofNode_settingsNode`: the node of the fields that are set.
* `Registry.builtin_create_agrees`: the two ways to instances of the built-in plugins.
-/

namespace AudioScore

/-! ## Fields that are refused -/

namespace ConfigField

/-- Why a field is refused in code: it is set to contents with a double that is not finite, or it is
not set and has no default. -/
def refusal? (f : ConfigField) : Option f.Carrier → Option MappingError
  | some x => if (f.type.doubles x).all Binary64.isFinite then none else some (.nonFinite f.name)
  | none => if f.default.isNone then some (.missingArgument f.name) else none

theorem refusal?_cases (f : ConfigField) (given : Option f.Carrier) :
    (∃ x, f.arg.valueOrDefault given = .ok x) ∧ f.refusal? given = none ∨
      ∃ e, f.arg.valueOrDefault given = .error e ∧ f.refusal? given = some e := by
  unfold refusal? Arg.valueOrDefault
  cases given with
  | none =>
    unfold Arg.missing arg
    cases f.default with
    | none => exact .inr ⟨_, rfl, rfl⟩
    | some d => exact .inl ⟨⟨d, rfl⟩, rfl⟩
  | some x =>
    have hencodable : f.type.arg.encodable x ↔ (f.type.doubles x).all Binary64.isFinite :=
      (f.type.encodable_iff x).trans List.all_eq_true.symm
    unfold Arg.check arg
    by_cases hx : f.type.arg.encodable x
    · exact .inl ⟨⟨x, if_pos hx⟩, if_pos (hencodable.mp hx)⟩
    · exact .inr ⟨_, if_neg hx, if_neg (mt hencodable.mpr hx)⟩

theorem exists_valueOrDefault_iff (f : ConfigField) (given : Option f.Carrier) :
    (∃ x, f.arg.valueOrDefault given = .ok x) ↔ f.refusal? given = none := by
  obtain ⟨hx, hnone⟩ | ⟨e, he, hsome⟩ := f.refusal?_cases given
  · exact iff_of_true hx hnone
  · rw [he, hsome]
    exact iff_of_false Except.not_exists_ok (Option.some_ne_none e)

theorem valueOrDefault_eq_error_iff (f : ConfigField) (given : Option f.Carrier)
    (e : MappingError) : f.arg.valueOrDefault given = .error e ↔ f.refusal? given = some e := by
  obtain ⟨⟨x, hx⟩, hnone⟩ | ⟨d, hd, hsome⟩ := f.refusal?_cases given
  · rw [hx, hnone]
    exact iff_of_false (fun h => by cases h) fun h => by cases h
  · rw [hd, hsome, Except.error.injEq, Option.some_inj]

theorem refusal?_some_eq_none_iff (f : ConfigField) (x : f.Carrier) :
    f.refusal? (some x) = none ↔ ∀ y ∈ f.type.doubles x, y.isFinite := by
  unfold refusal?
  dsimp only
  rw [← List.all_eq_true]
  split
  · exact iff_of_true rfl ‹_›
  · exact iff_of_false (Option.some_ne_none _) ‹_›

/-- A field without doubles that are not finite is refused because it is not set. -/
theorem refusal?_of_finite {f : ConfigField} {given : Option f.Carrier} {e : MappingError}
    (h : ∀ x, given = some x → ∀ y ∈ f.type.doubles x, y.isFinite)
    (he : f.refusal? given = some e) : f.default = none ∧ e = .missingArgument f.name := by
  cases given with
  | none =>
    unfold refusal? at he
    dsimp only at he
    split at he
    · exact ⟨Option.isNone_iff_eq_none.mp ‹_›, (Option.some.inj he).symm⟩
    · cases he
  | some x =>
    rw [(f.refusal?_some_eq_none_iff x).mpr (h x rfl)] at he
    cases he

end ConfigField

namespace Plugin

variable {p : Plugin} {fresh id : String} {policy : LoadingPolicy} {settings : p.Settings}

/-- Whether all doubles in the fields that are set are finite. -/
def FiniteSettings (settings : p.Settings) : Prop :=
  settings.Every fun f given => ∀ x, given = some x → ∀ y ∈ f.type.doubles x, y.isFinite

/-- Making an instance fails for the first field that is refused. -/
theorem create_eq_error_iff {id : Option String} {e : MappingError} :
    (p.create fresh id policy settings).result = .error e ↔
      First (· = none) (· = some e) (Row.toList ConfigField.refusal? p.config settings) := by
  rw [result_create, Except.map_eq_error]
  exact Row.traverse_eq_error_iff ConfigField.exists_valueOrDefault_iff
    ConfigField.valueOrDefault_eq_error_iff

/-- Only instances with finite doubles are made. -/
theorem finite_of_create {id : Option String} {x : p.Instance}
    (h : (p.create fresh id policy settings).result = .ok x) : FiniteSettings settings := by
  obtain ⟨config, hconfig, -⟩ := Instance.exists_config_of_create h
  refine (Row.exists_traverse_iff.mp ⟨config, hconfig⟩).imp ?_
  rintro f given hgiven a rfl
  exact (f.refusal?_some_eq_none_iff a).mp ((f.exists_valueOrDefault_iff _).mp hgiven)

/-- With finite doubles, making an instance fails only for a field that is not set and has no
default. -/
theorem missing_of_create {id : Option String} {e : MappingError} (h : FiniteSettings settings)
    (he : (p.create fresh id policy settings).result = .error e) :
    ∃ f ∈ p.config, f.default = none ∧ e = .missingArgument f.name := by
  obtain ⟨before, r, after, hsplit, -, hr⟩ := create_eq_error_iff.mp he
  have hmem : r ∈ Row.toList ConfigField.refusal? p.config settings := by
    rw [hsplit]
    exact List.mem_append_right _ List.mem_cons_self
  refine Row.Every.mem_toList (P := fun r => r = some e → _) ?_ hmem hr
  exact h.imp_of_mem fun f hf given hfinite he => ⟨f, hf, ConfigField.refusal?_of_finite hfinite he⟩

/-! ## Nodes of settings -/

/-- The node of the fields that are set. It has no label and no parameters. -/
def settingsNode (p : Plugin) (id : String) (policy : LoadingPolicy) (settings : p.Settings) :
    Node where
  id := id
  kind := p.kind
  label := none
  loadingPolicy := some policy
  params := .empty
  config := .ofList (Row.present ConfigField.name (fun f x => f.type.arg.encode x) settings)

/-- A plugin reads the fields that are set as it takes them in code. -/
theorem ofNode_settingsNode (hp : p.Sound) (h : FiniteSettings settings) :
    p.ofNode (p.settingsNode id policy settings)
      = (p.create fresh (some id) policy settings).result := by
  have hget := Row.every_get?_present hp.config_nodup (fun f x => f.type.arg.encode x) settings
  -- So both ways go through the fields with the same outcome at each, and stop at the same one.
  have hread : settings.Every fun f given =>
      f.arg.readConfig (p.settingsNode id policy settings).config = f.arg.valueOrDefault given := by
    refine (hget.and h).imp ?_
    rintro f given ⟨hget, hfinite⟩
    have hencodable : ∀ x, given = some x → f.type.arg.encodable x :=
      fun x hx => (f.type.encodable_iff x).mpr (hfinite x hx)
    have hentry : (p.settingsNode id policy settings).config.get? f.arg.name
        = given.map f.arg.type.encode := hget
    rw [Arg.readConfig, hentry]
    exact Arg.read_map_encode (a := f.arg) f.type.faithful_arg hencodable
  rw [ofNode_of_kind rfl, Row.build_eq_traverse hread, result_create]
  rfl

end Plugin

/-! ## The built-in plugins -/

namespace Registry

/-- Where all doubles that are set are finite, making an instance of a built-in plugin in code and
reading the node of what is set have the same outcome, and fail only for a field that is not set and
has no default. Where one is not, making the instance fails. It always fails for the first field
that is refused, be it set or not. -/
theorem builtin_create_agrees {entry : RegistryEntry} (hentry : entry ∈ builtin.entries)
    (fresh id : String) (policy : LoadingPolicy) (settings : entry.plugin.Settings) :
    (Plugin.FiniteSettings settings →
      (entry.plugin.create fresh (some id) policy settings).result
          = entry.plugin.ofNode (entry.plugin.settingsNode id policy settings) ∧
        ∀ e, (entry.plugin.create fresh (some id) policy settings).result = .error e →
          ∃ f ∈ entry.plugin.config, f.default = none ∧ e = .missingArgument f.name) ∧
    (¬ Plugin.FiniteSettings settings →
      ∃ e, (entry.plugin.create fresh (some id) policy settings).result = .error e) ∧
    ∀ e, (entry.plugin.create fresh (some id) policy settings).result = .error e ↔
      First (· = none) (· = some e)
        (Row.toList ConfigField.refusal? entry.plugin.config settings) := by
  have hp : entry.plugin.Sound := builtin_sound.plugin entry hentry
  refine ⟨fun h => ⟨(Plugin.ofNode_settingsNode hp h).symm, fun e => Plugin.missing_of_create h⟩,
    fun h => ?_, fun e => Plugin.create_eq_error_iff⟩
  cases hresult : (entry.plugin.create fresh (some id) policy settings).result with
  | ok x => exact absurd (Plugin.finite_of_create hresult) h
  | error e => exact ⟨e, rfl⟩

/-- A loop with a start and no duration. -/
def endless : Builtin.loop.Settings := (some .zero, none, none, ⟨⟩)

/-- A sine wave with a frequency that is not a number. -/
def toneless : Builtin.sine.Settings := (some .nan, none, none, ⟨⟩)

theorem builtin_create_agrees_endless :
    (Builtin.loop.create "x" (some "l") .allContent endless).result
        = .error (.missingArgument "duration") ∧
      Builtin.loop.ofNode (Builtin.loop.settingsNode "l" .allContent endless)
        = .error (.missingArgument "duration") ∧
      (Builtin.sine.create "x" (some "s") .allContent toneless).result
        = .error (.nonFinite "frequency") ∧
      ∃ x, Builtin.sine.ofNode (Builtin.sine.settingsNode "s" .allContent toneless) = .ok x := by
  have hloop : ⟨"Loop", "Repeats a window of its input", Builtin.loop⟩ ∈ builtin.entries :=
    List.get_mem builtin.entries ⟨8, by decide⟩
  have hsine : ⟨"Sine", "Sine wave source", Builtin.sine⟩ ∈ builtin.entries :=
    List.get_mem builtin.entries ⟨12, by decide⟩
  have hfinite : Plugin.FiniteSettings endless :=
    ⟨fun x _ y hy => absurd hy List.not_mem_nil, fun x _ y hy => absurd hy List.not_mem_nil,
      fun x _ y hy => absurd hy List.not_mem_nil, trivial⟩
  obtain ⟨hagree, -, hfirst⟩ := builtin_create_agrees hloop "x" "l" .allContent endless
  have hduration := (hfirst (.missingArgument "duration")).mpr
    ⟨[none], _, [none], rfl, List.forall_mem_singleton.mpr rfl, rfl⟩
  obtain ⟨-, -, hfirst⟩ := builtin_create_agrees hsine "x" "s" .allContent toneless
  have hfrequency := (hfirst (.nonFinite "frequency")).mpr
    ⟨[], _, [none, none], rfl, fun r hr => absurd hr List.not_mem_nil, rfl⟩
  exact ⟨hduration, (hagree hfinite).1.symm.trans hduration, hfrequency, _, rfl⟩

end Registry

end AudioScore
