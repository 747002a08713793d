import AudioScore.Proofs.Arg.Writable
import AudioScore.Proofs.Dict

/-!
# Writing one field after another

Fields are written into a config one after another. A write with a double that is not finite fails
and leaves the config as it was. The others put their contents under the name of their field, where
they are read back until something else is written under that name.

* `Write.perform`, `Write.performAll`: one write, and several.
* `Write.performAll_eq`: what comes of several.
* `Write.performAll_readsBack`: what is read of the config afterwards.
-/

namespace AudioScore

/-- Contents that are to be written under the name of a field. -/
structure Write where
  field : ConfigField
  value : field.Carrier

namespace Write

/-- Whether all doubles in the contents are finite. -/
def finite (w : Write) : Bool := (w.field.type.doubles w.value).all Binary64.isFinite

/-- What the contents become. -/
def encoding (w : Write) : Value := w.field.type.arg.encode w.value

/-- What a write reports. -/
def outcome (w : Write) : Except MappingError Unit :=
  if w.finite then .ok () else .error (.nonFinite w.field.name)

/-- Writes into a config in place. -/
def perform (w : Write) (config : Dict Value) : Except MappingError Unit × Dict Value :=
  Except.settle (w.field.arg.writeTo w.value) config

/-- Writes one after another, whether they succeed or fail. -/
def performAll (ws : List Write) (config : Dict Value) :
    List (Except MappingError Unit) × Dict Value :=
  Except.settleAll (fun w => w.field.arg.writeTo w.value) ws config

/-! ## What is put in -/

theorem finite_iff {w : Write} : w.finite ↔ w.field.type.arg.encodable w.value :=
  List.all_eq_true.trans (w.field.type.encodable_iff w.value).symm

@[simp]
theorem isOk_outcome (w : Write) : w.outcome.isOk = w.finite := by
  unfold outcome
  cases w.finite <;> rfl

/-- A write that succeeds puts what is written under the name of the field. -/
theorem writeTo_eq (w : Write) (config : Dict Value) : w.field.arg.writeTo w.value config
    = w.outcome.map fun _ => config.insert w.field.name w.encoding := by
  rw [Arg.writeTo, outcome]
  by_cases h : w.finite
  · rw [if_pos h, Arg.write_of_encodable (finite_iff.mp h)]
    rfl
  · rw [if_neg h, Arg.write_of_not_encodable (mt finite_iff.mpr h)]
    rfl

theorem perform_eq (w : Write) (config : Dict Value) : w.perform config
    = (w.outcome, if w.finite then config.insert w.field.name w.encoding else config) := by
  have h := Except.settle_eq writeTo_eq w config
  rwa [isOk_outcome] at h

/-- The entries that writes put in. -/
def entries (ws : List Write) : List (String × Value) :=
  (ws.filter finite).map fun w => (w.field.name, w.encoding)

theorem mem_keys_entries {ws : List Write} {key : String} :
    key ∈ (entries ws).map Prod.fst ↔ ∃ w ∈ ws, w.finite ∧ w.field.name = key := by
  simp [entries, and_assoc]

theorem performAll_eq (ws : List Write) (config : Dict Value) :
    performAll ws config = (ws.map outcome, config.insertAll (entries ws)) := by
  rw [performAll, Except.settleAll_eq writeTo_eq, entries, Dict.insertAll, List.foldl_map]
  simp only [isOk_outcome]

/-! ## What is read afterwards -/

/-- What was written last under the name of a field is read by any field of that name and type. -/
theorem readConfig_performAll {before after : List Write} {w : Write} (h : w.finite)
    (hlast : ∀ v ∈ after, v.finite → v.field.name ≠ w.field.name)
    (default : Option w.field.type.Carrier) (config : Dict Value) :
    (⟨w.field.name, w.field.type, default⟩ : ConfigField).arg.readConfig
      (performAll (before ++ w :: after) config).2 = .ok w.value := by
  have hentries : entries (before ++ w :: after)
      = entries before ++ (w.field.name, w.encoding) :: entries after := by simp [entries, h]
  have hother : w.field.name ∉ (entries after).map Prod.fst := by
    rw [mem_keys_entries]
    rintro ⟨v, hv, hfinite, hname⟩
    exact hlast v hv hfinite hname
  have hget : (performAll (before ++ w :: after) config).2.get? w.field.name = some w.encoding := by
    rw [performAll_eq, hentries]
    exact Dict.get?_insertAll_of_last hother config
  exact Arg.readConfig_of_get? (a := ConfigField.arg ⟨w.field.name, w.field.type, default⟩)
    w.field.type.faithful_arg (finite_iff.mp h) hget

theorem get?_performAll {ws : List Write} {key : String}
    (h : ∀ w ∈ ws, w.finite → w.field.name ≠ key) (config : Dict Value) :
    (performAll ws config).2.get? key = config.get? key := by
  rw [performAll_eq]
  refine Dict.get?_insertAll_of_not_mem ?_ config
  rw [mem_keys_entries]
  rintro ⟨w, hw, hfinite, hname⟩
  exact h w hw hfinite hname

/-- A write fails if its contents hold a double that is not finite, and then changes nothing. Of
several writes into a config, those and no others fail. What was written last under a name is read
back by any field of that name and type, whatever its default is. Under all other names the config is
as it was. The contents that can be written are those whose encoding is accepted and stands for
them. -/
theorem performAll_readsBack (ws : List Write) (config : Dict Value) :
    (∀ (w : Write) given, w.perform given
      = (w.outcome, if w.finite then given.insert w.field.name w.encoding else given)) ∧
    (performAll ws config).1 = ws.map outcome ∧
    (∀ before w after, ws = before ++ w :: after → w.finite →
      (∀ v ∈ after, v.finite → v.field.name ≠ w.field.name) →
        ∀ default, (⟨w.field.name, w.field.type, default⟩ : ConfigField).arg.readConfig
          (performAll ws config).2 = .ok w.value) ∧
    (∀ key, (∀ w ∈ ws, w.finite → w.field.name ≠ key) →
      (performAll ws config).2.get? key = config.get? key) ∧
    ∀ (τ : FieldType) (x : τ.Carrier), τ.arg.encodable x ↔
      τ.arg.accepts (τ.arg.encode x).json ∧ τ.arg.decode (τ.arg.encode x).json = .ok x := by
  refine ⟨perform_eq, congrArg Prod.fst (performAll_eq ws config), ?_, ?_,
    FieldType.encodable_iff_decode⟩
  · rintro before w after rfl h hlast default
    exact readConfig_performAll h hlast default config
  · intro key h
    exact get?_performAll h config

/-- A gain of minus zero, cutoffs of which one is infinite, and a gain that is not a number. -/
def mixed : List Write :=
  [⟨.required "gain" (.scalar .float), .zero true⟩,
    ⟨.required "cutoffs" (.list .float), [.zero false, .infinite false]⟩,
    ⟨.withDefault "gain" (.scalar .float) (.zero false), .nan⟩]

theorem performAll_readsBack_mixed :
    (performAll mixed .empty).1
        = [.ok (), .error (.nonFinite "cutoffs"), .error (.nonFinite "gain")] ∧
      (Write.perform ⟨.required "cutoffs" (.list .float), [.infinite false]⟩ .empty).2 = .empty ∧
      (ConfigField.withDefault "gain" (.scalar .float) .nan).arg.readConfig
        (performAll mixed .empty).2 = .ok (.zero true) ∧
      (performAll mixed .empty).2.get? "cutoffs" = none := by
  obtain ⟨hstep, houtcomes, hback, hkept, -⟩ := performAll_readsBack mixed .empty
  have hcutoffs := congrArg Prod.snd
    (hstep ⟨.required "cutoffs" (.list .float), [.infinite false]⟩ .empty)
  have hgain := hback [] ⟨.required "gain" (.scalar .float), .zero true⟩ (mixed.drop 1) rfl rfl
    (by decide) (some .nan)
  exact ⟨houtcomes, hcutoffs, hgain, hkept "cutoffs" (by decide)⟩

end Write

end AudioScore
