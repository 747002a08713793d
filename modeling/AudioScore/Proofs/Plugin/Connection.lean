import AudioScore.Plugin.Builtin
import AudioScore.Plugin.Connect

/-!
# Which components are connected

Two components are linked by their default ports, or by an output of the one and an input of the
other. Which links there are, what refuses the others, and what is reported, is told here by the
declared ports alone, and it is the same from whichever end the link is made.

* `PortSpec.find?_eq_some_iff`: the port that a name stands for.
* `Link.Fits`, `Link.Refuses`: whether a link fits two components, and what refuses it otherwise.
* `Link.connect_of_fits`, `Link.connect_of_refuses`: what comes of making a link.
* `Link.connect_iff_fits`: from either end, an edge exactly where a link fits.
-/

namespace AudioScore

/-! ## Ports by name -/

namespace PortSpec

/-- Whether a port is the first one of a name. -/
def FirstNamed (ports : List PortSpec) (name : String) (p : PortSpec) : Prop :=
  ∃ before after, ports = before ++ p :: after ∧ (∀ q ∈ before, q.name ≠ name) ∧ p.name = name

variable {ports : List PortSpec} {name : String} {p : PortSpec}

theorem find?_eq_some_iff : find? ports name = some p ↔ FirstNamed ports name p := by
  rw [find?, List.find?_eq_some_iff_append]
  constructor
  · rintro ⟨hname, before, after, hsplit, hbefore⟩
    refine ⟨before, after, hsplit, fun q hq hqname => ?_, beq_iff_eq.mp hname⟩
    have hne := hbefore q hq
    rw [hqname, beq_self_eq_true] at hne
    cases hne
  · rintro ⟨before, after, hsplit, hbefore, hname⟩
    refine ⟨beq_iff_eq.mpr hname, before, after, hsplit, fun q hq => ?_⟩
    rw [beq_eq_false_iff_ne.mpr (hbefore q hq)]
    rfl

theorem find?_eq_none_iff : find? ports name = none ↔ ∀ p ∈ ports, p.name ≠ name := by
  rw [find?, List.find?_eq_none]
  simp only [beq_iff_eq, ne_eq]

theorem FirstNamed.mem (h : FirstNamed ports name p) : p ∈ ports := by
  obtain ⟨before, after, rfl, -⟩ := h
  exact List.mem_append_right _ (List.mem_cons_self ..)

end PortSpec

/-! ## Links -/

/-- Which ports of two components are to be connected. -/
inductive Link where
  /-- The ports that the two have without naming them. -/
  | default
  /-- An output of the one and an input of the other. -/
  | named (output input : String)
deriving DecidableEq

namespace Link

open Component PortSpec

variable {α β : Type} [Component α] [Component β]

/-- Makes a link, the source being named first. -/
def connect (l : Link) (fresh : String) (source : α) (target : β) : Run ConnectError Edge :=
  match l with
  | .default => Component.connect fresh source target
  | .named output input => connectPorts fresh source target output input

/-- Makes a link, the target being named first. -/
def connectFrom (l : Link) (fresh : String) (target : β) (source : α) : Run ConnectError Edge :=
  match l with
  | .default => Component.connectFrom fresh target source
  | .named output input => connectPortsFrom fresh target source output input

/-- The edge that a link is. -/
def edge (l : Link) (fresh source target : String) : Edge :=
  match l with
  | .default => ⟨fresh, source, target, .default, .default⟩
  | .named output input => ⟨fresh, source, target, .named output, .named input⟩

/-- What is reported of the edge of a link. -/
def report (l : Link) (e : Edge) : Event :=
  match l with
  | .default => .connected e.source e.target e.id
  | .named output input => .portsConnected e.source output e.target input e.id

/-- Whether a link fits two components. -/
inductive Fits (a : α) (b : β) : Link → Prop where
  | default (ha : outputs a ≠ []) (hb : inputs b ≠ []) : Fits a b .default
  /-- The ports that the names stand for carry the same content. -/
  | named {output input : String} {o i : PortSpec} (ho : FirstNamed (outputs a) output o)
    (hi : FirstNamed (inputs b) input i) (h : o.contentType = i.contentType) :
    Fits a b (.named output input)

/-- What refuses a link between two components. The source is looked at first. -/
inductive Refuses (a : α) (b : β) : Link → ConnectError → Prop where
  | notASource (ha : outputs a = []) : Refuses a b .default (.notASource (id a))
  | notATarget (ha : outputs a ≠ []) (hb : inputs b = []) :
    Refuses a b .default (.notATarget (id b))
  | unknownOutput {output input : String} (ho : ∀ o ∈ outputs a, o.name ≠ output) :
    Refuses a b (.named output input) (.unknownPort (id a) output)
  | unknownInput {output input : String} {o : PortSpec} (ho : FirstNamed (outputs a) output o)
    (hi : ∀ i ∈ inputs b, i.name ≠ input) :
    Refuses a b (.named output input) (.unknownPort (id b) input)
  | incompatible {output input : String} {o i : PortSpec} (ho : FirstNamed (outputs a) output o)
    (hi : FirstNamed (inputs b) input i) (h : o.contentType ≠ i.contentType) :
    Refuses a b (.named output input) (.incompatible o.contentType i.contentType)

variable {l : Link} {a : α} {b : β} {fresh : String} {e : Edge} {x : ConnectError}

/-- Every link fits or is refused. -/
theorem fits_or_refuses (l : Link) (a : α) (b : β) : l.Fits a b ∨ ∃ x, l.Refuses a b x := by
  cases l with
  | default =>
    by_cases ha : outputs a = []
    · exact .inr ⟨_, .notASource ha⟩
    · by_cases hb : inputs b = []
      · exact .inr ⟨_, .notATarget ha hb⟩
      · exact .inl (.default ha hb)
  | named output input =>
    cases ho : output? a output with
    | none => exact .inr ⟨_, .unknownOutput (find?_eq_none_iff.mp ho)⟩
    | some o =>
      cases hi : input? b input with
      | none => exact .inr ⟨_, .unknownInput (find?_eq_some_iff.mp ho) (find?_eq_none_iff.mp hi)⟩
      | some i =>
        have ho := find?_eq_some_iff.mp ho
        have hi := find?_eq_some_iff.mp hi
        by_cases h : o.contentType = i.contentType
        · exact .inl (.named ho hi h)
        · exact .inr ⟨_, .incompatible ho hi h⟩

/-- A link that fits is made and reported. -/
theorem connect_of_fits (h : l.Fits a b) (fresh : String) :
    l.connect fresh a b
      = ⟨.ok (l.edge fresh (id a) (id b)), [l.report (l.edge fresh (id a) (id b))]⟩ := by
  cases h with
  | default ha hb =>
    simp only [connect, Component.connect, List.isEmpty_iff, ha, hb, if_false]
    rfl
  | named ho hi h =>
    simp only [connect, connectPorts, output?, input?, find?_eq_some_iff.mpr ho,
      find?_eq_some_iff.mpr hi, h, if_true]
    rfl

/-- A link that is refused is not reported. -/
theorem connect_of_refuses (h : l.Refuses a b x) (fresh : String) :
    l.connect fresh a b = ⟨.error x, []⟩ := by
  cases h with
  | notASource ha =>
    simp only [connect, Component.connect, List.isEmpty_iff, ha, if_true]
    rfl
  | notATarget ha hb =>
    simp only [connect, Component.connect, List.isEmpty_iff, ha, hb, if_false, if_true]
    rfl
  | unknownOutput ho =>
    simp only [connect, connectPorts, output?, find?_eq_none_iff.mpr ho]
    rfl
  | unknownInput ho hi =>
    simp only [connect, connectPorts, output?, input?, find?_eq_some_iff.mpr ho,
      find?_eq_none_iff.mpr hi]
    rfl
  | incompatible ho hi h =>
    simp only [connect, connectPorts, output?, input?, find?_eq_some_iff.mpr ho,
      find?_eq_some_iff.mpr hi, h, if_false]
    rfl

theorem result_connect_eq_ok_iff :
    (l.connect fresh a b).result = .ok e ↔ l.Fits a b ∧ e = l.edge fresh (id a) (id b) := by
  constructor
  · intro he
    rcases l.fits_or_refuses a b with h | ⟨x, h⟩
    · rw [connect_of_fits h] at he
      exact ⟨h, (Except.ok.inj he).symm⟩
    · rw [connect_of_refuses h] at he
      cases he
  · rintro ⟨h, rfl⟩
    rw [connect_of_fits h]

theorem result_connect_eq_error_iff :
    (l.connect fresh a b).result = .error x ↔ l.Refuses a b x := by
  constructor
  · intro hx
    rcases l.fits_or_refuses a b with h | ⟨y, h⟩
    · rw [connect_of_fits h] at hx
      cases hx
    · rw [connect_of_refuses h] at hx
      cases hx
      exact h
  · intro h
    rw [connect_of_refuses h]

/-- Whether a run reports the edge that it gives back, once, and nothing if it gives back none. -/
def Reported (l : Link) (r : Run ConnectError Edge) : Prop :=
  r.events = match r.result with
    | .ok e => [l.report e]
    | .error _ => []

theorem reported_connect (l : Link) (fresh : String) (a : α) (b : β) :
    l.Reported (l.connect fresh a b) := by
  unfold Reported
  rcases l.fits_or_refuses a b with h | ⟨x, h⟩
  · rw [connect_of_fits h]
  · rw [connect_of_refuses h]

theorem connectFrom_eq (l : Link) (fresh : String) (a : α) (b : β) :
    l.connectFrom fresh b a = l.connect fresh a b := by
  cases l <;> rfl

/-- Another fresh id makes another edge id, and changes nothing else. -/
theorem result_connect_fresh (l : Link) (fresh fresh' : String) (a : α) (b : β) :
    ((l.connect fresh' a b).result.map fun e => { e with id := fresh })
      = (l.connect fresh a b).result := by
  rcases l.fits_or_refuses a b with h | ⟨x, h⟩
  · rw [connect_of_fits h, connect_of_fits h]
    cases l <;> rfl
  · rw [connect_of_refuses h, connect_of_refuses h]
    rfl

/-- Components with ports that fit have ports. -/
theorem Fits.to_default (h : l.Fits a b) : Link.default.Fits a b := by
  cases h with
  | default ha hb => exact .default ha hb
  | named ho hi _ => exact .default (List.ne_nil_of_mem ho.mem) (List.ne_nil_of_mem hi.mem)

/-- A link gives back an edge exactly if it fits, and otherwise what refuses it. The edge leads from
the source to the target by the ports of the link. Made from the other end, with a fresh id of its
own, a link gives back the same edge up to that id, or the same refusal. Either way it is reported
exactly if an edge is given back. Where a link by named ports gives back an edge, so does the link
by default ports. -/
theorem connect_iff_fits (a : α) (b : β) :
    (∀ (l : Link) fresh e, (l.connect fresh a b).result = .ok e ↔
      l.Fits a b ∧ e = l.edge fresh (id a) (id b)) ∧
    (∀ (l : Link) fresh x, (l.connect fresh a b).result = .error x ↔ l.Refuses a b x) ∧
    (∀ (l : Link) fresh fresh', ((l.connectFrom fresh' b a).result.map fun e =>
      { e with id := fresh }) = (l.connect fresh a b).result) ∧
    (∀ (l : Link) fresh, l.Reported (l.connect fresh a b) ∧ l.Reported (l.connectFrom fresh b a)) ∧
    ∀ output input fresh fresh', (∃ e, ((Link.named output input).connect fresh a b).result = .ok e) →
      ∃ e, (Link.default.connect fresh' a b).result = .ok e := by
  refine ⟨fun l fresh e => result_connect_eq_ok_iff, fun l fresh x => result_connect_eq_error_iff,
    fun l fresh fresh' => ?_, fun l fresh => ?_, ?_⟩
  · rw [connectFrom_eq]
    exact l.result_connect_fresh fresh fresh' a b
  · rw [connectFrom_eq]
    exact ⟨l.reported_connect fresh a b, l.reported_connect fresh a b⟩
  · rintro output input fresh fresh' ⟨e, he⟩
    obtain ⟨h, -⟩ := result_connect_eq_ok_iff.mp he
    exact ⟨_, result_connect_eq_ok_iff.mpr ⟨h.to_default, rfl⟩⟩

/-- A source of noise. -/
def hiss : Builtin.noise.Instance := ⟨⟨"hiss", .allContent, none⟩, (.zero, .zero, ⟨⟩), ⟨⟩⟩

/-- A compressor, which may be driven by another sound than the one that it lowers. -/
def ducker : Builtin.compressor.Instance :=
  ⟨⟨"ducker", .allContent, none⟩, (.max, .hard, [], ⟨⟩),
    Row.ofFn Param.create Builtin.compressor.params⟩

theorem connect_iff_fits_ducker :
    (∃ e, ((Link.named "audio" "sidechain").connect "e" hiss ducker).result = .ok e) ∧
      (∃ e, (Link.default.connect "f" hiss ducker).result = .ok e) ∧
      Link.default.Refuses ducker hiss (.notATarget "hiss") ∧
      (Link.named "sidechain" "audio").Refuses hiss ducker (.unknownPort "hiss" "sidechain") := by
  have h : ∃ e, ((Link.named "audio" "sidechain").connect "e" hiss ducker).result = .ok e :=
    ⟨_, rfl⟩
  obtain ⟨-, -, -, -, hdefault⟩ := connect_iff_fits hiss ducker
  obtain ⟨-, hrefused, -, -, -⟩ := connect_iff_fits ducker hiss
  obtain ⟨-, hunknown, -, -, -⟩ := connect_iff_fits hiss ducker
  exact ⟨h, hdefault _ _ _ _ h, (hrefused _ "g" _).mp rfl, (hunknown _ "h" _).mp rfl⟩

end Link

end AudioScore
