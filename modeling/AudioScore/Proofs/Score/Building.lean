import AudioScore.Score.Node

/-!
# Records that are built step by step

A command gets its arguments one after another, and a node its config, parameters, label and policy
in any order. In the end each of them is what it was last set to. So what is built depends on these
last settings alone, and on nothing else of the steps.

* `kept_foldl`, `read_foldl`: what is read after steps that leave it, or that set or leave it.
* `Command.after_withArgs`, `Command.withArgs_new_eq_iff`: commands.
* `Node.after_setAll`, `Node.setAll_new_eq_iff`: nodes.
-/

namespace AudioScore

/-! ## What was set last -/

section Last

variable {σ α β : Type}

/-- What no step changes is in the end what it was. -/
theorem kept_foldl (read : σ → β) {step : σ → α → σ} (h : ∀ x a, read (step x a) = read x)
    (as : List α) (x : σ) : read (as.foldl step x) = read x := by
  induction as generalizing x with
  | nil => rfl
  | cons a as ih => rw [List.foldl_cons, ih, h]

/-- The last of what is picked from a list. -/
def lastPicked? (pick : α → Option β) (as : List α) : Option β := (as.filterMap pick).getLast?

theorem lastPicked?_cons (pick : α → Option β) (a : α) (as : List α) :
    lastPicked? pick (a :: as) = (lastPicked? pick as).or (pick a) := by
  rw [lastPicked?, lastPicked?, List.filterMap_cons]
  cases pick a with
  | none => rw [Option.or_none]
  | some b =>
    rw [List.getLast?_cons]
    cases (as.filterMap pick).getLast? <;> rfl

/-- If every step sets what is read to what is picked from it, or else leaves it as it was, then what
is read in the end was picked last. -/
theorem read_foldl (read : σ → Option β) (pick : α → Option β) {step : σ → α → σ}
    (h : ∀ x a, read (step x a) = (pick a).or (read x)) (as : List α) (x : σ) :
    read (as.foldl step x) = (lastPicked? pick as).or (read x) := by
  induction as generalizing x with
  | nil => rfl
  | cons a as ih => rw [List.foldl_cons, ih, h, lastPicked?_cons, Option.or_assoc]

theorem eq_of_eq_or_none {x a b : Option β} (ha : x = a.or none) (hb : x = b.or none) : a = b := by
  rw [← a.or_none, ← ha, hb, Option.or_none]

/-- What an entry holds, if it stands under a key. -/
def under? (key : String) (e : String × α) : Option α := if key = e.1 then some e.2 else none

theorem get?_insert_eq_or (d : Dict α) (e : String × α) (key : String) :
    (d.insert e.1 e.2).get? key = (under? key e).or (d.get? key) := by
  rw [Dict.get?_insert, under?]
  split <;> rfl

end Last

/-! ## Commands -/

namespace Command

/-- Sets arguments one after another. -/
def withArgs (c : Command) (args : List (String × Value)) : Command :=
  args.foldl (fun c a => c.withArg a.1 a.2) c

/-- Whether a command is what setting arguments makes of another one: every argument is what it was
last set to, or what it was before, if it was not set. -/
structure After (c : Command) (args : List (String × Value)) (d : Command) : Prop where
  name : d.name = c.name
  arg : ∀ key, d.arg? key = (lastPicked? (under? key) args).or (c.arg? key)

/-- Whether two lists of arguments set every argument to the same in the end. -/
def AgreeLast (args args' : List (String × Value)) : Prop :=
  ∀ key, lastPicked? (under? key) args = lastPicked? (under? key) args'

theorem name_withArgs (c : Command) (args : List (String × Value)) :
    (c.withArgs args).name = c.name := by
  refine kept_foldl name (fun c a => ?_) args c
  rfl

theorem after_withArgs (c : Command) (args : List (String × Value)) :
    After c args (c.withArgs args) where
  name := c.name_withArgs args
  arg key :=
    read_foldl (fun c => c.arg? key) (under? key) (fun c a => get?_insert_eq_or c.args a key) args c

theorem ext_arg? {c d : Command} (hname : c.name = d.name) (h : ∀ key, c.arg? key = d.arg? key) :
    c = d := by
  obtain ⟨name, args⟩ := c
  obtain ⟨name', args'⟩ := d
  cases hname
  cases Dict.ext_get? h
  rfl

theorem After.agreeLast {name : String} {args args' : List (String × Value)} {d : Command}
    (h : After (new name) args d) (h' : After (new name) args' d) : AgreeLast args args' :=
  fun key => eq_of_eq_or_none (h.arg key) (h'.arg key)

theorem withArgs_eq_of_agreeLast (c : Command) {args args' : List (String × Value)}
    (h : AgreeLast args args') : c.withArgs args = c.withArgs args' := by
  refine ext_arg? ?_ fun key => ?_
  · rw [name_withArgs, name_withArgs]
  · rw [(c.after_withArgs args).arg, (c.after_withArgs args').arg, h]

/-- Commands that are built under one name are equal exactly if every argument was last set to the
same. -/
theorem withArgs_new_eq_iff {name : String} {args args' : List (String × Value)} :
    (new name).withArgs args = (new name).withArgs args' ↔ AgreeLast args args' := by
  refine ⟨fun h => ?_, withArgs_eq_of_agreeLast (new name)⟩
  have hafter := after_withArgs (new name) args
  rw [h] at hafter
  exact hafter.agreeLast (after_withArgs (new name) args')

end Command

/-! ## Nodes -/

namespace Node

/-- A step in the building of a node. -/
inductive Setting where
  | config (key : String) (value : Value)
  | param (key : String) (commands : List Command)
  | label (label : String)
  | loadingPolicy (policy : LoadingPolicy)

namespace Setting

/-- The config value of a name, if a step sets that. -/
def config? (key : String) : Setting → Option Value
  | .config k value => under? key (k, value)
  | _ => none

/-- The commands of a parameter, if a step sets them. -/
def param? (key : String) : Setting → Option (List Command)
  | .param k commands => under? key (k, commands)
  | _ => none

/-- The label, if a step sets that. -/
def label? : Setting → Option String
  | .label l => some l
  | _ => none

/-- The loading policy, if a step sets that. -/
def loadingPolicy? : Setting → Option LoadingPolicy
  | .loadingPolicy p => some p
  | _ => none

/-- Whether two lists of steps set everything to the same in the end. -/
structure AgreeLast (ss ts : List Setting) : Prop where
  label : lastPicked? label? ss = lastPicked? label? ts
  loadingPolicy : lastPicked? loadingPolicy? ss = lastPicked? loadingPolicy? ts
  param : ∀ key, lastPicked? (param? key) ss = lastPicked? (param? key) ts
  config : ∀ key, lastPicked? (config? key) ss = lastPicked? (config? key) ts

end Setting

/-- Carries out a step. -/
def set (n : Node) : Setting → Node
  | .config key value => n.withConfig key value
  | .param key commands => n.withParam key commands
  | .label label => n.withLabel label
  | .loadingPolicy policy => n.withLoadingPolicy policy

/-- Carries out steps one after another. -/
def setAll (n : Node) (ss : List Setting) : Node := ss.foldl set n

/-- Whether a node is what steps make of another one: everything is what it was last set to, or what
it was before, if it was not set. -/
structure After (n : Node) (ss : List Setting) (m : Node) : Prop where
  id : m.id = n.id
  kind : m.kind = n.kind
  label : m.label = (lastPicked? Setting.label? ss).or n.label
  loadingPolicy : m.loadingPolicy = (lastPicked? Setting.loadingPolicy? ss).or n.loadingPolicy
  param : ∀ key, m.params.get? key = (lastPicked? (Setting.param? key) ss).or (n.params.get? key)
  config : ∀ key, m.config.get? key = (lastPicked? (Setting.config? key) ss).or (n.config.get? key)

theorem id_setAll (n : Node) (ss : List Setting) : (n.setAll ss).id = n.id :=
  kept_foldl id (fun n s => by cases s <;> rfl) ss n

theorem kind_setAll (n : Node) (ss : List Setting) : (n.setAll ss).kind = n.kind :=
  kept_foldl kind (fun n s => by cases s <;> rfl) ss n

theorem after_setAll (n : Node) (ss : List Setting) : After n ss (n.setAll ss) where
  id := n.id_setAll ss
  kind := n.kind_setAll ss
  label := read_foldl Node.label Setting.label? (fun n s => by cases s <;> rfl) ss n
  loadingPolicy :=
    read_foldl Node.loadingPolicy Setting.loadingPolicy? (fun n s => by cases s <;> rfl) ss n
  param key := by
    refine read_foldl (fun n => n.params.get? key) (Setting.param? key) (fun n s => ?_) ss n
    cases s with
    | param k commands => exact get?_insert_eq_or n.params (k, commands) key
    | _ => rfl
  config key := by
    refine read_foldl (fun n => n.config.get? key) (Setting.config? key) (fun n s => ?_) ss n
    cases s with
    | config k value => exact get?_insert_eq_or n.config (k, value) key
    | _ => rfl

theorem ext_get? {m n : Node} (hid : m.id = n.id) (hkind : m.kind = n.kind)
    (hlabel : m.label = n.label) (hpolicy : m.loadingPolicy = n.loadingPolicy)
    (hparam : ∀ key, m.params.get? key = n.params.get? key)
    (hconfig : ∀ key, m.config.get? key = n.config.get? key) : m = n := by
  obtain ⟨id, kind, label, policy, params, config⟩ := m
  obtain ⟨id', kind', label', policy', params', config'⟩ := n
  cases hid
  cases hkind
  cases hlabel
  cases hpolicy
  cases Dict.ext_get? hparam
  cases Dict.ext_get? hconfig
  rfl

/-- Steps that make the same of a new node set everything to the same in the end: there is nothing
in it that they could leave. -/
theorem After.agreeLast {id kind : String} {ss ts : List Setting} {m : Node}
    (hss : After (new id kind) ss m) (hts : After (new id kind) ts m) : Setting.AgreeLast ss ts where
  label := eq_of_eq_or_none hss.label hts.label
  loadingPolicy := eq_of_eq_or_none hss.loadingPolicy hts.loadingPolicy
  param key := eq_of_eq_or_none (hss.param key) (hts.param key)
  config key := eq_of_eq_or_none (hss.config key) (hts.config key)

/-- What steps make of a node is the same if they set everything to the same in the end. -/
theorem setAll_eq_of_agreeLast (n : Node) {ss ts : List Setting} (h : Setting.AgreeLast ss ts) :
    n.setAll ss = n.setAll ts := by
  have hss := n.after_setAll ss
  have hts := n.after_setAll ts
  refine ext_get? (hss.id.trans hts.id.symm) (hss.kind.trans hts.kind.symm) ?_ ?_ ?_ ?_
  · rw [hss.label, hts.label, h.label]
  · rw [hss.loadingPolicy, hts.loadingPolicy, h.loadingPolicy]
  · intro key
    rw [hss.param, hts.param, h.param]
  · intro key
    rw [hss.config, hts.config, h.config]

/-- What steps make of a new node is the same exactly if they set everything to the same in the
end. -/
theorem setAll_new_eq_iff {id kind : String} {ss ts : List Setting} :
    (new id kind).setAll ss = (new id kind).setAll ts ↔ Setting.AgreeLast ss ts := by
  refine ⟨fun h => ?_, setAll_eq_of_agreeLast (new id kind)⟩
  have hss := after_setAll (new id kind) ss
  rw [h] at hss
  exact hss.agreeLast (after_setAll (new id kind) ts)

example : (new "n" "gain").setAll [.config "b" .null, .label "x", .config "a" .null, .label "y"]
    = (new "n" "gain").setAll [.label "y", .config "a" .null, .config "b" .null] := rfl

end Node

end AudioScore
