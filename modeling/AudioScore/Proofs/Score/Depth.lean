import AudioScore.Proofs.Codec.Record
import AudioScore.Proofs.Dict
import AudioScore.Proofs.Json.Depth
import AudioScore.Score.Basic

/-!
# How deeply scores nest

The only parts of a score of any depth are the values in configs and in arguments of commands.
A bound on these gives one on the whole document.

* `Codec.depth_list_le`, `Codec.depth_record_le`: lists and records, one bracket around their parts.
* `Command.DepthLE`, `Node.depth_le`, `Score.depth_le`: from values to scores.
-/

namespace AudioScore

/-! ## Forms -/

namespace Codec

variable {α : Type} {c : Codec α} {n : Nat}

theorem depth_optional_le (h : ∀ a, (c.encode a).depth ≤ n) (x : Option α) :
    (c.optional.encode x).depth ≤ n := by
  cases x with
  | none => exact Nat.zero_le n
  | some a => exact h a

theorem depth_list_le {xs : List α} (h : ∀ x ∈ xs, (c.encode x).depth ≤ n) :
    (c.list.encode xs).depth ≤ n + 1 := by
  refine Nat.succ_le_succ (Json.depthItems_le_iff.mpr ?_)
  rwa [List.forall_mem_map]

theorem depth_dict_le {d : Dict α} (h : ∀ e ∈ d.entries, (c.encode e.2).depth ≤ n) :
    (c.dict.encode d).depth ≤ n + 1 := by
  refine Nat.succ_le_succ (Json.depthMembers_le_iff.mpr fun m hm => ?_)
  obtain ⟨e, he, rfl⟩ := List.mem_map.mp hm
  exact h e he

end Codec

namespace Fields

/-- Whether the contents of all fields nest at most so deeply. -/
def DepthLE (n : Nat) : {types : List Type} → Row Field types → Contents types → Prop
  | [], _, _ => True
  | _ :: _, (f, fs), (a, rest) => (f.codec.encode a).depth ≤ n ∧ DepthLE n fs rest

theorem DepthLE.members {n : Nat} {types : List Type} {fields : Row Field types}
    {contents : Contents types} (h : DepthLE n fields contents) :
    Json.depthMembers (members fields contents) ≤ n := by
  induction types with
  | nil => exact Nat.zero_le n
  | cons α types ih =>
    obtain ⟨f, fs, rfl⟩ := fields.exists_cons
    obtain ⟨a, rest, rfl⟩ := contents.exists_cons
    rw [members_cons]
    split
    · exact ih h.2
    · exact Nat.max_le.mpr ⟨h.1, ih h.2⟩

end Fields

theorem Codec.depth_record_le {ρ : Type} {fmt : RecordFormat ρ} {n : Nat} {r : ρ}
    (h : Fields.DepthLE n fmt.fields (fmt.parts r)) :
    ((Codec.record fmt).encode r).depth ≤ n + 1 :=
  Nat.succ_le_succ h.members

/-! ## Scores -/

/-- Whether the arguments of a command nest at most so deeply. -/
def Command.DepthLE (n : Nat) (c : Command) : Prop := ∀ e ∈ c.args.entries, e.2.json.depth ≤ n

theorem Command.DepthLE.encode {n : Nat} {c : Command} (h : c.DepthLE n) :
    (Command.codec.encode c).depth ≤ n + 2 :=
  Codec.depth_record_le ⟨Nat.zero_le _, Codec.depth_dict_le h, trivial⟩

theorem LoadingPolicy.depth_field_le (n : Nat) (policy : Option LoadingPolicy) :
    (LoadingPolicy.codec.optional.encode policy).depth ≤ n :=
  Codec.depth_optional_le (fun _ => Nat.zero_le n) policy

theorem Node.depth_le {n : Nat} {x : Node}
    (hparams : ∀ e ∈ x.params.entries, ∀ c ∈ e.2, (Command.codec.encode c).depth ≤ n)
    (hconfig : ∀ e ∈ x.config.entries, e.2.json.depth ≤ n) :
    (Node.codec.encode x).depth ≤ n + 3 := by
  refine Codec.depth_record_le ⟨Nat.zero_le _, Nat.zero_le _,
    Codec.depth_optional_le (fun _ => Nat.zero_le _) x.label, LoadingPolicy.depth_field_le _ _,
    ?_, ?_, trivial⟩
  · exact Codec.depth_dict_le fun e he => Codec.depth_list_le (hparams e he)
  · exact Nat.le_succ_of_le (Codec.depth_dict_le hconfig)

theorem Edge.depth_le (e : Edge) : (Edge.codec.encode e).depth ≤ 1 := by
  have hport : ∀ p : Port, (Port.codec.encode p).depth ≤ 0 := fun p =>
    Codec.depth_optional_le (c := .string) (fun _ => Nat.zero_le _) p.name?
  exact Codec.depth_record_le ⟨Nat.zero_le _, Nat.zero_le _, Nat.zero_le _, hport e.sourcePort,
    hport e.targetPort, trivial⟩

theorem Script.depth_le (s : Script) : (Script.codec.encode s).depth ≤ 1 :=
  Codec.depth_record_le ⟨Nat.zero_le _, Nat.zero_le _, trivial⟩

theorem Graph.depth_le {n : Nat} {g : Graph}
    (h : ∀ x ∈ g.nodes, (Node.codec.encode x).depth ≤ n + 1) :
    (Graph.codec.encode g).depth ≤ n + 3 := by
  have hone : 1 ≤ n + 1 := Nat.le_add_left 1 n
  refine Codec.depth_record_le ⟨Nat.zero_le _, LoadingPolicy.depth_field_le _ _, ?_, ?_, ?_, trivial⟩
  · exact Codec.depth_list_le h
  · exact Codec.depth_list_le fun e _ => Nat.le_trans e.depth_le hone
  · exact Codec.depth_list_le fun s _ => Nat.le_trans s.depth_le hone

theorem Score.depth_le {n : Nat} {s : Score}
    (h : ∀ x ∈ s.graph.nodes, (Node.codec.encode x).depth ≤ n + 1) :
    (Score.codec.encode s).depth ≤ n + 4 :=
  Codec.depth_record_le ⟨Graph.depth_le h, Nat.zero_le _, trivial⟩

end AudioScore
