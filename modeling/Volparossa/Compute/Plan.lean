import Volparossa.Foundations.Fallible
import Volparossa.Foundations.Topological

/-!
# The order of a public task graph

A plan enrols the nodes of a public task graph: each asks a question about the original source or
about the answers of the nodes it depends on, and one node is the output.
`Plan.topological` validates the whole plan and returns the order in which the nodes run. **Main
result** (`topological_exact`): it succeeds exactly for the valid plans of 2 to 16 nodes, and its
order lists every node once, each after its dependencies, taking the smallest ready node at every
position.
-/

namespace Volparossa.Compute

open Relation Topological

/-! ## Texts and questions -/

/-- A UTF-8 string, as its characters. -/
abbrev Text := List Char

/-- `str::len`: the bytes of the encoding. -/
def Text.len (t : Text) : ℕ := (t.map Char.utf8Size).sum

/-- `char::is_whitespace`: the characters with Unicode's `White_Space` property. -/
def isWhitespace (c : Char) : Bool :=
  (9 ≤ c.toNat ∧ c.toNat ≤ 13) ∨ (0x2000 ≤ c.toNat ∧ c.toNat ≤ 0x200A) ∨
    c.toNat ∈ [0x20, 0x85, 0xA0, 0x1680, 0x2028, 0x2029, 0x202F, 0x205F, 0x3000]

/-- `str::trim`. -/
def Text.trim (t : Text) : Text := (t.dropWhile isWhitespace).rdropWhile isWhitespace

/-- `PublicTask::question` of a task that answers a public question. -/
def question (text : Text) : Except String Text := do
  refuse (text.trim = [] ∨ 512 < text.len ∨ Char.ofNat 0 ∈ text) "compute_broker_invalid"
  pure text

/-- The questions that may be asked: not only white space, at most 512 bytes, without NUL. -/
def ValidQuestion (text : Text) : Prop :=
  (∃ c ∈ text, ¬isWhitespace c) ∧ text.len ≤ 512 ∧ Char.ofNat 0 ∉ text

theorem Text.trim_eq_nil {t : Text} : t.trim = [] ↔ ∀ c ∈ t, isWhitespace c := by
  rw [Text.trim, List.rdropWhile_eq_nil_iff]
  induction t with
  | nil => simp
  | cons c t ih => by_cases hc : isWhitespace c <;> simp_all

theorem question_eq_ok {text a : Text} : question text = .ok a ↔ ValidQuestion text ∧ text = a := by
  simp only [question, ok_iff, exists_and_left, Text.trim_eq_nil, ValidQuestion, not_or, not_lt,
    not_forall, exists_prop, exists_const]

/-! ## The plan and its order -/

/-- A node of the graph; without dependencies it reads the original source. -/
structure Node where
  id : Text
  question : Text
  dependsOn : List Text

/-- The dependencies of a node exist and are named once, and it does not name itself. -/
def Node.Linked (ids : List Text) (node : Node) : Prop :=
  node.dependsOn ⊆ ids ∧ node.dependsOn.Nodup ∧ node.id ∉ node.dependsOn

/-- An enrolled task graph. -/
structure Plan where
  version : ℕ
  nodes : List Node
  output : Text

def maxNodes : ℕ := 16
def maxIdBytes : ℕ := 48

/-- `valid_id`. The source looks at bytes; those of a character beyond ASCII are all refused, as the
character is here. -/
def validId (id : Text) : Bool :=
  (1 ≤ id.len ∧ id.len ≤ maxIdBytes) ∧ id.head?.any Char.isAlphanum ∧
    id.all fun c => c.isAlphanum || c == '_' || c == '-'

/-- One iteration of the loop that fills `indices`: the map from an id to its index is the list of
the ids so far. -/
def register (count : ℕ) (ids : List Text) (node : Node) : Except String (List Text) := do
  refuse (¬validId node.id) "compute_graph_node_id"
  refuse (node.id ∈ ids) "compute_graph_duplicate_node"
  let _ ← question node.question
  refuse (¬node.dependsOn.length < count) "compute_graph_dependency_bound"
  pure (ids ++ [node.id])

/-- One iteration of the loop over the dependencies of the node at `index`. -/
def dependency (ids : List Text) (index : ℕ) (seen : List ℕ) (parent : Text) :
    Except String (List ℕ) := do
  let parent ← orFail (ids.idxOf? parent) "compute_graph_dependency_missing"
  refuse (parent = index) "compute_graph_self_dependency"
  refuse (parent ∈ seen) "compute_graph_duplicate_dependency"
  pure (seen ++ [parent])

namespace Plan

/-- Validate all work and return a stable order using original indices as ready-node ties. The flags
`finished` and `contributes` of the source are the membership in `order` and in the marked nodes. -/
def topological (plan : Plan) : Except String (List ℕ) := do
  let count := plan.nodes.length
  refuse (¬(plan.version = 1 ∧ 2 ≤ count ∧ count ≤ maxNodes))
    "compute_graph_plan_version_or_node_bound"
  let ids ← plan.nodes.foldlM (register count) []
  let output ← orFail (ids.idxOf? plan.output) "compute_graph_output_missing"
  let predecessors ← plan.nodes.zipIdx.mapM fun x => x.1.dependsOn.foldlM (dependency ids x.2) []
  let pred := fun i => predecessors.getD i []
  let order ← orFail (schedule pred count count []) "compute_graph_dependency_cycle"
  refuse (¬∀ i < count, i ∈ contributors pred output order)
    "compute_graph_node_does_not_contribute_to_output"
  pure order

/-! ## What a valid plan is -/

variable (plan : Plan)

/-- The ids of the nodes, by index. -/
def ids : List Text := plan.nodes.map Node.id

/-- The node at `i` names the id of the node at `j` among its dependencies. -/
def Depends (i j : ℕ) : Prop :=
  ∃ node parent, plan.nodes[i]? = some node ∧ plan.ids[j]? = some parent ∧ parent ∈ node.dependsOn

/-- What is required of the nodes one by one. -/
structure Checked : Prop where
  version : plan.version = 1
  nodes : ∀ node ∈ plan.nodes, validId node.id ∧ ValidQuestion node.question
  unique : plan.ids.Nodup
  dependencies : ∀ node ∈ plan.nodes, node.Linked plan.ids

/-- A plan in which the work is well defined, whatever the number of its nodes. -/
structure Valid : Prop extends plan.Checked where
  acyclic : ∀ i, ¬TransGen plan.Depends i i
  /-- The output is a node, and it is reached from every node: it depends on each, directly or
  through others. -/
  output : ∃ o, plan.ids[o]? = some plan.output ∧
    ∀ i < plan.nodes.length, ReflTransGen plan.Depends o i

/-- The dependencies of the node at `i`, as the source collects them. -/
def parents (i : ℕ) : List ℕ :=
  plan.nodes[i]?.elim [] fun node => node.dependsOn.map fun parent => plan.ids.idxOf parent

end Plan

/-! ## The loops -/

theorem idxOf?_eq_some {ids : List Text} {id : Text} {i : ℕ} :
    ids.idxOf? id = some i ↔ id ∈ ids ∧ ids.idxOf id = i := by
  rw [List.idxOf?, List.findIdx?_eq_some_iff_findIdx_eq, ← List.idxOf_lt_length_iff]
  exact and_congr_left fun h => by rw [← h, List.idxOf]

theorem getElem?_eq_some_iff_idxOf {ids : List Text} (h : ids.Nodup) {i : ℕ} {id : Text} :
    ids[i]? = some id ↔ id ∈ ids ∧ ids.idxOf id = i := by
  constructor
  · intro hid
    obtain ⟨hi, rfl⟩ := List.getElem?_eq_some_iff.mp hid
    exact ⟨List.getElem_mem hi, h.idxOf_getElem i hi⟩
  · rintro ⟨hid, rfl⟩
    exact List.getElem?_idxOf hid

theorem register_eq_ok {count : ℕ} (ids : List Text) (node : Node) (r : List Text) :
    register count ids node = .ok r ↔ (validId node.id ∧ ValidQuestion node.question ∧
      node.dependsOn.length < count) ∧ node.id ∉ ids ∧ r = ids ++ [node.id] := by
  simp only [register, ok_iff, question_eq_ok, not_not, exists_and_left, exists_const,
    eq_comm (a := r)]
  constructor
  · rintro ⟨h, h', _, ⟨hq, -⟩, hn, hr⟩
    exact ⟨⟨h, hq, hn⟩, h', hr⟩
  · rintro ⟨⟨h, hq, hn⟩, h', hr⟩
    exact ⟨h, h', _, ⟨hq, rfl⟩, hn, hr⟩

theorem dependency_eq_ok {ids : List Text} {index : ℕ} (seen : List ℕ) (parent : Text)
    (r : List ℕ) :
    dependency ids index seen parent = .ok r ↔ (parent ∈ ids ∧ ids.idxOf parent ≠ index) ∧
      ids.idxOf parent ∉ seen ∧ r = seen ++ [ids.idxOf parent] := by
  simp only [dependency, ok_iff, idxOf?_eq_some, exists_and_left, exists_const]
  constructor
  · rintro ⟨_, ⟨h, rfl⟩, hi, hs, rfl⟩
    exact ⟨⟨h, hi⟩, hs, rfl⟩
  · rintro ⟨⟨h, hi⟩, hs, rfl⟩
    exact ⟨_, ⟨h, rfl⟩, hi, hs, rfl⟩

namespace Plan

variable {plan : Plan} {order : List ℕ}

/-- The checks on the dependencies of one node, on indices and on ids. -/
theorem resolves_iff (h : plan.ids.Nodup) {index : ℕ} {node : Node}
    (hnode : plan.nodes[index]? = some node) :
    ((∀ p ∈ node.dependsOn, p ∈ plan.ids ∧ plan.ids.idxOf p ≠ index) ∧
      (node.dependsOn.map fun p => plan.ids.idxOf p).Nodup) ↔ node.Linked plan.ids := by
  have hid : plan.ids[index]? = some node.id := by
    rw [ids, List.getElem?_map, hnode, Option.map_some]
  obtain ⟨hmem, rfl⟩ := (getElem?_eq_some_iff_idxOf h).mp hid
  constructor
  · rintro ⟨hp, hnodup⟩
    exact ⟨fun p hmem => (hp p hmem).1, hnodup.of_map, fun hself => (hp _ hself).2 rfl⟩
  · rintro ⟨hsub, hnodup, hself⟩
    refine ⟨fun p hp => ⟨hsub hp, fun he => hself ?_⟩,
      hnodup.map_on fun p hp q _ => (List.idxOf_inj (hsub hp)).mp⟩
    exact (List.idxOf_inj (hsub hp)).mp he ▸ hp

theorem predecessors_eq_ok (h : plan.ids.Nodup) {r : List (List ℕ)} :
    plan.nodes.zipIdx.mapM (fun x => x.1.dependsOn.foldlM (dependency plan.ids x.2) []) = .ok r ↔
      (∀ node ∈ plan.nodes, node.Linked plan.ids) ∧
      r = plan.nodes.zipIdx.map fun x => x.1.dependsOn.map fun p => plan.ids.idxOf p := by
  refine (mapM_eq_ok_iff fun x r => (foldlM_push dependency_eq_ok List.nodup_nil).trans
    and_assoc.symm).trans (and_congr_left fun _ => ⟨fun hx node hnode => ?_, fun hnode x hx => ?_⟩)
  · obtain ⟨i, hi⟩ := List.mem_iff_getElem?.mp hnode
    exact (resolves_iff h hi).mp (hx (node, i) (List.mem_zipIdx_iff_getElem?.mpr hi))
  · rw [List.mem_zipIdx_iff_getElem?] at hx
    exact (resolves_iff h hx).mpr (hnode x.1 (List.mem_of_getElem? hx))

/-- The bound on the number of dependencies follows from the other checks. -/
theorem Checked.length_dependsOn_lt (h : plan.Checked) {node : Node} (hnode : node ∈ plan.nodes) :
    node.dependsOn.length < plan.nodes.length := by
  obtain ⟨hsub, hnodup, hself⟩ := h.dependencies node hnode
  have hall : node.id :: node.dependsOn ⊆ plan.ids :=
    List.cons_subset.mpr ⟨List.mem_map_of_mem hnode, hsub⟩
  have hle := (List.subperm_of_subset (List.nodup_cons.mpr ⟨hself, hnodup⟩) hall).length_le
  rwa [ids, List.length_map] at hle

/-- **What the stages of `topological` check.** -/
theorem topological_eq_ok : plan.topological = .ok order ↔
    (2 ≤ plan.nodes.length ∧ plan.nodes.length ≤ maxNodes) ∧ plan.Checked ∧ plan.output ∈ plan.ids ∧
    schedule plan.parents plan.nodes.length plan.nodes.length [] = some order ∧
    ∀ i < plan.nodes.length, i ∈ contributors plan.parents (plan.ids.idxOf plan.output) order := by
  have hparents : (fun i => (plan.nodes.zipIdx.map fun x =>
      x.1.dependsOn.map fun p => plan.ids.idxOf p).getD i []) = plan.parents := by
    funext i
    cases h : plan.nodes[i]? <;> simp [parents, h]
  simp only [topological, ok_iff, not_not, foldlM_push register_eq_ok List.nodup_nil,
    idxOf?_eq_some, List.nil_append]
  constructor
  · rintro ⟨_, ⟨hversion, hn⟩, _, ⟨hnodes, hunique, rfl⟩, _, ⟨hout, rfl⟩, _, hpred, _, horder, _,
      hall, rfl⟩
    obtain ⟨hdeps, rfl⟩ := (predecessors_eq_ok hunique).mp hpred
    exact ⟨hn, ⟨hversion, fun node hnode => ⟨(hnodes node hnode).1, (hnodes node hnode).2.1⟩,
      hunique, hdeps⟩, hout, hparents ▸ horder, hparents ▸ hall⟩
  · rintro ⟨hn, h, hout, horder, hall⟩
    exact ⟨(), ⟨h.version, hn⟩, _,
      ⟨fun node hnode => ⟨(h.nodes node hnode).1, (h.nodes node hnode).2,
      h.length_dependsOn_lt hnode⟩, h.unique, rfl⟩, _, ⟨hout, rfl⟩, _,
      (predecessors_eq_ok h.unique).mpr ⟨h.dependencies, rfl⟩, order, hparents ▸ horder, (),
      hparents ▸ hall, rfl⟩

/-! ## The order and the valid plans -/

theorem depends_lt {i j : ℕ} (h : plan.Depends i j) :
    i < plan.nodes.length ∧ j < plan.nodes.length := by
  obtain ⟨node, parent, hi, hj, -⟩ := h
  have hj := (List.getElem?_eq_some_iff.mp hj).1
  rw [ids, List.length_map] at hj
  exact ⟨(List.getElem?_eq_some_iff.mp hi).1, hj⟩

namespace Checked

variable (h : plan.Checked)

include h

theorem mem_parents {i j : ℕ} : j ∈ plan.parents i ↔ plan.Depends i j := by
  cases hi : plan.nodes[i]? with
  | none => simp [parents, Depends, hi]
  | some node =>
    simp only [parents, Depends, hi, Option.elim_some, List.mem_map, Option.some.injEq,
      getElem?_eq_some_iff_idxOf h.unique]
    constructor
    · rintro ⟨p, hp, hj⟩
      exact ⟨node, p, rfl, ⟨(h.dependencies node (List.mem_of_getElem? hi)).1 hp, hj⟩, hp⟩
    · rintro ⟨_, p, rfl, ⟨-, hj⟩, hp⟩
      exact ⟨p, hp, hj⟩

theorem parents_eq_depends : (fun i j => j ∈ plan.parents i) = plan.Depends :=
  funext₂ fun _ _ => propext h.mem_parents

/-- The order of a plan with well-formed dependencies, and what it tells about them. -/
theorem order_spec (hs : schedule plan.parents plan.nodes.length plan.nodes.length [] =
    some order) :
    Greedy plan.parents plan.nodes.length order ∧ order.Perm (List.range plan.nodes.length) ∧
      (∀ i, ¬TransGen plan.Depends i i) ∧
      ∀ o i, i ∈ contributors plan.parents o order ↔ ReflTransGen plan.Depends o i := by
  obtain ⟨order, rfl, hlen, (hgreedy : Greedy plan.parents plan.nodes.length order)⟩ :=
    greedy_of_schedule hs
  have hperm := hgreedy.perm hlen
  have hmem : ∀ i, ∀ j ∈ plan.parents i, i ∈ order := fun i j hj =>
    hperm.mem_iff.mpr (List.mem_range.mpr (depends_lt (h.mem_parents.mp hj)).1)
  rw [← h.parents_eq_depends]
  exact ⟨hgreedy, hperm, hgreedy.acyclic hmem,
    fun o i => mem_contributors (hgreedy.pairwise.imp And.right) hmem⟩

end Checked

/-- **`topological` succeeds exactly for the valid plans of 2 to 16 nodes.** Its order lists every
index once, a node after all its dependencies, and at every position the smallest index among the
nodes that are ready there. -/
theorem topological_exact (plan : Plan) :
    ((∃ order, plan.topological = .ok order) ↔
      (2 ≤ plan.nodes.length ∧ plan.nodes.length ≤ maxNodes) ∧ plan.Valid) ∧
    ∀ order, plan.topological = .ok order → order.Perm (List.range plan.nodes.length) ∧
      ∀ before i after, order = before ++ i :: after →
        (∀ j, plan.Depends i j → j ∈ before) ∧
        IsLeast {k | k < plan.nodes.length ∧ k ∉ before ∧ ∀ j, plan.Depends k j → j ∈ before}
          i := by
  refine ⟨⟨?_, ?_⟩, ?_⟩
  · rintro ⟨order, h⟩
    obtain ⟨hn, hchecked, hout, horder, hall⟩ := topological_eq_ok.mp h
    obtain ⟨-, -, hacyclic, hreach⟩ := hchecked.order_spec horder
    exact ⟨hn, hchecked, hacyclic, _, List.getElem?_idxOf hout,
      fun i hi => (hreach _ i).mp (hall i hi)⟩
  · rintro ⟨hn, hchecked, hacyclic, o, ho, hreach⟩
    obtain ⟨hout, rfl⟩ := (getElem?_eq_some_iff_idxOf hchecked.unique).mp ho
    rw [← hchecked.parents_eq_depends] at hacyclic
    obtain ⟨order, horder⟩ := exists_schedule hacyclic
      (fun i j hj => (depends_lt (hchecked.mem_parents.mp hj)).2)
      (show List.length [] + _ = _ from Nat.zero_add _)
    obtain ⟨-, -, -, hcontributes⟩ := hchecked.order_spec horder
    exact ⟨order, topological_eq_ok.mpr ⟨hn, hchecked, hout, horder,
      fun i hi => (hcontributes _ i).mpr (hreach i hi)⟩⟩
  · intro order h
    obtain ⟨-, hchecked, -, horder, -⟩ := topological_eq_ok.mp h
    obtain ⟨hgreedy, hperm, -, -⟩ := hchecked.order_spec horder
    refine ⟨hperm, fun before i after hsplit => ?_⟩
    have hleast := hgreedy before i after hsplit
    simp only [Ready, hchecked.mem_parents] at hleast
    exact ⟨hleast.1.2.2, hleast⟩

/-- Two questions about the source and a node that merges the answers, listed first. -/
def sample : Plan :=
  ⟨1, [⟨['m'], ['q'], [['a'], ['b']]⟩, ⟨['a'], ['q'], []⟩, ⟨['b'], ['q'], []⟩], ['m']⟩

theorem topological_exact_sample : sample.topological = .ok [1, 2, 0] ∧ sample.Valid ∧
    [1, 2, 0].Perm (List.range 3) :=
  have h : sample.topological = .ok [1, 2, 0] := by decide
  ⟨h, ((topological_exact sample).1.mp ⟨_, h⟩).2, ((topological_exact sample).2 _ h).1⟩

/-- One node, which reads the source and is the output. -/
def single : Plan := ⟨1, [⟨['a'], ['q'], []⟩], ['a']⟩

/-- A single question is not a graph: the plan is refused for its number of nodes only. -/
theorem topological_single : single.Valid ∧
    single.topological = .error "compute_graph_plan_version_or_node_bound" := by
  have hnone : ∀ i j, ¬single.Depends i j := by
    rintro i j ⟨node, parent, hnode, -, hparent⟩
    obtain rfl : node = _ := List.mem_singleton.mp (List.mem_of_getElem? hnode)
    cases hparent
  refine ⟨⟨⟨rfl, ?_, by decide, ?_⟩, fun i h => ?_, 0, rfl, fun i hi => ?_⟩, by decide⟩
  · exact List.forall_mem_singleton.mpr
      ⟨by decide, ⟨'q', by decide, by decide⟩, by decide, by decide⟩
  · exact List.forall_mem_singleton.mpr ⟨List.nil_subset _, List.nodup_nil, List.not_mem_nil⟩
  · obtain ⟨j, -, h⟩ := TransGen.tail'_iff.mp h
    exact hnone _ _ h
  · obtain rfl : i = 0 := Nat.lt_one_iff.mp hi
    exact .refl

end Plan

end Volparossa.Compute
