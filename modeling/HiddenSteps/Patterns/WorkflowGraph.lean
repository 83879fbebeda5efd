import HiddenSteps.Patterns.Exact
import HiddenSteps.Systems.Grouping
import HiddenSteps.Systems.Walks

/-!
# WorkflowGraph — what follows what in an event history

The nodes are the action keys of the history, the edges its transitions with the number of times
they occur.  The graph is that of the history as a walk through its action keys, as long as no
transition occurs so often that its weight wraps.
-/

namespace HiddenSteps
namespace Patterns

open Systems

/-! ## The graph -/

structure WorkflowEdge where
  fromNode : String
  toNode : String
  weight : Nat
  deriving DecidableEq

/-- The entry of the weight map that the edge is made from. -/
def WorkflowEdge.entry (e : WorkflowEdge) : (String × String) × Nat :=
  ((e.fromNode, e.toNode), e.weight)

structure WorkflowGraph where
  nodes : List String
  edges : List WorkflowEdge
  deriving DecidableEq

def WorkflowGraph.edgesFrom (graph : WorkflowGraph) (node : String) : List WorkflowEdge :=
  graph.edges.filter fun e => e.fromNode == node

/-- The total weight out of a node. -/
def WorkflowGraph.outgoing (graph : WorkflowGraph) (node : String) : Nat :=
  ((graph.edgesFrom node).map (·.weight)).sum

/-- The total weight into a node. -/
def WorkflowGraph.incoming (graph : WorkflowGraph) (node : String) : Nat :=
  ((graph.edges.filter fun e => e.toNode == node).map (·.weight)).sum

/-- The order in which a hash map hands out its entries, which is not determined. -/
structure IterationOrder (α : Type) where
  arrange : List α → List α
  perm : ∀ entries, (arrange entries).Perm entries

/-- The variables of the loop over the pairs of events. -/
structure GraphState where
  nodeSet : List String
  seenNodes : List String
  edgeWeights : List ((String × String) × Nat)

namespace GraphState

def empty : GraphState := { nodeSet := [], seenNodes := [], edgeWeights := [] }

def visit (s : GraphState) (key : String) : GraphState :=
  if s.seenNodes.contains key then s
  else { s with seenNodes := key :: s.seenNodes, nodeSet := s.nodeSet ++ [key] }

/-- `*edge_weights.entry(edge).or_insert(0) += 1`, on a `u32` that wraps. -/
def addWeight (edge : String × String) :
    List ((String × String) × Nat) → List ((String × String) × Nat)
  | [] => [(edge, asU32 (0 + 1))]
  | e :: weights =>
      if e.1 = edge then (e.1, asU32 (e.2 + 1)) :: weights else e :: addWeight edge weights

def step (s : GraphState) (pair : EventSummary × EventSummary) : GraphState :=
  let fromKey := actionKey pair.1
  let toKey := actionKey pair.2
  let s := (s.visit fromKey).visit toKey
  { s with edgeWeights := addWeight (fromKey, toKey) s.edgeWeights }

end GraphState

def buildWorkflowGraph (order : IterationOrder ((String × String) × Nat))
    (events : List EventSummary) : WorkflowGraph :=
  -- `events.windows(2)`
  let s := (events.zip events.tail).foldl GraphState.step .empty
  { nodes :=
      match events with
      -- a single event has no pair to be recorded by
      | [event] => s.nodeSet ++ [actionKey event]
      | _ => s.nodeSet
    edges := (order.arrange s.edgeWeights).map fun e => ⟨e.1.1, e.1.2, e.2⟩ }

/-! ## The loop -/

/-- The numbers of the members of groups, as the weights count them. -/
def groupWeights (groups : List ((String × String) × List (String × String))) :
    List ((String × String) × Nat) :=
  groups.map fun g => (g.1, asU32 g.2.length)

theorem addWeight_groupWeights (edge : String × String)
    (groups : List ((String × String) × List (String × String))) :
    GraphState.addWeight edge (groupWeights groups) =
      groupWeights (Grouping.push id edge groups) := by
  induction groups with
  | nil => rfl
  | cons g groups ih =>
      have hcons : ∀ g groups, groupWeights (g :: groups) =
          (g.1, asU32 g.2.length) :: groupWeights groups := fun _ _ => rfl
      rw [hcons, GraphState.addWeight, Grouping.push, ih]
      by_cases hkey : g.1 = edge
      · have hcount : asU32 (asU32 g.2.length + 1) = asU32 (g.2 ++ [edge]).length := by
          rw [asU32, asU32, asU32, Nat.mod_add_mod, List.length_append, List.length_singleton]
        rw [if_pos hkey, if_pos (show g.1 = id edge from hkey)]
        simp only [hcount]
        rfl
      · rw [if_neg hkey, if_neg (show ¬ g.1 = id edge from hkey)]
        rfl

namespace GraphState

/-- The seen-set holds the nodes. -/
def Synchronised (s : GraphState) : Prop :=
  ∀ key, key ∈ s.seenNodes ↔ key ∈ s.nodeSet

theorem visit_eq {s : GraphState} (h : s.Synchronised) (key : String) :
    (s.visit key).Synchronised ∧ (s.visit key).nodeSet = Walks.appear s.nodeSet key ∧
      (s.visit key).edgeWeights = s.edgeWeights := by
  unfold visit Walks.appear
  by_cases hseen : key ∈ s.nodeSet
  · rw [if_pos (List.contains_iff_mem.2 ((h key).2 hseen)), if_pos hseen]
    exact ⟨h, rfl, rfl⟩
  · have hnew : ¬ s.seenNodes.contains key = true := by
      rw [List.contains_iff_mem, h key]
      exact hseen
    rw [if_neg hnew, if_neg hseen]
    refine ⟨fun other => ?_, rfl, rfl⟩
    simp only [List.mem_cons, List.mem_append, List.not_mem_nil, or_false, h other]
    exact or_comm

theorem step_eq {s : GraphState} (h : s.Synchronised) (pair : EventSummary × EventSummary) :
    (s.step pair).Synchronised ∧
      (s.step pair).nodeSet =
        Walks.appear (Walks.appear s.nodeSet (actionKey pair.1)) (actionKey pair.2) ∧
      (s.step pair).edgeWeights =
        addWeight (actionKey pair.1, actionKey pair.2) s.edgeWeights := by
  obtain ⟨hsync₁, hnodes₁, hweights₁⟩ := visit_eq h (actionKey pair.1)
  obtain ⟨hsync₂, hnodes₂, hweights₂⟩ := visit_eq hsync₁ (actionKey pair.2)
  refine ⟨hsync₂, ?_, ?_⟩
  · exact hnodes₂.trans (by rw [hnodes₁])
  · exact congrArg (addWeight _) (hweights₂.trans hweights₁)

/-- The loop notes both keys of every pair and counts the pairs by their keys. -/
theorem foldl_step_eq (pairs : List (EventSummary × EventSummary)) {s : GraphState}
    {groups : List ((String × String) × List (String × String))} (h : s.Synchronised)
    (hweights : s.edgeWeights = groupWeights groups) :
    let keys := pairs.map (Prod.map actionKey actionKey)
    (pairs.foldl step s).nodeSet =
        keys.foldl (fun seen p => Walks.appear (Walks.appear seen p.1) p.2) s.nodeSet ∧
      (pairs.foldl step s).edgeWeights =
        groupWeights (keys.foldl (fun groups p => Grouping.push id p groups) groups) := by
  induction pairs generalizing s groups with
  | nil => exact ⟨rfl, hweights⟩
  | cons pair pairs ih =>
      obtain ⟨hsync, hnodes, hstep⟩ := step_eq h pair
      have hcount : (s.step pair).edgeWeights =
          groupWeights (Grouping.push id (Prod.map actionKey actionKey pair) groups) := by
        rw [hstep, hweights, addWeight_groupWeights]
        rfl
      obtain ⟨hn, hw⟩ := ih hsync hcount
      rw [hnodes] at hn
      exact ⟨hn, hw⟩

end GraphState

/-! ## The graph of a history -/

/-- How many adjacent pairs of events have these keys. -/
def transitions (events : List EventSummary) (fromKey toKey : String) : Nat :=
  (events.zip events.tail).countP fun pair =>
    actionKey pair.1 == fromKey && actionKey pair.2 == toKey

/-- The graph is the transition multigraph of the history. -/
structure ExactTransitions (events : List EventSummary) (graph : WorkflowGraph) : Prop where
  nodes_nodup : graph.nodes.Nodup
  mem_nodes_iff : ∀ key, key ∈ graph.nodes ↔ key ∈ events.map actionKey
  /-- Keys that appear earlier stand earlier. -/
  nodes_sorted : graph.nodes.Pairwise fun a b =>
    (events.map actionKey).idxOf a < (events.map actionKey).idxOf b
  edges_nodup : (graph.edges.map fun e => (e.fromNode, e.toNode)).Nodup
  weight_eq : ∀ e ∈ graph.edges, e.weight = transitions events e.fromNode e.toNode
  exists_edge_iff : ∀ a b, (∃ e ∈ graph.edges, e.fromNode = a ∧ e.toNode = b) ↔
    transitions events a b ≠ 0
  total : (graph.edges.map (·.weight)).sum = events.length - 1
  balance : ∀ key ∈ graph.nodes,
    (graph.outgoing key : Int) - graph.incoming key =
      (if (events.map actionKey).head? = some key then 1 else 0) -
        (if (events.map actionKey).getLast? = some key then 1 else 0)

section Built

variable {events : List EventSummary} (order : IterationOrder ((String × String) × Nat))

theorem steps_keys (events : List EventSummary) :
    (events.zip events.tail).map (Prod.map actionKey actionKey) =
      Walks.steps (events.map actionKey) :=
  (Walks.steps_map actionKey events).symm

theorem transitions_eq_count (events : List EventSummary) (a b : String) :
    transitions events a b = (Walks.steps (events.map actionKey)).count (a, b) := by
  rw [transitions, ← steps_keys, List.count_eq_countP, List.countP_map]
  refine List.countP_congr fun pair _ => ?_
  simp [Prod.ext_iff]

/-- The loop on a history as a walk through its action keys. -/
theorem loop_eq (events : List EventSummary) :
    let s := (events.zip events.tail).foldl GraphState.step .empty
    let steps := Walks.steps (events.map actionKey)
    s.nodeSet = steps.foldl (fun seen p => Walks.appear (Walks.appear seen p.1) p.2) [] ∧
      s.edgeWeights = groupWeights (Grouping.group id steps) := by
  have hloop := @GraphState.foldl_step_eq (events.zip events.tail) .empty [] (fun _ => Iff.rfl) rfl
  rw [steps_keys] at hloop
  exact hloop

theorem grouped_steps (events : List EventSummary) :
    let steps := Walks.steps (events.map actionKey)
    Grouping.Grouped id steps (Grouping.group id steps) :=
  Grouping.grouped_group _

theorem nodes_buildWorkflowGraph :
    (buildWorkflowGraph order events).nodes = Walks.firstAppearances (events.map actionKey) := by
  have hloop := (loop_eq events).1
  match events with
  | [] => rfl
  | [_] => rfl
  | _ :: _ :: _ =>
      refine hloop.trans (Walks.foldl_steps_firstAppearances ?_)
      simp

/-- The entries of the map are the groups of equal steps. -/
theorem edges_buildWorkflowGraph :
    ((buildWorkflowGraph order events).edges.map WorkflowEdge.entry).Perm
      (groupWeights (Grouping.group id (Walks.steps (events.map actionKey)))) := by
  have hentries : ∀ entries : List ((String × String) × Nat),
      ((entries.map fun e => (⟨e.1.1, e.1.2, e.2⟩ : WorkflowEdge)).map
        WorkflowEdge.entry) = entries := by
    intro entries
    rw [List.map_map]
    exact List.map_id entries
  rw [← (loop_eq events).2]
  exact (List.Perm.of_eq (hentries _)).trans (order.perm _)

/-- A group has as many members as the transition has occurrences. -/
theorem length_members (k : String × String) :
    (Grouping.members id k (Walks.steps (events.map actionKey))).length =
      transitions events k.1 k.2 := by
  rw [transitions_eq_count, Grouping.members, List.count_eq_countP, ← List.countP_eq_length_filter]
  exact List.countP_congr fun p _ => by simp

/-- Each transition that occurs has one edge, with the number of its occurrences as a `u32`. -/
theorem mem_groupWeights_iff {k : String × String} {weight : Nat} :
    (k, weight) ∈ groupWeights (Grouping.group id (Walks.steps (events.map actionKey))) ↔
      transitions events k.1 k.2 ≠ 0 ∧ weight = asU32 (transitions events k.1 k.2) := by
  have hgrouped := grouped_steps events
  rw [groupWeights, List.mem_map]
  constructor
  · rintro ⟨⟨k', l⟩, hmem, heq⟩
    obtain ⟨rfl, rfl⟩ := Prod.mk.inj heq
    obtain ⟨rfl, hne⟩ := (hgrouped.mem_iff _ l).1 hmem
    rw [← length_members]
    exact ⟨fun hzero => hne (List.length_eq_zero_iff.1 hzero), rfl⟩
  · rintro ⟨hne, rfl⟩
    refine ⟨(k, _), (hgrouped.mem_iff k _).2 ⟨rfl, fun hnil => hne ?_⟩, by rw [length_members]⟩
    rw [← length_members, hnil]
    rfl

theorem mem_edges_iff {e : WorkflowEdge} :
    e ∈ (buildWorkflowGraph order events).edges ↔
      transitions events e.fromNode e.toNode ≠ 0 ∧
        e.weight = asU32 (transitions events e.fromNode e.toNode) := by
  have hinj : Function.Injective WorkflowEdge.entry := by
    rintro ⟨a, b, w⟩ ⟨a', b', w'⟩ h
    cases h
    rfl
  rw [← List.mem_map_of_injective hinj, (edges_buildWorkflowGraph order).mem_iff]
  exact mem_groupWeights_iff

theorem edges_nodup :
    ((buildWorkflowGraph order events).edges.map fun e => (e.fromNode, e.toNode)).Nodup := by
  have hkeys : ((buildWorkflowGraph order events).edges.map fun e => (e.fromNode, e.toNode)) =
      ((buildWorkflowGraph order events).edges.map WorkflowEdge.entry).map Prod.fst := by
    rw [List.map_map]
    rfl
  have hgroups : (groupWeights (Grouping.group id (Walks.steps (events.map actionKey)))).map
      Prod.fst = (Grouping.group id (Walks.steps (events.map actionKey))).map Prod.fst := by
    rw [groupWeights, List.map_map]
    rfl
  rw [hkeys, ((edges_buildWorkflowGraph order).map Prod.fst).nodup_iff, hgroups]
  exact (grouped_steps events).keys_nodup

/-- Weights that do not wrap add up to numbers of steps. -/
theorem sum_weights (hcounts : ∀ a b, transitions events a b < 2 ^ 32)
    (p : String × String → Bool) :
    (((buildWorkflowGraph order events).edges.filter fun e => p (e.fromNode, e.toNode)).map
        (·.weight)).sum = (Walks.steps (events.map actionKey)).countP p := by
  have hentries : ((buildWorkflowGraph order events).edges.filter
      fun e => p (e.fromNode, e.toNode)).map (·.weight) =
      (((buildWorkflowGraph order events).edges.map WorkflowEdge.entry).filter
        fun e => p e.1).map Prod.snd := by
    rw [List.filter_map, List.map_map]
    rfl
  have hweights : ((groupWeights (Grouping.group id (Walks.steps (events.map actionKey)))).filter
      fun e => p e.1).map Prod.snd =
      ((Grouping.group id (Walks.steps (events.map actionKey))).filter fun g => p g.1).map
        fun g => g.2.length := by
    rw [groupWeights, List.filter_map, List.map_map]
    refine List.map_congr_left fun g hg => ?_
    -- the weight of a group is the number of its members
    have hgroup := ((grouped_steps events).mem_iff g.1 g.2).1 (List.mem_filter.1 hg).1
    have hlt : g.2.length < 2 ^ 32 := by
      rw [hgroup.1, length_members]
      exact hcounts _ _
    exact Nat.mod_eq_of_lt hlt
  rw [hentries, (((edges_buildWorkflowGraph order).filter _).map Prod.snd).sum_nat, hweights,
    Grouping.sum_length_group]
  rfl

end Built

/-- The graph is exact if and only if no transition occurs 2³² times or more. -/
theorem exactTransitions_iff (order : IterationOrder ((String × String) × Nat))
    (events : List EventSummary) :
    ExactTransitions events (buildWorkflowGraph order events) ↔
      ∀ a b, transitions events a b < 2 ^ 32 := by
  constructor
  · intro h a b
    by_cases hzero : transitions events a b = 0
    · omega
    · obtain ⟨e, he, rfl, rfl⟩ := (h.exists_edge_iff a b).2 hzero
      -- the weight of an edge is a `u32`
      rw [← h.weight_eq e he, ((mem_edges_iff order).1 he).2]
      exact Nat.mod_lt _ (by decide)
  · intro hcounts
    have hweight : ∀ e ∈ (buildWorkflowGraph order events).edges,
        e.weight = transitions events e.fromNode e.toNode := by
      intro e he
      rw [((mem_edges_iff order).1 he).2]
      exact Nat.mod_eq_of_lt (hcounts _ _)
    refine ⟨?_, ?_, ?_, edges_nodup order, hweight, ?_, ?_, ?_⟩
    · rw [nodes_buildWorkflowGraph]
      exact Walks.nodup_firstAppearances _
    · intro key
      rw [nodes_buildWorkflowGraph]
      exact Walks.mem_firstAppearances
    · rw [nodes_buildWorkflowGraph]
      exact Walks.firstAppearances_sorted _
    · intro a b
      constructor
      · rintro ⟨e, he, rfl, rfl⟩
        exact ((mem_edges_iff order).1 he).1
      · intro hne
        exact ⟨⟨a, b, asU32 (transitions events a b)⟩, (mem_edges_iff order).2 ⟨hne, rfl⟩, rfl, rfl⟩
    · have hsum := sum_weights order hcounts fun _ => true
      rw [List.filter_true, List.countP_true, Walks.length_steps, List.length_map] at hsum
      exact hsum
    · intro key _
      have hout := sum_weights order hcounts fun p => p.1 == key
      have hin := sum_weights order hcounts fun p => p.2 == key
      rw [WorkflowGraph.outgoing, WorkflowGraph.edgesFrom, hout, WorkflowGraph.incoming, hin]
      exact Walks.flow_balance _ key

/-! ## A history that is too long -/

theorem transitions_replicate (n : Nat) :
    transitions (List.replicate (n + 1) pasted) (actionKey pasted) (actionKey pasted) = n := by
  rw [transitions, List.countP_eq_length.2, List.length_zip, List.length_tail,
    List.length_replicate]
  · omega
  · intro pair hpair
    obtain ⟨hfirst, hsecond⟩ := List.of_mem_zip hpair
    rw [List.eq_of_mem_replicate hfirst, List.eq_of_mem_replicate (List.mem_of_mem_tail hsecond)]
    simp

/-- After 2³² + 1 equal events the weight of their one transition is zero. -/
theorem long_history_weight_lost :
    let events := List.replicate (2 ^ 32 + 1) pasted
    let key := actionKey pasted
    let graph := buildWorkflowGraph ⟨id, List.Perm.refl⟩ events
    ⟨key, key, 0⟩ ∈ graph.edges ∧ transitions events key key = 2 ^ 32 ∧
      ¬ ExactTransitions events graph := by
  intro events key graph
  have hcount : transitions events key key = 2 ^ 32 := transitions_replicate _
  refine ⟨(mem_edges_iff _).2 ⟨?_, ?_⟩, hcount, ?_⟩
  · rw [hcount]
    decide
  · rw [hcount]
    decide
  · intro h
    -- the edge of the transition should weigh as much as it occurs
    obtain ⟨e, he, hfrom, hto⟩ := (h.exists_edge_iff key key).2 (by rw [hcount]; decide)
    have hweight := h.weight_eq e he
    rw [((mem_edges_iff _).1 he).2, hfrom, hto, hcount] at hweight
    exact absurd hweight (by decide)

end Patterns
end HiddenSteps
