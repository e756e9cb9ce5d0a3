import Mathlib.Algebra.Ring.Nat
import Mathlib.Combinatorics.SimpleGraph.Paths
import Mathlib.Data.List.Chain
import Mathlib.Data.List.Nodup
import Mathlib.Data.Sym.Sym2

/-!
# The neighbourhood of an entity

`n_neighbor` lists the paths that start at a node, with the weight of each step.  It starts
from the edges at the node; each further hop is a pass of `merge_tuples`, which lets a path
grow by every edge at its end that it has not taken, and keeps a path that has come back to
one of its own nodes or cannot grow.
-/

namespace RagFlow.GraphRag.Neighbors

variable {Node Weight : Type}

/-- An undirected graph as networkx keeps it: the neighbours of a node in the order in which
their edges were added.  An edge may be without a weight. -/
structure Network (Node Weight : Type) where
  nodes : List Node
  neighbors : Node → List Node
  weight : Node → Node → Option Weight
  mem_nodes : ∀ {node other}, other ∈ neighbors node → node ∈ nodes
  neighbors_comm : ∀ {node other}, other ∈ neighbors node → node ∈ neighbors other
  weight_comm : ∀ node other, weight node other = weight other node

/-- A tuple of nodes that is not empty: its last entry, and what is before it. -/
structure Path (Node : Type) where
  front : List Node
  last : Node
  deriving DecidableEq

def Path.toList (path : Path Node) : List Node := path.front ++ [path.last]

def Path.push (path : Path Node) (node : Node) : Path Node := ⟨path.toList, node⟩

variable [DecidableEq Node]

def findAllIndexes (tup : List Node) (value : Node) : List Nat :=
  (List.range tup.length).filter fun index => tup[index]? = some value

def isContinuousSubsequence (subseq : Node × Node) (seq : List Node) : Bool :=
  (findAllIndexes seq subseq.1).any fun idx =>
    idx ≠ seq.length - 1 && seq[idx + 1]? = some subseq.2

def untaken (tup : Path Node) (list2 : List (Node × Node)) : List (Node × Node) :=
  (list2.filter fun t => t.1 = tup.last).filter fun match' =>
    !(isContinuousSubsequence match' tup.toList || isContinuousSubsequence match'.swap tup.toList)

def mergeTuples (list1 : List (Path Node)) (list2 : List (Node × Node)) : List (Path Node) :=
  list1.flatMap fun tup =>
    if tup.last ∈ tup.front ∨ untaken tup list2 = [] then
      [tup]
    else
      (untaken tup list2).map fun match' => tup.push match'.2

/-- The steps `(path[i], path[i + 1])` of a path. -/
def steps (path : List Node) : List (Node × Node) :=
  path.zip path.tail

def undirected (edge : Node × Node) : Sym2 Node := s(edge.1, edge.2)

structure Neighbor (Node Weight : Type) where
  path : List Node
  weights : List Weight
  deriving DecidableEq

namespace Network

variable (graph : Network Node Weight)

/-- `graph.edges(node)`, which is empty where the node is not in the graph. -/
def edgesAt (node : Node) : List (Node × Node) :=
  (graph.neighbors node).map fun other => (node, other)

def edgesFrom (seen : List Node) : List Node → List (Node × Node)
  | [] => []
  | node :: rest =>
    (graph.edgesAt node).filter (fun edge => edge.2 ∉ seen) ++ edgesFrom (node :: seen) rest

/-- `get_edge_attributes(graph, "weight")`: an edge without the attribute has no entry. -/
def wts : List ((Node × Node) × Weight) :=
  (graph.edgesFrom [] graph.nodes).filterMap fun edge =>
    (graph.weight edge.1 edge.2).map fun weight => (edge, weight)

def hop (sourceEdge : List (Path Node)) : List (Path Node) :=
  sourceEdge.flatMap fun pair => mergeTuples [pair] (graph.edgesAt pair.last)

/-- `source_edge` after a number of rounds. -/
def sourceEdge (node : Node) : Nat → List (Path Node)
  | 0 => (graph.edgesAt node).map fun edge => ⟨[edge.1], edge.2⟩
  | rounds + 1 => graph.hop (sourceEdge node rounds)

def weightOf [Zero Weight] (edge : Node × Node) : Weight :=
  match graph.wts.lookup edge with
  | some weight => weight
  | none => (graph.wts.lookup edge.swap).getD 0

/-- `n_neighbor`.  The loop counts from one up to `n_hop`. -/
def nNeighbor [Zero Weight] (node : Node) (nHop : Int) : List (Neighbor Node Weight) :=
  (graph.sourceEdge node (nHop - 1).toNat).map fun path =>
    ⟨path.toList, (steps path.toList).map graph.weightOf⟩

end Network

def taken (path : List Node) : List (Sym2 Node) :=
  (steps path).map undirected

section Steps

omit [DecidableEq Node]

theorem mem_steps {path : List Node} {edge : Node × Node} :
    edge ∈ steps path ↔ ∃ index, path[index]? = some edge.1 ∧ path[index + 1]? = some edge.2 := by
  simp [steps, List.mem_iff_getElem?, List.getElem?_zip_eq_some]

theorem mem_taken {path : List Node} {edge : Node × Node} :
    undirected edge ∈ taken path ↔ edge ∈ steps path ∨ edge.swap ∈ steps path := by
  have either (step : Node × Node) :
      undirected step = undirected edge ↔ step = edge ∨ step = edge.swap := by
    simp [undirected, Prod.ext_iff]
  simp only [taken, List.mem_map, either]
  constructor
  · rintro ⟨step, member, rfl | rfl⟩
    · exact .inl member
    · exact .inr member
  · rintro (member | member)
    · exact ⟨edge, member, .inl rfl⟩
    · exact ⟨edge.swap, member, .inr rfl⟩

theorem steps_push (path : Path Node) (node : Node) :
    steps (path.push node).toList = steps path.toList ++ [(path.last, node)] := by
  obtain ⟨front, last⟩ := path
  simp only [Path.push, Path.toList]
  induction front with
  | nil => rfl
  | cons first rest ih =>
    cases rest with
    | nil => rfl
    | cons second rest => exact congrArg ((first, second) :: ·) ih

theorem taken_push (path : Path Node) (node : Node) :
    taken (path.push node).toList = taken path.toList ++ [s(path.last, node)] := by
  simp [taken, steps_push, undirected]

theorem mem_of_mem_taken {path : List Node} {edge : Sym2 Node} (isTaken : edge ∈ taken path)
    {node : Node} (isEnd : node ∈ edge) : node ∈ path := by
  obtain ⟨step, member, rfl⟩ := List.mem_map.mp isTaken
  obtain ⟨index, first, second⟩ := mem_steps.mp member
  rcases Sym2.mem_iff.mp isEnd with rfl | rfl
  · exact List.mem_of_getElem? first
  · exact List.mem_of_getElem? second

theorem taken_subset_of_isPrefix {path longer : List Node} (isPrefix : path <+: longer) :
    taken path ⊆ taken longer := by
  obtain ⟨rest, rfl⟩ := isPrefix
  have keeps {index : Nat} {node : Node} (found : path[index]? = some node) :
      (path ++ rest)[index]? = some node :=
    (List.getElem?_append_left (List.getElem?_eq_some_iff.mp found).1).trans found
  apply List.map_subset
  intro step member
  obtain ⟨index, first, second⟩ := mem_steps.mp member
  exact mem_steps.mpr ⟨index, keeps first, keeps second⟩

end Steps

theorem isContinuousSubsequence_iff {edge : Node × Node} {path : List Node} :
    isContinuousSubsequence edge path = true ↔ edge ∈ steps path := by
  rw [mem_steps]
  simp only [isContinuousSubsequence, findAllIndexes, List.any_eq_true, List.mem_filter,
    List.mem_range, decide_eq_true_eq, Bool.and_eq_true]
  constructor
  · rintro ⟨index, ⟨_, first⟩, _, second⟩
    exact ⟨index, first, second⟩
  · rintro ⟨index, first, second⟩
    have inside := (List.getElem?_eq_some_iff.mp second).1
    exact ⟨index, ⟨by omega, first⟩, by omega, second⟩

theorem mem_untaken {tup : Path Node} {list2 : List (Node × Node)} {edge : Node × Node} :
    edge ∈ untaken tup list2 ↔
      edge ∈ list2 ∧ edge.1 = tup.last ∧ undirected edge ∉ taken tup.toList := by
  have passes (pair : Node × Node) :
      isContinuousSubsequence pair tup.toList = false ↔ pair ∉ steps tup.toList := by
    rw [← isContinuousSubsequence_iff, Bool.not_eq_true]
  simp only [untaken, List.mem_filter, decide_eq_true_eq, Bool.not_eq_true',
    Bool.or_eq_false_iff, passes, mem_taken, not_or, and_assoc]

namespace Network

variable (graph : Network Node Weight)

/-- The path has come back to one of its nodes, or it has taken every edge at its end. -/
def Stuck (path : Path Node) : Prop :=
  path.last ∈ path.front ∨
    ∀ other ∈ graph.neighbors path.last, s(path.last, other) ∈ taken path.toList

theorem untaken_eq_nil {path : Path Node} :
    untaken path (graph.edgesAt path.last) = [] ↔
      ∀ other ∈ graph.neighbors path.last, s(path.last, other) ∈ taken path.toList := by
  simp [List.eq_nil_iff_forall_not_mem, mem_untaken, edgesAt, undirected]

theorem mem_hop {source : List (Path Node)} {longer : Path Node} :
    longer ∈ graph.hop source ↔ ∃ path ∈ source, (graph.Stuck path ∧ longer = path) ∨
      (¬ graph.Stuck path ∧ ∃ other ∈ graph.neighbors path.last,
        s(path.last, other) ∉ taken path.toList ∧ longer = path.push other) := by
  simp only [hop, mergeTuples, List.flatMap_singleton, List.mem_flatMap, untaken_eq_nil]
  apply exists_congr
  intro path
  apply and_congr_right
  intro _
  split
  case isTrue stuck =>
    have isStuck : graph.Stuck path := stuck
    simp [isStuck]
  case isFalse moves =>
    have moves : ¬ graph.Stuck path := moves
    simp only [moves, List.mem_map, mem_untaken, edgesAt, undirected]
    constructor
    · rintro ⟨_, ⟨⟨other, isNeighbor, rfl⟩, _, untaken⟩, rfl⟩
      exact .inr ⟨id, other, isNeighbor, untaken, rfl⟩
    · rintro (⟨⟨⟩, _⟩ | ⟨_, other, isNeighbor, untaken, rfl⟩)
      exact ⟨_, ⟨⟨other, isNeighbor, rfl⟩, rfl, untaken⟩, rfl⟩

/-- The path starts at the node, steps along edges and takes none of them twice. -/
structure Trail (node : Node) (path : List Node) : Prop where
  starts : path.head? = some node
  adjacent : path.IsChain fun first second => second ∈ graph.neighbors first
  nodup : (taken path).Nodup

variable {graph}

omit [DecidableEq Node] in
theorem Trail.push {node other : Node} {path : Path Node} (trail : graph.Trail node path.toList)
    (isNeighbor : other ∈ graph.neighbors path.last)
    (untaken : s(path.last, other) ∉ taken path.toList) :
    graph.Trail node (path.push other).toList where
  starts := by
    have starts := trail.starts
    simp only [Path.push, Path.toList] at starts ⊢
    rw [List.head?_append, starts]
    rfl
  adjacent := by
    apply trail.adjacent.append (.singleton other)
    simp [Path.toList, isNeighbor]
  nodup := by
    rw [taken_push]
    exact List.nodup_append'.mpr ⟨trail.nodup, by simp, by simpa using untaken⟩

theorem trail_of_mem_sourceEdge {node : Node} {rounds : Nat} {path : Path Node}
    (member : path ∈ graph.sourceEdge node rounds) : graph.Trail node path.toList := by
  induction rounds generalizing path with
  | zero =>
    obtain ⟨edge, isEdge, rfl⟩ := List.mem_map.mp member
    obtain ⟨other, isNeighbor, rfl⟩ := List.mem_map.mp isEdge
    exact ⟨rfl, by simpa [Path.toList] using isNeighbor, by simp [taken, steps, Path.toList]⟩
  | succ rounds ih =>
    obtain ⟨shorter, before, ⟨_, rfl⟩ | ⟨_, other, isNeighbor, untaken, rfl⟩⟩ :=
      (graph.mem_hop).mp member
    · exact ih before
    · exact (ih before).push isNeighbor untaken

theorem length_of_mem_sourceEdge {node : Node} {rounds : Nat} {path : Path Node}
    (member : path ∈ graph.sourceEdge node rounds) :
    2 ≤ path.toList.length ∧ path.toList.length ≤ rounds + 2 := by
  induction rounds generalizing path with
  | zero =>
    obtain ⟨edge, _, rfl⟩ := List.mem_map.mp member
    simp [Path.toList]
  | succ rounds ih =>
    obtain ⟨shorter, before, ⟨_, rfl⟩ | ⟨_, other, _, _, rfl⟩⟩ := (graph.mem_hop).mp member
    · have := ih before
      omega
    · have := ih before
      simp only [Path.push, Path.toList, List.length_append, List.length_singleton] at this ⊢
      omega

theorem exists_longer {source : List (Path Node)} {path : Path Node} (member : path ∈ source) :
    ∃ longer ∈ graph.hop source, path.toList <+: longer.toList := by
  by_cases stuck : graph.Stuck path
  · exact ⟨path, (graph.mem_hop).mpr ⟨path, member, .inl ⟨stuck, rfl⟩⟩, List.prefix_refl _⟩
  · have moves := stuck
    simp only [Stuck, not_or, not_forall] at moves
    obtain ⟨_, other, isNeighbor, untaken⟩ := moves
    exact ⟨path.push other,
      (graph.mem_hop).mpr ⟨path, member, .inr ⟨stuck, other, isNeighbor, untaken, rfl⟩⟩,
      List.prefix_append _ _⟩

theorem exists_longer_of_le {node : Node} {rounds later : Nat} (le : rounds ≤ later)
    {path : Path Node} (member : path ∈ graph.sourceEdge node rounds) :
    ∃ longer ∈ graph.sourceEdge node later, path.toList <+: longer.toList := by
  induction later, le using Nat.le_induction with
  | base => exact ⟨path, member, List.prefix_refl _⟩
  | succ later _ ih =>
    obtain ⟨longer, isLonger, isPrefix⟩ := ih
    obtain ⟨longest, isLongest, extends'⟩ := exists_longer isLonger
    exact ⟨longest, isLongest, isPrefix.trans extends'⟩

theorem push_mem_hop {source : List (Path Node)} {path : Path Node} {other : Node}
    (member : path ∈ source) (isNew : path.last ∉ path.front)
    (isNeighbor : other ∈ graph.neighbors path.last)
    (untaken : s(path.last, other) ∉ taken path.toList) :
    path.push other ∈ graph.hop source := by
  apply (graph.mem_hop).mpr
  apply Exists.intro path
  apply And.intro member
  right
  constructor
  · rintro (back | all)
    · exact isNew back
    · exact untaken (all other isNeighbor)
  · exact ⟨other, isNeighbor, untaken, rfl⟩

theorem mem_sourceEdge_of_nodup {node : Node} {rounds : Nat} {path : Path Node}
    (starts : path.toList.head? = some node)
    (adjacent : path.toList.IsChain fun first second => second ∈ graph.neighbors first)
    (simple : path.toList.Nodup) (length : path.front.length = rounds + 1) :
    path ∈ graph.sourceEdge node rounds := by
  induction rounds generalizing path with
  | zero =>
    obtain ⟨front, last⟩ := path
    obtain ⟨first, rfl⟩ := List.length_eq_one_iff.mp length
    obtain rfl : first = node := by simpa [Path.toList] using starts
    have isNeighbor : last ∈ graph.neighbors first := by simpa [Path.toList] using adjacent
    exact List.mem_map.mpr ⟨_, List.mem_map.mpr ⟨last, isNeighbor, rfl⟩, rfl⟩
  | succ rounds ih =>
    obtain ⟨front, last⟩ := path
    rcases front.eq_nil_or_concat' with rfl | ⟨before, previous, rfl⟩
    · cases length
    let shorter : Path Node := ⟨before, previous⟩
    have isPushed : (⟨before ++ [previous], last⟩ : Path Node) = shorter.push last := rfl
    simp only [Path.toList] at starts adjacent simple
    obtain ⟨adjacentBefore, _, isNext⟩ := List.isChain_append.mp adjacent
    obtain ⟨simpleBefore, _, isNew⟩ := List.nodup_append'.mp simple
    have startsBefore : (before ++ [previous]).head? = some node := by
      rw [List.head?_append_of_ne_nil _ (by simp)] at starts
      exact starts
    have isListed : shorter ∈ graph.sourceEdge node rounds :=
      ih startsBefore adjacentBefore simpleBefore (by simpa [shorter] using length)
    rw [isPushed]
    apply push_mem_hop isListed
    · have := (List.nodup_append'.mp simpleBefore).2.2
      simpa [List.disjoint_comm] using this
    · exact isNext previous (by simp) last (by simp)
    · intro isTaken
      exact isNew (mem_of_mem_taken isTaken (Sym2.mem_mk_right _ _)) (by simp)

def simple (graph : Network Node Weight) : SimpleGraph Node :=
  SimpleGraph.fromRel fun first second => second ∈ graph.neighbors first

omit [DecidableEq Node] in
theorem neighbor_of_adj {first second : Node} (adjacent : graph.simple.Adj first second) :
    second ∈ graph.neighbors first := by
  rcases (SimpleGraph.fromRel_adj ..).mp adjacent with ⟨_, forth | back⟩
  · exact forth
  · exact graph.neighbors_comm back

theorem exists_path_with_edge {node near far : Node} {rounds : Nat}
    (walk : graph.simple.Walk node near) (isNeighbor : far ∈ graph.neighbors near)
    (length : walk.length ≤ rounds) :
    ∃ path ∈ graph.sourceEdge node rounds, s(near, far) ∈ taken path.toList := by
  have later (round : Nat) (le : round ≤ rounds) (path : Path Node)
      (member : path ∈ graph.sourceEdge node round) (isTaken : s(near, far) ∈ taken path.toList) :
      ∃ path ∈ graph.sourceEdge node rounds, s(near, far) ∈ taken path.toList := by
    obtain ⟨longer, isLonger, isPrefix⟩ := exists_longer_of_le le member
    exact ⟨longer, isLonger, taken_subset_of_isPrefix isPrefix isTaken⟩
  have shorter := walk.length_bypass_le_length
  rcases isRound : walk.bypass.length with _ | round
  · obtain rfl := walk.bypass.eq_of_length_eq_zero isRound
    apply later 0 (Nat.zero_le rounds) ⟨[node], far⟩
    · exact List.mem_map.mpr ⟨_, List.mem_map.mpr ⟨far, isNeighbor, rfl⟩, rfl⟩
    · simp [taken, steps, Path.toList, undirected]
  · let path : Path Node := ⟨walk.bypass.support.dropLast, near⟩
    have isSupport : path.toList = walk.bypass.support := walk.bypass.dropLast_support_concat
    have isSimple : path.toList.Nodup := isSupport ▸ walk.bypass_isPath.support_nodup
    have isListed : path ∈ graph.sourceEdge node round := by
      apply mem_sourceEdge_of_nodup
      · rw [isSupport, List.head?_eq_some_head walk.bypass.support_ne_nil,
          SimpleGraph.Walk.head_support]
      · rw [isSupport]
        exact walk.bypass.isChain_adj_support.imp fun _ _ => neighbor_of_adj
      · exact isSimple
      · simp [path, isRound]
    by_cases isTaken : s(near, far) ∈ taken path.toList
    · exact later round (by omega) path isListed isTaken
    · apply later (round + 1) (by omega) (path.push far)
      · apply push_mem_hop isListed _ isNeighbor isTaken
        intro back
        exact (List.nodup_append'.mp isSimple).2.2 back (by simp)
      · simp [taken_push, path]

section Weights

theorem lookup_weights (edges : List (Node × Node)) (edge : Node × Node) :
    (edges.filterMap fun edge =>
      (graph.weight edge.1 edge.2).map fun weight => (edge, weight)).lookup edge =
        if edge ∈ edges then graph.weight edge.1 edge.2 else none := by
  induction edges with
  | nil => simp
  | cons first rest ih =>
    by_cases isFirst : edge = first
    · subst isFirst
      cases isWeight : graph.weight edge.1 edge.2 with
      | none => simp [isWeight, ih]
      | some weight => simp [isWeight]
    · cases isWeight : graph.weight first.1 first.2 with
      | none => simp [isWeight, isFirst, ih]
      | some weight => simp [isWeight, isFirst, ih, List.lookup_cons, beq_false_of_ne isFirst]

theorem mem_edgesFrom {near far : Node} (isNeighbor : far ∈ graph.neighbors near)
    {nodes seen : List Node} (nearOpen : near ∈ nodes ∧ near ∉ seen)
    (farOpen : far ∈ nodes ∧ far ∉ seen) :
    (near, far) ∈ graph.edgesFrom seen nodes ∨ (far, near) ∈ graph.edgesFrom seen nodes := by
  induction nodes generalizing seen with
  | nil => simp at nearOpen
  | cons node rest ih =>
    have isBack := graph.neighbors_comm isNeighbor
    simp only [edgesFrom, edgesAt, List.mem_append, List.mem_filter, List.mem_map]
    by_cases isNear : near = node
    · subst isNear
      exact .inl (.inl ⟨⟨far, isNeighbor, rfl⟩, by simpa using farOpen.2⟩)
    · by_cases isFar : far = node
      · subst isFar
        exact .inr (.inl ⟨⟨near, isBack, rfl⟩, by simpa using nearOpen.2⟩)
      · have later : (near, far) ∈ graph.edgesFrom (node :: seen) rest ∨
            (far, near) ∈ graph.edgesFrom (node :: seen) rest :=
          ih (by simp_all) (by simp_all)
        exact later.imp .inr .inr

variable [Zero Weight]

theorem weightOf_eq {step : Node × Node} (isNeighbor : step.2 ∈ graph.neighbors step.1) :
    graph.weightOf step = (graph.weight step.1 step.2).getD 0 := by
  have isListed : step ∈ graph.edgesFrom [] graph.nodes ∨
      step.swap ∈ graph.edgesFrom [] graph.nodes :=
    mem_edgesFrom isNeighbor ⟨graph.mem_nodes isNeighbor, by simp⟩
      ⟨graph.mem_nodes (graph.neighbors_comm isNeighbor), by simp⟩
  have back := graph.weight_comm step.1 step.2
  simp only [weightOf, wts, lookup_weights]
  by_cases forth : step ∈ graph.edgesFrom [] graph.nodes
  · cases isWeight : graph.weight step.1 step.2 with
    | none => simp [forth, isWeight, ← back]
    | some weight => simp [forth]
  · have isBack : step.swap ∈ graph.edgesFrom [] graph.nodes := isListed.resolve_left forth
    simp [forth, isBack, back]

end Weights

/-- `n_neighbor` lists paths of at most `n_hop` edges that start at the node and take no edge
twice, each edge that a walk of at most `n_hop` edges ends with is on one of them, and the
weights are those of the edges on the path. -/
structure Enumerates [Zero Weight] (graph : Network Node Weight) (node : Node) (nHop : Int) :
    Prop where
  trail : ∀ neighbor ∈ graph.nNeighbor node nHop, graph.Trail node neighbor.path
  within : ∀ neighbor ∈ graph.nNeighbor node nHop, (taken neighbor.path).length ≤ nHop
  reaches : ∀ {near far : Node} (walk : graph.simple.Walk node near),
    far ∈ graph.neighbors near → walk.length + 1 ≤ nHop →
      ∃ neighbor ∈ graph.nNeighbor node nHop, s(near, far) ∈ taken neighbor.path
  weights : ∀ neighbor ∈ graph.nNeighbor node nHop,
    neighbor.weights =
      (steps neighbor.path).map fun step => (graph.weight step.1 step.2).getD 0

variable [Zero Weight]

omit [DecidableEq Node] in
theorem length_taken (path : List Node) : (taken path).length = path.length - 1 := by
  simp [taken, steps]

theorem mem_nNeighbor {node : Node} {nHop : Int} {neighbor : Neighbor Node Weight} :
    neighbor ∈ graph.nNeighbor node nHop ↔
      ∃ path ∈ graph.sourceEdge node (nHop - 1).toNat,
        ⟨path.toList, (steps path.toList).map graph.weightOf⟩ = neighbor :=
  List.mem_map

theorem enumerates_of_pos (node : Node) {nHop : Int} (pos : 1 ≤ nHop) :
    graph.Enumerates node nHop where
  trail := by
    intro neighbor member
    obtain ⟨path, isListed, rfl⟩ := mem_nNeighbor.mp member
    exact trail_of_mem_sourceEdge isListed
  within := by
    intro neighbor member
    obtain ⟨path, isListed, rfl⟩ := mem_nNeighbor.mp member
    have bounds := length_of_mem_sourceEdge isListed
    simp only [length_taken]
    omega
  reaches := by
    intro near far walk isNeighbor within
    obtain ⟨path, isListed, isTaken⟩ :=
      exists_path_with_edge walk isNeighbor (show walk.length ≤ (nHop - 1).toNat by omega)
    exact ⟨_, mem_nNeighbor.mpr ⟨path, isListed, rfl⟩, isTaken⟩
  weights := by
    intro neighbor member
    obtain ⟨path, isListed, rfl⟩ := mem_nNeighbor.mp member
    apply List.map_congr_left
    intro step isStep
    apply weightOf_eq
    obtain ⟨index, first, second⟩ := mem_steps.mp isStep
    obtain ⟨inside, isSecond⟩ := List.getElem?_eq_some_iff.mp second
    obtain ⟨_, isFirst⟩ := List.getElem?_eq_some_iff.mp first
    rw [← isFirst, ← isSecond]
    exact List.isChain_iff_getElem.mp (trail_of_mem_sourceEdge isListed).adjacent index inside

/-- The edges at the node are listed whatever `n_hop` is. -/
theorem enumerates_iff (node : Node) (nHop : Int) :
    graph.Enumerates node nHop ↔ 1 ≤ nHop ∨ graph.neighbors node = [] := by
  constructor
  · intro enumerates
    by_contra neither
    obtain ⟨notPos, nonempty⟩ := not_or.mp neither
    obtain ⟨other, isNeighbor⟩ := List.exists_mem_of_ne_nil _ nonempty
    have none : (nHop - 1).toNat = 0 := by omega
    have isListed : (⟨[node], other⟩ : Path Node) ∈ graph.sourceEdge node (nHop - 1).toNat := by
      rw [none]
      exact List.mem_map.mpr ⟨_, List.mem_map.mpr ⟨other, isNeighbor, rfl⟩, rfl⟩
    have within := enumerates.within _ (mem_nNeighbor.mpr ⟨_, isListed, rfl⟩)
    simp only [length_taken, Path.toList] at within
    simp only [List.length_append, List.length_singleton] at within
    omega
  · rintro (pos | isolated)
    · exact enumerates_of_pos node pos
    · have noPath (rounds : Nat) : graph.sourceEdge node rounds = [] := by
        induction rounds with
        | zero => simp [sourceEdge, edgesAt, isolated]
        | succ rounds ih => rw [sourceEdge, ih, hop, List.flatMap_nil]
      have nothing : graph.nNeighbor node nHop = [] := by rw [nNeighbor, noPath, List.map_nil]
      rcases lt_or_ge nHop 1 with notPos | pos
      · constructor
        case reaches =>
          intro near far walk _ within
          omega
        all_goals
          rw [nothing]
          exact fun _ member => absurd member List.not_mem_nil
      · exact enumerates_of_pos node pos

def couple : Network Bool Nat where
  nodes := [false, true]
  neighbors node := [!node]
  weight _ _ := some 3
  mem_nodes {node _} _ := by cases node <;> decide
  neighbors_comm {node other} isNeighbor := by
    obtain rfl := List.mem_singleton.mp isNeighbor
    simp
  weight_comm _ _ := rfl

/-- Paths of up to no edges. -/
theorem not_enumerates_couple : ¬ couple.Enumerates false 0 := by
  intro enumerates
  have within := enumerates.within ⟨[false, true], [3]⟩ (by decide)
  simp [taken, steps] at within

end Network

end RagFlow.GraphRag.Neighbors
