import Mathlib
import RagFlow.Lib.Dict

/-!
# Knowledge graphs

A knowledge graph is an undirected graph with attributes on its nodes and edges, together
with the documents it was extracted from.  `graph_merge` adds one graph to another and
records in a `GraphChange` which nodes and edges it wrote.
-/

namespace RagFlow.GraphRag

open RagFlow.Lib

variable {Name Doc Score : Type}

/-- Membership in a list is decided by comparing the entries. -/
scoped instance decidableMem {Value : Type} [DecidableEq Value] (value : Value)
    (values : List Value) : Decidable (value ∈ values) :=
  List.instDecidableMemOfLawfulBEq value values

/-- What stands between two `GRAPH_FIELD_SEP` in a description.  The document it was
extracted from is not part of the text; it is kept here to say where a piece comes from. -/
structure Piece (Doc : Type) where
  doc : Doc
  text : String
  deriving DecidableEq

/-- The attributes of a node.  `rank` and `pagerank` are missing until they are computed. -/
structure NodeAttr (Doc Score : Type) where
  entityType : String
  description : List (Piece Doc)
  sourceId : List Doc
  rank : Option Nat
  pagerank : Option Score
  deriving DecidableEq

structure EdgeAttr (Doc Score : Type) where
  weight : Score
  description : List (Piece Doc)
  keywords : List String
  sourceId : List Doc
  deriving DecidableEq

structure Graph (Name Doc Score : Type) where
  nodes : Dict Name (NodeAttr Doc Score)
  edges : Dict (Sym2 Name) (EdgeAttr Doc Score)
  sourceId : List Doc
  endpoints : ∀ edge ∈ edges.keys, ∀ name ∈ edge, name ∈ nodes.keys

structure GraphChange (Name : Type) where
  removedNodes : List Name
  addedUpdatedNodes : List Name
  removedEdges : List (Name × Name)
  addedUpdatedEdges : List (Name × Name)

def GraphChange.none : GraphChange Name where
  removedNodes := []
  addedUpdatedNodes := []
  removedEdges := []
  addedUpdatedEdges := []

section FromTo

variable [LinearOrder Name]

def getFromTo (node1 node2 : Name) : Name × Name :=
  if node1 < node2 then (node1, node2) else (node2, node1)

theorem getFromTo_comm (node1 node2 : Name) : getFromTo node1 node2 = getFromTo node2 node1 := by
  rcases lt_trichotomy node1 node2 with before | rfl | after
  · simp [getFromTo, before, before.asymm]
  · rfl
  · simp [getFromTo, after, after.asymm]

theorem mk_getFromTo (node1 node2 : Name) :
    s((getFromTo node1 node2).1, (getFromTo node1 node2).2) = s(node1, node2) := by
  unfold getFromTo
  split
  · rfl
  · exact Sym2.eq_swap

/-- `get_from_to` of the endpoints of an edge. -/
def edgeFromTo : Sym2 Name → Name × Name :=
  Sym2.lift ⟨getFromTo, getFromTo_comm⟩

theorem mk_edgeFromTo (edge : Sym2 Name) :
    s((edgeFromTo edge).1, (edgeFromTo edge).2) = edge := by
  induction edge with
  | h node1 node2 => exact mk_getFromTo node1 node2

/-- The orientation in which networkx lists an edge: the node added first comes first. -/
def orient (names : List Name) (edge : Sym2 Name) : Name × Name :=
  if names.idxOf (edgeFromTo edge).2 < names.idxOf (edgeFromTo edge).1 then
    (edgeFromTo edge).swap
  else
    edgeFromTo edge

theorem mk_orient (names : List Name) (edge : Sym2 Name) :
    s((orient names edge).1, (orient names edge).2) = edge := by
  unfold orient
  split
  · exact Sym2.eq_swap.trans (mk_edgeFromTo edge)
  · exact mk_edgeFromTo edge

end FromTo

def NodeAttr.absorb (old attr : NodeAttr Doc Score) : NodeAttr Doc Score :=
  { old with
    description := old.description ++ attr.description
    sourceId := old.sourceId ++ attr.sourceId }

def EdgeAttr.absorb [Add Score] (old attr : EdgeAttr Doc Score) : EdgeAttr Doc Score where
  weight := old.weight + attr.weight
  description := old.description ++ attr.description
  keywords := old.keywords ++ attr.keywords
  sourceId := old.sourceId ++ attr.sourceId

namespace Graph

def empty : Graph Name Doc Score where
  nodes := Dict.empty
  edges := Dict.empty
  sourceId := []
  endpoints := by simp

def names (graph : Graph Name Doc Score) : List Name :=
  graph.nodes.keys

def mapNodes (change : Name → NodeAttr Doc Score → NodeAttr Doc Score)
    (graph : Graph Name Doc Score) : Graph Name Doc Score where
  nodes := graph.nodes.mapValues change
  edges := graph.edges
  sourceId := graph.sourceId
  endpoints := by simpa using graph.endpoints

@[simp] theorem names_mapNodes (change : Name → NodeAttr Doc Score → NodeAttr Doc Score)
    (graph : Graph Name Doc Score) : (graph.mapNodes change).names = graph.names := by
  simp [names, mapNodes]

def weightedEdges (graph : Graph Name Doc Score) : List (Sym2 Name × Score) :=
  graph.edges.items.map fun item => (item.1, item.2.weight)

/-- Write the page rank of every node; `pagerank` stands for `nx.pagerank`. -/
def setPagerank (pagerank : List Name → List (Sym2 Name × Score) → Name → Score)
    (graph : Graph Name Doc Score) : Graph Name Doc Score :=
  graph.mapNodes fun name attr =>
    { attr with pagerank := some (pagerank graph.names graph.weightedEdges name) }

variable [LinearOrder Name]

theorem mem_names {graph : Graph Name Doc Score} {name : Name} :
    name ∈ graph.names ↔ ∃ attr, graph.nodes.get? name = some attr :=
  Dict.mem_keys

def incidence (name : Name) (edge : Sym2 Name) : Nat :=
  if edge = s(name, name) then 2 else if name ∈ edge then 1 else 0

def degree (edges : List (Sym2 Name)) (name : Name) : Nat :=
  (edges.map (incidence name)).sum

theorem degree_append (edges more : List (Sym2 Name)) (name : Name) :
    degree (edges ++ more) name = degree edges name + degree more name := by
  simp [degree]

theorem degree_eq_zero {edges : List (Sym2 Name)} {name : Name}
    (untouched : ∀ edge ∈ edges, name ∉ edge) : degree edges name = 0 := by
  apply List.sum_eq_zero
  intro count membership
  obtain ⟨edge, edgeMembership, rfl⟩ := List.mem_map.mp membership
  have outside := untouched edge edgeMembership
  have noLoop : edge ≠ s(name, name) := by
    rintro rfl
    exact outside (Sym2.mem_mk_left name name)
  simp [incidence, noLoop, outside]

/-- `for node_degree in g1.degree`: write the degree of every node as its rank. -/
def setRank (graph : Graph Name Doc Score) : Graph Name Doc Score :=
  graph.mapNodes fun name attr => { attr with rank := some (degree graph.edges.keys name) }

def edgeView (graph : Graph Name Doc Score) : List (Name × Name) :=
  graph.edges.keys.map (orient graph.names)

def keepsEdge (keep : Name → Bool) : Sym2 Name → Bool :=
  Sym2.lift ⟨fun node1 node2 => keep node1 && keep node2,
    fun node1 node2 => Bool.and_comm (keep node1) (keep node2)⟩

omit [LinearOrder Name] in
theorem keepsEdge_eq_true {keep : Name → Bool} {edge : Sym2 Name} :
    keepsEdge keep edge = true ↔ ∀ name ∈ edge, keep name = true := by
  induction edge with
  | h node1 node2 => simp [keepsEdge]

/-- `graph.subgraph(...).copy()`: the kept nodes and all edges between them. -/
def subgraph (graph : Graph Name Doc Score) (keep : Name → Bool) : Graph Name Doc Score where
  nodes := graph.nodes.filterKeys keep
  edges := graph.edges.filterKeys (keepsEdge keep)
  sourceId := graph.sourceId
  endpoints := by
    intro edge membership name inside
    rw [Dict.keys_filterKeys, List.mem_filter] at membership ⊢
    exact ⟨graph.endpoints edge membership.1 name inside,
      keepsEdge_eq_true.mp membership.2 name inside⟩

def comesFrom [DecidableEq Doc] (graph : Graph Name Doc Score) (source : Doc) (name : Name) :
    Bool :=
  (graph.nodes.get? name).any fun attr => source ∈ attr.sourceId

/-- What `set_graph` saves for one document: the nodes that come from it, now from it alone,
and the edges between them. -/
def docSubgraph [DecidableEq Doc] (graph : Graph Name Doc Score) (source : Doc) :
    Graph Name Doc Score :=
  { (graph.subgraph (graph.comesFrom source)).mapNodes
      fun _ attr => { attr with sourceId := [source] } with
    sourceId := [source] }

omit [LinearOrder Name] in
def WrittenBy (doc : Doc) (description : List (Piece Doc)) : Prop :=
  description ≠ [] ∧ ∀ piece ∈ description, piece.doc = doc

variable [Add Score]

/-- The two loops of `graph_merge` over the nodes and the edges of `g2`. -/
def addGraph (g1 g2 : Graph Name Doc Score) : Graph Name Doc Score where
  nodes := g1.nodes.merge NodeAttr.absorb g2.nodes
  edges := g1.edges.merge EdgeAttr.absorb g2.edges
  sourceId := g1.sourceId ++ g2.sourceId
  endpoints := by
    intro edge membership name inside
    rw [Dict.mem_keys_merge] at membership ⊢
    exact membership.imp (fun old => g1.endpoints edge old name inside)
      (fun new => g2.endpoints edge new name inside)

def graphMerge (g1 g2 : Graph Name Doc Score) (change : GraphChange Name) :
    Graph Name Doc Score × GraphChange Name :=
  ((g1.addGraph g2).setRank,
    { change with
      addedUpdatedNodes := change.addedUpdatedNodes ∪ g2.names
      addedUpdatedEdges := change.addedUpdatedEdges ∪ g2.edges.keys.map edgeFromTo })

omit [LinearOrder Name] [Add Score] in
@[simp] theorem edges_mapNodes (change : Name → NodeAttr Doc Score → NodeAttr Doc Score)
    (graph : Graph Name Doc Score) : (graph.mapNodes change).edges = graph.edges := rfl

theorem mem_names_addGraph {g1 g2 : Graph Name Doc Score} {name : Name} :
    name ∈ (g1.addGraph g2).names ↔ name ∈ g1.names ∨ name ∈ g2.names :=
  Dict.mem_keys_merge NodeAttr.absorb

theorem mem_edges_addGraph {g1 g2 : Graph Name Doc Score} {edge : Sym2 Name} :
    edge ∈ (g1.addGraph g2).edges.keys ↔ edge ∈ g1.edges.keys ∨ edge ∈ g2.edges.keys :=
  Dict.mem_keys_merge EdgeAttr.absorb

section Disjoint

variable {g1 g2 : Graph Name Doc Score} (disjoint : ∀ name ∈ g2.names, name ∉ g1.names)
include disjoint

omit [LinearOrder Name] [Add Score] in
theorem edges_disjoint : ∀ edge ∈ g2.edges.keys, edge ∉ g1.edges.keys := by
  intro edge new old
  induction edge with
  | h node1 node2 =>
    exact disjoint node1 (g2.endpoints _ new _ (Sym2.mem_mk_left node1 node2))
      (g1.endpoints _ old _ (Sym2.mem_mk_left node1 node2))

theorem items_nodes_addGraph :
    (g1.addGraph g2).nodes.items = g1.nodes.items ++ g2.nodes.items :=
  Dict.items_merge_of_disjoint NodeAttr.absorb disjoint

theorem items_edges_addGraph :
    (g1.addGraph g2).edges.items = g1.edges.items ++ g2.edges.items :=
  Dict.items_merge_of_disjoint EdgeAttr.absorb (edges_disjoint disjoint)

theorem names_addGraph : (g1.addGraph g2).names = g1.names ++ g2.names := by
  simp [names, Dict.keys, items_nodes_addGraph disjoint]

theorem weightedEdges_addGraph :
    (g1.addGraph g2).weightedEdges = g1.weightedEdges ++ g2.weightedEdges := by
  simp [weightedEdges, items_edges_addGraph disjoint]

theorem degree_addGraph {name : Name} (old : name ∈ g1.names) :
    degree (g1.addGraph g2).edges.keys name = degree g1.edges.keys name := by
  have untouched : degree g2.edges.keys name = 0 :=
    degree_eq_zero fun edge membership inside =>
      disjoint name (g2.endpoints edge membership name inside) old
  have keys : (g1.addGraph g2).edges.keys = g1.edges.keys ++ g2.edges.keys := by
    simp [Dict.keys, items_edges_addGraph disjoint]
  rw [keys, degree_append, untouched, Nat.add_zero]

end Disjoint

end Graph

/-- What `generate_subgraph` builds: a graph whose nodes and edges come from one document. -/
structure DocSubgraph (Name Doc Score : Type) where
  doc : Doc
  graph : Graph Name Doc Score
  sourceId : graph.sourceId = [doc]
  nodes : ∀ item ∈ graph.nodes.items,
    item.2.sourceId = [doc] ∧ Graph.WrittenBy doc item.2.description
  edges : ∀ item ∈ graph.edges.items,
    item.2.sourceId = [doc] ∧ Graph.WrittenBy doc item.2.description

def mention (doc entity : ℕ) : DocSubgraph ℕ ℕ ℚ where
  doc := doc
  graph :=
    { nodes :=
        { items := [(entity,
            { entityType := "PERSON"
              description := [⟨doc, "a person"⟩]
              sourceId := [doc]
              rank := none
              pagerank := none })]
          nodup := List.nodup_singleton entity }
      edges := Dict.empty
      sourceId := [doc]
      endpoints := by simp }
  sourceId := rfl
  nodes := by simp [Graph.WrittenBy]
  edges := by simp [Dict.empty]

end RagFlow.GraphRag
