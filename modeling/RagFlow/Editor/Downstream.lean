import Mathlib.Data.List.Basic
import RagFlow.Lib.Descent
import RagFlow.Lib.Fallible

/-!
# The graph of the workflow editor

Nodes and edges as the canvas keeps them, with the form fields that the graph actions and the
DSL builder read.
-/

namespace RagFlow.Editor

inductive Operator where
  | begin | retrieval | categorize | message | rewriteQuestion | duckDuckGo | wikipedia | pubMed
  | arXiv | google | bing | googleScholar | gitHub | exeSQL | switch | wenCai | yahooFinance
  | note | crawler | invoke | email | iteration | iterationStart | code | waitingDialogue | agent
  | tool | tavilySearch | tavilyExtract | userFillUp | stringTransform | searXNG | docGenerator
  | browser | placeholder | dataOperations | listOperations | variableAssigner
  | variableAggregator | file | parser | tokenizer | tokenChunker | titleChunker | extractor
  | loop | loopStart | exitLoop | excelProcessor
  deriving DecidableEq

def Operator.text : Operator → String
  | .begin => "Begin"
  | .retrieval => "Retrieval"
  | .categorize => "Categorize"
  | .message => "Message"
  | .rewriteQuestion => "RewriteQuestion"
  | .duckDuckGo => "DuckDuckGo"
  | .wikipedia => "Wikipedia"
  | .pubMed => "PubMed"
  | .arXiv => "ArXiv"
  | .google => "Google"
  | .bing => "Bing"
  | .googleScholar => "GoogleScholar"
  | .gitHub => "GitHub"
  | .exeSQL => "ExeSQL"
  | .switch => "Switch"
  | .wenCai => "WenCai"
  | .yahooFinance => "YahooFinance"
  | .note => "Note"
  | .crawler => "Crawler"
  | .invoke => "Invoke"
  | .email => "Email"
  | .iteration => "Iteration"
  | .iterationStart => "IterationItem"
  | .code => "CodeExec"
  | .waitingDialogue => "WaitingDialogue"
  | .agent => "Agent"
  | .tool => "Tool"
  | .tavilySearch => "TavilySearch"
  | .tavilyExtract => "TavilyExtract"
  | .userFillUp => "UserFillUp"
  | .stringTransform => "StringTransform"
  | .searXNG => "SearXNG"
  | .docGenerator => "DocGenerator"
  | .browser => "Browser"
  | .placeholder => "Placeholder"
  | .dataOperations => "DataOperations"
  | .listOperations => "ListOperations"
  | .variableAssigner => "VariableAssigner"
  | .variableAggregator => "VariableAggregator"
  | .file => "File"
  | .parser => "Parser"
  | .tokenizer => "Tokenizer"
  | .tokenChunker => "TokenChunker"
  | .titleChunker => "TitleChunker"
  | .extractor => "Extractor"
  | .loop => "Loop"
  | .loopStart => "LoopItem"
  | .exitLoop => "ExitLoop"
  | .excelProcessor => "ExcelProcessor"

/-- The handles of `NodeHandleId`, the handles of a Switch (`Case k` and `end_cpn_ids`) and those
of a Categorize, one for each item by its uuid. -/
inductive Handle where
  | start | target | tool | agentTop | agentBottom | agentException
  | switchCase (number : Nat)
  | switchElseTo
  | category (uuid : String)
  deriving DecidableEq

structure Edge where
  source : String
  target : String
  sourceHandle : Option Handle
  targetHandle : Option Handle
  deriving DecidableEq

inductive AgentTool where
  | mk (componentName : Operator) (id name : Option String) (tools : List AgentTool)

structure CategorizeItem where
  name : String
  uuid : String

/-- Of the forms of all operators: an Agent's tools, a Categorize's items and what a Switch routes
to, a missing `to` read as empty. -/
structure Form where
  tools : List AgentTool
  items : List CategorizeItem
  conditions : List (List String)
  endCpnIds : List String

def initialForm : Operator → Form
  | .switch => { tools := [], items := [], conditions := [[]], endCpnIds := [] }
  | _ => { tools := [], items := [], conditions := [], endCpnIds := [] }

structure Node where
  id : String
  label : Operator
  parentId : Option String
  name : String
  form : Form

structure RFState where
  nodes : List Node
  edges : List Edge

def getNode (nodes : List Node) (id : String) : Option Node :=
  nodes.find? fun node => node.id = id

def getOperatorTypeFromId (nodes : List Node) (id : String) : Option Operator :=
  (getNode nodes id).map Node.label

@[simp] theorem getNode_nil (id : String) : getNode [] id = none := rfl

theorem mem_of_getNode {nodes : List Node} {id : String} {node : Node}
    (found : getNode nodes id = some node) : node ∈ nodes ∧ node.id = id := by
  constructor
  · exact List.mem_of_find?_eq_some found
  · simpa using List.find?_some found

theorem getNode_isSome_iff {nodes : List Node} {id : String} :
    (getNode nodes id).isSome ↔ id ∈ nodes.map Node.id := by
  simp only [getNode, List.find?_isSome, decide_eq_true_eq, List.mem_map]

theorem getNode_of_mem {nodes : List Node} (distinct : (nodes.map Node.id).Nodup) {node : Node}
    (member : node ∈ nodes) : getNode nodes node.id = some node := by
  induction nodes with
  | nil => simp at member
  | cons head rest ih =>
    obtain ⟨fresh, distinct⟩ := List.nodup_cons.mp distinct
    rcases List.mem_cons.mp member with rfl | inRest
    · simp [getNode]
    · have other : head.id ≠ node.id := by
        intro same
        exact fresh (same ▸ List.mem_map_of_mem inRest)
      have found := ih distinct inRest
      simp only [getNode] at found
      simp [getNode, other, found]

end RagFlow.Editor

/-!
# Sub-agents and tools

The nodes downstream of an Agent by the edges to its sub-agents and tools, collected recursively.
-/

namespace RagFlow.Editor

open RagFlow.Lib Relation

def Edge.isSubAgentOrTool (edge : Edge) : Bool :=
  edge.sourceHandle = some .agentBottom ∨ edge.sourceHandle = some .tool

def pushNew (pre ids : List String) : List String :=
  ids.foldl (fun pre id => if id ∈ pre then pre else pre ++ [id]) pre

/-- `filterAllDownstreamNodeIds`; `none` when the recursion is deeper than the fuel. -/
def filterAllDownstreamNodeIds (edges : List Edge) (predicate : Edge → Bool) :
    Nat → List String → Option (List String)
  | 0, _ => none
  | fuel + 1, nodeIds =>
    nodeIds.foldlM (fun pre nodeId => do
      let downstreamNodeIds :=
        (edges.filter fun edge => edge.source = nodeId ∧ predicate edge).map Edge.target
      let deeper ← filterAllDownstreamNodeIds edges predicate fuel downstreamNodeIds
      some (pushNew pre (downstreamNodeIds ++ deeper))) []

def filterAllDownstreamAgentAndToolNodeIds (edges : List Edge) (nodeIds : List String) :
    Option (List String) :=
  filterAllDownstreamNodeIds edges Edge.isSubAgentOrTool (edges.length + 2) nodeIds

def links (edges : List Edge) (predicate : Edge → Bool) : List (String × String) :=
  (edges.filter predicate).map fun edge => (edge.source, edge.target)

section Downstream

variable {edges : List Edge} {predicate : Edge → Bool}

theorem mem_downstream_iff {source target : String} :
    target ∈ (edges.filter fun edge => edge.source = source ∧ predicate edge).map Edge.target ↔
      (source, target) ∈ links edges predicate := by
  simp only [links, List.mem_map, List.mem_filter, Prod.mk.injEq, decide_eq_true_eq]
  constructor
  · rintro ⟨edge, ⟨member, sameSource, follows⟩, sameTarget⟩
    exact ⟨edge, ⟨member, follows⟩, sameSource, sameTarget⟩
  · rintro ⟨edge, ⟨member, follows⟩, sameSource, sameTarget⟩
    exact ⟨edge, ⟨member, sameSource, follows⟩, sameTarget⟩

@[simp] theorem mem_pushNew {pre ids : List String} {id : String} :
    id ∈ pushNew pre ids ↔ id ∈ pre ∨ id ∈ ids := by
  unfold pushNew
  induction ids generalizing pre with
  | nil => simp
  | cons head rest ih =>
    simp only [List.foldl_cons, ih]
    by_cases known : head ∈ pre
    · simp only [known, if_true, List.mem_cons]
      constructor
      · rintro (inPre | inRest)
        · exact Or.inl inPre
        · exact Or.inr (Or.inr inRest)
      · rintro (inPre | rfl | inRest)
        · exact Or.inl inPre
        · exact Or.inl known
        · exact Or.inr inRest
    · simp [known, or_assoc]

theorem filterAllDownstreamNodeIds_isSome_iff {fuel : Nat} {ids : List String} :
    (filterAllDownstreamNodeIds edges predicate (fuel + 1) ids).isSome ↔
      ∀ id ∈ ids, Descent.EndsWithin (links edges predicate) fuel id := by
  induction fuel generalizing ids with
  | zero =>
    unfold filterAllDownstreamNodeIds
    apply Fallible.foldlM_isSome_iff.trans
    simp [filterAllDownstreamNodeIds, Descent.EndsWithin]
  | succ fuel ih =>
    unfold filterAllDownstreamNodeIds
    apply Fallible.foldlM_isSome_iff.trans
    apply forall₂_congr
    intro id _
    simp only [ih, mem_downstream_iff, Descent.EndsWithin]

theorem mem_filterAllDownstreamNodeIds {fuel : Nat} {ids found : List String}
    (collected : filterAllDownstreamNodeIds edges predicate fuel ids = some found) {id : String} :
    id ∈ found ↔
      ∃ start ∈ ids, TransGen (fun x y => (x, y) ∈ links edges predicate) start id := by
  induction fuel generalizing ids found id with
  | zero => simp [filterAllDownstreamNodeIds] at collected
  | succ fuel ih =>
    unfold filterAllDownstreamNodeIds at collected
    suffices loop : ∀ (pre : List String), ids.foldlM (fun pre nodeId => do
          let downstreamNodeIds :=
            (edges.filter fun edge => edge.source = nodeId ∧ predicate edge).map Edge.target
          let deeper ← filterAllDownstreamNodeIds edges predicate fuel downstreamNodeIds
          some (pushNew pre (downstreamNodeIds ++ deeper))) pre = some found →
        (id ∈ found ↔ id ∈ pre ∨ ∃ start ∈ ids,
          TransGen (fun x y => (x, y) ∈ links edges predicate) start id) by
      simpa using loop [] collected
    clear collected
    induction ids with
    | nil =>
      intro pre collected
      obtain rfl := Option.some.inj collected
      simp
    | cons head rest restHypothesis =>
      intro pre collected
      rw [List.foldlM_cons] at collected
      simp only [Option.bind_eq_bind, Option.bind_eq_some_iff, Option.some.injEq] at collected
      obtain ⟨_, ⟨deeper, descended, rfl⟩, collected⟩ := collected
      rw [restHypothesis _ collected]
      have atHead : id ∈ (edges.filter fun edge =>
            edge.source = head ∧ predicate edge).map Edge.target ++ deeper ↔
          TransGen (fun x y => (x, y) ∈ links edges predicate) head id := by
        rw [List.mem_append, mem_downstream_iff, ih descended]
        constructor
        · rintro (edge | ⟨child, isChild, reached⟩)
          · exact TransGen.single edge
          · exact TransGen.head (mem_downstream_iff.mp isChild) reached
        · intro reached
          obtain ⟨child, edge, rest⟩ := TransGen.head'_iff.mp reached
          rcases reflTransGen_iff_eq_or_transGen.mp rest with rfl | deeper
          · exact Or.inl edge
          · exact Or.inr ⟨child, mem_downstream_iff.mpr edge, deeper⟩
      simp only [mem_pushNew, atHead, List.exists_mem_cons_iff, or_assoc]

end Downstream

end RagFlow.Editor
