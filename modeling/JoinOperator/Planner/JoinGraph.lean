import JoinOperator.Planner.QueryStats

/-! # The graph of the joins of a query -/

namespace JoinOperator.Planner

structure Edge where
  parentCol : Nat
  nodeCol : Nat
  node : Nat
  joinId : Nat
  deriving DecidableEq, Repr

/-- The list of edges that starts at `firstEdge`. -/
structure Vertex where
  edges : List Edge
  numEdges : Nat
  vertexId : Nat
  deriving DecidableEq, Repr

structure Graph where
  graphArray : List Vertex
  numVertices : Nat
  deriving DecidableEq, Repr

def initialiseGraph (rels : Nat) : Graph where
  graphArray := (List.range rels).map fun i => ⟨[], 0, i⟩
  numVertices := rels

def insertGraph (parent : Vertex) (parentCol edgeRel edgeCol joinId : Nat) : Vertex :=
  { parent with
    edges := parent.edges ++ [⟨parentCol, edgeCol, edgeRel, joinId⟩]
    numEdges := parent.numEdges + 1 }

def constructEdge (joins : List Join) (joinGraph : Graph) (i : Nat) : Option Graph := do
  let join ← joins[i]?
  if SameRelation join then some joinGraph
  else do
    let vertex ← joinGraph.graphArray[join.participant1.rel]?
    let vertex := insertGraph vertex join.participant1.numCol join.participant2.rel
      join.participant2.numCol i
    some { joinGraph with
      graphArray := joinGraph.graphArray.set join.participant1.rel vertex }

def constructGraph (joinGraph : Graph) (q : Query) : Option Graph :=
  (List.range q.numOfJoins).foldlM (constructEdge q.joins) joinGraph

structure Connection where
  col1 : Nat
  col2 : Nat
  joinId : Nat
  deriving DecidableEq, Repr

/-- The first edge from `vertex1` to `vertex2`. -/
def connected (joinGraph : Graph) (vertex1 vertex2 : Nat) : Option (Option Connection) := do
  let vertex ← joinGraph.graphArray[vertex1]?
  some ((vertex.edges.find? fun edge => edge.node = vertex2).map fun edge =>
    ⟨edge.parentCol, edge.nodeCol, edge.joinId⟩)

end JoinOperator.Planner
