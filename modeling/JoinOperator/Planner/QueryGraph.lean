import JoinOperator.Foundation.ConnectedSets
import JoinOperator.Foundation.Loop
import JoinOperator.Planner.JoinEnumeration
import JoinOperator.Planner.RelationSets

/-! # What the join graph says about the predicates -/

namespace JoinOperator.Planner

open Foundation RadixJoin

def Links (joins : List Join) (joinId s r : Nat) : Prop :=
  ∃ join, joins[joinId]? = some join ∧
    (join.participant1.rel = s ∧ join.participant2.rel = r ∨
      join.participant1.rel = r ∧ join.participant2.rel = s)

theorem Links.symm {joins : List Join} {joinId s r : Nat} (links : Links joins joinId s r) :
    Links joins joinId r s := by
  rcases links with ⟨join, get, ends⟩
  exact ⟨join, get, ends.symm⟩

def queryGraph (joins : List Join) : SimpleGraph Nat where
  Adj s r := s ≠ r ∧ ∃ joinId, Links joins joinId s r
  symm := ⟨fun s r adjacent => by
    rcases adjacent with ⟨differs, joinId, links⟩
    exact ⟨differs.symm, joinId, links.symm⟩⟩
  loopless := ⟨fun r adjacent => adjacent.1 rfl⟩

def edgeOf (joins : List Join) (vertex i : Nat) : Option Edge :=
  match joins[i]? with
  | some join =>
      if SameRelation join ∨ join.participant1.rel ≠ vertex then none
      else some ⟨join.participant1.numCol, join.participant2.numCol, join.participant2.rel, i⟩
  | none => none

theorem edgeOf_eq {joins : List Join} {i : Nat} {join : Join} (get : joins[i]? = some join)
    (different : ¬ SameRelation join) : edgeOf joins join.participant1.rel i =
      some ⟨join.participant1.numCol, join.participant2.numCol, join.participant2.rel, i⟩ := by
  rw [edgeOf, get]
  exact if_neg (by simp [different])

theorem edgeOf_eq_none {joins : List Join} {vertex i : Nat} {join : Join}
    (get : joins[i]? = some join)
    (skipped : SameRelation join ∨ join.participant1.rel ≠ vertex) :
    edgeOf joins vertex i = none := by
  rw [edgeOf, get]
  exact if_pos skipped

structure Constructed (joins : List Join) (numRels count : Nat) (joinGraph : Graph) : Prop where
  length : joinGraph.graphArray.length = numRels
  edges : ∀ (vertex : Nat) (v : Vertex), joinGraph.graphArray[vertex]? = some v →
    v.edges = (List.range count).filterMap (edgeOf joins vertex)

theorem initialiseGraph_constructed (joins : List Join) (numRels : Nat) :
    Constructed joins numRels 0 (initialiseGraph numRels) where
  length := by simp [initialiseGraph]
  edges := by
    intro vertex v get
    rw [initialiseGraph, List.getElem?_map] at get
    rcases Option.map_eq_some_iff.mp get with ⟨i, _, rfl⟩
    rfl

theorem Constructed.step {joins : List Join} {numRels count : Nat} {joinGraph : Graph}
    (constructed : Constructed joins numRels count joinGraph) {join : Join}
    (get : joins[count]? = some join) (inside : join.participant1.rel < numRels) :
    ∃ after, constructEdge joins joinGraph count = some after ∧
      Constructed joins numRels (count + 1) after := by
  rw [constructEdge, get]
  simp only [Option.bind_eq_bind, Option.bind_some]
  have grown (vertex : Nat) : (List.range (count + 1)).filterMap (edgeOf joins vertex) =
      (List.range count).filterMap (edgeOf joins vertex) ++ (edgeOf joins vertex count).toList := by
    rw [List.range_succ, List.filterMap_append]
    cases edge : edgeOf joins vertex count <;> simp [edge]
  by_cases same : SameRelation join
  · refine ⟨joinGraph, if_pos same, constructed.length, ?_⟩
    intro vertex v getVertex
    rw [grown, edgeOf_eq_none get (.inl same), constructed.edges vertex v getVertex]
    exact (List.append_nil _).symm
  · rw [← constructed.length] at inside
    rw [if_neg same, List.getElem?_eq_getElem inside]
    refine ⟨_, rfl, (List.length_set ..).trans constructed.length, ?_⟩
    intro vertex v getVertex
    rw [grown]
    by_cases isFirst : join.participant1.rel = vertex
    · subst isFirst
      rw [List.getElem?_set_self inside] at getVertex
      cases getVertex
      rw [edgeOf_eq get same, insertGraph,
        constructed.edges _ _ (List.getElem?_eq_getElem inside)]
      rfl
    · rw [List.getElem?_set_ne isFirst] at getVertex
      rw [edgeOf_eq_none get (.inr isFirst), constructed.edges vertex v getVertex]
      exact (List.append_nil _).symm

theorem constructGraph_eq {q : Query} (inside : ∀ join ∈ q.joins,
    join.participant1.rel < q.numOfRels) :
    ∃ joinGraph, constructGraph (initialiseGraph q.numOfRels) q = some joinGraph ∧
      Constructed q.joins q.numOfRels q.numOfJoins joinGraph := by
  apply foldlM_range_invariant (Constructed q.joins q.numOfRels)
    (initialiseGraph_constructed q.joins q.numOfRels)
  intro i below joinGraph constructed
  have get := List.getElem?_eq_getElem (l := q.joins) below
  exact constructed.step get (inside _ (List.mem_of_getElem? get))

section Lookup

variable {q : Query} {joinGraph : Graph}

theorem connected_spec
    (constructed : Constructed q.joins q.numOfRels q.numOfJoins joinGraph)
    {vertex1 vertex2 : Nat} (inside : vertex1 < q.numOfRels) (differs : vertex1 ≠ vertex2) :
    ∃ found, connected joinGraph vertex1 vertex2 = some found ∧
      (found = none → ∀ join ∈ q.joins,
        ¬ (join.participant1.rel = vertex1 ∧ join.participant2.rel = vertex2)) ∧
      ∀ columns : Connection, found = some columns → ∃ join : Join,
        q.joins[columns.joinId]? = some join ∧
        join.participant1.rel = vertex1 ∧ join.participant1.numCol = columns.col1 ∧
        join.participant2.rel = vertex2 ∧ join.participant2.numCol = columns.col2 := by
  rw [← constructed.length] at inside
  have get := List.getElem?_eq_getElem inside
  refine ⟨_, by rw [connected, get]; rfl, ?_, ?_⟩
  · rintro notFound join member ⟨rfl, rfl⟩
    rw [Option.map_eq_none_iff, List.find?_eq_none, constructed.edges _ _ get] at notFound
    rcases List.getElem?_of_mem member with ⟨i, getJoin⟩
    have differentRelations : ¬ SameRelation join := fun same => differs same.1
    apply notFound _ (List.mem_filterMap.mpr ⟨i, ?_, edgeOf_eq getJoin differentRelations⟩)
    · simp
    · exact List.mem_range.mpr (List.getElem?_eq_some_iff.mp getJoin).1
  · intro columns isFound
    rcases Option.map_eq_some_iff.mp isFound with ⟨edge, found, rfl⟩
    have node := List.find?_some found
    have member := List.mem_of_find?_eq_some found
    rw [constructed.edges _ _ get] at member
    rcases List.mem_filterMap.mp member with ⟨i, _, isEdge⟩
    rw [edgeOf] at isEdge
    cases getJoin : q.joins[i]? with
    | none =>
        rw [getJoin] at isEdge
        cases isEdge
    | some join =>
        rw [getJoin] at isEdge
        by_cases skipped : SameRelation join ∨ join.participant1.rel ≠ vertex1
        · simp [skipped] at isEdge
        · simp only [skipped, if_false, Option.some_inj] at isEdge
          subst isEdge
          push Not at skipped
          exact ⟨join, getJoin, skipped.2, rfl, of_decide_eq_true node, rfl⟩

/-- The predicate `columns.joinId` joins the column `col1` of `s` with the column
`col2` of `r`, in one of the two directions. -/
def Oriented (joins : List Join) (s r : Nat) (columns : Connection) : Prop :=
  ∃ join : Join, joins[columns.joinId]? = some join ∧
    (join.participant1.rel = s ∧ join.participant1.numCol = columns.col1 ∧
        join.participant2.rel = r ∧ join.participant2.numCol = columns.col2 ∨
      join.participant1.rel = r ∧ join.participant1.numCol = columns.col2 ∧
        join.participant2.rel = s ∧ join.participant2.numCol = columns.col1)

theorem Oriented.links {joins : List Join} {s r : Nat} {columns : Connection}
    (oriented : Oriented joins s r columns) : Links joins columns.joinId s r := by
  rcases oriented with ⟨join, get, ⟨rel1, _, rel2, _⟩ | ⟨rel1, _, rel2, _⟩⟩
  · exact ⟨join, get, .inl ⟨rel1, rel2⟩⟩
  · exact ⟨join, get, .inr ⟨rel1, rel2⟩⟩

def linkOf (joinGraph : Graph) (s r : Nat) : Option (Option Connection) := do
  match ← connected joinGraph s r with
  | some columns => some (some columns)
  | none => do
      let backward ← connected joinGraph r s
      some (backward.map fun found => ⟨found.col2, found.col1, found.joinId⟩)

theorem areConnected_cons (r : Nat) {s : Nat} (digit : s < 10) (order : List Nat) :
    areConnected joinGraph r (combOf (s :: order)) =
      (linkOf joinGraph s r).bind fun link =>
        match link with
        | some columns => some (some (s, columns))
        | none => areConnected joinGraph r (combOf order) := by
  rw [combOf_cons, decimal_eq digit, List.singleton_append, areConnected,
    charToInteger_digitChar digit, linkOf]
  rcases connected joinGraph s r with _ | _ | columns
  · rfl
  · rcases connected joinGraph r s with _ | _ | columns <;> rfl
  · rfl

theorem linkOf_spec (constructed : Constructed q.joins q.numOfRels q.numOfJoins joinGraph)
    {s r : Nat} (insideS : s < q.numOfRels) (insideR : r < q.numOfRels) (differs : s ≠ r) :
    ∃ link, linkOf joinGraph s r = some link ∧
      (link = none → ∀ joinId, ¬ Links q.joins joinId s r) ∧
      ∀ columns, link = some columns → Oriented q.joins s r columns := by
  rcases connected_spec constructed insideS differs with ⟨forward, isForward, noForward, yesForward⟩
  rw [linkOf, isForward, Option.bind_eq_bind, Option.bind_some]
  cases forward with
  | some columns =>
      refine ⟨_, rfl, by simp, ?_⟩
      intro _ same
      cases same
      rcases yesForward columns rfl with ⟨join, get, ends⟩
      exact ⟨join, get, .inl ends⟩
  | none =>
      rcases connected_spec constructed insideR differs.symm with
        ⟨backward, isBackward, noBackward, yesBackward⟩
      refine ⟨_, by rw [isBackward]; rfl, ?_, ?_⟩
      · intro notFound joinId links
        rcases links with ⟨join, get, ends | ends⟩
        · exact noForward rfl join (List.mem_of_getElem? get) ends
        · exact noBackward (Option.map_eq_none_iff.mp notFound) join
            (List.mem_of_getElem? get) ends
      · intro columns isFound
        rcases Option.map_eq_some_iff.mp isFound with ⟨found, same, rfl⟩
        rcases yesBackward found same with ⟨join, get, ends⟩
        exact ⟨join, get, .inr ends⟩

theorem areConnected_spec
    (constructed : Constructed q.joins q.numOfRels q.numOfJoins joinGraph)
    {r : Nat} (inside : r < q.numOfRels) {order : List Nat} (digits : ∀ s ∈ order, s < 10)
    (insideAll : ∀ s ∈ order, s < q.numOfRels) (absent : r ∉ order) :
    ∃ found, areConnected joinGraph r (combOf order) = some found ∧
      (found = none → ∀ s ∈ order, ∀ joinId, ¬ Links q.joins joinId s r) ∧
      ∀ s columns, found = some (s, columns) → s ∈ order ∧ Oriented q.joins s r columns := by
  induction order with
  | nil => exact ⟨none, rfl, by simp, by simp⟩
  | cons s order induction =>
      have differs : s ≠ r := fun same => absent (by simp [same])
      rcases linkOf_spec constructed (insideAll s (by simp)) inside differs with
        ⟨link, isLink, noLink, oriented⟩
      rw [areConnected_cons r (digits s (by simp)), isLink, Option.bind_some]
      cases link with
      | some columns =>
          refine ⟨_, rfl, by simp, ?_⟩
          intro _ _ same
          cases same
          exact ⟨by simp, oriented columns rfl⟩
      | none =>
          rcases induction (fun other member => digits other (by simp [member]))
              (fun other member => insideAll other (by simp [member]))
              (fun member => absent (by simp [member])) with ⟨found, isFound, noRest, yesRest⟩
          refine ⟨found, isFound, ?_, ?_⟩
          · intro notFound other member joinId
            rcases List.mem_cons.mp member with rfl | member
            · exact noLink rfl joinId
            · exact noRest notFound other member joinId
          · intro other columns isOther
            rcases yesRest other columns isOther with ⟨member, oriented⟩
            exact ⟨by simp [member], oriented⟩

end Lookup

/-- In the graph of a query `areConnected` tells whether a predicate links the
relation `r` with one of the relations of a string. It returns such a relation
and the columns of a predicate in the order of the two relations. -/
theorem areConnected_oriented (q : Query)
    (inside : ∀ join ∈ q.joins, join.participant1.rel < q.numOfRels) :
    ∃ joinGraph, constructGraph (initialiseGraph q.numOfRels) q = some joinGraph ∧
      ∀ (order : List Nat) (r : Nat), (∀ s ∈ order, s < 10) → (∀ s ∈ order, s < q.numOfRels) →
        r < q.numOfRels → r ∉ order →
        ∃ found, areConnected joinGraph r (combOf order) = some found ∧
          (found = none ↔ ∀ s ∈ order, ∀ joinId, ¬ Links q.joins joinId s r) ∧
          ∀ s columns, found = some (s, columns) → s ∈ order ∧ Oriented q.joins s r columns := by
  rcases constructGraph_eq inside with ⟨joinGraph, isGraph, constructed⟩
  refine ⟨joinGraph, isGraph, ?_⟩
  intro order r digits insideAll insideR absent
  rcases areConnected_spec constructed insideR digits insideAll absent with
    ⟨found, isFound, unlinked, linked⟩
  refine ⟨found, isFound, ⟨unlinked, ?_⟩, linked⟩
  intro noLink
  cases found with
  | none => rfl
  | some connection =>
      rcases linked connection.1 connection.2 rfl with ⟨member, oriented⟩
      exact absurd oriented.links (noLink connection.1 member connection.2.joinId)

def bothWaysQuery : Query where
  rels := [0, 0, 0]
  queryStats := []
  filters := []
  joins := [⟨⟨0, 0, 0, 0, [], 0⟩, ⟨0, 0, 0, 0, [], 0⟩⟩, ⟨⟨0, 2, 1, 2, [], 0⟩, ⟨0, 1, 0, 1, [], 0⟩⟩,
    ⟨⟨0, 0, 0, 0, [], 0⟩, ⟨0, 2, 1, 2, [], 0⟩⟩]
  priorities := []

theorem areConnected_oriented_bothWaysQuery : ∃ joinGraph s columns,
    constructGraph (initialiseGraph 3) bothWaysQuery = some joinGraph ∧
      areConnected joinGraph 1 (combOf [2, 0]) = some (some (s, columns)) ∧
      s ∈ [2, 0] ∧ Oriented bothWaysQuery.joins s 1 columns := by
  rcases areConnected_oriented bothWaysQuery (by decide) with ⟨joinGraph, isGraph, connects⟩
  rcases connects [2, 0] 1 (by decide) (by decide) (by decide) (by decide) with
    ⟨found, isFound, unlinked, linked⟩
  cases found with
  | none =>
      have link : Links bothWaysQuery.joins 1 0 1 := ⟨_, rfl, .inr ⟨rfl, rfl⟩⟩
      exact absurd link (unlinked.mp rfl 0 (by decide) 1)
  | some connection =>
      exact ⟨joinGraph, connection.1, connection.2, isGraph, isFound, linked _ _ rfl⟩

end JoinOperator.Planner
