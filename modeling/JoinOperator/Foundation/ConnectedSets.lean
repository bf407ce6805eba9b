import Mathlib.Combinatorics.SimpleGraph.Acyclic
import Mathlib.Combinatorics.SimpleGraph.Connectivity.Subgraph

/-! # Connected sets of vertices

A finite connected set grows by single vertices, each adjacent to one before
it, and every finite connected set comes about this way.
-/

namespace JoinOperator.Foundation

variable {Vertex : Type*} {G : SimpleGraph Vertex}

def ConnectedOn (G : SimpleGraph Vertex) (S : Finset Vertex) : Prop :=
  (G.induce (S : Set Vertex)).Connected

namespace ConnectedOn

theorem singleton (v : Vertex) : ConnectedOn G {v} := by
  have : Subsingleton ((({v} : Finset Vertex) : Set Vertex) : Type _) := by
    rw [Finset.coe_singleton]
    infer_instance
  have : Nonempty ((({v} : Finset Vertex) : Set Vertex) : Type _) :=
    ⟨⟨v, Finset.mem_coe.mpr (Finset.mem_singleton_self v)⟩⟩
  exact ⟨SimpleGraph.Preconnected.of_subsingleton⟩

variable [DecidableEq Vertex]

theorem insert {S : Finset Vertex} (connected : ConnectedOn G S) {v w : Vertex}
    (member : w ∈ S) (adjacent : G.Adj w v) : ConnectedOn G (Insert.insert v S) := by
  have alone := singleton (G := G) v
  rw [ConnectedOn, Finset.coe_singleton] at alone
  have union := SimpleGraph.connected_induce_union connected.preconnected alone.preconnected
    (Finset.mem_coe.mpr member) (Set.mem_singleton v) adjacent
  rw [ConnectedOn, Finset.coe_insert, Set.insert_eq, Set.union_comm]
  exact union

theorem exists_erase {S : Finset Vertex} (connected : ConnectedOn G S) (many : 1 < S.card) :
    ∃ v ∈ S, ConnectedOn G (S.erase v) ∧ ∃ w ∈ S.erase v, G.Adj w v := by
  have : Nontrivial (S : Set Vertex) :=
    Set.nontrivial_coe_sort.mpr (Finset.one_lt_card_iff_nontrivial.mp many)
  rcases connected.exists_connected_induce_compl_singleton_of_finite_nontrivial with
    ⟨⟨v, member⟩, rest⟩
  refine ⟨v, Finset.mem_coe.mp member, ?_, ?_⟩
  · -- what is left of the set, as a set of vertices of its own
    let forget : (G.induce (S : Set Vertex)).induce {⟨v, member⟩}ᶜ →g
        G.induce ((S.erase v : Finset Vertex) : Set Vertex) :=
      { toFun := fun u => ⟨u.1.1, Finset.mem_coe.mpr (Finset.mem_erase.mpr
          ⟨fun same => u.2 (Subtype.ext same), Finset.mem_coe.mp u.1.2⟩)⟩
        map_rel' := fun adjacent => adjacent }
    refine SimpleGraph.Connected.map forget ?_ rest
    rintro ⟨u, stays⟩
    have inside := Finset.mem_erase.mp (Finset.mem_coe.mp stays)
    exact ⟨⟨⟨u, Finset.mem_coe.mpr inside.2⟩,
      fun same => inside.1 (congrArg Subtype.val same)⟩, rfl⟩
  · rcases connected.preconnected.exists_adj_of_nontrivial ⟨v, member⟩ with ⟨⟨w, inside⟩, adjacent⟩
    have differs : w ≠ v := fun same => adjacent.ne (Subtype.ext same.symm)
    exact ⟨w, Finset.mem_erase.mpr ⟨differs, Finset.mem_coe.mp inside⟩, adjacent.symm⟩

omit [DecidableEq Vertex] in
theorem exists_adj_leaving {S : Finset Vertex} (connected : ConnectedOn G S) {part : Set Vertex}
    {v w : Vertex} (memberV : v ∈ S) (memberW : w ∈ S) (inside : v ∈ part) (outside : w ∉ part) :
    ∃ u ∈ part, ∃ x ∈ S, x ∉ part ∧ G.Adj u x := by
  rcases connected.preconnected ⟨v, Finset.mem_coe.mpr memberV⟩ ⟨w, Finset.mem_coe.mpr memberW⟩ with
    ⟨walk⟩
  rcases walk.exists_boundary_dart (Set.preimage Subtype.val part) inside outside with
    ⟨dart, _, starts, leaves⟩
  exact ⟨dart.fst, starts, dart.snd, Finset.mem_coe.mp dart.snd.2, leaves, dart.adj⟩

end ConnectedOn

end JoinOperator.Foundation
