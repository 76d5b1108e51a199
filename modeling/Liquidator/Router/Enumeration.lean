import Liquidator.Router.Completeness

/-!
# The routes are the simple walks

Soundness and completeness together pin the search down.  On a snapshot with distinct pool ids
whose pools have two distinct denoms, the routes `getRoutes` returns are exactly the routes along
the simple walks from the input denom to the output denom, and none is returned twice.

A well-formed route runs along the walk of the pools its hops were built from
(`exists_walk_of_chain`); the search never records a route twice, since the children of a node
start with different pools and the routes recorded at a node are shorter than those below it
(`buildRoutesForTrade_nodup`).
-/

namespace Liquidator

namespace AMMRouter

variable {pools : List Pool}

/-- A walk of the snapshot through distinct pools from `start` to `target`. -/
structure SimpleWalk (pools : List Pool) (start target : Denom) (walk : List Pool) : Prop where
  /-- Its pools are snapshot pools. -/
  sub : ∀ pool ∈ walk, pool ∈ pools
  /-- No pool is used twice. -/
  nodup : walk.Nodup
  /-- It leads from `start` to `target`. -/
  isWalk : IsWalk start target walk

theorem tokenOut_denom_of_ne {pool : Pool} {tokenInDenom tokenOutDenom : Denom}
    (holdsIn : pool.HasDenom tokenInDenom) (holdsOut : pool.HasDenom tokenOutDenom)
    (differ : tokenInDenom ≠ tokenOutDenom) :
    (tokenOut tokenInDenom pool).denom = tokenOutDenom := by
  rcases holdsOut with outBase | outQuote
  · have notBase : tokenInDenom ≠ pool.base.denom := outBase ▸ differ
    rw [tokenOut, if_neg notBase, outBase]
  · have onBase : tokenInDenom = pool.base.denom := holdsIn.elim Eq.symm fun inQuote =>
      absurd (inQuote.symm.trans outQuote) differ
    rw [tokenOut, if_pos onBase, outQuote]

/-- A hop built from a snapshot pool is the search's hop through that pool. -/
theorem HopFromPool.exists_eq_nextHop (distinct : ∀ pool ∈ pools, pool.DistinctDenoms)
    {hop : RouteHop} (built : HopFromPool pools hop) :
    ∃ pool ∈ pools, pool.HasDenom hop.tokenInDenom ∧
      (tokenOut hop.tokenInDenom pool).denom = hop.tokenOutDenom ∧
      hop.tokenInDenom ≠ hop.tokenOutDenom ∧ hop = nextHop hop.tokenInDenom pool := by
  obtain ⟨pool, member, id_eq, differ, holdsIn, holdsOut, x1_eq, y1_eq, fee_eq⟩ := built
  have moves := tokenOut_denom_of_ne holdsIn holdsOut differ
  refine ⟨pool, member, holdsIn, moves, differ, ?_⟩
  rw [← endingHop_eq_nextHop (distinct pool member) holdsIn moves]
  obtain ⟨poolId, tokenInDenom, tokenOutDenom, swapFee, x1, y1⟩ := hop
  simp only [endingHop] at *
  rw [id_eq, x1_eq, y1_eq, fee_eq]

/-- A route whose hops chain and were built from snapshot pools runs along the walk of those
pools, from its first hop's input denom to its last hop's output denom. -/
theorem exists_walk_of_chain (distinct : ∀ pool ∈ pools, pool.DistinctDenoms) (target : Denom)
    (rest : Route) :
    ∀ hop : RouteHop, (hop :: rest).Chain' (fun hop next => hop.tokenOutDenom = next.tokenInDenom) →
      (∀ other ∈ hop :: rest, HopFromPool pools other) →
      ((hop :: rest).getLast (List.cons_ne_nil _ _)).tokenOutDenom = target →
      ∃ walk, (∀ pool ∈ walk, pool ∈ pools) ∧ IsWalk hop.tokenInDenom target walk ∧
        hop :: rest = walkRoute hop.tokenInDenom walk := by
  induction rest with
  | nil =>
      intro hop _ built last
      obtain ⟨pool, member, holds, moves, differ, hop_eq⟩ :=
        (built hop (List.mem_singleton_self _)).exists_eq_nextHop distinct
      rw [List.getLast_singleton] at last
      exact ⟨[pool], by simpa using member, ⟨holds, moves.trans last, last ▸ differ⟩,
        by rw [walkRoute, walkRoute, ← hop_eq]⟩
  | cons next rest induction =>
      intro hop chain built last
      obtain ⟨joins, chain⟩ := List.chain'_cons.mp chain
      obtain ⟨pool, member, holds, moves, -, hop_eq⟩ :=
        (built hop (List.mem_cons_self _ _)).exists_eq_nextHop distinct
      obtain ⟨walk, sub, isWalk, route_eq⟩ := induction next chain
        (fun other inRest => built other (List.mem_cons_of_mem _ inRest))
        (by rwa [List.getLast_cons (List.cons_ne_nil _ _)] at last)
      rcases walk with _ | ⟨first, walk⟩
      · exact absurd route_eq (List.cons_ne_nil _ _)
      refine ⟨pool :: first :: walk, ?_, ⟨holds, by rwa [moves, joins]⟩, ?_⟩
      · exact fun other inWalk => (List.mem_cons.mp inWalk).elim (· ▸ member) (sub other)
      · rw [walkRoute, moves, joins, ← route_eq, ← hop_eq]

/-- Below a node the search records no route twice: the children start with different pools, and
the routes the node records itself end one hop past its route, before any route below a child. -/
theorem buildRoutesForTrade_nodup (ids_nodup : (pools.map Pool.id).Nodup)
    (targetTokenOutDenom tokenInDenom : Denom) (route : Route) :
    (buildRoutesForTrade tokenInDenom targetTokenOutDenom pools route []).Nodup := by
  induction tokenInDenom, route using search_induction pools with
  | step tokenInDenom route induction =>
  have candidates : (possibleStartingPairs tokenInDenom pools route).Nodup :=
    (List.Nodup.of_map Pool.id ids_nodup).filter _
  have sameId : ∀ p ∈ possibleStartingPairs tokenInDenom pools route,
      ∀ q ∈ possibleStartingPairs tokenInDenom pools route, p.id = q.id → p = q :=
    fun p pMem q qMem => List.inj_on_of_nodup_map ids_nodup (mem_possibleStartingPairs.mp pMem).1
      (mem_possibleStartingPairs.mp qMem).1
  rw [buildRoutesForTrade_spec]
  refine List.nodup_append.mpr ⟨?_, List.nodup_flatMap.mpr ⟨induction, ?_⟩, ?_⟩
  · unfold endingRoutes
    split_ifs
    · exact List.nodup_nil
    · refine (candidates.filter _).map_on fun p pMem q qMem same =>
        sameId p (mem_endingPairs.mp pMem).1 q (mem_endingPairs.mp qMem).1 ?_
      simpa using congrArg RouteHop.poolId (List.singleton_inj.mp (List.append_cancel_left same))
  · refine candidates.pairwise_of_forall_ne fun p pMem q qMem differ found inP inQ =>
      differ (sameId p pMem q qMem ?_)
    obtain ⟨hop, rest, rfl⟩ := buildRoutesForTrade_extends _ _ _ found inP
    obtain ⟨hop', rest', same⟩ := buildRoutesForTrade_extends _ _ _ _ inQ
    simp only [List.append_assoc, List.singleton_append, List.append_cancel_left_eq,
      List.cons.injEq] at same
    simpa using congrArg RouteHop.poolId same.1
  · intro found recorded deeper
    unfold endingRoutes at recorded
    split_ifs at recorded
    · simp at recorded
    · obtain ⟨p, -, rfl⟩ := List.mem_map.mp recorded
      obtain ⟨q, -, below⟩ := List.mem_flatMap.mp deeper
      obtain ⟨hop, rest, same⟩ := buildRoutesForTrade_extends _ _ _ _ below
      simpa using congrArg List.length same

/-- On a snapshot with distinct pool ids whose pools have two distinct denoms, `getRoutes` returns
the route along every simple walk from the input denom to the output denom, each once, and
nothing else. -/
theorem getRoutes_simpleWalks (ids_nodup : (pools.map Pool.id).Nodup)
    (distinct : ∀ pool ∈ pools, pool.DistinctDenoms) (tokenInDenom tokenOutDenom : Denom) :
    (getRoutes pools tokenInDenom tokenOutDenom).Nodup ∧
      ∀ route, route ∈ getRoutes pools tokenInDenom tokenOutDenom ↔
        ∃ walk, SimpleWalk pools tokenInDenom tokenOutDenom walk ∧
          route = walkRoute tokenInDenom walk := by
  refine ⟨buildRoutesForTrade_nodup ids_nodup tokenOutDenom tokenInDenom [],
    fun route => ⟨fun member => ?_, ?_⟩⟩
  · have wellFormed := buildRoutesForTrade_wellFormed distinct tokenInDenom tokenOutDenom
      tokenInDenom [] (.inl ⟨rfl, rfl⟩) route member
    obtain ⟨hop, rest, rfl⟩ := List.exists_cons_of_ne_nil wellFormed.ne_nil
    obtain ⟨walk, sub, isWalk, route_eq⟩ := exists_walk_of_chain distinct tokenOutDenom rest hop
      wellFormed.chain wellFormed.hops wellFormed.last_tokenOut
    have starts : hop.tokenInDenom = tokenInDenom := wellFormed.head_tokenIn
    rw [starts] at isWalk route_eq
    have nodup : walk.Nodup :=
      List.Nodup.of_map Pool.id (by simpa [route_eq] using wellFormed.poolIds_nodup)
    exact ⟨walk, ⟨sub, nodup, isWalk⟩, route_eq⟩
  · rintro ⟨walk, ⟨sub, nodup, isWalk⟩, rfl⟩
    have filtered := buildRoutesForTrade_filter_walk ids_nodup distinct tokenOutDenom tokenInDenom
      [] walk sub nodup (by simp [findUsedPools]) isWalk
    have recorded : [] ++ walkRoute tokenInDenom walk ∈ _ := filtered ▸ List.mem_singleton_self _
    simpa using List.mem_of_mem_filter recorded

theorem scenario_getRoutes_simpleWalks :
    (scenarioPools.map Pool.id).Nodup ∧ (∀ pool ∈ scenarioPools, pool.DistinctDenoms) ∧
      (getRoutes scenarioPools "assetA" "assetC").Nodup ∧
      ∀ route, route ∈ getRoutes scenarioPools "assetA" "assetC" ↔
        ∃ walk, SimpleWalk scenarioPools "assetA" "assetC" walk ∧
          route = walkRoute "assetA" walk :=
  have ids_nodup : (scenarioPools.map Pool.id).Nodup := by decide
  have distinct : ∀ pool ∈ scenarioPools, pool.DistinctDenoms := by decide
  ⟨ids_nodup, distinct, getRoutes_simpleWalks ids_nodup distinct "assetA" "assetC"⟩

end AMMRouter

end Liquidator
