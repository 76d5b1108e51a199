import Liquidator.Router.Soundness

/-!
# Completeness of the route search

On a snapshot with distinct pool ids, every walk through distinct pools from the input denom to
the output denom whose last pool is entered from a denom other than the output is returned by
`getRoutes` exactly once: among the returned routes, exactly one has the walk's pool ids, and it
is the route the search builds along the walk.  A longer walk through a pool that already
reaches the output denom is therefore returned alongside the shorter one.

The proof follows the walk down the search tree.  At the node of the walk's last pool the route is
recorded once, among the ending pairs; below any other child the routes have another pool id at
that position or are longer (`buildRoutesForTrade_extends`).
-/

namespace Liquidator

namespace AMMRouter

variable {pools : List Pool}

/-- A walk through `walk` from `start` to `target`: each pool holds the current denom and moves to
its other denom, and the last pool is entered from a denom other than `target`. -/
def IsWalk (start target : Denom) : List Pool → Prop
  | [] => False
  | [pool] => pool.HasDenom start ∧ (tokenOut start pool).denom = target ∧ start ≠ target
  | pool :: next :: rest =>
      pool.HasDenom start ∧ IsWalk (tokenOut start pool).denom target (next :: rest)

instance decidableIsWalk : ∀ start target walk, Decidable (IsWalk start target walk)
  | _, _, [] => isFalse id
  | _, _, [_] => inferInstanceAs (Decidable (_ ∧ _ ∧ _))
  | start, _, pool :: next :: rest =>
      @instDecidableAnd _ _ _ (decidableIsWalk (tokenOut start pool).denom _ (next :: rest))

/-- The route the search builds along a walk. -/
def walkRoute : Denom → List Pool → Route
  | _, [] => []
  | denom, pool :: rest => nextHop denom pool :: walkRoute (tokenOut denom pool).denom rest

@[simp]
theorem findUsedPools_walkRoute (denom : Denom) (walk : List Pool) :
    findUsedPools (walkRoute denom walk) = walk.map Pool.id := by
  induction walk generalizing denom with
  | nil => rfl
  | cons pool rest induction =>
      simp only [walkRoute, findUsedPools, List.map_cons] at induction ⊢
      exact congrArg _ (induction _)

/-- Every route recorded below a node extends the node's route by at least one hop. -/
theorem buildRoutesForTrade_extends (targetTokenOutDenom tokenInDenom : Denom) (route : Route) :
    ∀ found ∈ buildRoutesForTrade tokenInDenom targetTokenOutDenom pools route [],
      ∃ hop rest, found = route ++ hop :: rest := by
  induction tokenInDenom, route using search_induction pools with
  | step tokenInDenom route induction =>
      intro found member
      rw [buildRoutesForTrade_spec, List.mem_append, List.mem_flatMap] at member
      rcases member with recorded | ⟨pool, candidate, deeper⟩
      · unfold endingRoutes at recorded
        split_ifs at recorded
        · simp at recorded
        · obtain ⟨pool, -, rfl⟩ := List.mem_map.mp recorded
          exact ⟨_, [], rfl⟩
      · obtain ⟨hop, rest, rfl⟩ := induction pool candidate found deeper
        exact ⟨nextHop tokenInDenom pool, hop :: rest, by simp⟩

theorem endingHop_eq_nextHop {tokenInDenom targetTokenOutDenom : Denom} {pool : Pool}
    (distinct : pool.DistinctDenoms) (holds : pool.HasDenom tokenInDenom)
    (moves : (tokenOut tokenInDenom pool).denom = targetTokenOutDenom) :
    endingHop tokenInDenom targetTokenOutDenom pool = nextHop tokenInDenom pool := by
  have differ : pool.base.denom ≠ pool.quote.denom := distinct
  subst moves
  by_cases onBase : tokenInDenom = pool.base.denom
  · subst onBase
    simp [endingHop, nextHop, tokenIn, tokenOut, Pool.reserveOf_quote distinct]
  · have onQuote : pool.quote.denom = tokenInDenom := holds.resolve_left (Ne.symm onBase)
    subst onQuote
    simp [endingHop, nextHop, tokenIn, tokenOut, Pool.reserveOf_quote distinct, differ.symm]

private theorem filter_id_eq_singleton {candidates : List Pool}
    (ids_nodup : (candidates.map Pool.id).Nodup) {pool : Pool} (member : pool ∈ candidates) :
    candidates.filter (fun other => other.id = pool.id) = [pool] := by
  induction candidates with
  | nil => simp at member
  | cons head tail induction =>
      rw [List.map_cons, List.nodup_cons] at ids_nodup
      rcases List.mem_cons.mp member with rfl | inTail
      · have : tail.filter (fun other => other.id = pool.id) = [] :=
          List.filter_eq_nil_iff.mpr fun other inTail same =>
            ids_nodup.1 (of_decide_eq_true same ▸ List.mem_map_of_mem Pool.id inTail)
        simp [this]
      · have differ : head.id ≠ pool.id := fun same =>
          ids_nodup.1 (same ▸ List.mem_map_of_mem Pool.id inTail)
        simp [differ, induction ids_nodup.2 inTail]

private theorem flatMap_eq_of_unique {β : Type} {candidates : List Pool} (nodup : candidates.Nodup)
    {pool : Pool} (member : pool ∈ candidates) (f : Pool → List β)
    (others : ∀ other ∈ candidates, other ≠ pool → f other = []) :
    candidates.flatMap f = f pool := by
  induction candidates with
  | nil => simp at member
  | cons head tail induction =>
      rw [List.nodup_cons] at nodup
      rw [List.flatMap_cons]
      rcases List.mem_cons.mp member with rfl | inTail
      · have rest : tail.flatMap f = [] := List.flatMap_eq_nil_iff.mpr fun other inTail =>
          others other (List.mem_cons_of_mem _ inTail) fun same => nodup.1 (same ▸ inTail)
        rw [rest, List.append_nil]
      · have differ : head ≠ pool := fun same => nodup.1 (same ▸ inTail)
        rw [others head (List.mem_cons_self _ _) differ, List.nil_append,
          induction nodup.2 inTail fun other inTail => others other (List.mem_cons_of_mem _ inTail)]

/-- Below the child through `pool`, no route has the pool ids `ids` unless they continue with
`pool`'s id and are longer than one more hop. -/
private theorem child_filter_nil {targetTokenOutDenom tokenInDenom : Denom} {route : Route}
    {pool : Pool} {ids : List PoolId}
    (excluded : ∀ hop rest,
      findUsedPools (route ++ nextHop tokenInDenom pool :: hop :: rest) ≠ ids) :
    (buildRoutesForTrade (tokenOut tokenInDenom pool).denom targetTokenOutDenom pools
        (route ++ [nextHop tokenInDenom pool]) []).filter (fun found => findUsedPools found = ids) =
      [] := by
  refine List.filter_eq_nil_iff.mpr fun found deeper same => ?_
  obtain ⟨hop, rest, rfl⟩ := buildRoutesForTrade_extends _ _ _ found deeper
  exact excluded hop rest (by simpa using same)

/-- The routes recorded at a node are one hop longer than its route, so none has pool ids of
another length. -/
private theorem endingRoutes_filter_nil {targetTokenOutDenom tokenInDenom : Denom} {route : Route}
    {ids : List PoolId} (length_ne : ids.length ≠ route.length + 1) :
    (endingRoutes tokenInDenom targetTokenOutDenom pools route).filter
        (fun found => findUsedPools found = ids) = [] := by
  refine List.filter_eq_nil_iff.mpr fun found recorded same => length_ne ?_
  unfold endingRoutes at recorded
  split_ifs at recorded
  · simp at recorded
  · obtain ⟨_, -, rfl⟩ := List.mem_map.mp recorded
    simpa [findUsedPools] using (congrArg List.length (of_decide_eq_true same)).symm

section Walk

variable (ids_nodup : (pools.map Pool.id).Nodup) (distinct : ∀ pool ∈ pools, pool.DistinctDenoms)
include ids_nodup distinct

/-- The routes recorded at the node of a walk's last pool: exactly that pool's. -/
private theorem endingRoutes_filter {targetTokenOutDenom tokenInDenom : Denom} {route : Route}
    {pool : Pool} (candidate : pool ∈ possibleStartingPairs tokenInDenom pools route)
    (moves : (tokenOut tokenInDenom pool).denom = targetTokenOutDenom)
    (differ : tokenInDenom ≠ targetTokenOutDenom) :
    (endingRoutes tokenInDenom targetTokenOutDenom pools route).filter
        (fun found => findUsedPools found = findUsedPools route ++ [pool.id]) =
      [route ++ [nextHop tokenInDenom pool]] := by
  obtain ⟨member, holds, -⟩ := mem_possibleStartingPairs.mp candidate
  have holdsOut : pool.HasDenom targetTokenOutDenom := by
    rw [← moves]; unfold tokenOut; split_ifs <;> simp [Pool.HasDenom]
  have ending : pool ∈ endingPairs targetTokenOutDenom
      (possibleStartingPairs tokenInDenom pools route) := mem_endingPairs.mpr ⟨candidate, holdsOut⟩
  have sublist : (endingPairs targetTokenOutDenom
      (possibleStartingPairs tokenInDenom pools route)).Sublist pools :=
    (List.filter_sublist _).trans (List.filter_sublist _)
  rw [endingRoutes, if_neg differ, List.filter_map]
  have byId : (fun other : Pool => decide (findUsedPools
      (route ++ [endingHop tokenInDenom targetTokenOutDenom other]) =
        findUsedPools route ++ [pool.id])) = fun other => decide (other.id = pool.id) := by
    funext other; simp
  rw [Function.comp_def, byId,
    filter_id_eq_singleton ((sublist.map Pool.id).nodup ids_nodup) ending,
    List.map_singleton, endingHop_eq_nextHop (distinct pool member) holds moves]

/-- Following a walk from a node: among the routes recorded below it, exactly one has the
route's pool ids followed by the walk's, the route extended along the walk. -/
theorem buildRoutesForTrade_filter_walk (targetTokenOutDenom tokenInDenom : Denom)
    (route : Route) (walk : List Pool) (walk_sub : ∀ pool ∈ walk, pool ∈ pools)
    (walk_nodup : walk.Nodup) (fresh : ∀ pool ∈ walk, pool.id ∉ findUsedPools route)
    (isWalk : IsWalk tokenInDenom targetTokenOutDenom walk) :
    (buildRoutesForTrade tokenInDenom targetTokenOutDenom pools route []).filter
        (fun found => findUsedPools found = findUsedPools route ++ walk.map Pool.id) =
      [route ++ walkRoute tokenInDenom walk] := by
  induction tokenInDenom, route using search_induction pools generalizing walk with
  | step tokenInDenom route induction =>
  rw [buildRoutesForTrade_spec, List.filter_append, List.filter_flatMap]
  match walk, isWalk with
  | [pool], ⟨holds, moves, differ⟩ =>
      have candidate : pool ∈ possibleStartingPairs tokenInDenom pools route :=
        mem_possibleStartingPairs.mpr ⟨walk_sub pool (by simp), holds, fresh pool (by simp)⟩
      have deeper : ∀ other ∈ possibleStartingPairs tokenInDenom pools route,
          (buildRoutesForTrade (tokenOut tokenInDenom other).denom targetTokenOutDenom pools
            (route ++ [nextHop tokenInDenom other]) []).filter
            (fun found => findUsedPools found = findUsedPools route ++ [pool.id]) = [] :=
        fun other _ => child_filter_nil fun hop rest same => by
          simpa using congrArg List.length same
      rw [List.map_singleton, endingRoutes_filter ids_nodup distinct candidate moves differ,
        List.flatMap_eq_nil_iff.mpr deeper]
      rfl
  | pool :: next :: rest, ⟨holds, isWalk⟩ =>
      have member := walk_sub pool (by simp)
      have candidate : pool ∈ possibleStartingPairs tokenInDenom pools route :=
        mem_possibleStartingPairs.mpr ⟨member, holds, fresh pool (by simp)⟩
      have nodup : (possibleStartingPairs tokenInDenom pools route).Nodup :=
        (List.Nodup.of_map Pool.id ids_nodup).filter _
      have continued := induction pool candidate (next :: rest)
        (fun other inRest => walk_sub other (List.mem_cons_of_mem _ inRest))
        (List.nodup_cons.mp walk_nodup).2
        (fun other inRest => by
          have differ : other.id ≠ pool.id := fun same =>
            (List.nodup_cons.mp walk_nodup).1 (List.inj_on_of_nodup_map ids_nodup
              (walk_sub other (List.mem_cons_of_mem _ inRest)) member same ▸ inRest)
          simpa [differ] using fresh other (List.mem_cons_of_mem _ inRest))
        isWalk
      rw [endingRoutes_filter_nil (by simp [findUsedPools]), List.nil_append,
        flatMap_eq_of_unique nodup candidate _ fun other candidate' differ =>
          child_filter_nil fun hop rest same => differ (List.inj_on_of_nodup_map ids_nodup
            (mem_possibleStartingPairs.mp candidate').1 member (by simp at same; exact same.1))]
      simpa [walkRoute] using continued

end Walk

/-- Completeness without duplicates: among the routes `getRoutes` returns, exactly one has the
pool ids of a given walk, and it is the route along that walk. -/
theorem getRoutes_filter_walk (ids_nodup : (pools.map Pool.id).Nodup)
    (distinct : ∀ pool ∈ pools, pool.DistinctDenoms) {tokenInDenom tokenOutDenom : Denom}
    {walk : List Pool} (walk_sub : ∀ pool ∈ walk, pool ∈ pools) (walk_nodup : walk.Nodup)
    (isWalk : IsWalk tokenInDenom tokenOutDenom walk) :
    (getRoutes pools tokenInDenom tokenOutDenom).filter
        (fun route => findUsedPools route = walk.map Pool.id) =
      [walkRoute tokenInDenom walk] := by
  simpa using buildRoutesForTrade_filter_walk ids_nodup distinct tokenOutDenom tokenInDenom []
    walk walk_sub walk_nodup (by simp [findUsedPools]) isWalk

theorem scenario_getRoutes_filter_walk :
    (scenarioPools.map Pool.id).Nodup ∧ (∀ pool ∈ scenarioPools, pool.DistinctDenoms) ∧
      (∀ pool ∈ scenarioPools, pool ∈ scenarioPools) ∧ scenarioPools.Nodup ∧
      IsWalk "assetA" "assetC" scenarioPools ∧
      (getRoutes scenarioPools "assetA" "assetC").filter
          (fun route => findUsedPools route = scenarioPools.map Pool.id) =
        [walkRoute "assetA" scenarioPools] :=
  have ids_nodup : (scenarioPools.map Pool.id).Nodup := by decide
  have distinct : ∀ pool ∈ scenarioPools, pool.DistinctDenoms := by decide
  have walk_nodup : scenarioPools.Nodup := by decide
  have isWalk : IsWalk "assetA" "assetC" scenarioPools := by decide
  ⟨ids_nodup, distinct, fun _ => id, walk_nodup, isWalk,
    getRoutes_filter_walk ids_nodup distinct (fun _ => id) walk_nodup isWalk⟩

end AMMRouter

end Liquidator
