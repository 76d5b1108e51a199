import Liquidator.Types
import Mathlib.Data.List.Basic

/-!
# The router's route search

`AMMRouter.buildRoutesForTrade` is a depth-first search over the pool snapshot.  At each node it
collects the pools that hold the current denom and are not yet on the route; it records a
completed route for every such pool that also holds the target, and then recurses through every
such pool towards its other denom.  The array `routes` is shared by all calls and only pushed to,
so the model threads it through the recursion.

The search terminates because each recursive call puts one more pool id on the route, which
removes at least one snapshot pool from `unusedPoolCount`.  Everything later is proved from the
equation `buildRoutesForTrade_spec` and the induction principle `search_induction`.
-/

namespace Liquidator

namespace AMMRouter

/-- `findUsedPools`: the pool ids already on the route. -/
def findUsedPools (route : Route) : List PoolId := route.map (·.poolId)

/-- `possibleStartingPairs`: pools holding `tokenInDenom` whose id is not on the route. -/
def possibleStartingPairs (tokenInDenom : Denom) (pools : List Pool) (route : Route) :
    List Pool :=
  pools.filter fun pool =>
    (pool.base.denom == tokenInDenom || pool.quote.denom == tokenInDenom) &&
      ((findUsedPools route).find? fun poolId => pool.id == poolId).isNone

/-- `endingPairs`: the candidate pools that also hold the target denom. -/
def endingPairs (targetTokenOutDenom : Denom) (possibleStartingPairs : List Pool) : List Pool :=
  possibleStartingPairs.filter fun pool =>
    pool.base.denom == targetTokenOutDenom || pool.quote.denom == targetTokenOutDenom

/-- The hop recorded for an ending pair; its reserves are looked up by denom. -/
def endingHop (tokenInDenom targetTokenOutDenom : Denom) (pool : Pool) : RouteHop where
  poolId := pool.id
  tokenInDenom := tokenInDenom
  tokenOutDenom := targetTokenOutDenom
  swapFee := pool.swapFee
  x1 := pool.reserveOf tokenInDenom
  y1 := pool.reserveOf targetTokenOutDenom

/-- `tokenOut`: the quote reserve when the held denom is the base denom, else the base reserve. -/
def tokenOut (tokenInDenom : Denom) (pool : Pool) : PoolAsset :=
  if tokenInDenom = pool.base.denom then pool.quote else pool.base

/-- `tokenIn`: the reserve not taken as `tokenOut`.  The source tests `tokenOut === base`, a
reference comparison, which holds exactly when `tokenOut` was read from the base slot. -/
def tokenIn (tokenInDenom : Denom) (pool : Pool) : PoolAsset :=
  if tokenInDenom = pool.base.denom then pool.base else pool.quote

/-- `nextHop`: the hop through a candidate pool, reserves read from the base and quote slots. -/
def nextHop (tokenInDenom : Denom) (pool : Pool) : RouteHop where
  poolId := pool.id
  tokenInDenom := tokenInDenom
  tokenOutDenom := (tokenOut tokenInDenom pool).denom
  swapFee := pool.swapFee
  x1 := (tokenIn tokenInDenom pool).amount
  y1 := (tokenOut tokenInDenom pool).amount

/-- Snapshot pools whose id is not on the route: the measure of the search. -/
def unusedPoolCount (pools : List Pool) (route : Route) : ℕ :=
  (pools.filter fun pool => pool.id ∉ findUsedPools route).length

@[simp]
theorem findUsedPools_nil : findUsedPools [] = [] := rfl

@[simp]
theorem findUsedPools_cons (hop : RouteHop) (route : Route) :
    findUsedPools (hop :: route) = hop.poolId :: findUsedPools route := rfl

@[simp]
theorem findUsedPools_append (route rest : Route) :
    findUsedPools (route ++ rest) = findUsedPools route ++ findUsedPools rest :=
  List.map_append _ _ _

@[simp]
theorem mem_possibleStartingPairs {tokenInDenom : Denom} {pools : List Pool} {route : Route}
    {pool : Pool} :
    pool ∈ possibleStartingPairs tokenInDenom pools route ↔
      pool ∈ pools ∧ pool.HasDenom tokenInDenom ∧ pool.id ∉ findUsedPools route := by
  simp [possibleStartingPairs, Pool.HasDenom, findUsedPools, @eq_comm _ pool.id]

@[simp]
theorem mem_endingPairs {targetTokenOutDenom : Denom} {candidates : List Pool} {pool : Pool} :
    pool ∈ endingPairs targetTokenOutDenom candidates ↔
      pool ∈ candidates ∧ pool.HasDenom targetTokenOutDenom := by
  simp [endingPairs, Pool.HasDenom]

@[simp]
theorem nextHop_poolId (tokenInDenom : Denom) (pool : Pool) :
    (nextHop tokenInDenom pool).poolId = pool.id := rfl

@[simp]
theorem endingHop_poolId (tokenInDenom targetTokenOutDenom : Denom) (pool : Pool) :
    (endingHop tokenInDenom targetTokenOutDenom pool).poolId = pool.id := rfl

theorem unusedPoolCount_lt {tokenInDenom : Denom} {pools : List Pool} {route : Route}
    {pool : Pool} (candidate : pool ∈ possibleStartingPairs tokenInDenom pools route) :
    unusedPoolCount pools (route ++ [nextHop tokenInDenom pool]) <
      unusedPoolCount pools route := by
  obtain ⟨member, -, unused⟩ := mem_possibleStartingPairs.mp candidate
  have extended :
      (pools.filter fun p => p.id ∉ findUsedPools (route ++ [nextHop tokenInDenom pool])) =
      (pools.filter fun p => p.id ∉ findUsedPools route).filter fun p => p.id ≠ pool.id := by
    simp [List.filter_filter, and_comm]
  rw [unusedPoolCount, unusedPoolCount, extended, List.length_filter_lt_length_iff_exists]
  exact ⟨pool, List.mem_filter.mpr ⟨member, by simpa using unused⟩, by simp⟩

/-- `AMMRouter.buildRoutesForTrade`. -/
def buildRoutesForTrade (tokenInDenom targetTokenOutDenom : Denom) (pools : List Pool)
    (route : Route) (routes : List Route) : List Route :=
  let possible := possibleStartingPairs tokenInDenom pools route
  if possible.length = 0 then routes
  else
    let ending := endingPairs targetTokenOutDenom possible
    let routes :=
      if ending.length > 0 ∧ tokenInDenom ≠ targetTokenOutDenom then
        routes ++ ending.map fun pool => route ++ [endingHop tokenInDenom targetTokenOutDenom pool]
      else routes
    possible.attach.foldl (fun routes pool =>
      buildRoutesForTrade (tokenOut tokenInDenom pool.1).denom targetTokenOutDenom pools
        (route ++ [nextHop tokenInDenom pool.1]) routes) routes
termination_by unusedPoolCount pools route
decreasing_by exact unusedPoolCount_lt pool.2

/-- `AMMRouter.getRoutes`: the search from the empty route with no routes recorded. -/
def getRoutes (pools : List Pool) (tokenInDenom tokenOutDenom : Denom) : List Route :=
  buildRoutesForTrade tokenInDenom tokenOutDenom pools [] []

/-- The routes one node of the search records itself, before recursing. -/
def endingRoutes (tokenInDenom targetTokenOutDenom : Denom) (pools : List Pool) (route : Route) :
    List Route :=
  if tokenInDenom = targetTokenOutDenom then []
  else
    (endingPairs targetTokenOutDenom (possibleStartingPairs tokenInDenom pools route)).map
      fun pool => route ++ [endingHop tokenInDenom targetTokenOutDenom pool]

/-- Induction along the search: a property of a node that follows from the same property at
every child node holds everywhere. -/
theorem search_induction (pools : List Pool) (motive : Denom → Route → Prop)
    (step : ∀ tokenInDenom route,
      (∀ pool ∈ possibleStartingPairs tokenInDenom pools route,
        motive (tokenOut tokenInDenom pool).denom (route ++ [nextHop tokenInDenom pool])) →
      motive tokenInDenom route)
    (tokenInDenom : Denom) (route : Route) : motive tokenInDenom route := by
  obtain ⟨count, measure⟩ : ∃ count, unusedPoolCount pools route = count := ⟨_, rfl⟩
  induction count using Nat.strong_induction_on generalizing tokenInDenom route with
  | _ count induction =>
      subst measure
      exact step tokenInDenom route fun pool candidate =>
        induction _ (unusedPoolCount_lt candidate) _ _ rfl

private theorem foldl_append_flatMap {β : Type} (pools : List Pool) (g : List β → Pool → List β)
    (h : Pool → List β) (appends : ∀ pool ∈ pools, ∀ acc, g acc pool = acc ++ h pool)
    (acc : List β) : pools.foldl g acc = acc ++ pools.flatMap h := by
  induction pools generalizing acc with
  | nil => simp
  | cons pool pools induction =>
      simp only [List.foldl_cons, List.flatMap_cons, appends pool (List.mem_cons_self _ _),
        induction fun q member => appends q (List.mem_cons_of_mem _ member), List.append_assoc]

private theorem buildRoutesForTrade_unfold (tokenInDenom targetTokenOutDenom : Denom)
    (pools : List Pool) (route : Route) (routes : List Route) :
    buildRoutesForTrade tokenInDenom targetTokenOutDenom pools route routes =
      (possibleStartingPairs tokenInDenom pools route).foldl (fun routes pool =>
        buildRoutesForTrade (tokenOut tokenInDenom pool).denom targetTokenOutDenom pools
          (route ++ [nextHop tokenInDenom pool]) routes)
        (routes ++ endingRoutes tokenInDenom targetTokenOutDenom pools route) := by
  rw [buildRoutesForTrade]
  simp only [List.length_eq_zero]
  split_ifs with empty ending
  · simp [empty, endingRoutes, endingPairs]
  · rw [List.foldl_attach _ fun routes pool =>
      buildRoutesForTrade (tokenOut tokenInDenom pool).denom targetTokenOutDenom pools
        (route ++ [nextHop tokenInDenom pool]) routes]
    simp [endingRoutes, ending.2]
  · rw [List.foldl_attach _ fun routes pool =>
      buildRoutesForTrade (tokenOut tokenInDenom pool).denom targetTokenOutDenom pools
        (route ++ [nextHop tokenInDenom pool]) routes]
    by_cases same : tokenInDenom = targetTokenOutDenom
    · simp [endingRoutes, same]
    · have : endingPairs targetTokenOutDenom
          (possibleStartingPairs tokenInDenom pools route) = [] := by
        simpa [List.length_pos, same] using ending
      simp [endingRoutes, same, this]

/-- The shared `routes` array only grows: a call appends to whatever it was given. -/
theorem buildRoutesForTrade_append (tokenInDenom targetTokenOutDenom : Denom) (pools : List Pool)
    (route : Route) (routes : List Route) :
    buildRoutesForTrade tokenInDenom targetTokenOutDenom pools route routes =
      routes ++ buildRoutesForTrade tokenInDenom targetTokenOutDenom pools route [] := by
  induction tokenInDenom, route using search_induction pools generalizing routes with
  | step tokenInDenom route induction =>
      rw [buildRoutesForTrade_unfold, buildRoutesForTrade_unfold,
        foldl_append_flatMap _ _ _ fun pool candidate acc => induction pool candidate acc,
        foldl_append_flatMap _ _ _ fun pool candidate acc => induction pool candidate acc]
      simp

/-- One node of the search: the routes it records, then those of each child in pool order. -/
theorem buildRoutesForTrade_spec (tokenInDenom targetTokenOutDenom : Denom) (pools : List Pool)
    (route : Route) :
    buildRoutesForTrade tokenInDenom targetTokenOutDenom pools route [] =
      endingRoutes tokenInDenom targetTokenOutDenom pools route ++
        (possibleStartingPairs tokenInDenom pools route).flatMap fun pool =>
          buildRoutesForTrade (tokenOut tokenInDenom pool).denom targetTokenOutDenom pools
            (route ++ [nextHop tokenInDenom pool]) [] := by
  rw [buildRoutesForTrade_unfold, foldl_append_flatMap _ _ _ fun pool _ acc =>
    buildRoutesForTrade_append (tokenOut tokenInDenom pool).denom targetTokenOutDenom pools
      (route ++ [nextHop tokenInDenom pool]) acc]
  simp

/-- The child searches of one node in pool order, one call per candidate pool. -/
def exploreChildren (tokenInDenom targetTokenOutDenom : Denom) (pools : List Pool)
    (route : Route) : List Pool → List Route
  | [] => []
  | pool :: rest =>
      buildRoutesForTrade (tokenOut tokenInDenom pool).denom targetTokenOutDenom pools
          (route ++ [nextHop tokenInDenom pool]) [] ++
        exploreChildren tokenInDenom targetTokenOutDenom pools route rest

/-- `buildRoutesForTrade_spec` with the children as a list recursion: `simp` can evaluate the
search on a concrete snapshot with it, one node at a time. -/
theorem buildRoutesForTrade_eval (tokenInDenom targetTokenOutDenom : Denom) (pools : List Pool)
    (route : Route) :
    buildRoutesForTrade tokenInDenom targetTokenOutDenom pools route [] =
      endingRoutes tokenInDenom targetTokenOutDenom pools route ++
        exploreChildren tokenInDenom targetTokenOutDenom pools route
          (possibleStartingPairs tokenInDenom pools route) := by
  rw [buildRoutesForTrade_spec]
  congr 1
  induction possibleStartingPairs tokenInDenom pools route with
  | nil => rfl
  | cons pool rest induction => simp [exploreChildren, induction]

section Termination

/-- `buildRoutesForTrade` allowed at most `fuel` nested calls on every path of its recursion,
`none` when some path would need more: the same body, with the depth counted. -/
def buildRoutesForTradeFuel : ℕ → Denom → Denom → List Pool → Route → List Route →
    Option (List Route)
  | 0, _, _, _, _, _ => none
  | fuel + 1, tokenInDenom, targetTokenOutDenom, pools, route, routes =>
      let possible := possibleStartingPairs tokenInDenom pools route
      if possible.length = 0 then some routes
      else
        let ending := endingPairs targetTokenOutDenom possible
        let routes :=
          if ending.length > 0 ∧ tokenInDenom ≠ targetTokenOutDenom then
            routes ++ ending.map fun pool =>
              route ++ [endingHop tokenInDenom targetTokenOutDenom pool]
          else routes
        possible.foldlM (fun routes pool =>
          buildRoutesForTradeFuel fuel (tokenOut tokenInDenom pool).denom targetTokenOutDenom pools
            (route ++ [nextHop tokenInDenom pool]) routes) routes

private theorem foldlM_some {β γ : Type} (f : γ → β → Option γ) (g : γ → β → γ) (items : List β)
    (agree : ∀ item ∈ items, ∀ acc, f acc item = some (g acc item)) (init : γ) :
    items.foldlM f init = some (items.foldl g init) := by
  induction items generalizing init with
  | nil => rfl
  | cons item items induction =>
      simp [agree item (List.mem_cons_self _ _),
        induction fun other member => agree other (List.mem_cons_of_mem _ member)]

/-- With more nested calls allowed than there are unused snapshot pools, the counted run
completes with the search's result. -/
theorem buildRoutesForTradeFuel_eq (fuel : ℕ) (tokenInDenom targetTokenOutDenom : Denom)
    (pools : List Pool) (route : Route) (routes : List Route)
    (enough : unusedPoolCount pools route < fuel) :
    buildRoutesForTradeFuel fuel tokenInDenom targetTokenOutDenom pools route routes =
      some (buildRoutesForTrade tokenInDenom targetTokenOutDenom pools route routes) := by
  induction fuel generalizing tokenInDenom route routes with
  | zero => exact absurd enough (Nat.not_lt_zero _)
  | succ fuel induction =>
      rw [buildRoutesForTradeFuel, buildRoutesForTrade,
        List.foldl_attach _ fun routes pool =>
          buildRoutesForTrade (tokenOut tokenInDenom pool).denom targetTokenOutDenom pools
            (route ++ [nextHop tokenInDenom pool]) routes]
      dsimp only
      split_ifs
      · rfl
      all_goals exact foldlM_some _ _ _ (fun pool candidate acc => induction _ _ acc
        (Nat.lt_of_lt_of_le (unusedPoolCount_lt candidate) (Nat.lt_succ_iff.mp enough))) _

/-- The search terminates on every snapshot, cyclic pool graphs included: every recursive call
puts on the route a pool whose id is not on it yet, so the snapshot pools left unused strictly
decrease along every path, and a run allowed one nested call more than there are unused pools
completes with the search's result. -/
theorem buildRoutesForTrade_terminates (pools : List Pool) (tokenInDenom targetTokenOutDenom : Denom)
    (route : Route) (routes : List Route) :
    (∀ pool ∈ possibleStartingPairs tokenInDenom pools route, pool.id ∉ findUsedPools route ∧
        unusedPoolCount pools (route ++ [nextHop tokenInDenom pool]) <
          unusedPoolCount pools route) ∧
      buildRoutesForTradeFuel (unusedPoolCount pools route + 1) tokenInDenom targetTokenOutDenom
          pools route routes =
        some (buildRoutesForTrade tokenInDenom targetTokenOutDenom pools route routes) :=
  ⟨fun _ candidate => ⟨(mem_possibleStartingPairs.mp candidate).2.2, unusedPoolCount_lt candidate⟩,
    buildRoutesForTradeFuel_eq _ _ _ _ _ _ (Nat.lt_succ_self _)⟩

end Termination

/-- The two-pool snapshot of the spec's router scenario. -/
def scenarioPools : List Pool :=
  [⟨1, ⟨"assetA", 1000000⟩, ⟨"assetB", 2000000⟩, 2 / 1000⟩,
    ⟨2, ⟨"assetB", 500000⟩, ⟨"assetC", 500000⟩, 1 / 1000⟩]

end AMMRouter

end Liquidator
