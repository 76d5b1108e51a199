import Liquidator.Router.Search
import Mathlib.Data.List.Chain

/-!
# Soundness of the route search

Every route `getRoutes` returns leads from the requested input denom to the requested output
denom through a chain of hops, uses each pool id at most once, and each hop carries the denoms,
reserves and fee of a snapshot pool.  The invariant of the search is that the route of every node
leads from the start denom to the denom the node holds (`Reaches`); both kinds of hop the search
appends, the recorded ending hop and the exploring `nextHop`, keep it.
-/

namespace Liquidator

namespace AMMRouter

variable {pools : List Pool}

instance (pool : Pool) : Decidable pool.DistinctDenoms :=
  inferInstanceAs (Decidable (_ ≠ _))

/-- A hop built from a snapshot pool: the pool holds both of the hop's denoms, which differ, and
the hop's reserves and fee are the pool's. -/
def HopFromPool (pools : List Pool) (hop : RouteHop) : Prop :=
  ∃ pool ∈ pools, pool.id = hop.poolId ∧ hop.tokenInDenom ≠ hop.tokenOutDenom ∧
    pool.HasDenom hop.tokenInDenom ∧ pool.HasDenom hop.tokenOutDenom ∧
    hop.x1 = pool.reserveOf hop.tokenInDenom ∧ hop.y1 = pool.reserveOf hop.tokenOutDenom ∧
    hop.swapFee = pool.swapFee

/-- A well-formed route for a swap from `tokenInDenom` to `tokenOutDenom`. -/
structure WellFormed (pools : List Pool) (tokenInDenom tokenOutDenom : Denom) (route : Route) :
    Prop where
  /-- The route has a hop. -/
  ne_nil : route ≠ []
  /-- The first hop takes the input denom. -/
  head_tokenIn : (route.head ne_nil).tokenInDenom = tokenInDenom
  /-- The last hop gives the output denom. -/
  last_tokenOut : (route.getLast ne_nil).tokenOutDenom = tokenOutDenom
  /-- Each hop takes what the hop before it gives. -/
  chain : route.Chain' fun hop next => hop.tokenOutDenom = next.tokenInDenom
  /-- No pool id occurs twice. -/
  poolIds_nodup : (findUsedPools route).Nodup
  /-- Every hop was built from a snapshot pool. -/
  hops : ∀ hop ∈ route, HopFromPool pools hop

/-- The search invariant at a node holding `tokenInDenom`: its route leads there from `start`. -/
def Reaches (pools : List Pool) (start tokenInDenom : Denom) (route : Route) : Prop :=
  (route = [] ∧ tokenInDenom = start) ∨ WellFormed pools start tokenInDenom route

theorem nextHop_fromPool {tokenInDenom : Denom} {pool : Pool} (member : pool ∈ pools)
    (distinct : pool.DistinctDenoms) (holds : pool.HasDenom tokenInDenom) :
    HopFromPool pools (nextHop tokenInDenom pool) := by
  have differ : pool.base.denom ≠ pool.quote.denom := distinct
  refine ⟨pool, member, rfl, ?_⟩
  by_cases onBase : tokenInDenom = pool.base.denom
  · subst onBase
    simp [nextHop, tokenIn, tokenOut, Pool.HasDenom, Pool.reserveOf_quote distinct, differ]
  · have onQuote : pool.quote.denom = tokenInDenom := holds.resolve_left (Ne.symm onBase)
    subst onQuote
    simp [nextHop, tokenIn, tokenOut, Pool.HasDenom, Pool.reserveOf_quote distinct, differ,
      differ.symm]

theorem endingHop_fromPool {tokenInDenom targetTokenOutDenom : Denom} {pool : Pool}
    (member : pool ∈ pools) (holdsIn : pool.HasDenom tokenInDenom)
    (holdsOut : pool.HasDenom targetTokenOutDenom) (differ : tokenInDenom ≠ targetTokenOutDenom) :
    HopFromPool pools (endingHop tokenInDenom targetTokenOutDenom pool) :=
  ⟨pool, member, rfl, differ, holdsIn, holdsOut, rfl, rfl, rfl⟩

/-- Appending a fresh hop from a snapshot pool at the held denom keeps the route well formed. -/
theorem Reaches.extend {start tokenInDenom : Denom} {route : Route} {hop : RouteHop}
    (reaches : Reaches pools start tokenInDenom route) (built : HopFromPool pools hop)
    (joins : hop.tokenInDenom = tokenInDenom) (fresh : hop.poolId ∉ findUsedPools route) :
    WellFormed pools start hop.tokenOutDenom (route ++ [hop]) := by
  rcases reaches with ⟨rfl, rfl⟩ | wellFormed
  · exact ⟨by simp, joins, rfl, List.chain'_singleton hop, by simp [findUsedPools],
      by simpa using built⟩
  · refine ⟨by simp, ?_, congrArg RouteHop.tokenOutDenom (List.getLast_concat route), ?_, ?_, ?_⟩
    · rw [List.head_append_of_ne_nil wellFormed.ne_nil]
      exact wellFormed.head_tokenIn
    · refine wellFormed.chain.append (List.chain'_singleton hop)
        fun last lastMem first firstMem => ?_
      rw [List.getLast?_eq_getLast route wellFormed.ne_nil, Option.mem_some_iff] at lastMem
      obtain rfl := Option.mem_some_iff.mp firstMem
      rw [← lastMem, wellFormed.last_tokenOut, joins]
    · simpa [List.nodup_append, fresh] using wellFormed.poolIds_nodup
    · intro other member
      rcases List.mem_append.mp member with onRoute | isHop
      · exact wellFormed.hops other onRoute
      · rwa [List.mem_singleton.mp isHop]

/-- Every route the search records below a node extends that node's route to the target. -/
theorem buildRoutesForTrade_wellFormed (distinct : ∀ pool ∈ pools, pool.DistinctDenoms)
    (start targetTokenOutDenom tokenInDenom : Denom) (route : Route)
    (reaches : Reaches pools start tokenInDenom route) :
    ∀ found ∈ buildRoutesForTrade tokenInDenom targetTokenOutDenom pools route [],
      WellFormed pools start targetTokenOutDenom found := by
  induction tokenInDenom, route using search_induction pools with
  | step tokenInDenom route induction =>
      intro found member
      rw [buildRoutesForTrade_spec, List.mem_append, List.mem_flatMap] at member
      rcases member with recorded | ⟨pool, candidate, deeper⟩
      · unfold endingRoutes at recorded
        split_ifs at recorded with same
        · simp at recorded
        · obtain ⟨pool, ending, rfl⟩ := List.mem_map.mp recorded
          obtain ⟨candidate, holdsOut⟩ := mem_endingPairs.mp ending
          obtain ⟨member, holdsIn, fresh⟩ := mem_possibleStartingPairs.mp candidate
          exact reaches.extend (endingHop_fromPool member holdsIn holdsOut same) rfl fresh
      · obtain ⟨member, holdsIn, fresh⟩ := mem_possibleStartingPairs.mp candidate
        have extended := reaches.extend (nextHop_fromPool member (distinct pool member) holdsIn)
          rfl fresh
        exact induction pool candidate (.inr extended) found deeper

theorem getRoutes_wellFormed (distinct : ∀ pool ∈ pools, pool.DistinctDenoms)
    (tokenInDenom tokenOutDenom : Denom) :
    ∀ route ∈ getRoutes pools tokenInDenom tokenOutDenom,
      WellFormed pools tokenInDenom tokenOutDenom route :=
  buildRoutesForTrade_wellFormed distinct tokenInDenom tokenOutDenom tokenInDenom []
    (.inl ⟨rfl, rfl⟩)

theorem scenario_getRoutes_wellFormed :
    (∀ pool ∈ scenarioPools, pool.DistinctDenoms) ∧
      ∀ route ∈ getRoutes scenarioPools "assetA" "assetC",
        WellFormed scenarioPools "assetA" "assetC" route :=
  have distinct : ∀ pool ∈ scenarioPools, pool.DistinctDenoms := by decide
  ⟨distinct, getRoutes_wellFormed distinct "assetA" "assetC"⟩

end AMMRouter

end Liquidator
