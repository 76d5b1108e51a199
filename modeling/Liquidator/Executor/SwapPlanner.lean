import Liquidator.Router.Pricing
import Liquidator.Router.Soundness
import Liquidator.Decimal
import Mathlib.Data.Rat.Floor

/-!
# Swapping neutral asset into the debts

`Executor.appendSwapToDebtMessages` walks the debts to repay.  A debt in the neutral asset is
booked directly, capped by the neutral balance left.  Any other debt asks the router for the
routes from the neutral asset to its denom, sorts them by the input required for the debt and
pops the last, prices the swap of a 2.5% larger amount along it, caps that input by the neutral
balance left for the bookkeeping, and emits a swap message.  After each booking the balance left
is recomputed from the whole available balance.

The sort and pop select a route of largest required input, so the planner pays the most
expensive route rather than the cheapest; the message declares the uncapped input; and the
balance left does not accumulate the bookings.

The executor prices with `this.ammRouter.getRequiredInput` and `getOutput`, which the
`AMMRouter` of this source does not define; they are modelled, as the specification describes
them, by the router's `getEstimatedRequiredInput` and `getEstimatedOutput`.
-/

namespace Liquidator

namespace Executor

open AMMRouter

/-- A route leg of a `swapExactAmountIn` message. -/
structure SwapAmountInRoute where
  /-- Pool to trade against. -/
  poolId : PoolId
  /-- Denom received from it. -/
  tokenOutDenom : Denom
  deriving DecidableEq, Repr

/-- The fields of a `swapExactAmountIn` message. -/
structure MsgSwapExactAmountIn where
  /-- The trading account. -/
  sender : String
  /-- The legs of the trade. -/
  routes : List SwapAmountInRoute
  /-- The coin paid in. -/
  tokenIn : Coin
  /-- The least output accepted. -/
  tokenOutMinAmount : ℤ
  deriving DecidableEq, Repr

/-- The messages the planners append to a batch. -/
inductive EncodeObject
  /-- An Osmosis `swapExactAmountIn`. -/
  | swapExactAmountIn (msg : MsgSwapExactAmountIn)
  /-- A `MsgExecuteContract` of `liquidate_many` with the given liquidations, funds attached. -/
  | executeContract (sender contract : String) (liquidations : List LiquidationTx)
      (funds : List Coin)
  deriving DecidableEq, Repr

/-- `routeOptions.sort((routeA, routeB) => key(routeA).minus(key(routeB)).toNumber()).pop()`:
a stable ascending sort on `key`, then the last route. -/
def sortPop (key : Route → ℚ) (routeOptions : List Route) : Option Route :=
  (routeOptions.mergeSort fun routeA routeB => key routeA ≤ key routeB).getLast?

/-- `bestRoute.map((route) => ({ poolId, tokenOutDenom }))`. -/
def swapRoutes (route : Route) : List SwapAmountInRoute :=
  route.map fun routeHop => ⟨routeHop.poolId, routeHop.tokenOutDenom⟩

section SortPop

variable {key : Route → ℚ} {routeOptions : List Route} {best : Route}

/-- The last candidate of largest key: the route a stable ascending sort puts last. -/
def lastMax (key : Route → ℚ) : List Route → Option Route
  | [] => none
  | route :: rest =>
      match lastMax key rest with
      | none => some route
      | some best => if key best < key route then some route else some best

private theorem keyLe_trans (key : Route → ℚ) (routeA routeB routeC : Route)
    (first : decide (key routeA ≤ key routeB)) (second : decide (key routeB ≤ key routeC)) :
    decide (key routeA ≤ key routeC) := by
  simp only [decide_eq_true_eq] at *
  exact first.trans second

private theorem keyLe_total (key : Route → ℚ) (routeA routeB : Route) :
    (decide (key routeA ≤ key routeB) || decide (key routeB ≤ key routeA)) := by
  simpa using le_total (key routeA) (key routeB)

/-- The stable sort followed by a pop takes the last candidate of largest key.  A candidate goes
in front of every later one of larger key and behind every later one of equal key, so the last
element of the sorted list is the front of the list's last maximum. -/
theorem sortPop_eq_lastMax (key : Route → ℚ) (routeOptions : List Route) :
    sortPop key routeOptions = lastMax key routeOptions := by
  induction routeOptions with
  | nil => simp [sortPop, lastMax]
  | cons route rest induction =>
      obtain ⟨front, back, sortedCons, sortedRest, before⟩ :=
        List.mergeSort_cons (keyLe_trans key) (keyLe_total key) route rest
      have sorted := List.sorted_mergeSort (keyLe_trans key) (keyLe_total key) (route :: rest)
      unfold sortPop at induction ⊢
      rw [sortedRest] at induction
      rw [sortedCons] at sorted ⊢
      simp only [lastMax, ← induction]
      rcases List.eq_nil_or_concat back with rfl | ⟨init, best, rfl⟩
      · rcases List.eq_nil_or_concat front with rfl | ⟨init, best, rfl⟩
        · simp
        · have beaten := before best (by simp)
          simp only [Bool.not_eq_true', decide_eq_false_iff_not, not_le] at beaten
          simp [beaten]
      · have le : key route ≤ key best := by
          rw [List.pairwise_append] at sorted
          simpa using (List.pairwise_cons.mp sorted.2.1).1 best (by simp)
        simp [not_lt.mpr le, List.getLast?_cons]

theorem lastMax_eq_none : lastMax key routeOptions = none ↔ routeOptions = [] := by
  cases routeOptions with
  | nil => simp [lastMax]
  | cons route rest =>
      simp only [lastMax]
      split
      · simp
      · split_ifs <;> simp

/-- A route with every candidate before it of at most its key and every one after it of a smaller
key has the largest key. -/
private theorem le_of_split {front back : List Route}
    (split : routeOptions = front ++ best :: back) (frontLe : ∀ route ∈ front, key route ≤ key best)
    (backLt : ∀ route ∈ back, key route < key best) :
    ∀ route ∈ routeOptions, key route ≤ key best := by
  rw [split]
  intro route member
  rcases List.mem_append.mp member with inFront | inBack
  · exact frontLe route inFront
  · rcases List.mem_cons.mp inBack with rfl | inBack
    · exact le_rfl
    · exact (backLt route inBack).le

/-- The route `lastMax` picks has the largest key, and every candidate after it a smaller one. -/
theorem lastMax_eq_some (picked : lastMax key routeOptions = some best) :
    ∃ front back, routeOptions = front ++ best :: back ∧ (∀ route ∈ front, key route ≤ key best) ∧
      ∀ route ∈ back, key route < key best := by
  induction routeOptions generalizing best with
  | nil => simp [lastMax] at picked
  | cons route rest induction =>
      cases restPicked : lastMax key rest with
      | none =>
          simp only [lastMax, restPicked, Option.some.injEq] at picked
          subst picked
          exact ⟨[], [], by rw [lastMax_eq_none.mp restPicked]; rfl, by simp, by simp⟩
      | some restBest =>
          obtain ⟨front, back, split, frontLe, backLt⟩ := induction restPicked
          simp only [lastMax, restPicked] at picked
          split_ifs at picked with beats <;> obtain rfl := Option.some.inj picked
          · exact ⟨[], rest, rfl, by simp, fun other member =>
              (le_of_split split frontLe backLt other member).trans_lt beats⟩
          · refine ⟨route :: front, back, by rw [split, List.cons_append], ?_, backLt⟩
            simpa using ⟨not_lt.mp beats, frontLe⟩

/-- The popped route is a candidate of largest key. -/
theorem sortPop_spec (popped : sortPop key routeOptions = some best) :
    best ∈ routeOptions ∧ ∀ route ∈ routeOptions, key route ≤ key best := by
  obtain ⟨front, back, split, frontLe, backLt⟩ :=
    lastMax_eq_some ((sortPop_eq_lastMax _ _).symm.trans popped)
  exact ⟨split ▸ List.mem_append_right _ (List.mem_cons_self _ _), le_of_split split frontLe backLt⟩

theorem sortPop_eq_none : sortPop key routeOptions = none ↔ routeOptions = [] := by
  simp [sortPop, ← List.length_eq_zero]

/-- A candidate whose key beats every other candidate's is the one popped. -/
theorem sortPop_of_max (member : best ∈ routeOptions)
    (beats : ∀ route ∈ routeOptions, route ≠ best → key route < key best) :
    sortPop key routeOptions = some best := by
  obtain ⟨popped, some_eq⟩ := Option.ne_none_iff_exists'.mp
    (mt sortPop_eq_none.mp (List.ne_nil_of_mem member))
  obtain ⟨poppedMember, largest⟩ := sortPop_spec some_eq
  by_cases same : popped = best
  · rw [some_eq, same]
  · exact absurd (largest best member) (not_le.mpr (beats popped poppedMember same))

/-- Sort-then-pop returns exactly the last candidate of largest key: the one with every candidate
before it of at most its key and every candidate after it of a smaller key. -/
theorem sortPop_eq_some_iff :
    sortPop key routeOptions = some best ↔
      ∃ front back, routeOptions = front ++ best :: back ∧
        (∀ route ∈ front, key route ≤ key best) ∧ ∀ route ∈ back, key route < key best := by
  rw [sortPop_eq_lastMax]
  refine ⟨lastMax_eq_some, ?_⟩
  rintro ⟨front, back, rfl, frontLe, backLt⟩
  induction front with
  | nil =>
      cases backPicked : lastMax key back with
      | none => simp [lastMax, backPicked]
      | some other =>
          obtain ⟨_, _, split, -, -⟩ := lastMax_eq_some backPicked
          have beaten : key other < key best :=
            backLt other (split ▸ List.mem_append_right _ (List.mem_cons_self _ _))
          simp [lastMax, backPicked, beaten]
  | cons route front induction =>
      have picked := induction fun other member => frontLe other (List.mem_cons_of_mem _ member)
      simp [lastMax, picked, not_lt.mpr (frontLe route (List.mem_cons_self _ _))]

end SortPop

/-- What `appendSwapToDebtMessages` carries across its `forEach`. -/
structure DebtSwapState where
  /-- `remainingNeutral`. -/
  remainingNeutral : ℚ
  /-- `expectedDebtAssetsPostSwap`. -/
  expectedDebtAssetsPostSwap : DenomMap ℚ
  /-- The shared message batch. -/
  msgs : List EncodeObject

/-- `cappedAmount` and `cappedSwapAmount`: an amount capped by the neutral balance left. -/
def capByRemaining (remainingNeutral amount : ℚ) : ℚ :=
  if remainingNeutral < amount then remainingNeutral else amount

/-- `amountToSwap`: the input required along the route for 2.5% more than the debt. -/
def amountToSwap (debtAmountRequiredFromSwap : ℚ) (bestRoute : Route) : ℚ :=
  getEstimatedRequiredInput (debtAmountRequiredFromSwap * (1025 / 1000)) bestRoute

/-- `minDebtOutput`: 98% of the output of the capped input along the route. -/
def minDebtOutput (cappedSwapAmount : ℚ) (bestRoute : Route) : ℚ :=
  getEstimatedOutput cappedSwapAmount bestRoute * (98 / 100)

/-- The body of the `forEach` of `appendSwapToDebtMessages`, for one debt coin. -/
def swapToDebt (config : ExecutorConfig) (pools : List Pool) (liquidatorAddress : String)
    (neutralAvailable : ℚ) (state : DebtSwapState) (debt : Coin) : DebtSwapState :=
  let debtAmountRequiredFromSwap : ℚ := debt.amount
  if debtAmountRequiredFromSwap > 1000 then
    if debt.denom = config.neutralAssetDenom then
      let cappedAmount := capByRemaining state.remainingNeutral debt.amount
      let totalDebt := cappedAmount + (state.expectedDebtAssetsPostSwap.get debt.denom).getD 0
      { state with
        remainingNeutral := neutralAvailable - (cappedAmount - 1)
        expectedDebtAssetsPostSwap := state.expectedDebtAssetsPostSwap.set debt.denom totalDebt }
    else
      let routeOptions := getRoutes pools config.neutralAssetDenom debt.denom
      match sortPop (getEstimatedRequiredInput debtAmountRequiredFromSwap) routeOptions with
      | none => state
      | some bestRoute =>
          let amountToSwap := amountToSwap debtAmountRequiredFromSwap bestRoute
          let cappedSwapAmount := capByRemaining state.remainingNeutral amountToSwap
          let minDebtOutput := minDebtOutput cappedSwapAmount bestRoute
          let totalDebt := minDebtOutput + (state.expectedDebtAssetsPostSwap.get debt.denom).getD 0
          { remainingNeutral := neutralAvailable - (cappedSwapAmount - 1)
            expectedDebtAssetsPostSwap := state.expectedDebtAssetsPostSwap.set debt.denom totalDebt
            msgs := state.msgs ++ [.swapExactAmountIn
              ⟨liquidatorAddress, swapRoutes bestRoute,
                ⟨config.neutralAssetDenom, toFixed amountToSwap⟩, toFixed minDebtOutput⟩] }
  else state

/-- The `forEach` of `appendSwapToDebtMessages` over the debt coins, in order. -/
def planDebtSwaps (config : ExecutorConfig) (pools : List Pool) (liquidatorAddress : String)
    (neutralAvailable : ℚ) (state : DebtSwapState) (debtsToRepay : List Coin) : DebtSwapState :=
  debtsToRepay.foldl (swapToDebt config pools liquidatorAddress neutralAvailable) state

/-- `Executor.appendSwapToDebtMessages`: the expected debt assets after the swaps, and the batch
with the swap messages appended. -/
def appendSwapToDebtMessages (config : ExecutorConfig) (pools : List Pool)
    (debtsToRepay : List Coin) (liquidatorAddress : String) (msgs : List EncodeObject)
    (neutralAvailable : ℚ) : DenomMap ℚ × List EncodeObject :=
  let state := planDebtSwaps config pools liquidatorAddress neutralAvailable
    ⟨neutralAvailable, DenomMap.empty, msgs⟩ debtsToRepay
  (state.expectedDebtAssetsPostSwap, state.msgs)

/-- A swap message the planner can emit for a debt: along the route popped for it, declaring as
input the price of the buffered debt along that route. -/
def SwapFor (config : ExecutorConfig) (pools : List Pool) (liquidatorAddress : String) (debt : Coin)
    (msg : EncodeObject) : Prop :=
  ∃ bestRoute tokenOutMinAmount,
    sortPop (getEstimatedRequiredInput debt.amount)
        (getRoutes pools config.neutralAssetDenom debt.denom) = some bestRoute ∧
      msg = .swapExactAmountIn ⟨liquidatorAddress, swapRoutes bestRoute,
        ⟨config.neutralAssetDenom, toFixed (amountToSwap debt.amount bestRoute)⟩, tokenOutMinAmount⟩

section Run

variable (config : ExecutorConfig) (pools : List Pool) (liquidatorAddress : String)
  (neutralAvailable : ℚ)

/-- Everything one debt can do to the state: nothing; book the neutral debt, capped by the balance
left; or book the minimum output of a swap along the popped route and append that swap.  After
a booking the balance left is the whole available balance less the booked cap, plus one. -/
theorem swapToDebt_cases (state : DebtSwapState) (debt : Coin) :
    swapToDebt config pools liquidatorAddress neutralAvailable state debt = state ∨
      1000 < (debt.amount : ℚ) ∧ debt.denom = config.neutralAssetDenom ∧
        swapToDebt config pools liquidatorAddress neutralAvailable state debt =
          { state with
            remainingNeutral :=
              neutralAvailable - (capByRemaining state.remainingNeutral debt.amount - 1)
            expectedDebtAssetsPostSwap := state.expectedDebtAssetsPostSwap.set debt.denom
              (capByRemaining state.remainingNeutral debt.amount +
                (state.expectedDebtAssetsPostSwap.get debt.denom).getD 0) } ∨
      1000 < (debt.amount : ℚ) ∧ debt.denom ≠ config.neutralAssetDenom ∧ ∃ bestRoute,
        sortPop (getEstimatedRequiredInput debt.amount)
            (getRoutes pools config.neutralAssetDenom debt.denom) = some bestRoute ∧
        swapToDebt config pools liquidatorAddress neutralAvailable state debt =
          { remainingNeutral := neutralAvailable -
              (capByRemaining state.remainingNeutral (amountToSwap debt.amount bestRoute) - 1)
            expectedDebtAssetsPostSwap := state.expectedDebtAssetsPostSwap.set debt.denom
              (minDebtOutput (capByRemaining state.remainingNeutral
                  (amountToSwap debt.amount bestRoute)) bestRoute +
                (state.expectedDebtAssetsPostSwap.get debt.denom).getD 0)
            msgs := state.msgs ++ [.swapExactAmountIn ⟨liquidatorAddress, swapRoutes bestRoute,
              ⟨config.neutralAssetDenom, toFixed (amountToSwap debt.amount bestRoute)⟩,
              toFixed (minDebtOutput (capByRemaining state.remainingNeutral
                (amountToSwap debt.amount bestRoute)) bestRoute)⟩] } := by
  unfold swapToDebt
  dsimp only
  split_ifs with large neutral
  · exact .inr (.inl ⟨large, neutral, rfl⟩)
  · split
    · exact .inl rfl
    next bestRoute popped => exact .inr (.inr ⟨large, neutral, bestRoute, popped, rfl⟩)
  · exact .inl rfl

/-- Everything one debt can do to the batch: nothing, or append one swap along its popped
route. -/
theorem swapToDebt_msgs (state : DebtSwapState) (debt : Coin) :
    (swapToDebt config pools liquidatorAddress neutralAvailable state debt).msgs = state.msgs ∨
      ∃ msg, SwapFor config pools liquidatorAddress debt msg ∧
        (swapToDebt config pools liquidatorAddress neutralAvailable state debt).msgs =
          state.msgs ++ [msg] := by
  rcases swapToDebt_cases config pools liquidatorAddress neutralAvailable state debt with
    same | ⟨-, -, booked⟩ | ⟨-, -, bestRoute, popped, swapped⟩
  · exact .inl (by rw [same])
  · exact .inl (by rw [booked])
  · exact .inr ⟨_, ⟨bestRoute, _, popped, rfl⟩, by rw [swapped]⟩

/-- One debt adds to the expected assets at most its own denom. -/
theorem swapToDebt_keys (state : DebtSwapState) (debt : Coin) :
    ∀ denom ∈ (swapToDebt config pools liquidatorAddress neutralAvailable state
        debt).expectedDebtAssetsPostSwap.keys,
      denom ∈ state.expectedDebtAssetsPostSwap.keys ∨ denom = debt.denom := by
  intro denom member
  rcases swapToDebt_cases config pools liquidatorAddress neutralAvailable state debt with
    same | ⟨-, -, booked⟩ | ⟨-, -, _, -, swapped⟩
  · exact .inl (same ▸ member)
  · rw [booked, DenomMap.mem_keys_set] at member
    exact member.symm
  · rw [swapped, DenomMap.mem_keys_set] at member
    exact member.symm

/-- Every message after the walk over the debts was there before, or is a swap for one of the
debts. -/
theorem planDebtSwaps_msgs (state : DebtSwapState) (debtsToRepay : List Coin) :
    ∀ msg ∈ (planDebtSwaps config pools liquidatorAddress neutralAvailable state debtsToRepay).msgs,
      msg ∈ state.msgs ∨
        ∃ debt ∈ debtsToRepay, SwapFor config pools liquidatorAddress debt msg := by
  induction debtsToRepay generalizing state with
  | nil => exact fun msg member => .inl member
  | cons debt rest induction =>
      intro msg member
      rcases induction _ msg member with earlier | later
      · rcases swapToDebt_msgs config pools liquidatorAddress neutralAvailable state debt with
          same | ⟨emitted, swap, appended⟩
        · exact .inl (same ▸ earlier)
        · rw [appended, List.mem_append, List.mem_singleton] at earlier
          rcases earlier with kept | rfl
          · exact .inl kept
          · exact .inr ⟨debt, List.mem_cons_self _ _, swap⟩
      · obtain ⟨other, member, swap⟩ := later
        exact .inr ⟨other, List.mem_cons_of_mem _ member, swap⟩

/-- Every denom of the expected assets after the walk over the debts was there before, or is
the denom of one of the debts. -/
theorem planDebtSwaps_keys (state : DebtSwapState) (debtsToRepay : List Coin) :
    ∀ denom ∈ (planDebtSwaps config pools liquidatorAddress neutralAvailable state
        debtsToRepay).expectedDebtAssetsPostSwap.keys,
      denom ∈ state.expectedDebtAssetsPostSwap.keys ∨
        ∃ debt ∈ debtsToRepay, debt.denom = denom := by
  induction debtsToRepay generalizing state with
  | nil => exact fun denom member => .inl member
  | cons debt rest induction =>
      intro denom member
      rcases induction _ denom member with earlier | ⟨other, inRest, same⟩
      · rcases swapToDebt_keys config pools liquidatorAddress neutralAvailable state debt denom
          earlier with kept | rfl
        · exact .inl kept
        · exact .inr ⟨debt, List.mem_cons_self _ _, rfl⟩
      · exact .inr ⟨other, List.mem_cons_of_mem _ inRest, same⟩

end Run

/-- Every swap `appendSwapToDebtMessages` appends trades the neutral asset for a debt's denom
along a well-formed route of the snapshot, a route of largest required input for the debt among
all the router returns, and declares as input the price of the buffered debt along it. -/
theorem appendSwapToDebtMessages_swap_route (config : ExecutorConfig) (pools : List Pool)
    (distinct : ∀ pool ∈ pools, pool.DistinctDenoms) (debtsToRepay : List Coin)
    (liquidatorAddress : String) (msgs : List EncodeObject) (neutralAvailable : ℚ) :
    ∀ msg ∈ (appendSwapToDebtMessages config pools debtsToRepay liquidatorAddress msgs
        neutralAvailable).2,
      msg ∈ msgs ∨ ∃ debt ∈ debtsToRepay, ∃ bestRoute,
        WellFormed pools config.neutralAssetDenom debt.denom bestRoute ∧
        (∀ route ∈ getRoutes pools config.neutralAssetDenom debt.denom,
          getEstimatedRequiredInput debt.amount route ≤
            getEstimatedRequiredInput debt.amount bestRoute) ∧
        ∃ tokenOutMinAmount, msg = .swapExactAmountIn ⟨liquidatorAddress, swapRoutes bestRoute,
          ⟨config.neutralAssetDenom, toFixed (amountToSwap debt.amount bestRoute)⟩,
          tokenOutMinAmount⟩ := by
  intro msg member
  rcases planDebtSwaps_msgs config pools liquidatorAddress neutralAvailable _ debtsToRepay msg
    member with kept | ⟨debt, debtMember, bestRoute, tokenOutMinAmount, popped, rfl⟩
  · exact .inl kept
  · obtain ⟨routeMember, largest⟩ := sortPop_spec popped
    have wellFormed := buildRoutesForTrade_wellFormed distinct config.neutralAssetDenom debt.denom
      config.neutralAssetDenom [] (.inl ⟨rfl, rfl⟩) bestRoute routeMember
    exact .inr ⟨debt, debtMember, bestRoute, wellFormed, largest, tokenOutMinAmount, rfl⟩

/-! ## Runs on small snapshots -/

/-- A configuration settling in `uusdc`. -/
def usdcConfig : ExecutorConfig := ⟨"uusdc", "uosmo"⟩

/-- A fee-free `uusdc/uatom` pool of 8200 each. -/
def atomPool : Pool := ⟨1, ⟨"uusdc", 8200⟩, ⟨"uatom", 8200⟩, 0⟩

/-- Its hop from `uusdc` to `uatom`. -/
def atomHop : RouteHop := ⟨1, "uusdc", "uatom", 0, 8200, 8200⟩

/-- The search from `uusdc` to `uatom` over `atomPool` finds its one hop. -/
theorem getRoutes_atomPool : getRoutes [atomPool] "uusdc" "uatom" = [[atomHop]] := by
  simp +decide [getRoutes, buildRoutesForTrade_eval, exploreChildren, endingRoutes,
    possibleStartingPairs, endingPairs, atomPool, atomHop, tokenOut, nextHop, endingHop, tokenIn,
    Pool.reserveOf, Pool.poolAssets]

/-- With 1000 `uusdc` and a debt of 4000 `uatom`, the swap message declares 8200 `uusdc` in: the
cap by the balance reaches the bookkeeping and the minimum output, not the declared input. -/
theorem appendSwapToDebtMessages_declares_uncapped :
    (appendSwapToDebtMessages usdcConfig [atomPool] [⟨"uatom", 4000⟩] "osmo1" [] 1000).2 =
      [.swapExactAmountIn ⟨"osmo1", [⟨1, "uatom"⟩], ⟨"uusdc", 8200⟩, 873⟩] := by
  simp [appendSwapToDebtMessages, planDebtSwaps, swapToDebt, usdcConfig, getRoutes_atomPool,
    sortPop]
  norm_num [atomHop, swapRoutes, amountToSwap, minDebtOutput, capByRemaining, getEstimatedOutput,
    getEstimatedRequiredInput, hopOutput, hopRequiredInput, calculateOutputXYKPool,
    calculateRequiredInputXYKPool, toFixed, roundHalfUp]

/-- `atomPool` beside a deeper `uusdc/uatom` pool of 12000 each. -/
def parallelPools : List Pool := [atomPool, ⟨2, ⟨"uusdc", 12000⟩, ⟨"uatom", 12000⟩, 0⟩]

/-- The hop through the deeper pool. -/
def deepAtomHop : RouteHop := ⟨2, "uusdc", "uatom", 0, 12000, 12000⟩

/-- The search from `uusdc` to `uatom` over `parallelPools` finds the two single-hop routes. -/
theorem getRoutes_parallelPools :
    getRoutes parallelPools "uusdc" "uatom" = [[atomHop], [deepAtomHop]] := by
  simp +decide [getRoutes, buildRoutesForTrade_eval, exploreChildren, endingRoutes,
    possibleStartingPairs, endingPairs, parallelPools, atomPool, atomHop, deepAtomHop, tokenOut,
    nextHop, endingHop, tokenIn, Pool.reserveOf, Pool.poolAssets]

theorem requiredInput_deepAtomHop_lt :
    getEstimatedRequiredInput 4000 [deepAtomHop] < getEstimatedRequiredInput 4000 [atomHop] := by
  norm_num [atomHop, deepAtomHop, getEstimatedRequiredInput, hopRequiredInput,
    calculateRequiredInputXYKPool]

/-- The plan for 4000 `uatom` out of 100000 `uusdc` over `parallelPools`. -/
theorem appendSwapToDebtMessages_parallelPools :
    (appendSwapToDebtMessages usdcConfig parallelPools [⟨"uatom", 4000⟩] "osmo1" [] 100000).2 =
      [.swapExactAmountIn ⟨"osmo1", [⟨1, "uatom"⟩], ⟨"uusdc", 8200⟩, 4018⟩] := by
  have popped : sortPop (getEstimatedRequiredInput ((4000 : ℤ) : ℚ)) [[atomHop], [deepAtomHop]] =
      some [atomHop] :=
    sortPop_of_max (by simp) (by simpa [atomHop, deepAtomHop] using requiredInput_deepAtomHop_lt)
  simp only [appendSwapToDebtMessages, planDebtSwaps, List.foldl, swapToDebt, usdcConfig,
    getRoutes_parallelPools]
  rw [if_pos (by norm_num), if_neg (by decide), popped]
  norm_num [atomHop, swapRoutes, amountToSwap, minDebtOutput, capByRemaining, getEstimatedOutput,
    getEstimatedRequiredInput, hopOutput, hopRequiredInput, calculateOutputXYKPool,
    calculateRequiredInputXYKPool, toFixed, roundHalfUp]

theorem parallelPools_swap_route :
    (∀ pool ∈ parallelPools, pool.DistinctDenoms) ∧
      EncodeObject.swapExactAmountIn ⟨"osmo1", [⟨1, "uatom"⟩], ⟨"uusdc", 8200⟩, 4018⟩ ∈
        (appendSwapToDebtMessages usdcConfig parallelPools [⟨"uatom", 4000⟩] "osmo1" [] 100000).2 ∧
      (EncodeObject.swapExactAmountIn ⟨"osmo1", [⟨1, "uatom"⟩], ⟨"uusdc", 8200⟩, 4018⟩ ∈ [] ∨
        ∃ debt ∈ [(⟨"uatom", 4000⟩ : Coin)], ∃ bestRoute,
          WellFormed parallelPools "uusdc" debt.denom bestRoute ∧
          (∀ route ∈ getRoutes parallelPools "uusdc" debt.denom,
            getEstimatedRequiredInput debt.amount route ≤
              getEstimatedRequiredInput debt.amount bestRoute) ∧
          ∃ tokenOutMinAmount,
            EncodeObject.swapExactAmountIn ⟨"osmo1", [⟨1, "uatom"⟩], ⟨"uusdc", 8200⟩, 4018⟩ =
              .swapExactAmountIn ⟨"osmo1", swapRoutes bestRoute,
                ⟨"uusdc", toFixed (amountToSwap debt.amount bestRoute)⟩, tokenOutMinAmount⟩) :=
  have distinct : ∀ pool ∈ parallelPools, pool.DistinctDenoms := by decide
  have member := appendSwapToDebtMessages_parallelPools ▸ List.mem_singleton_self _
  ⟨distinct, member, appendSwapToDebtMessages_swap_route usdcConfig parallelPools distinct _ "osmo1"
    [] 100000 _ member⟩

/-- Of the two routes to 4000 `uatom`, the deeper pool's needs less `uusdc`, yet the swap goes
through `atomPool`, whose required input is the larger. -/
theorem appendSwapToDebtMessages_takes_dearest_route :
    getRoutes parallelPools "uusdc" "uatom" = [[atomHop], [deepAtomHop]] ∧
      getEstimatedRequiredInput 4000 [deepAtomHop] < getEstimatedRequiredInput 4000 [atomHop] ∧
      (appendSwapToDebtMessages usdcConfig parallelPools [⟨"uatom", 4000⟩] "osmo1" [] 100000).2 =
        [.swapExactAmountIn ⟨"osmo1", [⟨1, "uatom"⟩], ⟨"uusdc", 8200⟩, 4018⟩] :=
  ⟨getRoutes_parallelPools, requiredInput_deepAtomHop_lt, appendSwapToDebtMessages_parallelPools⟩

/-- `atomPool` beside a fee-free `uusdc/uosmo` pool of 8200 each. -/
def sidePools : List Pool := [atomPool, ⟨2, ⟨"uusdc", 8200⟩, ⟨"uosmo", 8200⟩, 0⟩]

/-- The hop through the `uusdc/uosmo` pool. -/
def osmoHop : RouteHop := ⟨2, "uusdc", "uosmo", 0, 8200, 8200⟩

/-- Debts of 6000 `uusdc`, 4000 `uatom` and 4000 `uosmo`. -/
def threeDebts : List Coin := [⟨"uusdc", 6000⟩, ⟨"uatom", 4000⟩, ⟨"uosmo", 4000⟩]

/-- With 10000 `uusdc`, the first two debts book 6000 and 4001, yet the balance left for the
third is 6000, and 6000 more is booked for it. -/
theorem appendSwapToDebtMessages_rebooks_balance :
    (planDebtSwaps usdcConfig sidePools "osmo1" 10000 ⟨10000, DenomMap.empty, []⟩
        (threeDebts.take 2)).remainingNeutral = 6000 ∧
      (appendSwapToDebtMessages usdcConfig sidePools threeDebts "osmo1" [] 10000).1.entries =
        [("uusdc", 6000), ("uatom", minDebtOutput 4001 [atomHop]),
          ("uosmo", minDebtOutput 6000 [osmoHop])] := by
  have toAtom : getRoutes sidePools "uusdc" "uatom" = [[atomHop]] := by
    simp +decide [getRoutes, buildRoutesForTrade_eval, exploreChildren, endingRoutes,
      possibleStartingPairs, endingPairs, sidePools, atomPool, atomHop, tokenOut, nextHop,
      endingHop, tokenIn, Pool.reserveOf, Pool.poolAssets]
  have toOsmo : getRoutes sidePools "uusdc" "uosmo" = [[osmoHop]] := by
    simp +decide [getRoutes, buildRoutesForTrade_eval, exploreChildren, endingRoutes,
      possibleStartingPairs, endingPairs, sidePools, atomPool, osmoHop, tokenOut, nextHop,
      endingHop, tokenIn, Pool.reserveOf, Pool.poolAssets]
  have distinct : ("uatom" : Denom) ≠ "uusdc" ∧ ("uosmo" : Denom) ≠ "uusdc" ∧
      ("uosmo" : Denom) ≠ "uatom" := by decide
  have differ : (("uatom" : Denom) == "uusdc") = false ∧ (("uosmo" : Denom) == "uusdc") = false ∧
      (("uosmo" : Denom) == "uatom") = false := by decide
  norm_num [appendSwapToDebtMessages, planDebtSwaps, swapToDebt, usdcConfig, threeDebts, toAtom,
    toOsmo, sortPop, DenomMap.set, DenomMap.empty, DenomMap.get, List.lookup_cons, distinct,
    distinct.1.symm, distinct.2.1.symm, distinct.2.2.symm, differ, atomHop, osmoHop, amountToSwap,
    capByRemaining, getEstimatedRequiredInput, hopRequiredInput, calculateRequiredInputXYKPool]

end Executor

end Liquidator
