import Liquidator.Executor.Budget
import Liquidator.Executor.SwapPlanner

/-!
# The first batch of `run`

`Executor.run` sizes the liquidations, turns the debts to repay into coins, plans the swaps of
the neutral asset into them, and signs one batch: the swaps, then the `liquidate_many` call of the
liquidation filterer, with the assets the swaps are expected to yield attached.  On every snapshot
whose pools have two distinct denoms the batch hangs together: each swap buys, along a route of
the snapshot, the debt denom of a liquidation in the call, and each coin attached is of such a
denom.

On every input the attached funds are backed by the swaps: the debt coins have distinct denoms, so
the planner books each denom once, and every coin attached other than the neutral asset is the
minimum output of the one swap into its denom.
-/

namespace Liquidator

namespace Executor

open AMMRouter

/-- `m.forEach((amount, denom) => coins.push({ denom, amount: amount.toFixed(0) }))`: how `run`
turns the debts to repay into `debtCoins` and the expected assets into `coinsFromSwap`. -/
def coinsOf (m : DenomMap ℚ) : List Coin :=
  m.entries.map fun entry => ⟨entry.1, toFixed entry.2⟩

theorem denom_mem_keys_of_mem_coinsOf {m : DenomMap ℚ} {coin : Coin} (member : coin ∈ coinsOf m) :
    coin.denom ∈ m.keys := by
  obtain ⟨entry, inEntries, rfl⟩ := List.mem_map.mp member
  exact List.mem_map_of_mem Prod.fst inEntries

/-- The first batch of `Executor.run`; none when there is no liquidation to send. -/
def firstMsgBatch (config : ExecutorConfig) (pools : List Pool) (balances prices : Denom → ℚ)
    (positionData : List Position) (liquidatorAddress helperAddress filtererContract : String) :
    Option (List EncodeObject) :=
  let txs := (produceLiquidationTxs config balances prices positionData).1
  let debtCoins := coinsOf (produceLiquidationTxs config balances prices positionData).2
  let planned := appendSwapToDebtMessages config pools debtCoins liquidatorAddress []
    (balances config.neutralAssetDenom)
  let coinsFromSwap := coinsOf planned.1
  let firstMsgBatch :=
    planned.2 ++ [.executeContract helperAddress filtererContract txs coinsFromSwap]
  if firstMsgBatch.length = 0 ∨ txs.length = 0 then none else some firstMsgBatch

/-- The first batch hangs together: it ends with the `liquidate_many` call of the liquidations the
sizer emits, which are not empty; every coin attached to the call is of the debt denom of one of
them; and every message before it swaps the neutral asset, along a well-formed route of the
snapshot, into the debt denom of one of them. -/
theorem firstMsgBatch_consistent (config : ExecutorConfig) (pools : List Pool)
    (distinct : ∀ pool ∈ pools, pool.DistinctDenoms) (balances prices : Denom → ℚ)
    (positionData : List Position) (liquidatorAddress helperAddress filtererContract : String)
    {batch : List EncodeObject}
    (signed : firstMsgBatch config pools balances prices positionData liquidatorAddress
      helperAddress filtererContract = some batch) :
    (produceLiquidationTxs config balances prices positionData).1 ≠ [] ∧
      ∃ swaps funds, batch = swaps ++ [.executeContract helperAddress filtererContract
          (produceLiquidationTxs config balances prices positionData).1 funds] ∧
        (∀ coin ∈ funds, ∃ tx ∈ (produceLiquidationTxs config balances prices positionData).1,
          tx.debtDenom = coin.denom) ∧
        ∀ msg ∈ swaps, ∃ tx ∈ (produceLiquidationTxs config balances prices positionData).1,
          ∃ route, WellFormed pools config.neutralAssetDenom tx.debtDenom route ∧
            ∃ amountIn tokenOutMinAmount, msg = .swapExactAmountIn ⟨liquidatorAddress,
              swapRoutes route, ⟨config.neutralAssetDenom, amountIn⟩, tokenOutMinAmount⟩ := by
  unfold firstMsgBatch at signed
  dsimp only at signed
  split_ifs at signed with empty
  obtain rfl := Option.some.inj signed
  have liquidated : ∀ denom ∈ (produceLiquidationTxs config balances prices positionData).2.keys,
      ∃ tx ∈ (produceLiquidationTxs config balances prices positionData).1, tx.debtDenom = denom :=
    sizePositions_debtsToRepay_keys prices (availableValue config balances prices) positionData
  refine ⟨fun none => empty (.inr (by rw [none]; rfl)), _, _, rfl, fun coin member => ?_,
    fun msg member => ?_⟩
  · rcases planDebtSwaps_keys config pools liquidatorAddress (balances config.neutralAssetDenom) _ _
        coin.denom (denom_mem_keys_of_mem_coinsOf member) with initial | ⟨debt, debtMember, same⟩
    · simp at initial
    · obtain ⟨tx, inTxs, denom_eq⟩ := liquidated _ (denom_mem_keys_of_mem_coinsOf debtMember)
      exact ⟨tx, inTxs, denom_eq.trans same⟩
  · rcases planDebtSwaps_msgs config pools liquidatorAddress (balances config.neutralAssetDenom) _ _
        msg member with initial | ⟨debt, debtMember, bestRoute, tokenOutMinAmount, popped, rfl⟩
    · simp at initial
    · obtain ⟨tx, inTxs, denom_eq⟩ := liquidated _ (denom_mem_keys_of_mem_coinsOf debtMember)
      have wellFormed := buildRoutesForTrade_wellFormed distinct config.neutralAssetDenom debt.denom
        config.neutralAssetDenom [] (.inl ⟨rfl, rfl⟩) bestRoute (sortPop_spec popped).1
      exact ⟨tx, inTxs, bestRoute, denom_eq ▸ wellFormed, _, tokenOutMinAmount, rfl⟩

/-- One position owing 4000 `uatom` against 10000 `uosmo` of collateral. -/
def oneDebtPosition : List Position := [⟨"osmo1", [⟨"uosmo", 10000⟩], [⟨"uatom", 4000⟩]⟩]

/-- The batch for `oneDebtPosition` with 100000 `uusdc` over `atomPool`: one swap, then the call
liquidating the whole debt with the swap's minimum output attached. -/
def atomBatch : List EncodeObject :=
  [.swapExactAmountIn ⟨"osmo1", [⟨1, "uatom"⟩], ⟨"uusdc", 8200⟩, 4018⟩,
    .executeContract "osmo1" "osmo1filterer" [⟨"uosmo", "uatom", "osmo1", 4000⟩] [⟨"uatom", 4018⟩]]

theorem firstMsgBatch_oneDebtPosition :
    firstMsgBatch usdcConfig [atomPool] (fun _ => 100000) (fun _ => 1) oneDebtPosition "osmo1"
      "osmo1" "osmo1filterer" = some atomBatch := by
  norm_num [firstMsgBatch, oneDebtPosition, atomBatch, produceLiquidationTxs, sizePositions,
    SizerState.initial, liquidatePosition, Eligible, getLargestCollateral, getLargestDebt,
    largestByValue, amountToLiquidate, availableValue, coinsOf, DenomMap.set, DenomMap.empty,
    DenomMap.get, appendSwapToDebtMessages, planDebtSwaps, swapToDebt, usdcConfig,
    getRoutes_atomPool, sortPop, atomHop, swapRoutes, amountToSwap, minDebtOutput, capByRemaining,
    getEstimatedOutput, getEstimatedRequiredInput, hopOutput, hopRequiredInput,
    calculateOutputXYKPool, calculateRequiredInputXYKPool, toFixed, roundHalfUp,
    show ("uatom" : Denom) ≠ "uusdc" by decide]

theorem firstMsgBatch_atomPool_consistent :
    (∀ pool ∈ [atomPool], pool.DistinctDenoms) ∧
      firstMsgBatch usdcConfig [atomPool] (fun _ => 100000) (fun _ => 1) oneDebtPosition "osmo1"
        "osmo1" "osmo1filterer" = some atomBatch ∧
      (produceLiquidationTxs usdcConfig (fun _ => 100000) (fun _ => 1) oneDebtPosition).1 ≠ [] ∧
      ∃ swaps funds, atomBatch = swaps ++ [.executeContract "osmo1" "osmo1filterer"
          (produceLiquidationTxs usdcConfig (fun _ => 100000) (fun _ => 1) oneDebtPosition).1
          funds] ∧
        (∀ coin ∈ funds, ∃ tx ∈ (produceLiquidationTxs usdcConfig (fun _ => 100000) (fun _ => 1)
          oneDebtPosition).1, tx.debtDenom = coin.denom) ∧
        ∀ msg ∈ swaps, ∃ tx ∈ (produceLiquidationTxs usdcConfig (fun _ => 100000) (fun _ => 1)
            oneDebtPosition).1,
          ∃ route, WellFormed [atomPool] usdcConfig.neutralAssetDenom tx.debtDenom route ∧
            ∃ amountIn tokenOutMinAmount, msg = .swapExactAmountIn ⟨"osmo1", swapRoutes route,
              ⟨usdcConfig.neutralAssetDenom, amountIn⟩, tokenOutMinAmount⟩ :=
  have distinct : ∀ pool ∈ [atomPool], pool.DistinctDenoms := by decide
  ⟨distinct, firstMsgBatch_oneDebtPosition, firstMsgBatch_consistent usdcConfig [atomPool] distinct
    _ _ _ "osmo1" "osmo1" "osmo1filterer" firstMsgBatch_oneDebtPosition⟩

section Funding

variable (config : ExecutorConfig) (pools : List Pool) (liquidatorAddress : String)
  (neutralAvailable : ℚ) {debts : List Coin} {swaps : List MsgSwapExactAmountIn}
  {expected : DenomMap ℚ} {debt : Coin}

/-- The swaps a walk over some debts has appended back the assets it booked: only the debts'
denoms are booked; every swap is one for a debt, with the amount booked for the debt's denom,
rounded, as its minimum output; and every denom booked other than the neutral asset was bought by
such a swap. -/
structure FundsBacked (debts : List Coin) (swaps : List MsgSwapExactAmountIn)
    (expected : DenomMap ℚ) : Prop where
  /-- Only the debts' denoms are booked. -/
  keys : ∀ denom ∈ expected.keys, ∃ debt ∈ debts, debt.denom = denom
  /-- A swap's minimum output is what is booked for its debt's denom, rounded. -/
  swapped : ∀ swap ∈ swaps, ∃ debt ∈ debts,
    SwapFor config pools liquidatorAddress debt (.swapExactAmountIn swap) ∧
      (expected.get debt.denom).map toFixed = some swap.tokenOutMinAmount
  /-- A booked denom other than the neutral asset was bought by a swap for its debt. -/
  bought : ∀ debt ∈ debts, debt.denom ≠ config.neutralAssetDenom → ∀ held,
    expected.get debt.denom = some held → ∃ swap ∈ swaps,
      SwapFor config pools liquidatorAddress debt (.swapExactAmountIn swap) ∧
        swap.tokenOutMinAmount = toFixed held

theorem FundsBacked.get_eq_none (backed : FundsBacked config pools liquidatorAddress debts swaps
    expected) (fresh : debt.denom ∉ debts.map (·.denom)) : expected.get debt.denom = none := by
  refine Option.not_isSome_iff_eq_none.mp fun present => ?_
  obtain ⟨other, member, same⟩ := backed.keys _ (DenomMap.get_isSome.mp present)
  exact fresh (same ▸ List.mem_map_of_mem _ member)

/-- A debt of a fresh denom that books nothing keeps the swaps backing the bookings. -/
theorem FundsBacked.skip (backed : FundsBacked config pools liquidatorAddress debts swaps expected)
    (fresh : debt.denom ∉ debts.map (·.denom)) :
    FundsBacked config pools liquidatorAddress (debts ++ [debt]) swaps expected := by
  refine ⟨fun denom member => ?_, fun swap member => ?_, fun other member notNeutral held found => ?_⟩
  · obtain ⟨other, inDebts, same⟩ := backed.keys denom member
    exact ⟨other, List.mem_append_left _ inDebts, same⟩
  · obtain ⟨other, inDebts, backing⟩ := backed.swapped swap member
    exact ⟨other, List.mem_append_left _ inDebts, backing⟩
  · rcases List.mem_append.mp member with old | new
    · exact backed.bought other old notNeutral held found
    · obtain rfl := List.mem_singleton.mp new
      simp [backed.get_eq_none config pools liquidatorAddress fresh] at found

/-- Booking a fresh denom keeps the swaps backing the bookings, given that the swaps added with it
are for its debt, with the amount booked, rounded, as their minimum output, and that one of them
bought it unless it is the neutral asset. -/
theorem FundsBacked.book (backed : FundsBacked config pools liquidatorAddress debts swaps expected)
    (fresh : debt.denom ∉ debts.map (·.denom)) (amount : ℚ) (added : List MsgSwapExactAmountIn)
    (addedFor : ∀ swap ∈ added,
      SwapFor config pools liquidatorAddress debt (.swapExactAmountIn swap) ∧
        swap.tokenOutMinAmount = toFixed amount)
    (covered : debt.denom ≠ config.neutralAssetDenom → ∃ swap ∈ added,
      SwapFor config pools liquidatorAddress debt (.swapExactAmountIn swap) ∧
        swap.tokenOutMinAmount = toFixed amount) :
    FundsBacked config pools liquidatorAddress (debts ++ [debt]) (swaps ++ added)
      (expected.set debt.denom amount) := by
  have kept : ∀ other ∈ debts, (expected.set debt.denom amount).get other.denom =
      expected.get other.denom := fun other member => by
    rw [DenomMap.get_set,
      if_neg fun same : other.denom = debt.denom => fresh (same ▸ List.mem_map_of_mem _ member)]
  refine ⟨fun denom member => ?_, fun swap member => ?_, fun other member notNeutral held found => ?_⟩
  · rcases DenomMap.mem_keys_set.mp member with rfl | old
    · exact ⟨debt, List.mem_append_right _ (List.mem_singleton_self _), rfl⟩
    · obtain ⟨other, inDebts, same⟩ := backed.keys denom old
      exact ⟨other, List.mem_append_left _ inDebts, same⟩
  · rcases List.mem_append.mp member with old | new
    · obtain ⟨other, inDebts, swapFor, read⟩ := backed.swapped swap old
      exact ⟨other, List.mem_append_left _ inDebts, swapFor, by rw [kept other inDebts]; exact read⟩
    · obtain ⟨swapFor, minimum⟩ := addedFor swap new
      exact ⟨debt, List.mem_append_right _ (List.mem_singleton_self _), swapFor, by simp [minimum]⟩
  · rcases List.mem_append.mp member with old | new
    · obtain ⟨swap, inSwaps, backing⟩ :=
        backed.bought other old notNeutral held (by rwa [kept other old] at found)
      exact ⟨swap, List.mem_append_left _ inSwaps, backing⟩
    · obtain rfl := List.mem_singleton.mp new
      rw [DenomMap.get_set, if_pos rfl, Option.some.injEq] at found
      obtain ⟨swap, inAdded, backing⟩ := covered notNeutral
      exact ⟨swap, List.mem_append_right _ inAdded, found ▸ backing⟩

/-- One more debt of a fresh denom appends at most its swap and keeps the swaps backing the
bookings. -/
theorem FundsBacked.swapToDebt {state : DebtSwapState}
    (backed : FundsBacked config pools liquidatorAddress debts swaps
      state.expectedDebtAssetsPostSwap) (fresh : debt.denom ∉ debts.map (·.denom)) :
    ∃ added : List MsgSwapExactAmountIn,
      (swapToDebt config pools liquidatorAddress neutralAvailable state debt).msgs =
        state.msgs ++ added.map .swapExactAmountIn ∧
      FundsBacked config pools liquidatorAddress (debts ++ [debt]) (swaps ++ added)
        (swapToDebt config pools liquidatorAddress neutralAvailable state
          debt).expectedDebtAssetsPostSwap := by
  have unbooked := backed.get_eq_none config pools liquidatorAddress fresh
  rcases swapToDebt_cases config pools liquidatorAddress neutralAvailable state debt with
    same | ⟨-, neutral, booked⟩ | ⟨-, -, bestRoute, popped, swapped⟩
  · rw [same]
    exact ⟨[], by simp, by simpa using backed.skip config pools liquidatorAddress fresh⟩
  · have booking := backed.book config pools liquidatorAddress fresh
      (capByRemaining state.remainingNeutral debt.amount +
        (state.expectedDebtAssetsPostSwap.get debt.denom).getD 0) [] (by simp)
      fun notNeutral => absurd neutral notNeutral
    rw [booked]
    exact ⟨[], by simp, by simpa using booking⟩
  · rw [swapped]
    simp only [unbooked, Option.getD_none, add_zero]
    exact ⟨[_], rfl, backed.book config pools liquidatorAddress fresh _ _
      (fun swap member => by
        obtain rfl := List.mem_singleton.mp member
        exact ⟨⟨bestRoute, _, popped, rfl⟩, rfl⟩)
      fun _ => ⟨_, List.mem_singleton_self _, ⟨bestRoute, _, popped, rfl⟩, rfl⟩⟩

/-- A walk over debts of distinct denoms appends swaps that back every booking. -/
theorem FundsBacked.planDebtSwaps {state : DebtSwapState} (rest : List Coin)
    (backed : FundsBacked config pools liquidatorAddress debts swaps
      state.expectedDebtAssetsPostSwap)
    (nodup : ((debts ++ rest).map (·.denom)).Nodup) :
    ∃ added : List MsgSwapExactAmountIn,
      (planDebtSwaps config pools liquidatorAddress neutralAvailable state rest).msgs =
        state.msgs ++ added.map .swapExactAmountIn ∧
      FundsBacked config pools liquidatorAddress (debts ++ rest) (swaps ++ added)
        (planDebtSwaps config pools liquidatorAddress neutralAvailable state
          rest).expectedDebtAssetsPostSwap := by
  induction rest generalizing debts swaps state with
  | nil => exact ⟨[], by simp [planDebtSwaps], by simpa [planDebtSwaps] using backed⟩
  | cons debt rest induction =>
      have fresh : debt.denom ∉ debts.map (·.denom) := by
        rw [List.map_append, List.map_cons, List.nodup_append] at nodup
        exact fun member => nodup.2.2 member (List.mem_cons_self _ _)
      obtain ⟨added, appended, backed'⟩ :=
        backed.swapToDebt config pools liquidatorAddress neutralAvailable fresh
      obtain ⟨more, appended', backed''⟩ := induction backed' (by simpa using nodup)
      refine ⟨added ++ more, ?_, by simpa using backed''⟩
      rw [planDebtSwaps, List.foldl_cons, ← planDebtSwaps, appended', appended]
      simp

theorem coinsOf_denoms (m : DenomMap ℚ) : (coinsOf m).map (·.denom) = m.keys := by
  simp [coinsOf, DenomMap.keys]

end Funding

/-- The funds the first batch attaches to the `liquidate_many` call are backed by its swaps: the
batch is its swaps followed by the call; no two attached coins share a denom; every swap buys,
along the route popped for it, the denom of one of the debt coins, and its minimum output is
attached under that denom; and every attached coin other than the neutral asset is the minimum
output of such a swap. -/
theorem firstMsgBatch_funds_backed (config : ExecutorConfig) (pools : List Pool)
    (balances prices : Denom → ℚ) (positionData : List Position)
    (liquidatorAddress helperAddress filtererContract : String) {batch : List EncodeObject}
    (signed : firstMsgBatch config pools balances prices positionData liquidatorAddress
      helperAddress filtererContract = some batch) :
    ∃ (swaps : List MsgSwapExactAmountIn) (funds : List Coin),
      batch = swaps.map .swapExactAmountIn ++ [.executeContract helperAddress
        filtererContract (produceLiquidationTxs config balances prices positionData).1 funds] ∧
      (funds.map (·.denom)).Nodup ∧
      (∀ swap ∈ swaps, ∃ debt ∈ coinsOf (produceLiquidationTxs config balances prices
          positionData).2,
        SwapFor config pools liquidatorAddress debt (.swapExactAmountIn swap) ∧
          ⟨debt.denom, swap.tokenOutMinAmount⟩ ∈ funds) ∧
      ∀ coin ∈ funds, coin.denom ≠ config.neutralAssetDenom →
        ∃ debt ∈ coinsOf (produceLiquidationTxs config balances prices positionData).2,
          debt.denom = coin.denom ∧ ∃ swap ∈ swaps,
            SwapFor config pools liquidatorAddress debt (.swapExactAmountIn swap) ∧
              swap.tokenOutMinAmount = coin.amount := by
  unfold firstMsgBatch at signed
  dsimp only at signed
  split_ifs at signed
  obtain rfl := Option.some.inj signed
  have start : FundsBacked config pools liquidatorAddress [] []
      (⟨balances config.neutralAssetDenom, DenomMap.empty, []⟩ : DebtSwapState).expectedDebtAssetsPostSwap :=
    ⟨by simp, by simp, by simp⟩
  obtain ⟨swaps, appended, backed⟩ := FundsBacked.planDebtSwaps config pools liquidatorAddress
    (balances config.neutralAssetDenom) (coinsOf (produceLiquidationTxs config balances prices
      positionData).2) start (by rw [List.nil_append, coinsOf_denoms]; exact DenomMap.keys_nodup _)
  simp only [List.nil_append] at appended backed
  refine ⟨swaps, _, by rw [appendSwapToDebtMessages, appended],
    by rw [coinsOf_denoms]; exact DenomMap.keys_nodup _, fun swap member => ?_,
    fun coin member notNeutral => ?_⟩
  · obtain ⟨debt, inDebts, swapFor, read⟩ := backed.swapped swap member
    obtain ⟨held, found, rounded⟩ := Option.map_eq_some'.mp read
    exact ⟨debt, inDebts, swapFor, rounded ▸ List.mem_map_of_mem _ (DenomMap.mem_of_get found)⟩
  · obtain ⟨entry, inEntries, rfl⟩ := List.mem_map.mp member
    obtain ⟨debt, inDebts, same⟩ := backed.keys entry.1 (List.mem_map_of_mem _ inEntries)
    obtain ⟨swap, inSwaps, backing⟩ := backed.bought debt inDebts (same ▸ notNeutral) entry.2
      (same ▸ DenomMap.get_of_mem inEntries)
    exact ⟨debt, inDebts, same, swap, inSwaps, backing⟩

theorem firstMsgBatch_atomPool_funds_backed :
    firstMsgBatch usdcConfig [atomPool] (fun _ => 100000) (fun _ => 1) oneDebtPosition "osmo1"
        "osmo1" "osmo1filterer" = some atomBatch ∧
      ∃ (swaps : List MsgSwapExactAmountIn) (funds : List Coin),
        atomBatch = swaps.map .swapExactAmountIn ++ [.executeContract "osmo1"
          "osmo1filterer" (produceLiquidationTxs usdcConfig (fun _ => 100000) (fun _ => 1)
            oneDebtPosition).1 funds] ∧
        (funds.map (·.denom)).Nodup ∧
        (∀ swap ∈ swaps, ∃ debt ∈ coinsOf (produceLiquidationTxs usdcConfig (fun _ => 100000)
            (fun _ => 1) oneDebtPosition).2,
          SwapFor usdcConfig [atomPool] "osmo1" debt (.swapExactAmountIn swap) ∧
            ⟨debt.denom, swap.tokenOutMinAmount⟩ ∈ funds) ∧
        ∀ coin ∈ funds, coin.denom ≠ usdcConfig.neutralAssetDenom →
          ∃ debt ∈ coinsOf (produceLiquidationTxs usdcConfig (fun _ => 100000) (fun _ => 1)
              oneDebtPosition).2,
            debt.denom = coin.denom ∧ ∃ swap ∈ swaps,
              SwapFor usdcConfig [atomPool] "osmo1" debt (.swapExactAmountIn swap) ∧
                swap.tokenOutMinAmount = coin.amount :=
  ⟨firstMsgBatch_oneDebtPosition, firstMsgBatch_funds_backed usdcConfig [atomPool] _ _ _ "osmo1"
    "osmo1" "osmo1filterer" firstMsgBatch_oneDebtPosition⟩

end Executor

end Liquidator
