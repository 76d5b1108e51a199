import Liquidator.Executor.SwapPlanner

/-!
# Swapping collateral into the neutral asset

`Executor.appendSwapToNeutralMessages` walks the coins the liquidator holds once a batch has been
liquidated.  Every coin other than the neutral asset is swapped whole, less 100 tokens kept in the
gas denom, as soon as more than 1000 units of it can be spent.  The router's routes from its denom
to the neutral asset are sorted by estimated output, ascending and stably, and the last is popped:
the swap goes along the last of the routes of largest output.  The message accepts 97.5% of that
output, and the same minimum is added to the neutral coins expected back.

Whatever the coins, the walk is a `filterMap` of them: each coin gets its own swap or none
(`neutralSwapOf`), so the neutral coins expected back are the sum of the minimum outputs of the
swaps appended.

The loop prices with `this.ammRouter.getOutput`, which the `AMMRouter` of this source does not
define; as in the swaps into the debts, it is modelled, as the specification describes it, by
`getEstimatedOutput`.
-/

namespace Liquidator

namespace Executor

open AMMRouter

/-- What `appendSwapToNeutralMessages` carries across its `forEach`. -/
structure NeutralSwapState where
  /-- `expectedNeutralCoins`. -/
  expectedNeutralCoins : ℚ
  /-- The shared message batch. -/
  msgs : List EncodeObject

/-- `collateralAmount`: the whole coin, less 100 tokens (`100000000` units) of the gas denom kept
for gas. -/
def collateralAmount (config : ExecutorConfig) (collateral : Coin) : ℚ :=
  if collateral.denom = config.gasDenom then (collateral.amount : ℚ) - 100000000
  else collateral.amount

/-- `minOutput`: 97.5% of the estimated output along the route, `toFixed(0)`. -/
def minOutput (collateralAmount : ℚ) (bestRoute : Route) : ℤ :=
  toFixed (getEstimatedOutput collateralAmount bestRoute * (975 / 1000))

/-- The body of the `forEach` of `appendSwapToNeutralMessages`, for one coin other than the
neutral asset. -/
def swapToNeutral (config : ExecutorConfig) (pools : List Pool) (liquidatorAddress : String)
    (state : NeutralSwapState) (collateral : Coin) : NeutralSwapState :=
  let collateralAmount := collateralAmount config collateral
  if collateralAmount > 1000 then
    let routeOptions := getRoutes pools collateral.denom config.neutralAssetDenom
    match sortPop (getEstimatedOutput collateralAmount) routeOptions with
    | none => state
    | some bestRoute =>
        let minOutput := minOutput collateralAmount bestRoute
        { expectedNeutralCoins := state.expectedNeutralCoins + minOutput
          msgs := state.msgs ++ [.swapExactAmountIn ⟨liquidatorAddress, swapRoutes bestRoute,
            ⟨collateral.denom, toFixed collateralAmount⟩, minOutput⟩] }
  else state

/-- `Executor.appendSwapToNeutralMessages`: the neutral coins expected back, and the batch with
the swap messages appended. -/
def appendSwapToNeutralMessages (config : ExecutorConfig) (pools : List Pool) (coins : List Coin)
    (liquidatorAddress : String) (msgs : List EncodeObject) : ℚ × List EncodeObject :=
  let state := (coins.filter fun collateral => collateral.denom ≠ config.neutralAssetDenom).foldl
    (swapToNeutral config pools liquidatorAddress) ⟨0, msgs⟩
  (state.expectedNeutralCoins, state.msgs)

/-- A swap of a collateral coin along the last of the routes of largest estimated output: every
route before it yields at most its output, every route after it less. -/
def SwapToNeutralFor (config : ExecutorConfig) (pools : List Pool) (liquidatorAddress : String)
    (collateral : Coin) (msg : EncodeObject) : Prop :=
  let amount := collateralAmount config collateral
  ∃ front bestRoute back,
    getRoutes pools collateral.denom config.neutralAssetDenom = front ++ bestRoute :: back ∧
      (∀ route ∈ front, getEstimatedOutput amount route ≤ getEstimatedOutput amount bestRoute) ∧
      (∀ route ∈ back, getEstimatedOutput amount route < getEstimatedOutput amount bestRoute) ∧
      msg = .swapExactAmountIn ⟨liquidatorAddress, swapRoutes bestRoute,
        ⟨collateral.denom, toFixed amount⟩, minOutput amount bestRoute⟩

section Run

variable (config : ExecutorConfig) (pools : List Pool) (liquidatorAddress : String)

/-- The popped route is the last of the routes of largest output, so the swap along it is one
`SwapToNeutralFor` describes. -/
theorem swapToNeutralFor_of_popped {collateral : Coin} {bestRoute : Route}
    (popped : sortPop (getEstimatedOutput (collateralAmount config collateral))
      (getRoutes pools collateral.denom config.neutralAssetDenom) = some bestRoute) :
    SwapToNeutralFor config pools liquidatorAddress collateral
      (.swapExactAmountIn ⟨liquidatorAddress, swapRoutes bestRoute,
        ⟨collateral.denom, toFixed (collateralAmount config collateral)⟩,
        minOutput (collateralAmount config collateral) bestRoute⟩) :=
  let ⟨front, back, split, frontLe, backLt⟩ :=
    lastMax_eq_some ((sortPop_eq_lastMax _ _).symm.trans popped)
  ⟨front, bestRoute, back, split, frontLe, backLt, rfl⟩

/-- Everything one coin can do to the state: nothing, which for a coin with more than 1000 units
to spend means the router has no route for it; or add the minimum output along the popped route
to the coins expected and append the swap. -/
theorem swapToNeutral_cases (state : NeutralSwapState) (collateral : Coin) :
    swapToNeutral config pools liquidatorAddress state collateral = state ∧
        (1000 < collateralAmount config collateral →
          getRoutes pools collateral.denom config.neutralAssetDenom = []) ∨
      1000 < collateralAmount config collateral ∧ ∃ bestRoute,
        sortPop (getEstimatedOutput (collateralAmount config collateral))
            (getRoutes pools collateral.denom config.neutralAssetDenom) = some bestRoute ∧
        swapToNeutral config pools liquidatorAddress state collateral =
          { expectedNeutralCoins := state.expectedNeutralCoins +
              minOutput (collateralAmount config collateral) bestRoute
            msgs := state.msgs ++ [.swapExactAmountIn ⟨liquidatorAddress, swapRoutes bestRoute,
              ⟨collateral.denom, toFixed (collateralAmount config collateral)⟩,
              minOutput (collateralAmount config collateral) bestRoute⟩] } := by
  unfold swapToNeutral
  dsimp only
  split_ifs with spendable
  · split
    · next none_popped => exact .inl ⟨rfl, fun _ => sortPop_eq_none.mp none_popped⟩
    · next bestRoute popped => exact .inr ⟨spendable, bestRoute, popped, rfl⟩
  · exact .inl ⟨rfl, fun spendable' => absurd spendable' spendable⟩

/-- The walk over the coins appends one swap for each coin with more than 1000 units to spend and
a route, and nothing else: each appended message swaps one of the coins along the last of its
routes of largest output. -/
theorem planNeutralSwaps_msgs (collaterals : List Coin) (state : NeutralSwapState) :
    ∃ appended, (collaterals.foldl (swapToNeutral config pools liquidatorAddress) state).msgs =
        state.msgs ++ appended ∧
      (∀ msg ∈ appended, ∃ collateral ∈ collaterals, 1000 < collateralAmount config collateral ∧
        SwapToNeutralFor config pools liquidatorAddress collateral msg) ∧
      ∀ collateral ∈ collaterals, 1000 < collateralAmount config collateral →
        getRoutes pools collateral.denom config.neutralAssetDenom ≠ [] →
          ∃ msg ∈ appended, SwapToNeutralFor config pools liquidatorAddress collateral msg := by
  induction collaterals generalizing state with
  | nil => exact ⟨[], by simp, by simp, by simp⟩
  | cons collateral rest induction =>
      obtain ⟨appended, msgs_eq, swaps, swapped⟩ :=
        induction (swapToNeutral config pools liquidatorAddress state collateral)
      have later : ∀ msg ∈ appended, ∃ other ∈ collateral :: rest,
          1000 < collateralAmount config other ∧
            SwapToNeutralFor config pools liquidatorAddress other msg := fun msg member =>
        let ⟨other, inRest, swap⟩ := swaps msg member
        ⟨other, List.mem_cons_of_mem _ inRest, swap⟩
      rw [List.foldl_cons, msgs_eq]
      rcases swapToNeutral_cases config pools liquidatorAddress state collateral with
        ⟨same, noRoute⟩ | ⟨spendable, bestRoute, popped, appendedOne⟩
      · rw [same]
        refine ⟨appended, rfl, later, fun other member spendable routes => ?_⟩
        rcases List.mem_cons.mp member with rfl | inRest
        · exact absurd (noRoute spendable) routes
        · exact swapped other inRest spendable routes
      · rw [appendedOne]
        refine ⟨_ :: appended, List.append_assoc _ _ _, fun msg member => ?_,
          fun other member spendable routes => ?_⟩
        · rcases List.mem_cons.mp member with rfl | member
          · exact ⟨collateral, List.mem_cons_self _ _, spendable,
              swapToNeutralFor_of_popped config pools liquidatorAddress popped⟩
          · exact later msg member
        · rcases List.mem_cons.mp member with rfl | inRest
          · exact ⟨_, List.mem_cons_self _ _,
              swapToNeutralFor_of_popped config pools liquidatorAddress popped⟩
          · obtain ⟨msg, inAppended, swap⟩ := swapped other inRest spendable routes
            exact ⟨msg, List.mem_cons_of_mem _ inAppended, swap⟩

end Run

/-- `appendSwapToNeutralMessages` appends a swap for every coin other than the neutral asset
with more than 1000 units to spend and a route to the neutral asset, and every swap it appends
trades such a coin along the last of the routes of largest estimated output among the router's
routes from its denom to the neutral asset. -/
theorem appendSwapToNeutralMessages_best_route (config : ExecutorConfig) (pools : List Pool)
    (coins : List Coin) (liquidatorAddress : String) (msgs : List EncodeObject) :
    ∃ appended,
      (appendSwapToNeutralMessages config pools coins liquidatorAddress msgs).2 = msgs ++ appended ∧
        (∀ msg ∈ appended, ∃ collateral ∈ coins, collateral.denom ≠ config.neutralAssetDenom ∧
          1000 < collateralAmount config collateral ∧
            SwapToNeutralFor config pools liquidatorAddress collateral msg) ∧
        ∀ collateral ∈ coins, collateral.denom ≠ config.neutralAssetDenom →
          1000 < collateralAmount config collateral →
          getRoutes pools collateral.denom config.neutralAssetDenom ≠ [] →
            ∃ msg ∈ appended, SwapToNeutralFor config pools liquidatorAddress collateral msg := by
  obtain ⟨appended, msgs_eq, swaps, swapped⟩ := planNeutralSwaps_msgs config pools
    liquidatorAddress
    (coins.filter fun collateral => collateral.denom ≠ config.neutralAssetDenom) ⟨0, msgs⟩
  refine ⟨appended, msgs_eq, fun msg member => ?_, fun collateral member notNeutral =>
    swapped collateral (List.mem_filter.mpr ⟨member, decide_eq_true notNeutral⟩)⟩
  obtain ⟨collateral, kept, spendable, swap⟩ := swaps msg member
  obtain ⟨inCoins, notNeutral⟩ := List.mem_filter.mp kept
  exact ⟨collateral, inCoins, of_decide_eq_true notNeutral, spendable, swap⟩

section CollateralSwaps

/-- What the swaps keep of a denom: 100 tokens of the gas denom. -/
def gasReserve (config : ExecutorConfig) (denom : Denom) : ℤ :=
  if denom = config.gasDenom then 100000000 else 0

variable (config : ExecutorConfig) (pools : List Pool) (liquidatorAddress : String)

theorem gasReserve_bounds (denom : Denom) :
    0 ≤ gasReserve config denom ∧ gasReserve config denom ≤ 100000000 := by
  unfold gasReserve
  split_ifs <;> omega

/-- The swap a coin gets from the collateral loop, if any: its amount less the gas reserve, along
the popped route, once more than 1000 units can be spent. -/
def neutralSwapOf (collateral : Coin) : Option MsgSwapExactAmountIn :=
  let collateralAmount := collateralAmount config collateral
  if collateralAmount > 1000 then
    (sortPop (getEstimatedOutput collateralAmount)
        (getRoutes pools collateral.denom config.neutralAssetDenom)).map fun bestRoute =>
      ⟨liquidatorAddress, swapRoutes bestRoute, ⟨collateral.denom, toFixed collateralAmount⟩,
        minOutput collateralAmount bestRoute⟩
  else none

theorem collateralAmount_eq (collateral : Coin) :
    collateralAmount config collateral =
      ((collateral.amount - gasReserve config collateral.denom : ℤ) : ℚ) := by
  unfold collateralAmount gasReserve
  split_ifs <;> simp

/-- One coin adds the minimum output of its swap, if it gets one, to the coins expected, and
appends that swap. -/
theorem swapToNeutral_eq (state : NeutralSwapState) (collateral : Coin) :
    swapToNeutral config pools liquidatorAddress state collateral =
      ⟨state.expectedNeutralCoins + (((neutralSwapOf config pools liquidatorAddress
          collateral).map (·.tokenOutMinAmount)).getD 0 : ℤ),
        state.msgs ++
          ((neutralSwapOf config pools liquidatorAddress collateral).map .swapExactAmountIn).toList⟩ := by
  unfold swapToNeutral neutralSwapOf
  dsimp only
  split_ifs
  · split <;> simp_all
  · simp

/-- The collateral loop appends the swaps of the coins that get one, in order, and adds up their
minimum outputs. -/
theorem foldl_swapToNeutral (collaterals : List Coin) (state : NeutralSwapState) :
    collaterals.foldl (swapToNeutral config pools liquidatorAddress) state =
      ⟨state.expectedNeutralCoins + (((collaterals.filterMap (neutralSwapOf config pools
          liquidatorAddress)).map (·.tokenOutMinAmount)).sum : ℤ),
        state.msgs ++ (collaterals.filterMap (neutralSwapOf config pools liquidatorAddress)).map
          .swapExactAmountIn⟩ := by
  induction collaterals generalizing state with
  | nil => simp
  | cons collateral rest induction =>
      rw [List.foldl_cons, induction, swapToNeutral_eq, List.filterMap_cons]
      cases neutralSwapOf config pools liquidatorAddress collateral <;> simp [add_assoc]

theorem neutralSwapOf_eq_some {collateral : Coin} {swap : MsgSwapExactAmountIn}
    (swapped : neutralSwapOf config pools liquidatorAddress collateral = some swap) :
    swap.sender = liquidatorAddress ∧
      swap.tokenIn = ⟨collateral.denom, collateral.amount - gasReserve config collateral.denom⟩ ∧
      1000 < collateral.amount - gasReserve config collateral.denom := by
  simp only [neutralSwapOf, collateralAmount_eq] at swapped
  split_ifs at swapped with spendable
  obtain ⟨bestRoute, -, rfl⟩ := Option.map_eq_some'.mp swapped
  exact ⟨rfl, by rw [toFixed, roundHalfUp_intCast], by exact_mod_cast spendable⟩

theorem neutralSwapOf_isSome {collateral : Coin}
    (spendable : 1000 < collateralAmount config collateral)
    (routed : getRoutes pools collateral.denom config.neutralAssetDenom ≠ []) :
    (neutralSwapOf config pools liquidatorAddress collateral).isSome := by
  unfold neutralSwapOf
  rw [if_pos spendable, Option.isSome_map']
  exact Option.ne_none_iff_isSome.mp (mt sortPop_eq_none.mp routed)

/-- A coin's swap is of its own denom, so the swaps' denoms are among the coins'. -/
theorem filterMap_neutralSwapOf_denoms (coins : List Coin) :
    List.Sublist ((coins.filterMap (neutralSwapOf config pools liquidatorAddress)).map
      (·.tokenIn.denom)) (coins.map (·.denom)) := by
  induction coins with
  | nil => exact .slnil
  | cons coin rest induction =>
      rw [List.filterMap_cons]
      cases swapped : neutralSwapOf config pools liquidatorAddress coin with
      | none => exact induction.cons _
      | some swap =>
          simpa [(neutralSwapOf_eq_some config pools liquidatorAddress swapped).2.1] using
            induction.cons₂ coin.denom

end CollateralSwaps

/-- `appendSwapToNeutralMessages` reports as the neutral coins expected back exactly the sum of
the minimum outputs of the swaps it appends. -/
theorem appendSwapToNeutralMessages_expected (config : ExecutorConfig) (pools : List Pool)
    (coins : List Coin) (liquidatorAddress : String) (msgs : List EncodeObject) :
    ∃ swaps : List MsgSwapExactAmountIn,
      (appendSwapToNeutralMessages config pools coins liquidatorAddress msgs).2 =
          msgs ++ swaps.map .swapExactAmountIn ∧
        (appendSwapToNeutralMessages config pools coins liquidatorAddress msgs).1 =
          ((swaps.map (·.tokenOutMinAmount)).sum : ℤ) := by
  refine ⟨(coins.filter fun collateral => collateral.denom ≠ config.neutralAssetDenom).filterMap
    (neutralSwapOf config pools liquidatorAddress), ?_, ?_⟩ <;>
    simp [appendSwapToNeutralMessages, foldl_swapToNeutral]

section CombineBalances

/-- The first `forEach` of `combineBalances`: a collateral's coin, filed under its denom over
whatever was there. -/
def setCollateral (coinMap : DenomMap Coin) (collateral : Collateral) : DenomMap Coin :=
  coinMap.set collateral.denom ⟨collateral.denom, collateral.amount⟩

/-- The second `forEach` of `combineBalances`: a balance added to the coin of its denom, a
missing coin read as `0`. -/
def addBalance (coinMap : DenomMap Coin) (balance : Coin) : DenomMap Coin :=
  let existingBalance := ((coinMap.get balance.denom).map (·.amount)).getD 0
  coinMap.set balance.denom ⟨balance.denom, existingBalance + balance.amount⟩

/-- `Executor.combineBalances`: the withdrawn collaterals and the wallet balances merged by
denom, in the map's insertion order. -/
def combineBalances (collaterals : List Collateral) (balances : List Coin) : List Coin :=
  let coinMap := collaterals.foldl setCollateral DenomMap.empty
  let coinMap := balances.foldl addBalance coinMap
  coinMap.entries.map Prod.snd

/-- The amount a coin map holds of a denom, `0` when it has no coin of it. -/
def amountOf (coinMap : DenomMap Coin) (denom : Denom) : ℤ :=
  ((coinMap.get denom).map (·.amount)).getD 0

/-- The amount of the first collateral of a denom, `0` when there is none. -/
def collateralAmountOf (collaterals : List Collateral) (denom : Denom) : ℤ :=
  ((collaterals.find? (·.denom = denom)).map fun collateral => (collateral.amount : ℤ)).getD 0

/-- The amounts of the balances of a denom, summed. -/
def balanceTotal (balances : List Coin) (denom : Denom) : ℤ :=
  ((balances.filter (·.denom = denom)).map (·.amount)).sum

/-- Every coin of the map is filed under its own denom. -/
def KeyedByDenom (coinMap : DenomMap Coin) : Prop :=
  ∀ denom coin, coinMap.get denom = some coin → coin.denom = denom

variable {coinMap : DenomMap Coin} {denom : Denom}

theorem amountOf_set (coinMap : DenomMap Coin) (key : Denom) (coin : Coin) (denom : Denom) :
    amountOf (coinMap.set key coin) denom =
      if denom = key then coin.amount else amountOf coinMap denom := by
  unfold amountOf
  rw [DenomMap.get_set]
  split_ifs <;> rfl

theorem amountOf_setCollateral (collateral : Collateral) :
    amountOf (setCollateral coinMap collateral) denom =
      if denom = collateral.denom then (collateral.amount : ℤ) else amountOf coinMap denom :=
  amountOf_set coinMap _ _ denom

theorem amountOf_addBalance (balance : Coin) :
    amountOf (addBalance coinMap balance) denom =
      amountOf coinMap denom + if balance.denom = denom then balance.amount else 0 := by
  rw [addBalance, amountOf_set]
  by_cases same : denom = balance.denom
  · simp [same, amountOf, add_comm]
  · simp [same, Ne.symm same]

theorem KeyedByDenom.set (keyed : KeyedByDenom coinMap) (coin : Coin) :
    KeyedByDenom (coinMap.set coin.denom coin) := by
  intro denom found picked
  rw [DenomMap.get_set] at picked
  split_ifs at picked with same
  · obtain rfl := Option.some.inj picked
    exact same.symm
  · exact keyed denom found picked

/-- A loop that files each coin it builds under the coin's own denom keeps the map keyed. -/
theorem KeyedByDenom.foldl {β : Type} (coinOf : DenomMap Coin → β → Coin) (items : List β)
    (keyed : KeyedByDenom coinMap) :
    KeyedByDenom (items.foldl (fun coinMap item =>
      coinMap.set (coinOf coinMap item).denom (coinOf coinMap item)) coinMap) := by
  induction items generalizing coinMap with
  | nil => exact keyed
  | cons item items induction => exact induction (keyed.set _)

theorem mem_keys_foldl_setCollateral (collaterals : List Collateral) :
    denom ∈ (collaterals.foldl setCollateral coinMap).keys ↔
      denom ∈ collaterals.map (·.denom) ∨ denom ∈ coinMap.keys :=
  DenomMap.mem_keys_foldl_set (fun collateral : Collateral => collateral.denom)
    (fun _ collateral => (⟨collateral.denom, collateral.amount⟩ : Coin)) collaterals coinMap denom

theorem mem_keys_foldl_addBalance (balances : List Coin) :
    denom ∈ (balances.foldl addBalance coinMap).keys ↔
      denom ∈ balances.map (·.denom) ∨ denom ∈ coinMap.keys :=
  DenomMap.mem_keys_foldl_set (fun balance : Coin => balance.denom)
    (fun coinMap (balance : Coin) =>
      (⟨balance.denom, amountOf coinMap balance.denom + balance.amount⟩ : Coin))
    balances coinMap denom

/-- With distinct collateral denoms, the collateral loop leaves each denom's collateral amount,
or what was there for a denom with no collateral. -/
theorem amountOf_foldl_setCollateral (collaterals : List Collateral)
    (nodup : (collaterals.map (·.denom)).Nodup) (coinMap : DenomMap Coin) :
    amountOf (collaterals.foldl setCollateral coinMap) denom =
      ((collaterals.find? (·.denom = denom)).map fun collateral => (collateral.amount : ℤ)).getD
        (amountOf coinMap denom) := by
  induction collaterals generalizing coinMap with
  | nil => rfl
  | cons collateral rest induction =>
      rw [List.map_cons, List.nodup_cons] at nodup
      rw [List.foldl_cons, induction nodup.2, amountOf_setCollateral]
      by_cases same : collateral.denom = denom
      · subst same
        have absent : rest.find? (·.denom = collateral.denom) = none := by
          rw [List.find?_eq_none]
          intro other member
          simpa using fun same => nodup.1 (List.mem_map.mpr ⟨other, member, same⟩)
        simp [absent]
      · simp [same, Ne.symm same]

/-- The balance loop adds to each denom's amount the balances of that denom. -/
theorem amountOf_foldl_addBalance (balances : List Coin) (coinMap : DenomMap Coin) :
    amountOf (balances.foldl addBalance coinMap) denom =
      amountOf coinMap denom + balanceTotal balances denom := by
  induction balances generalizing coinMap with
  | nil => simp [balanceTotal]
  | cons balance rest induction =>
      rw [List.foldl_cons, induction, amountOf_addBalance]
      by_cases same : balance.denom = denom <;> simp [balanceTotal, same, add_assoc]

/-- `combineBalances` loses and duplicates nothing: its coins have distinct denoms, those of the
collaterals and the balances, and each holds the collateral of its denom plus its balances. -/
theorem combineBalances_merges_by_denom (collaterals : List Collateral) (balances : List Coin)
    (nodup : (collaterals.map (·.denom)).Nodup) :
    ((combineBalances collaterals balances).map (·.denom)).Nodup ∧
      (∀ denom, denom ∈ (combineBalances collaterals balances).map (·.denom) ↔
        denom ∈ collaterals.map (·.denom) ∨ denom ∈ balances.map (·.denom)) ∧
      ∀ coin ∈ combineBalances collaterals balances,
        coin.amount = collateralAmountOf collaterals coin.denom + balanceTotal balances coin.denom := by
  have keyed :
      KeyedByDenom (balances.foldl addBalance (collaterals.foldl setCollateral DenomMap.empty)) :=
    KeyedByDenom.foldl (fun coinMap (balance : Coin) =>
        (⟨balance.denom, amountOf coinMap balance.denom + balance.amount⟩ : Coin)) balances
      (KeyedByDenom.foldl (fun _ (collateral : Collateral) =>
        (⟨collateral.denom, collateral.amount⟩ : Coin)) collaterals
        fun _ _ (found : (DenomMap.empty : DenomMap Coin).get _ = _) => by simp at found)
  have denoms : (combineBalances collaterals balances).map (·.denom) =
      (balances.foldl addBalance (collaterals.foldl setCollateral DenomMap.empty)).keys := by
    rw [combineBalances, List.map_map]
    exact List.map_congr_left fun entry member => keyed entry.1 entry.2 (DenomMap.get_of_mem member)
  refine ⟨by rw [denoms]; exact DenomMap.keys_nodup _, fun denom => ?_, fun coin member => ?_⟩
  · rw [denoms, mem_keys_foldl_addBalance, mem_keys_foldl_setCollateral]
    simp [or_comm]
  · obtain ⟨entry, inEntries, rfl⟩ := List.mem_map.mp member
    have found := DenomMap.get_of_mem inEntries
    have held : amountOf
        (balances.foldl addBalance (collaterals.foldl setCollateral DenomMap.empty)) entry.2.denom =
          entry.2.amount := by
      rw [amountOf, keyed _ _ found, found]
      rfl
    rw [← held, amountOf_foldl_addBalance, amountOf_foldl_setCollateral collaterals nodup]
    rfl

/-- Collaterals withdrawn after a batch: atom, and osmo above the gas reserve. -/
def withdrawnCollaterals : List Collateral := [⟨"uatom", 5000⟩, ⟨"uosmo", 300000000⟩]

/-- Wallet balances with atom twice and a denom no collateral has. -/
def walletBalances : List Coin := [⟨"uatom", 20⟩, ⟨"uusdc", 7⟩, ⟨"uatom", 1⟩]

theorem combineBalances_withdrawnAndWallet :
    (withdrawnCollaterals.map (·.denom)).Nodup ∧
      ((combineBalances withdrawnCollaterals walletBalances).map (·.denom)).Nodup ∧
      (∀ denom, denom ∈ (combineBalances withdrawnCollaterals walletBalances).map (·.denom) ↔
        denom ∈ withdrawnCollaterals.map (·.denom) ∨ denom ∈ walletBalances.map (·.denom)) ∧
      ∀ coin ∈ combineBalances withdrawnCollaterals walletBalances,
        coin.amount = collateralAmountOf withdrawnCollaterals coin.denom +
          balanceTotal walletBalances coin.denom :=
  have nodup : (withdrawnCollaterals.map (·.denom)).Nodup := by decide
  ⟨nodup, combineBalances_merges_by_denom withdrawnCollaterals walletBalances nodup⟩

end CombineBalances

end Executor

end Liquidator
