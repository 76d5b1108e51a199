import Liquidator.Executor.NeutralSwaps
import Liquidator.Executor.RedBank

/-!
# The second batch of `run`

Once the liquidations have gone through, `Executor.run` reads the collaterals the liquidator holds
at the Red Bank and its wallet balances, merges them by denom with `combineBalances`, and signs a
second batch: a withdrawal of every collateral, then the swaps `appendSwapToNeutralMessages`
plans for the merged coins.

For collaterals of distinct denoms, as the Red Bank reports them, the batch spends exactly what
the liquidator holds once the withdrawals have gone through: it swaps each denom at most once,
never the neutral asset, and then all the units held of it less the 100 tokens of the gas denom
kept for gas; and it swaps every denom of which more than 1000 units can be spent and the router
has a route to the neutral asset.

`combineBalances` and the collateral loop pass amounts through a JavaScript `Number`, which the
model reads as exact integers.  That reading is the code's own while the liquidator holds less
than `2^53` units of every denom: then every conversion and every float addition on the way is
exact (`NumberExact`), and the theorem is stated for such holdings.
-/

namespace Liquidator

namespace Executor

open AMMRouter

/-- The second batch of `Executor.run`: the withdrawals pushed on an empty batch, then the swaps
`appendSwapToNeutralMessages` pushes after them.  The planner only appends
(`foldl_swapToNeutral`), so its swaps are planned on an empty batch and appended. -/
def secondMsgBatch (config : ExecutorConfig) (pools : List Pool) (collaterals : List Collateral)
    (balances : List Coin) (liquidatorAddress redbankAddress : String) : List BatchMsg :=
  let combinedCoins := combineBalances collaterals balances
  let secondBatch := appendWithdrawMessages collaterals liquidatorAddress redbankAddress []
  secondBatch ++
    (appendSwapToNeutralMessages config pools combinedCoins liquidatorAddress []).2.map .planned

/-- What the liquidator holds of a denom once its collaterals are withdrawn. -/
def heldAfterWithdrawals (collaterals : List Collateral) (balances : List Coin) (denom : Denom) :
    ℤ :=
  collateralAmountOf collaterals denom + balanceTotal balances denom

/-- A second batch that withdraws every collateral, in order, and then swaps into the neutral
asset: each denom at most once, never the neutral asset, all the units held of it after the
withdrawals less the gas reserve, and only above 1000 units; and every such denom with a route. -/
def SweepsHoldings (config : ExecutorConfig) (pools : List Pool) (collaterals : List Collateral)
    (balances : List Coin) (liquidatorAddress redbankAddress : String) (batch : List BatchMsg) :
    Prop :=
  ∃ swaps : List MsgSwapExactAmountIn,
    batch = collaterals.map (fun collateral =>
        .redbank (.withdraw liquidatorAddress collateral.denom redbankAddress)) ++
      swaps.map (fun swap => .planned (.swapExactAmountIn swap)) ∧
    (swaps.map (·.tokenIn.denom)).Nodup ∧
    (∀ swap ∈ swaps, swap.sender = liquidatorAddress ∧
      swap.tokenIn.denom ≠ config.neutralAssetDenom ∧
      swap.tokenIn.amount = heldAfterWithdrawals collaterals balances swap.tokenIn.denom -
        gasReserve config swap.tokenIn.denom ∧
      1000 < swap.tokenIn.amount) ∧
    ∀ denom, denom ≠ config.neutralAssetDenom →
      1000 < heldAfterWithdrawals collaterals balances denom - gasReserve config denom →
      getRoutes pools denom config.neutralAssetDenom ≠ [] →
        denom ∈ swaps.map (·.tokenIn.denom)

/-- The `Number` conversions of the second batch return the integers the model computes:
`combineBalances` reads each collateral amount through `Number`, and for each balance adds
`Number` of the amount held so far to `Number` of the balance as doubles; the collateral loop
prints the amount it swaps with `Number(collateralAmount).toFixed(0)`.  Each value being a safe
integer, `toFixed(0)` also prints it in full. -/
structure NumberExact (config : ExecutorConfig) (collaterals : List Collateral)
    (balances : List Coin) : Prop where
  collateralAmounts : ∀ collateral ∈ collaterals,
    toNumber collateral.amount = collateral.amount
  balanceSums : ∀ front balance rest, balances = front ++ balance :: rest →
    toNumber (toNumber (amountOf (front.foldl addBalance
        (collaterals.foldl setCollateral DenomMap.empty)) balance.denom) +
      toNumber balance.amount) =
    amountOf (front.foldl addBalance (collaterals.foldl setCollateral DenomMap.empty))
      balance.denom + balance.amount
  swapInputs : ∀ coin ∈ combineBalances collaterals balances,
    toNumber (coin.amount - gasReserve config coin.denom) =
      coin.amount - gasReserve config coin.denom

section Holdings

variable {collaterals : List Collateral} {balances : List Coin} {denom : Denom}

theorem collateralAmountOf_nonneg : 0 ≤ collateralAmountOf collaterals denom := by
  unfold collateralAmountOf
  cases collaterals.find? (·.denom = denom) <;> simp

theorem collateralAmountOf_of_mem (nodup : (collaterals.map (·.denom)).Nodup)
    {collateral : Collateral} (member : collateral ∈ collaterals) :
    collateralAmountOf collaterals collateral.denom = collateral.amount := by
  induction collaterals with
  | nil => cases member
  | cons head rest induction =>
      rw [List.map_cons, List.nodup_cons] at nodup
      rcases List.mem_cons.mp member with rfl | inRest
      · simp [collateralAmountOf]
      · have other : head.denom ≠ collateral.denom := fun same =>
          nodup.1 (same ▸ List.mem_map_of_mem _ inRest)
        simpa [collateralAmountOf, other] using induction nodup.2 inRest

theorem balanceTotal_append (front rest : List Coin) :
    balanceTotal (front ++ rest) denom = balanceTotal front denom + balanceTotal rest denom := by
  simp [balanceTotal]

theorem balanceTotal_cons_self (balance : Coin) (rest : List Coin) :
    balanceTotal (balance :: rest) balance.denom =
      balance.amount + balanceTotal rest balance.denom := by
  simp [balanceTotal]

theorem balanceTotal_nonneg (nonneg : ∀ balance ∈ balances, 0 ≤ balance.amount)
    (denom : Denom) : 0 ≤ balanceTotal balances denom :=
  List.sum_nonneg fun _ member => by
    obtain ⟨balance, kept, rfl⟩ := List.mem_map.mp member
    exact nonneg balance (List.mem_filter.mp kept).1

theorem heldAfterWithdrawals_nonneg (collaterals : List Collateral)
    (nonneg : ∀ balance ∈ balances, 0 ≤ balance.amount) (denom : Denom) :
    0 ≤ heldAfterWithdrawals collaterals balances denom :=
  add_nonneg collateralAmountOf_nonneg (balanceTotal_nonneg nonneg denom)

end Holdings

section Combined

variable {collaterals : List Collateral} {balances : List Coin}

theorem keyedByDenom_combined (collaterals : List Collateral) (balances : List Coin) :
    KeyedByDenom (balances.foldl addBalance (collaterals.foldl setCollateral DenomMap.empty)) :=
  KeyedByDenom.foldl (fun coinMap (balance : Coin) =>
      (⟨balance.denom, amountOf coinMap balance.denom + balance.amount⟩ : Coin)) balances
    (KeyedByDenom.foldl (fun _ (collateral : Collateral) =>
      (⟨collateral.denom, collateral.amount⟩ : Coin)) collaterals
      fun _ _ (found : (DenomMap.empty : DenomMap Coin).get _ = _) => by simp at found)

theorem amountOf_combined (nodup : (collaterals.map (·.denom)).Nodup) (denom : Denom) :
    amountOf (balances.foldl addBalance (collaterals.foldl setCollateral DenomMap.empty)) denom =
      heldAfterWithdrawals collaterals balances denom := by
  rw [amountOf_foldl_addBalance, amountOf_foldl_setCollateral collaterals nodup]
  rfl

theorem combineBalances_denoms_nodup (collaterals : List Collateral) (balances : List Coin) :
    ((combineBalances collaterals balances).map (·.denom)).Nodup := by
  rw [combineBalances, List.map_map]
  convert DenomMap.keys_nodup (balances.foldl addBalance (collaterals.foldl setCollateral
    DenomMap.empty)) using 1
  exact List.map_congr_left fun entry member =>
    keyedByDenom_combined collaterals balances entry.1 entry.2 (DenomMap.get_of_mem member)

/-- Each merged coin holds what the liquidator holds of its denom after the withdrawals. -/
theorem amount_of_mem_combineBalances (nodup : (collaterals.map (·.denom)).Nodup) {coin : Coin}
    (member : coin ∈ combineBalances collaterals balances) :
    coin.amount = heldAfterWithdrawals collaterals balances coin.denom := by
  obtain ⟨entry, inEntries, rfl⟩ := List.mem_map.mp member
  have found := DenomMap.get_of_mem inEntries
  rw [← amountOf_combined nodup, amountOf,
    keyedByDenom_combined collaterals balances _ _ found, found]
  rfl

/-- A denom the liquidator holds any of after the withdrawals has a merged coin. -/
theorem exists_mem_combineBalances (nodup : (collaterals.map (·.denom)).Nodup) {denom : Denom}
    (held : heldAfterWithdrawals collaterals balances denom ≠ 0) :
    ∃ coin ∈ combineBalances collaterals balances, coin.denom = denom := by
  rw [← amountOf_combined nodup, amountOf] at held
  have present : denom ∈ (balances.foldl addBalance
      (collaterals.foldl setCollateral DenomMap.empty)).keys :=
    DenomMap.get_isSome.mp (Option.isSome_iff_ne_none.mpr fun missing => by simp [missing] at held)
  obtain ⟨entry, inEntries, rfl⟩ := List.mem_map.mp present
  exact ⟨entry.2, List.mem_map_of_mem _ inEntries,
    keyedByDenom_combined collaterals balances _ _ (DenomMap.get_of_mem inEntries)⟩

/-- Holdings below `2^53` units of every denom keep the second batch's `Number` conversions
exact: each value converted lies between `0` and those holdings, less the gas reserve at most. -/
theorem numberExact_of_safe (config : ExecutorConfig) (nodup : (collaterals.map (·.denom)).Nodup)
    (nonneg : ∀ balance ∈ balances, 0 ≤ balance.amount)
    (safe : ∀ denom, heldAfterWithdrawals collaterals balances denom < 2 ^ 53) :
    NumberExact config collaterals balances where
  collateralAmounts collateral member := by
    have within := safe collateral.denom
    rw [heldAfterWithdrawals, collateralAmountOf_of_mem nodup member] at within
    have := balanceTotal_nonneg nonneg collateral.denom
    exact toNumber_of_safe (safeInteger_iff.mpr ⟨by omega, by omega⟩)
  balanceSums front balance rest split := by
    subst split
    have within := safe balance.denom
    rw [heldAfterWithdrawals, balanceTotal_append, balanceTotal_cons_self] at within
    have held := heldAfterWithdrawals_nonneg collaterals
      (fun other member => nonneg other (List.mem_append_left _ member)) balance.denom
    have later := balanceTotal_nonneg
      (fun other member => nonneg other (List.mem_append_right _ (List.mem_cons_of_mem _ member)))
      balance.denom
    have own := nonneg balance (List.mem_append_right _ (List.mem_cons_self _ _))
    rw [amountOf_combined nodup]
    unfold heldAfterWithdrawals at held ⊢
    exact toNumber_add (safeInteger_iff.mpr ⟨by omega, by omega⟩)
      (safeInteger_iff.mpr ⟨by omega, by omega⟩) (safeInteger_iff.mpr ⟨by omega, by omega⟩)
  swapInputs coin member := by
    rw [amount_of_mem_combineBalances nodup member]
    have within := safe coin.denom
    have held := heldAfterWithdrawals_nonneg collaterals nonneg coin.denom
    have reserve := gasReserve_bounds config coin.denom
    exact toNumber_of_safe (safeInteger_iff.mpr ⟨by omega, by omega⟩)

end Combined

theorem sweepsHoldings_secondMsgBatch (config : ExecutorConfig) (pools : List Pool)
    (collaterals : List Collateral) (balances : List Coin)
    (liquidatorAddress redbankAddress : String) (nodup : (collaterals.map (·.denom)).Nodup) :
    SweepsHoldings config pools collaterals balances liquidatorAddress redbankAddress
      (secondMsgBatch config pools collaterals balances liquidatorAddress redbankAddress) := by
  let swapped := (combineBalances collaterals balances).filter
    fun collateral => collateral.denom ≠ config.neutralAssetDenom
  refine ⟨swapped.filterMap (neutralSwapOf config pools liquidatorAddress), ?batch, ?once,
    fun swap member => ?swap, fun denom notNeutral spendable routed => ?complete⟩
  case batch =>
    simp [secondMsgBatch, appendSwapToNeutralMessages, appendWithdrawMessages_eq,
      foldl_swapToNeutral, swapped]
  case once =>
    exact (combineBalances_denoms_nodup collaterals balances).sublist
      ((filterMap_neutralSwapOf_denoms config pools liquidatorAddress swapped).trans
        (List.Sublist.map _ (List.filter_sublist _)))
  case swap =>
    obtain ⟨coin, kept, popped⟩ := List.mem_filterMap.mp member
    obtain ⟨inCoins, notNeutral⟩ := List.mem_filter.mp kept
    obtain ⟨sender, tokenIn, spendable⟩ :=
      neutralSwapOf_eq_some config pools liquidatorAddress popped
    rw [tokenIn, ← amount_of_mem_combineBalances nodup inCoins]
    exact ⟨sender, of_decide_eq_true notNeutral, rfl, spendable⟩
  case complete =>
    have reserve_nonneg := (gasReserve_bounds config denom).1
    obtain ⟨coin, inCoins, rfl⟩ := exists_mem_combineBalances nodup
      (by omega : heldAfterWithdrawals collaterals balances denom ≠ 0)
    rw [← amount_of_mem_combineBalances nodup inCoins] at spendable
    obtain ⟨swap, popped⟩ := Option.isSome_iff_exists.mp
      (neutralSwapOf_isSome config pools liquidatorAddress
        (by rw [collateralAmount_eq]; exact_mod_cast spendable) routed)
    have tokenIn := (neutralSwapOf_eq_some config pools liquidatorAddress popped).2.1
    exact List.mem_map.mpr ⟨swap, List.mem_filterMap.mpr
      ⟨coin, List.mem_filter.mpr ⟨inCoins, decide_eq_true notNeutral⟩, popped⟩, by rw [tokenIn]⟩

/-- The second batch spends exactly what the liquidator holds once the withdrawals have gone
through: after withdrawing every collateral, it swaps each denom other than the neutral asset at
most once, all the units held of it less the gas reserve and only above 1000 units, and it swaps
every such denom the router can route to the neutral asset.  Below `2^53` units of every denom,
the `Number` conversions on the way are exact, so the code computes what the model does. -/
theorem secondMsgBatch_sweepsHoldings (config : ExecutorConfig) (pools : List Pool)
    (collaterals : List Collateral) (balances : List Coin)
    (liquidatorAddress redbankAddress : String) (nodup : (collaterals.map (·.denom)).Nodup)
    (nonneg : ∀ balance ∈ balances, 0 ≤ balance.amount)
    (safe : ∀ denom, heldAfterWithdrawals collaterals balances denom < 2 ^ 53) :
    NumberExact config collaterals balances ∧
      SweepsHoldings config pools collaterals balances liquidatorAddress redbankAddress
        (secondMsgBatch config pools collaterals balances liquidatorAddress redbankAddress) :=
  ⟨numberExact_of_safe config nodup nonneg safe,
    sweepsHoldings_secondMsgBatch config pools collaterals balances liquidatorAddress
      redbankAddress nodup⟩

/-- The second batch after atom, and osmo above the gas reserve, are withdrawn next to a wallet
holding atom twice and some usdc, the neutral asset. -/
theorem secondMsgBatch_withdrawnAndWallet :
    (withdrawnCollaterals.map (·.denom)).Nodup ∧
      (∀ balance ∈ walletBalances, 0 ≤ balance.amount) ∧
      (∀ denom, heldAfterWithdrawals withdrawnCollaterals walletBalances denom < 2 ^ 53) ∧
      NumberExact usdcConfig withdrawnCollaterals walletBalances ∧
      SweepsHoldings usdcConfig sidePools withdrawnCollaterals walletBalances "osmo1liquidator"
        "osmo1redbank" (secondMsgBatch usdcConfig sidePools withdrawnCollaterals walletBalances
          "osmo1liquidator" "osmo1redbank") :=
  have nodup : (withdrawnCollaterals.map (·.denom)).Nodup := by decide
  have nonneg : ∀ balance ∈ walletBalances, 0 ≤ balance.amount := by decide
  have safe : ∀ denom, heldAfterWithdrawals withdrawnCollaterals walletBalances denom < 2 ^ 53 := by
    intro denom
    simp only [heldAfterWithdrawals, collateralAmountOf, balanceTotal, withdrawnCollaterals,
      walletBalances, List.find?_cons, List.filter_cons]
    repeat' split
    all_goals norm_num
  ⟨nodup, nonneg, safe, secondMsgBatch_sweepsHoldings usdcConfig sidePools withdrawnCollaterals
    walletBalances "osmo1liquidator" "osmo1redbank" nodup nonneg safe⟩

end Executor

end Liquidator
