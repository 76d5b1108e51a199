import Liquidator.Executor.Budget
import Liquidator.Executor.SwapPlanner

/-!
# Red Bank messages

Besides the swaps and the `liquidate_many` call, the executor builds Red Bank messages with the
constructors of `helpers.js`: a borrow of each debt total (`produceBorrowTxs`), a withdrawal of
each collateral won (`appendWithdrawMessages`), a repayment of each debt from what the swaps are
expected to bring (`appendRepayMessages`) and a deposit of the neutral asset held
(`appendDepositMessages`).

`sendBorrowAndLiquidateTx` signs the borrows followed by the `liquidate_many` call.  Fed the debt
totals of the sizer, it borrows each debt denom of the liquidations once, and exactly the units
they repay in it: `toFixed(0)` loses nothing on those integer totals.
-/

namespace Liquidator

namespace Executor

/-- Modelled from the spec: the Red Bank instructions, built by the constructors of `helpers.js`
outside the sources and handed on as opaque messages, by the fields the executor passes them. -/
inductive RedbankMsg
  /-- `makeBorrowMessage(sender, denom, amount, redbankAddress)`. -/
  | borrow (sender : String) (denom : Denom) (amount : ℤ) (contract : String)
  /-- `makeRepayMessage(sender, redbankAddress, coins)`. -/
  | repay (sender contract : String) (coins : List Coin)
  /-- `makeDepositMessage(sender, denom, redbankAddress, coins)`. -/
  | deposit (sender : String) (denom : Denom) (contract : String) (coins : List Coin)
  /-- `executeContract` of `makeWithdrawMessage(sender, denom, redbankAddress)`. -/
  | withdraw (sender : String) (denom : Denom) (contract : String)
  deriving DecidableEq, Repr

/-- A message of a signed batch: one the planners build, or a Red Bank instruction. -/
inductive BatchMsg
  /-- A swap or a `liquidate_many` call. -/
  | planned (msg : EncodeObject)
  /-- A Red Bank instruction. -/
  | redbank (msg : RedbankMsg)
  deriving DecidableEq, Repr

/-- `Executor.produceBorrowTxs`: a borrow of each debt total, in the map's order. -/
def produceBorrowTxs (liquidatorAddress redbankAddress : String) (debtsToRepay : DenomMap ℚ) :
    List BatchMsg :=
  debtsToRepay.entries.map fun entry =>
    .redbank (.borrow liquidatorAddress entry.1 (toFixed entry.2) redbankAddress)

/-- `Executor.appendWithdrawMessages`: a withdrawal of each collateral won, pushed in order. -/
def appendWithdrawMessages (collateralsWon : List Collateral)
    (liquidatorAddress redbankAddress : String) (msgs : List BatchMsg) : List BatchMsg :=
  collateralsWon.foldl (fun msgs collateral =>
    msgs ++ [.redbank (.withdraw liquidatorAddress collateral.denom redbankAddress)]) msgs

/-- `debtToRepay`: the debt, capped by what is available of its denom. -/
def debtToRepay (debtAvailable : ℚ) (debt : Debt) : ℚ :=
  if debtAvailable > debt.amount then debt.amount else debtAvailable

/-- The body of the `forEach` of `appendRepayMessages`, for one debt. -/
def repayDebt (liquidatorAddress redbankAddress : String) (expectedDebtAssetAmounts : DenomMap ℚ)
    (msgs : List BatchMsg) (debt : Debt) : List BatchMsg :=
  let debtAvailable := (expectedDebtAssetAmounts.get debt.denom).getD 0
  let debtToRepay := debtToRepay debtAvailable debt
  if debtToRepay > 1000 then
    msgs ++ [.redbank (.repay liquidatorAddress redbankAddress
      [⟨debt.denom, toFixed debtToRepay⟩])]
  else msgs

/-- `Executor.appendRepayMessages`: a repayment of each debt, capped by what the swaps are expected
to bring of its denom, once above 1000 units.  The expected amounts are not drawn down. -/
def appendRepayMessages (debtsToRepay : List Debt) (liquidatorAddress redbankAddress : String)
    (msgs : List BatchMsg) (expectedDebtAssetAmounts : DenomMap ℚ) : List BatchMsg :=
  debtsToRepay.foldl (repayDebt liquidatorAddress redbankAddress expectedDebtAssetAmounts) msgs

/-- `Executor.appendDepositMessages`: a deposit of the whole neutral balance, unless it is `0`. -/
def appendDepositMessages (config : ExecutorConfig) (balances : Denom → ℚ)
    (liquidatorAddress redbankAddress : String) (msgs : List BatchMsg) : List BatchMsg :=
  let balance := balances config.neutralAssetDenom
  if balance = 0 then msgs
  else msgs ++ [.redbank (.deposit liquidatorAddress config.neutralAssetDenom redbankAddress
    [⟨config.neutralAssetDenom, toFixed balance⟩])]

/-- The batch `sendBorrowAndLiquidateTx` signs: the borrows, then the `liquidate_many` call of the
liquidation filterer with the coins attached. -/
def borrowAndLiquidateMsgs (txs : List LiquidationTx) (borrowMessages : List BatchMsg)
    (coins : List Coin) (liquidatorAddress liquidationFiltererContract : String) :
    List BatchMsg :=
  borrowMessages ++
    [.planned (.executeContract liquidatorAddress liquidationFiltererContract txs coins)]

theorem appendWithdrawMessages_eq (collateralsWon : List Collateral)
    (liquidatorAddress redbankAddress : String) (msgs : List BatchMsg) :
    appendWithdrawMessages collateralsWon liquidatorAddress redbankAddress msgs =
      msgs ++ collateralsWon.map fun collateral =>
        .redbank (.withdraw liquidatorAddress collateral.denom redbankAddress) := by
  induction collateralsWon generalizing msgs with
  | nil => simp [appendWithdrawMessages]
  | cons collateral rest induction =>
      simp only [appendWithdrawMessages, List.foldl_cons] at induction ⊢
      simp [induction]

section Repaying

variable (liquidatorAddress redbankAddress : String) (expectedDebtAssetAmounts : DenomMap ℚ)

theorem debtToRepay_le_amount (debtAvailable : ℚ) (debt : Debt) :
    debtToRepay debtAvailable debt ≤ debt.amount := by
  unfold debtToRepay
  split_ifs with above <;> linarith

theorem debtToRepay_le_available (debtAvailable : ℚ) (debt : Debt) :
    debtToRepay debtAvailable debt ≤ debtAvailable := by
  unfold debtToRepay
  split_ifs with above <;> linarith

/-- The coin a debt is repaid with, if any. -/
def repayCoinOf (debt : Debt) : Option Coin :=
  let debtToRepay := debtToRepay ((expectedDebtAssetAmounts.get debt.denom).getD 0) debt
  if debtToRepay > 1000 then some ⟨debt.denom, toFixed debtToRepay⟩ else none

/-- The repayment loop appends the repayments of the debts that get one, in order. -/
theorem appendRepayMessages_eq (debtsToRepay : List Debt) (msgs : List BatchMsg) :
    appendRepayMessages debtsToRepay liquidatorAddress redbankAddress msgs
        expectedDebtAssetAmounts =
      msgs ++ (debtsToRepay.filterMap (repayCoinOf expectedDebtAssetAmounts)).map fun coin =>
        .redbank (.repay liquidatorAddress redbankAddress [coin]) := by
  unfold appendRepayMessages
  induction debtsToRepay generalizing msgs with
  | nil => simp
  | cons debt rest induction =>
      rw [List.foldl_cons, induction, List.filterMap_cons]
      unfold repayDebt repayCoinOf
      dsimp only
      split_ifs <;> simp

/-- A repayment within its debt: of the debt's denom, by at least 1000 units, and by at most the
debt and what is expected of its denom, both as `toFixed(0)` reads them. -/
def RepaysWithin (coin : Coin) (debt : Debt) : Prop :=
  coin.denom = debt.denom ∧ 1000 ≤ coin.amount ∧ coin.amount ≤ debt.amount ∧
    coin.amount ≤ toFixed ((expectedDebtAssetAmounts.get debt.denom).getD 0)

theorem repayCoinOf_eq_some {debt : Debt} {coin : Coin}
    (repaid : repayCoinOf expectedDebtAssetAmounts debt = some coin) :
    RepaysWithin expectedDebtAssetAmounts coin debt := by
  unfold repayCoinOf at repaid
  dsimp only at repaid
  split_ifs at repaid with above
  obtain rfl := Option.some.inj repaid
  refine ⟨rfl, ?_, roundHalfUp_le_of_le (by exact_mod_cast debtToRepay_le_amount _ debt),
    roundHalfUp_mono (debtToRepay_le_available _ debt)⟩
  have rounded := roundHalfUp_mono (show ((1000 : ℤ) : ℚ) ≤ _ by exact_mod_cast above.le)
  rwa [roundHalfUp_intCast] at rounded

/-- `appendRepayMessages` repays, in order and one message each, exactly the debts whose amount,
capped by what the swaps are expected to bring of their denom, exceeds 1000 units; and each
repayment stays within the debt it is for: at most the debt, at most what is expected of its
denom, both rounded as `toFixed(0)` rounds, and at least 1000 units.  The expected amounts are
not drawn down, so two debts of one denom may each be repaid up to what is expected of it. -/
theorem appendRepayMessages_within_debts (debtsToRepay : List Debt) (msgs : List BatchMsg) :
    ∃ repays : List Coin,
      appendRepayMessages debtsToRepay liquidatorAddress redbankAddress msgs
          expectedDebtAssetAmounts =
        msgs ++ repays.map (fun coin => .redbank (.repay liquidatorAddress redbankAddress [coin])) ∧
      List.Forall₂ (RepaysWithin expectedDebtAssetAmounts) repays
        (debtsToRepay.filter fun debt =>
          1000 < debtToRepay ((expectedDebtAssetAmounts.get debt.denom).getD 0) debt) := by
  refine ⟨_, appendRepayMessages_eq liquidatorAddress redbankAddress expectedDebtAssetAmounts
    debtsToRepay msgs, ?_⟩
  induction debtsToRepay with
  | nil => exact .nil
  | cons debt rest induction =>
      by_cases large : 1000 < debtToRepay ((expectedDebtAssetAmounts.get debt.denom).getD 0) debt
      · have repaid : repayCoinOf expectedDebtAssetAmounts debt = some ⟨debt.denom,
            toFixed (debtToRepay ((expectedDebtAssetAmounts.get debt.denom).getD 0) debt)⟩ :=
          if_pos large
        rw [List.filterMap_cons_some repaid, List.filter_cons_of_pos (by simpa using large)]
        exact .cons (repayCoinOf_eq_some expectedDebtAssetAmounts repaid) induction
      · have skipped : repayCoinOf expectedDebtAssetAmounts debt = none := if_neg large
        rw [List.filterMap_cons_none skipped, List.filter_cons_of_neg (by simpa using large)]
        exact induction

end Repaying

section Borrowing

/-- The units the liquidations repay in a denom, summed. -/
def debtUnits (txs : List LiquidationTx) (denom : Denom) : ℤ :=
  ((txs.filter fun tx => tx.debtDenom = denom).map (·.amount)).sum

theorem debtTotal_eq_debtUnits (txs : List LiquidationTx) (denom : Denom) :
    debtTotal txs denom = debtUnits txs denom := by
  unfold debtTotal debtUnits
  induction txs.filter fun tx => tx.debtDenom = denom with
  | nil => simp
  | cons tx rest induction => simp [induction]

/-- For totals that aggregate the liquidations' debts, `produceBorrowTxs` borrows, under each
key, exactly the units repaid in it. -/
theorem produceBorrowTxs_of_aggregates {txs : List LiquidationTx} {debtsToRepay : DenomMap ℚ}
    (agree : AggregatesDebts txs debtsToRepay) (liquidatorAddress redbankAddress : String) :
    produceBorrowTxs liquidatorAddress redbankAddress debtsToRepay =
      debtsToRepay.keys.map fun denom =>
        .redbank (.borrow liquidatorAddress denom (debtUnits txs denom) redbankAddress) := by
  rw [produceBorrowTxs, DenomMap.keys, List.map_map]
  refine List.map_congr_left fun entry member => ?_
  have total := agree.total entry.1
  rw [DenomMap.get_of_mem member, Option.getD_some, debtTotal_eq_debtUnits] at total
  simp [total, toFixed]

/-- The borrowing path for the sizer's liquidations: the batch of `sendBorrowAndLiquidateTx`, fed
`produceBorrowTxs` of the sizer's debt totals, borrows each debt denom of the liquidations it
sends exactly once, and exactly the units they repay in it, before the `liquidate_many` call. -/
theorem borrowAndLiquidateMsgs_borrows_debts (config : ExecutorConfig)
    (balances prices : Denom → ℚ) (positionData : List Position)
    (liquidatorAddress liquidationFiltererContract redbankAddress : String) (coins : List Coin) :
    ∃ denoms : List Denom, denoms.Nodup ∧
      (∀ denom, denom ∈ denoms ↔
        ∃ tx ∈ (produceLiquidationTxs config balances prices positionData).1,
          tx.debtDenom = denom) ∧
      borrowAndLiquidateMsgs (produceLiquidationTxs config balances prices positionData).1
          (produceBorrowTxs liquidatorAddress redbankAddress
            (produceLiquidationTxs config balances prices positionData).2)
          coins liquidatorAddress liquidationFiltererContract =
        denoms.map (fun denom => .redbank (.borrow liquidatorAddress denom
            (debtUnits (produceLiquidationTxs config balances prices positionData).1 denom)
            redbankAddress)) ++
          [.planned (.executeContract liquidatorAddress liquidationFiltererContract
            (produceLiquidationTxs config balances prices positionData).1 coins)] := by
  have agree := sizePositions_aggregatesDebts prices (availableValue config balances prices)
    positionData
  exact ⟨_, DenomMap.keys_nodup _, agree.keys,
    congrArg (· ++ _) (produceBorrowTxs_of_aggregates agree liquidatorAddress redbankAddress)⟩

end Borrowing

end Executor

end Liquidator
