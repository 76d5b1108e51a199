import Liquidator.Decimal
import Liquidator.Types
import Mathlib.Algebra.BigOperators.Group.List
import Mathlib.Tactic.NormNum
import Mathlib.Tactic.Ring

/-!
# The liquidation sizer

`Executor.produceLiquidationTxs` walks the fetched positions in order.  For every position with a
collateral and a debt it takes the largest collateral and the largest debt by value, and, while
the budget left exceeds 100, emits a liquidation of the whole debt or of the budget's worth of
it, rounded by `toFixed(0)`.  It adds the value of each liquidation to the running committed
total and its amount to the per-denom total of debts to repay.

The model is a fold of `liquidatePosition` over the positions.  Every property below is an
invariant of that fold: `liquidatePosition_cases` says once what one position can do, and
`sizePositions_induction` carries a property along every prefix of the positions.
-/

namespace Liquidator

namespace Executor

/-- The entry of largest `amount × price`, the first one on ties. -/
def largestByValue (prices : Denom → ℚ) : List PositionAsset → PositionAsset
  | [] => ⟨"", 0⟩
  | first :: rest =>
      rest.foldl (fun largest asset =>
        if largest.amount * prices largest.denom < asset.amount * prices asset.denom then asset
        else largest) first

/-- Modelled from the spec: `getLargestCollateral` of `liquidation_generator.js` selects the
collateral with the largest `amount × price` and returns its denom. -/
def getLargestCollateral (collaterals : List Collateral) (prices : Denom → ℚ) : Denom :=
  (largestByValue prices collaterals).denom

/-- Modelled from the spec: `getLargestDebt` of `liquidation_generator.js` selects the debt with
the largest `amount × price`. -/
def getLargestDebt (debts : List Debt) (prices : Denom → ℚ) : Debt :=
  largestByValue prices debts

theorem largestByValue_mem {prices : Denom → ℚ} {assets : List PositionAsset}
    (ne_nil : assets ≠ []) : largestByValue prices assets ∈ assets := by
  obtain ⟨first, rest, rfl⟩ := List.exists_cons_of_ne_nil ne_nil
  suffices stays : ∀ (largest : PositionAsset), largest ∈ first :: rest →
      ∀ tail : List PositionAsset, (∀ asset ∈ tail, asset ∈ first :: rest) →
        tail.foldl (fun largest asset =>
          if largest.amount * prices largest.denom < asset.amount * prices asset.denom then asset
          else largest) largest ∈ first :: rest from
    stays first (List.mem_cons_self _ _) rest fun _ => List.mem_cons_of_mem _
  intro largest member tail within
  induction tail generalizing largest with
  | nil => exact member
  | cons asset tail induction =>
      refine induction _ ?_ fun other inTail => within other (List.mem_cons_of_mem _ inTail)
      dsimp only
      split_ifs
      · exact within asset (List.mem_cons_self _ _)
      · exact member

/-- A position the sizer considers: it has a collateral and a debt. -/
def Eligible (position : Position) : Prop :=
  position.collaterals.length > 0 ∧ position.debts.length > 0

instance (position : Position) : Decidable (Eligible position) :=
  inferInstanceAs (Decidable (_ ∧ _))

/-- What `produceLiquidationTxs` carries across its `forEach`. -/
structure SizerState where
  /-- Liquidations emitted so far. -/
  txs : List LiquidationTx
  /-- Debt to repay per denom. -/
  debtsToRepay : DenomMap ℚ
  /-- Value committed so far, in the quote unit. -/
  totalDebtValue : ℚ

/-- The state before the first position. -/
def SizerState.initial : SizerState := ⟨[], DenomMap.empty, 0⟩

/-- `availableValue`: the neutral balance times the neutral price, a missing entry reading `0`. -/
def availableValue (config : ExecutorConfig) (balances prices : Denom → ℚ) : ℚ :=
  balances config.neutralAssetDenom * prices config.neutralAssetDenom

/-- `amountToLiquidate`: the whole debt when the budget left exceeds its value, otherwise the
budget divided by the debt price, rounded by `toFixed(0)`. -/
def amountToLiquidate (remainingAvailableSize debtPrice : ℚ) (debtAmount : ℕ) : ℤ :=
  if remainingAvailableSize > debtAmount * debtPrice then debtAmount
  else toFixed (dividedBy remainingAvailableSize debtPrice)

/-- The body of the `forEach` of `produceLiquidationTxs`, for one position. -/
def liquidatePosition (prices : Denom → ℚ) (availableValue : ℚ) (state : SizerState)
    (position : Position) : SizerState :=
  if Eligible position then
    let largestCollateralDenom := getLargestCollateral position.collaterals prices
    let largestDebt := getLargestDebt position.debts prices
    let remainingAvailableSize := availableValue - state.totalDebtValue
    if remainingAvailableSize > 100 then
      let debtPrice := prices largestDebt.denom
      let amount := amountToLiquidate remainingAvailableSize debtPrice largestDebt.amount
      let liquidateTx : LiquidationTx :=
        ⟨largestCollateralDenom, largestDebt.denom, position.address, amount⟩
      let existingDebt := (state.debtsToRepay.get liquidateTx.debtDenom).getD 0
      { txs := state.txs ++ [liquidateTx]
        debtsToRepay := state.debtsToRepay.set liquidateTx.debtDenom (amount + existingDebt)
        totalDebtValue := state.totalDebtValue + amount * debtPrice }
    else state
  else state

/-- The `forEach` of `produceLiquidationTxs` over the fetched positions, in order. -/
def sizePositions (prices : Denom → ℚ) (availableValue : ℚ) (positionData : List Position) :
    SizerState :=
  positionData.foldl (liquidatePosition prices availableValue) SizerState.initial

/-- `Executor.produceLiquidationTxs`: the liquidations and the debts to repay per denom. -/
def produceLiquidationTxs (config : ExecutorConfig) (balances prices : Denom → ℚ)
    (positionData : List Position) : List LiquidationTx × DenomMap ℚ :=
  let state := sizePositions prices (availableValue config balances prices) positionData
  (state.txs, state.debtsToRepay)

/-- The liquidation a serviced position yields, given the budget left when it is reached. -/
def sizedTx (prices : Denom → ℚ) (remainingAvailableSize : ℚ) (position : Position) :
    LiquidationTx :=
  ⟨getLargestCollateral position.collaterals prices,
    (getLargestDebt position.debts prices).denom, position.address,
    amountToLiquidate remainingAvailableSize (prices (getLargestDebt position.debts prices).denom)
      (getLargestDebt position.debts prices).amount⟩

/-- Everything one position can do to the state: nothing, which for an eligible position means the
budget left is at most 100; or, for an eligible position with more budget left, append its sized
liquidation, add its amount to the debt of its denom and commit its value. -/
theorem liquidatePosition_cases (prices : Denom → ℚ) (availableValue : ℚ) (state : SizerState)
    (position : Position) :
    liquidatePosition prices availableValue state position = state ∧
        (Eligible position → availableValue - state.totalDebtValue ≤ 100) ∨
      Eligible position ∧ 100 < availableValue - state.totalDebtValue ∧
        ∃ tx, tx = sizedTx prices (availableValue - state.totalDebtValue) position ∧
          liquidatePosition prices availableValue state position =
            { txs := state.txs ++ [tx]
              debtsToRepay := state.debtsToRepay.set tx.debtDenom
                (tx.amount + (state.debtsToRepay.get tx.debtDenom).getD 0)
              totalDebtValue := state.totalDebtValue + tx.amount * prices tx.debtDenom } := by
  unfold liquidatePosition
  dsimp only
  split_ifs with eligible budget
  · exact .inr ⟨eligible, budget, _, rfl, rfl⟩
  · exact .inl ⟨rfl, fun _ => not_lt.mp budget⟩
  · exact .inl ⟨rfl, fun eligible' => absurd eligible' eligible⟩

/-- Induction along the positions: a property of the empty prefix that every position carries
over holds after every prefix of the positions. -/
theorem sizePositions_induction (prices : Denom → ℚ) (availableValue : ℚ)
    (positionData : List Position) (motive : List Position → SizerState → Prop)
    (initial : motive [] SizerState.initial)
    (step : ∀ processed position state, processed ++ [position] <+: positionData →
      motive processed state →
        motive (processed ++ [position]) (liquidatePosition prices availableValue state position)) :
    ∀ processed, processed <+: positionData →
      motive processed (sizePositions prices availableValue processed) := by
  intro processed isPrefix
  induction processed using List.reverseRecOn with
  | nil => exact initial
  | append_singleton processed position induction =>
      rw [sizePositions, List.foldl_append, List.foldl_cons, List.foldl_nil]
      exact step _ _ _ isPrefix
        (induction ((List.prefix_append processed [position]).trans isPrefix))

section Amount

variable {remainingAvailableSize debtPrice : ℚ} {debtAmount : ℕ}

/-- The partial branch is only taken at a positive debt price. -/
private theorem debtPrice_pos_of_partial (budget : 100 < remainingAvailableSize)
    (notWhole : ¬ remainingAvailableSize > debtAmount * debtPrice) : 0 < debtPrice := by
  by_contra nonpos
  have : (debtAmount : ℚ) * debtPrice ≤ 0 :=
    mul_nonpos_of_nonneg_of_nonpos (Nat.cast_nonneg _) (not_lt.mp nonpos)
  exact notWhole (by linarith)

theorem amountToLiquidate_nonneg (debtPrice : ℚ) (debtAmount : ℕ)
    (budget : 100 < remainingAvailableSize) :
    0 ≤ amountToLiquidate remainingAvailableSize debtPrice debtAmount := by
  unfold amountToLiquidate
  split_ifs with whole
  · exact Int.natCast_nonneg _
  · have price_pos := debtPrice_pos_of_partial budget whole
    exact roundHalfUp_nonneg (dividedBy_nonneg (div_nonneg (by linarith) price_pos.le))

/-- The value of the liquidation exceeds the budget left by at most the rounding of `toFixed(0)`
and of `dividedBy`, at a non-negative debt price. -/
theorem amountToLiquidate_value_le (debtAmount : ℕ) (budget : 100 < remainingAvailableSize)
    (price_nonneg : 0 ≤ debtPrice) :
    amountToLiquidate remainingAvailableSize debtPrice debtAmount * debtPrice ≤
      remainingAvailableSize + roundingSlack * debtPrice := by
  unfold amountToLiquidate
  split_ifs with whole
  · have slack := mul_nonneg roundingSlack_nonneg price_nonneg
    push_cast
    linarith
  · have price_pos := debtPrice_pos_of_partial budget whole
    calc (toFixed (dividedBy remainingAvailableSize debtPrice) : ℚ) * debtPrice
        ≤ (remainingAvailableSize / debtPrice + roundingSlack) * debtPrice :=
          mul_le_mul_of_nonneg_right
            (toFixed_dividedBy_le (div_nonneg (by linarith) price_pos.le)) price_pos.le
      _ = remainingAvailableSize + roundingSlack * debtPrice := by
          field_simp

end Amount

end Executor

end Liquidator
