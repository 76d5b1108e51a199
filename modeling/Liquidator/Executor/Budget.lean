import Liquidator.Executor.Sizer
import Mathlib.Data.List.Forall2

/-!
# What the sizer commits

Invariants of the sizer's fold over the positions.  The liquidations are emitted for a
prefix of the eligible positions, one each and in input order, and the budget left never grows
once debt prices are non-negative.  Each amount lies between zero and the amount of the debt it
repays.  The value committed stays within the available value up to the rounding of the last,
partial liquidation: `toFixed(0)` rounds the budget's worth of debt to the nearest unit, so the
last liquidation may overshoot by up to half a unit of its debt, and `dividedBy`'s twentieth
decimal adds its own half unit.  The debt totals handed to the swap planner are the emitted
amounts summed per debt denom, over exactly the debt denoms of the emitted liquidations.
-/

namespace Liquidator

namespace Executor

variable {prices : Denom → ℚ} {available : ℚ}

/-- The value of liquidations at the given prices. -/
def committedValue (prices : Denom → ℚ) (txs : List LiquidationTx) : ℚ :=
  (txs.map fun tx => tx.amount * prices tx.debtDenom).sum

/-- The debt price of the last liquidation, `0` before the first. -/
def lastDebtPrice (prices : Denom → ℚ) (txs : List LiquidationTx) : ℚ :=
  (txs.getLast?.map fun tx => prices tx.debtDenom).getD 0

/-- A liquidation is the one a position yields: its owner, largest collateral and largest debt. -/
def Serviced (prices : Denom → ℚ) (tx : LiquidationTx) (position : Position) : Prop :=
  tx.userAddress = position.address ∧
    tx.collateralDenom = getLargestCollateral position.collaterals prices ∧
    tx.debtDenom = (getLargestDebt position.debts prices).denom

@[simp]
theorem committedValue_append_singleton (txs : List LiquidationTx) (tx : LiquidationTx) :
    committedValue prices (txs ++ [tx]) =
      committedValue prices txs + tx.amount * prices tx.debtDenom := by
  simp [committedValue]

@[simp]
theorem lastDebtPrice_append_singleton (txs : List LiquidationTx) (tx : LiquidationTx) :
    lastDebtPrice prices (txs ++ [tx]) = prices tx.debtDenom := by
  simp [lastDebtPrice]

theorem getLargestDebt_mem (prices : Denom → ℚ) {position : Position}
    (eligible : Eligible position) :
    getLargestDebt position.debts prices ∈ position.debts :=
  largestByValue_mem (List.ne_nil_of_length_pos eligible.2)

/-- The running total is the value of the liquidations emitted so far. -/
theorem sizePositions_totalDebtValue (positionData : List Position) :
    (sizePositions prices available positionData).totalDebtValue =
      committedValue prices (sizePositions prices available positionData).txs := by
  refine sizePositions_induction prices available positionData
    (fun _ state => state.totalDebtValue = committedValue prices state.txs) rfl ?_ positionData
    (List.prefix_refl _)
  intro _ position state _ invariant
  rcases liquidatePosition_cases prices available state position with
    ⟨same, -⟩ | ⟨-, -, _, rfl, appended⟩
  · rwa [same]
  · rw [appended]
    simp [invariant]

/-- The amounts of the liquidations of one debt denom, summed. -/
def debtTotal (txs : List LiquidationTx) (denom : Denom) : ℚ :=
  ((txs.filter fun tx => tx.debtDenom = denom).map fun tx => (tx.amount : ℚ)).sum

@[simp]
theorem debtTotal_nil (denom : Denom) : debtTotal [] denom = 0 := rfl

@[simp]
theorem debtTotal_append_singleton (txs : List LiquidationTx) (tx : LiquidationTx) (denom : Denom) :
    debtTotal (txs ++ [tx]) denom =
      debtTotal txs denom + if tx.debtDenom = denom then tx.amount else 0 := by
  by_cases same : tx.debtDenom = denom <;> simp [debtTotal, same]

/-- The per-denom debt totals agree with a list of liquidations. -/
structure AggregatesDebts (txs : List LiquidationTx) (debtsToRepay : DenomMap ℚ) : Prop where
  /-- A denom has a total exactly when some liquidation repays it. -/
  keys : ∀ denom, denom ∈ debtsToRepay.keys ↔ ∃ tx ∈ txs, tx.debtDenom = denom
  /-- Each total, a missing one read as `0`, is the sum of that denom's amounts. -/
  total : ∀ denom, (debtsToRepay.get denom).getD 0 = debtTotal txs denom

/-- Appending a liquidation and adding its amount to its denom's total keeps the totals in
agreement. -/
theorem AggregatesDebts.append {txs : List LiquidationTx} {debtsToRepay : DenomMap ℚ}
    (agree : AggregatesDebts txs debtsToRepay) (tx : LiquidationTx) :
    AggregatesDebts (txs ++ [tx])
      (debtsToRepay.set tx.debtDenom (tx.amount + (debtsToRepay.get tx.debtDenom).getD 0)) where
  keys denom := by
    simp [agree.keys, or_and_right, exists_or, or_comm, eq_comm]
  total denom := by
    by_cases same : denom = tx.debtDenom
    · subst same
      simp [agree.total, add_comm]
    · simp [agree.total, same, Ne.symm same]

/-- The sizer's debt totals agree with the liquidations it emits. -/
theorem sizePositions_aggregatesDebts (prices : Denom → ℚ) (available : ℚ)
    (positionData : List Position) :
    AggregatesDebts (sizePositions prices available positionData).txs
      (sizePositions prices available positionData).debtsToRepay := by
  refine sizePositions_induction prices available positionData
    (fun _ state => AggregatesDebts state.txs state.debtsToRepay)
    ⟨by simp [SizerState.initial], by simp [SizerState.initial]⟩ ?_ positionData
    (List.prefix_refl _)
  intro _ position state _ agree
  rcases liquidatePosition_cases prices available state position with
    ⟨same, -⟩ | ⟨-, -, tx, -, appended⟩
  · rwa [same]
  · rw [appended]
    exact agree.append tx

/-- Every denom with a debt to repay is the debt denom of an emitted liquidation. -/
theorem sizePositions_debtsToRepay_keys (prices : Denom → ℚ) (available : ℚ)
    (positionData : List Position) :
    ∀ denom ∈ (sizePositions prices available positionData).debtsToRepay.keys,
      ∃ tx ∈ (sizePositions prices available positionData).txs, tx.debtDenom = denom :=
  fun denom => ((sizePositions_aggregatesDebts prices available positionData).keys denom).mp

/-- `produceLiquidationTxs` returns debt totals that are exactly its liquidations' amounts
summed per debt denom, over the debt denoms of its liquidations. -/
theorem produceLiquidationTxs_debtsToRepay (config : ExecutorConfig) (balances prices : Denom → ℚ)
    (positionData : List Position) :
    AggregatesDebts (produceLiquidationTxs config balances prices positionData).1
      (produceLiquidationTxs config balances prices positionData).2 :=
  sizePositions_aggregatesDebts prices _ positionData

/-- The committed value stays within the available value, up to the rounding slack of the last
liquidation's debt price. -/
theorem produceLiquidationTxs_committedValue_le (config : ExecutorConfig)
    (balances prices : Denom → ℚ) (positionData : List Position)
    (balance_nonneg : 0 ≤ balances config.neutralAssetDenom)
    (price_nonneg : 0 ≤ prices config.neutralAssetDenom)
    (debt_prices : ∀ position ∈ positionData, ∀ debt ∈ position.debts, 0 < prices debt.denom) :
    committedValue prices (produceLiquidationTxs config balances prices positionData).1 ≤
      availableValue config balances prices +
        roundingSlack * lastDebtPrice prices (produceLiquidationTxs config balances prices positionData).1 := by
  have available_nonneg := mul_nonneg balance_nonneg price_nonneg
  have bound := sizePositions_induction prices (availableValue config balances prices) positionData
    (fun _ state => state.totalDebtValue ≤
      availableValue config balances prices + roundingSlack * lastDebtPrice prices state.txs)
    (by simpa [SizerState.initial, lastDebtPrice] using available_nonneg)
    (fun processed position state isPrefix _ => by
      rcases liquidatePosition_cases prices (availableValue config balances prices) state
          position with ⟨same, -⟩ | ⟨eligible, budget, _, rfl, appended⟩
      · rwa [same]
      · have member : position ∈ positionData := isPrefix.subset (by simp)
        have price_pos := debt_prices position member _ (getLargestDebt_mem prices eligible)
        have value := amountToLiquidate_value_le (getLargestDebt position.debts prices).amount
          budget price_pos.le
        rw [appended]
        simp only [lastDebtPrice_append_singleton]
        simp only [sizedTx] at value ⊢
        linarith)
    positionData (List.prefix_refl _)
  rw [produceLiquidationTxs, ← sizePositions_totalDebtValue]
  exact bound

theorem committedValue_le_partialDebt :
    0 ≤ (5000000 : ℚ) ∧ 0 ≤ (1 : ℚ) ∧ (0 : ℚ) < 3 ∧
      committedValue (fun denom => if denom = "uatom" then 3 else 1)
          (produceLiquidationTxs ⟨"uusdc", "uosmo"⟩ (fun _ => 5000000)
            (fun denom => if denom = "uatom" then 3 else 1)
            [⟨"osmo1", [⟨"uosmo", 10000000⟩], [⟨"uatom", 3000000⟩]⟩]).1 ≤
        availableValue ⟨"uusdc", "uosmo"⟩ (fun _ => 5000000)
            (fun denom => if denom = "uatom" then 3 else 1) +
          roundingSlack * lastDebtPrice (fun denom => if denom = "uatom" then 3 else 1)
            (produceLiquidationTxs ⟨"uusdc", "uosmo"⟩ (fun _ => 5000000)
              (fun denom => if denom = "uatom" then 3 else 1)
              [⟨"osmo1", [⟨"uosmo", 10000000⟩], [⟨"uatom", 3000000⟩]⟩]).1 :=
  ⟨by norm_num, by norm_num, by norm_num,
    produceLiquidationTxs_committedValue_le _ _ _ _ (by norm_num) (by simp +decide)
      (by simp)⟩

/-- With 150 available and a debt of 2 units at price 100, the budget's worth of debt is 1.5
units, which `toFixed(0)` rounds to 2: the committed value 200 exceeds the available 150. -/
theorem produceLiquidationTxs_overcommits :
    availableValue ⟨"uusdc", "uosmo"⟩ (fun _ => 150) (fun denom => if denom = "uatom" then 100 else 1) <
      committedValue (fun denom => if denom = "uatom" then 100 else 1)
        (produceLiquidationTxs ⟨"uusdc", "uosmo"⟩ (fun _ => 150)
          (fun denom => if denom = "uatom" then 100 else 1)
          [⟨"osmo1", [⟨"uosmo", 1000⟩], [⟨"uatom", 2⟩]⟩]).1 := by
  norm_num [produceLiquidationTxs, sizePositions, SizerState.initial, liquidatePosition, Eligible,
    getLargestCollateral, getLargestDebt, largestByValue, amountToLiquidate, toFixed, dividedBy,
    roundHalfUp, decimalPlaces, committedValue, availableValue,
    show ("uusdc" : Denom) ≠ "uatom" by decide]

/-- The sizer's invariant over the positions processed so far: the liquidations pair off with a
prefix of the eligible positions, and an eligible position left without one was reached with a
budget of at most 100. -/
theorem sizePositions_serviced (prices : Denom → ℚ) (available : ℚ) (positionData : List Position) :
    ∃ serviced ≤ (positionData.filter Eligible).length,
      List.Forall₂ (Serviced prices) (sizePositions prices available positionData).txs
          ((positionData.filter Eligible).take serviced) ∧
        (serviced < (positionData.filter Eligible).length →
          available - (sizePositions prices available positionData).totalDebtValue ≤ 100) := by
  refine sizePositions_induction prices available positionData
    (fun processed state => ∃ serviced ≤ (processed.filter Eligible).length,
      List.Forall₂ (Serviced prices) state.txs ((processed.filter Eligible).take serviced) ∧
        (serviced < (processed.filter Eligible).length → available - state.totalDebtValue ≤ 100))
    ⟨0, le_rfl, by simp [SizerState.initial], by simp⟩ ?_ positionData (List.prefix_refl _)
  rintro processed position state - ⟨serviced, bounded, paired, skipped⟩
  have filtered (eligible : Eligible position) :
      (processed ++ [position]).filter Eligible = processed.filter Eligible ++ [position] := by
    simp [eligible]
  rcases liquidatePosition_cases prices available state position with
    ⟨same, exhausted⟩ | ⟨eligible, budget, _, rfl, appended⟩
  · rw [same]
    by_cases eligible : Eligible position
    · rw [filtered eligible]
      refine ⟨serviced, by simp only [List.length_append]; omega, ?_, fun _ => exhausted eligible⟩
      rwa [List.take_append_of_le_length bounded]
    · have unchanged : (processed ++ [position]).filter Eligible = processed.filter Eligible := by
        simp [eligible]
      rw [unchanged]
      exact ⟨serviced, bounded, paired, skipped⟩
  · have all : serviced = (processed.filter Eligible).length :=
      le_antisymm bounded (not_lt.mp fun short => absurd (skipped short) (not_le.mpr budget))
    rw [all, List.take_length] at paired
    rw [appended, filtered eligible]
    refine ⟨_, le_rfl, ?_, fun beyond => absurd beyond (lt_irrefl _)⟩
    rw [List.take_length]
    exact List.rel_append paired (List.Forall₂.cons ⟨rfl, rfl, rfl⟩ .nil)

/-- At non-negative debt prices the running total never falls along the positions. -/
theorem totalDebtValue_le_foldl (prices : Denom → ℚ) (available : ℚ) (positions : List Position)
    (prices_nonneg : ∀ position ∈ positions, ∀ debt ∈ position.debts, 0 ≤ prices debt.denom)
    (state : SizerState) :
    state.totalDebtValue ≤
      (positions.foldl (liquidatePosition prices available) state).totalDebtValue := by
  induction positions generalizing state with
  | nil => exact le_rfl
  | cons position rest induction =>
      rw [List.foldl_cons]
      refine le_trans ?_
        (induction (fun other member => prices_nonneg other (List.mem_cons_of_mem _ member)) _)
      rcases liquidatePosition_cases prices available state position with
        ⟨same, -⟩ | ⟨eligible, budget, _, rfl, appended⟩
      · rw [same]
      · have price := prices_nonneg position (List.mem_cons_self _ _) _
          (getLargestDebt_mem prices eligible)
        have amount := amountToLiquidate_nonneg
          (prices (getLargestDebt position.debts prices).denom)
          (getLargestDebt position.debts prices).amount budget
        have committed := mul_nonneg (Int.cast_nonneg.mpr amount) price
        rw [appended]
        simp only [sizedTx]
        linarith

/-- The sizer services exactly a prefix of the eligible positions, one liquidation each in input
order, and leaves an eligible position without one only when the budget left after the
liquidations it emits is at most 100; at non-negative debt prices the budget left never grows
from one position to the next. -/
theorem produceLiquidationTxs_services_prefix (config : ExecutorConfig)
    (balances prices : Denom → ℚ) (positionData : List Position)
    (prices_nonneg : ∀ position ∈ positionData, ∀ debt ∈ position.debts, 0 ≤ prices debt.denom) :
    (∃ serviced ≤ (positionData.filter Eligible).length,
      List.Forall₂ (Serviced prices) (produceLiquidationTxs config balances prices positionData).1
          ((positionData.filter Eligible).take serviced) ∧
        (serviced < (positionData.filter Eligible).length →
          availableValue config balances prices -
              committedValue prices (produceLiquidationTxs config balances prices positionData).1 ≤
            100)) ∧
      ∀ i j, i ≤ j →
        availableValue config balances prices -
            (sizePositions prices (availableValue config balances prices)
              (positionData.take j)).totalDebtValue ≤
          availableValue config balances prices -
            (sizePositions prices (availableValue config balances prices)
              (positionData.take i)).totalDebtValue := by
  refine ⟨?_, fun i j le => ?_⟩
  · rw [produceLiquidationTxs, ← sizePositions_totalDebtValue]
    exact sizePositions_serviced prices (availableValue config balances prices) positionData
  · have split : positionData.take j = positionData.take i ++ (positionData.take j).drop i := by
      conv_lhs => rw [← List.take_append_drop i (positionData.take j)]
      rw [List.take_take, min_eq_left le]
    have grows := totalDebtValue_le_foldl prices (availableValue config balances prices)
      ((positionData.take j).drop i)
      (fun position member => prices_nonneg position
        (List.mem_of_mem_take (List.mem_of_mem_drop member)))
      (sizePositions prices (availableValue config balances prices) (positionData.take i))
    rw [split, sizePositions, List.foldl_append, ← sizePositions]
    linarith

/-- Prices of 3 for atom and 1 for every other denom. -/
def atomAtThree : Denom → ℚ := fun denom => if denom = "uatom" then 3 else 1

/-- Two positions owing atom; at `atomAtThree` with 5000000 available, the first takes the
whole budget and the second is left without a liquidation. -/
def twoPositions : List Position :=
  [⟨"osmo1", [⟨"uosmo", 10000000⟩], [⟨"uatom", 3000000⟩]⟩,
    ⟨"osmo2", [⟨"uosmo", 5000000⟩], [⟨"uatom", 1000000⟩]⟩]

theorem services_prefix_twoPositions :
    (∀ position ∈ twoPositions, ∀ debt ∈ position.debts, 0 ≤ atomAtThree debt.denom) ∧
      (∃ serviced ≤ (twoPositions.filter Eligible).length,
        List.Forall₂ (Serviced atomAtThree)
            (produceLiquidationTxs ⟨"uusdc", "uosmo"⟩ (fun _ => 5000000) atomAtThree twoPositions).1
            ((twoPositions.filter Eligible).take serviced) ∧
          (serviced < (twoPositions.filter Eligible).length →
            availableValue ⟨"uusdc", "uosmo"⟩ (fun _ => 5000000) atomAtThree -
                committedValue atomAtThree
                  (produceLiquidationTxs ⟨"uusdc", "uosmo"⟩ (fun _ => 5000000) atomAtThree twoPositions).1 ≤
              100)) ∧
        ∀ i j, i ≤ j →
          availableValue ⟨"uusdc", "uosmo"⟩ (fun _ => 5000000) atomAtThree -
              (sizePositions atomAtThree (availableValue ⟨"uusdc", "uosmo"⟩ (fun _ => 5000000) atomAtThree)
                (twoPositions.take j)).totalDebtValue ≤
            availableValue ⟨"uusdc", "uosmo"⟩ (fun _ => 5000000) atomAtThree -
              (sizePositions atomAtThree (availableValue ⟨"uusdc", "uosmo"⟩ (fun _ => 5000000) atomAtThree)
                (twoPositions.take i)).totalDebtValue :=
  have prices_nonneg : ∀ position ∈ twoPositions, ∀ debt ∈ position.debts,
      0 ≤ atomAtThree debt.denom := by
    simp [twoPositions, atomAtThree]
  ⟨prices_nonneg, produceLiquidationTxs_services_prefix _ _ _ _ prices_nonneg⟩

end Executor

end Liquidator
