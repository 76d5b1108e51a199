import Liquidator.Router.Search
import Mathlib.Tactic.FieldSimp
import Mathlib.Tactic.Positivity
import Mathlib.Tactic.NormNum
import Mathlib.Tactic.Linarith
import Mathlib.Tactic.Ring
import Mathlib.Algebra.Order.Field.Basic
import Mathlib.Data.List.Forall2

/-!
# Pricing along a route

`getEstimatedOutput` folds the constant-product swap over the hops of a route, deducting each
hop's fee from its output.  `getEstimatedRequiredInput` folds the inverse formula over the hops
in the same order and adds to each stage the fee charged on the required output.

Both folds work on the reserves captured in the hops.  The constant-product formulas live in
`math.js`, which is not among the sources; they are taken from the spec.  On a single fee-free
hop the two folds invert each other.  Over several hops the inverse fold would have to visit the
hops last-to-first: it inverts the forward fold on the reversed route, not on the route itself.

The forward fold is monotone: more input, or lower fees on the same pools, never give less output.
The inverse formula is a price only while each running amount stays below the output reserve of
its hop.  Nothing checks that region, and outside it the formula's value, negative past the
reserve, is returned as the required input.
-/

namespace Liquidator

namespace AMMRouter

/-- Modelled from the spec: `calculateOutputXYKPool` of `math.js`, the constant-product output
`out = y1 * dx / (x1 + dx)` of an input `dx` against reserves `x1`, `y1`. -/
def calculateOutputXYKPool (x1 y1 tokenInAmount : ℚ) : ℚ :=
  y1 * tokenInAmount / (x1 + tokenInAmount)

/-- Modelled from the spec: `calculateRequiredInputXYKPool` of `math.js`, the inverse
constant-product formula `dx = x1 * dy / (y1 - dy)` for a required output `dy`. -/
def calculateRequiredInputXYKPool (x1 y1 tokenOutRequired : ℚ) : ℚ :=
  x1 * tokenOutRequired / (y1 - tokenOutRequired)

/-- One hop of `getEstimatedOutput`: the swap output less the hop's fee on it. -/
def hopOutput (routeHop : RouteHop) (tokenInAmount : ℚ) : ℚ :=
  let amountBeforeFees := calculateOutputXYKPool routeHop.x1 routeHop.y1 tokenInAmount
  amountBeforeFees - amountBeforeFees * routeHop.swapFee

/-- One hop of `getEstimatedRequiredInput`: the inverse swap input plus the fee on the output. -/
def hopRequiredInput (routeHop : RouteHop) (tokenOutRequired : ℚ) : ℚ :=
  calculateRequiredInputXYKPool routeHop.x1 routeHop.y1 tokenOutRequired +
    tokenOutRequired * routeHop.swapFee

/-- `AMMRouter.getEstimatedOutput`; the pair is `(amountAfterFees, tokenInAmount)` of the loop.
A zero input is logged and answered with zero. -/
def getEstimatedOutput (tokenInAmount : ℚ) (route : Route) : ℚ :=
  if tokenInAmount = 0 then 0
  else
    (route.foldl (fun (amounts : ℚ × ℚ) routeHop =>
      let amountAfterFees := hopOutput routeHop amounts.2
      (amountAfterFees, amountAfterFees)) (0, tokenInAmount)).1

/-- `AMMRouter.getEstimatedRequiredInput`; the pair is `(amountAfterFees, tokenOutRequired)` of
the loop.  A zero target is logged and answered with zero. -/
def getEstimatedRequiredInput (tokenOutRequired : ℚ) (route : Route) : ℚ :=
  if tokenOutRequired = 0 then 0
  else
    (route.foldl (fun (amounts : ℚ × ℚ) routeHop =>
      let amountAfterFees := hopRequiredInput routeHop amounts.2
      (amountAfterFees, amountAfterFees)) (0, tokenOutRequired)).1

/-- Both loops keep the last stage in both variables, so after a non-empty route the result is
the plain fold of the stage function. -/
private theorem foldl_pair_fst (stage : RouteHop → ℚ → ℚ) (route : Route) (amounts : ℚ × ℚ)
    (ne_nil : route ≠ []) :
    (route.foldl (fun (amounts : ℚ × ℚ) routeHop =>
        (stage routeHop amounts.2, stage routeHop amounts.2)) amounts).1 =
      route.foldl (fun amount routeHop => stage routeHop amount) amounts.2 := by
  induction route generalizing amounts with
  | nil => exact absurd rfl ne_nil
  | cons routeHop rest induction =>
      rcases rest with _ | ⟨next, rest⟩
      · rfl
      · exact induction _ (List.cons_ne_nil _ _)

theorem getEstimatedOutput_eq_foldl {tokenInAmount : ℚ} {route : Route}
    (ne_zero : tokenInAmount ≠ 0)
    (ne_nil : route ≠ []) :
    getEstimatedOutput tokenInAmount route =
      route.foldl (fun amount routeHop => hopOutput routeHop amount) tokenInAmount := by
  rw [getEstimatedOutput, if_neg ne_zero]
  exact foldl_pair_fst hopOutput route _ ne_nil

theorem getEstimatedRequiredInput_eq_foldl {tokenOutRequired : ℚ} {route : Route}
    (ne_zero : tokenOutRequired ≠ 0) (ne_nil : route ≠ []) :
    getEstimatedRequiredInput tokenOutRequired route =
      route.foldl (fun amount routeHop => hopRequiredInput routeHop amount) tokenOutRequired := by
  rw [getEstimatedRequiredInput, if_neg ne_zero]
  exact foldl_pair_fst hopRequiredInput route _ ne_nil

section FeeFree

/-- Two fee-free pools `assetA/assetB` and `assetB/assetC`. -/
def twoHopPools : List Pool :=
  [⟨1, ⟨"assetA", 1000⟩, ⟨"assetB", 4000⟩, 0⟩, ⟨2, ⟨"assetB", 2000⟩, ⟨"assetC", 2000⟩, 0⟩]

/-- The only route of `twoHopPools` from `assetA` to `assetC`. -/
def walkHops : Route :=
  [⟨1, "assetA", "assetB", 0, 1000, 4000⟩, ⟨2, "assetB", "assetC", 0, 2000, 2000⟩]

theorem getRoutes_twoHopPools : getRoutes twoHopPools "assetA" "assetC" = [walkHops] := by
  simp +decide [getRoutes, buildRoutesForTrade_eval, exploreChildren, endingRoutes,
    possibleStartingPairs, endingPairs, twoHopPools, walkHops, tokenOut, nextHop, endingHop,
    tokenIn, Pool.reserveOf, Pool.poolAssets]

/-- On the two-hop route of `twoHopPools`, 1000 `assetA` buy 1000 `assetC`, yet the required
input the router reports for 1000 `assetC` is 400: the inverse fold visits the hops in the
forward order. -/
theorem twoHop_requiredInput_undershoots :
    getRoutes twoHopPools "assetA" "assetC" = [walkHops] ∧
      getEstimatedOutput 1000 walkHops = 1000 ∧ getEstimatedRequiredInput 1000 walkHops = 400 := by
  refine ⟨getRoutes_twoHopPools, ?_⟩
  norm_num [walkHops, getEstimatedOutput, getEstimatedRequiredInput, hopOutput,
      hopRequiredInput, calculateOutputXYKPool, calculateRequiredInputXYKPool]

/-- A hop that can be priced both ways without fee: positive reserves and a zero fee. -/
def FeeFreeHop (routeHop : RouteHop) : Prop :=
  0 < routeHop.x1 ∧ 0 < routeHop.y1 ∧ routeHop.swapFee = 0

variable {routeHop : RouteHop} {amount : ℚ}

theorem hopOutput_pos (feeFree : FeeFreeHop routeHop) (pos : 0 < amount) :
    0 < hopOutput routeHop amount := by
  obtain ⟨x1_pos, y1_pos, fee⟩ := feeFree
  simp only [hopOutput, calculateOutputXYKPool, fee, mul_zero, sub_zero]
  exact div_pos (mul_pos y1_pos pos) (by linarith)

/-- On a fee-free hop the inverse formula undoes the swap. -/
theorem hopRequiredInput_hopOutput (feeFree : FeeFreeHop routeHop) (pos : 0 < amount) :
    hopRequiredInput routeHop (hopOutput routeHop amount) = amount := by
  obtain ⟨x1_pos, y1_pos, fee⟩ := feeFree
  have sum_pos : 0 < routeHop.x1 + amount := by linarith
  have remaining : routeHop.y1 - routeHop.y1 * amount / (routeHop.x1 + amount) =
      routeHop.y1 * routeHop.x1 / (routeHop.x1 + amount) := by
    field_simp
    ring
  simp only [hopRequiredInput, hopOutput, calculateRequiredInputXYKPool, calculateOutputXYKPool,
    fee, mul_zero, sub_zero, add_zero, remaining]
  field_simp
  ring

/-- Run over the reversed route, the inverse fold undoes the forward fold on routes of every
length. -/
theorem foldr_hopRequiredInput_foldl_hopOutput (route : Route)
    (feeFree : ∀ routeHop ∈ route, FeeFreeHop routeHop) (pos : 0 < amount) :
    route.foldr (fun routeHop required => hopRequiredInput routeHop required)
        (route.foldl (fun amount routeHop => hopOutput routeHop amount) amount) = amount ∧
      0 < route.foldl (fun amount routeHop => hopOutput routeHop amount) amount := by
  induction route generalizing amount with
  | nil => exact ⟨rfl, pos⟩
  | cons routeHop rest induction =>
      have first := feeFree routeHop (List.mem_cons_self _ _)
      obtain ⟨inverts, stays_pos⟩ := induction
        (fun other member => feeFree other (List.mem_cons_of_mem _ member))
        (hopOutput_pos first pos)
      exact ⟨by simp only [List.foldl_cons, List.foldr_cons, inverts,
        hopRequiredInput_hopOutput first pos], stays_pos⟩

/-- The required-input fold applied to the reversed route inverts the output fold exactly. -/
theorem getEstimatedRequiredInput_reverse_getEstimatedOutput {route : Route} (ne_nil : route ≠ [])
    (feeFree : ∀ routeHop ∈ route, FeeFreeHop routeHop) (pos : 0 < amount) :
    getEstimatedRequiredInput (getEstimatedOutput amount route) route.reverse = amount := by
  obtain ⟨inverts, output_pos⟩ := foldr_hopRequiredInput_foldl_hopOutput route feeFree pos
  rw [getEstimatedOutput_eq_foldl pos.ne' ne_nil,
    getEstimatedRequiredInput_eq_foldl output_pos.ne' (List.reverse_ne_nil_iff.mpr ne_nil),
    List.foldl_reverse]
  exact inverts

theorem scenario_requiredInput_reverse :
    (∀ routeHop ∈ walkHops, FeeFreeHop routeHop) ∧
      getEstimatedRequiredInput (getEstimatedOutput 1000 walkHops) walkHops.reverse = 1000 :=
  have feeFree : ∀ routeHop ∈ walkHops, FeeFreeHop routeHop := by
    norm_num [walkHops, FeeFreeHop]
  ⟨feeFree, getEstimatedRequiredInput_reverse_getEstimatedOutput (by simp [walkHops]) feeFree
    (by norm_num)⟩

/-- On a single fee-free hop the required input for the output of `amount` is `amount`: the
one-hop route is its own reverse, so the folds invert as on every route. -/
theorem getEstimatedRequiredInput_getEstimatedOutput_single {routeHop : RouteHop}
    (feeFree : FeeFreeHop routeHop) (pos : 0 < amount) :
    getEstimatedRequiredInput (getEstimatedOutput amount [routeHop]) [routeHop] = amount := by
  obtain ⟨inverts, output_pos⟩ :=
    foldr_hopRequiredInput_foldl_hopOutput [routeHop] (by simpa using feeFree) pos
  rw [getEstimatedOutput_eq_foldl pos.ne' (List.cons_ne_nil _ []),
    getEstimatedRequiredInput_eq_foldl output_pos.ne' (List.cons_ne_nil _ [])]
  simpa using inverts

theorem scenario_requiredInput_single :
    FeeFreeHop ⟨1, "assetA", "assetB", 0, 1000000, 2000000⟩ ∧
      getEstimatedRequiredInput (getEstimatedOutput 1000 [⟨1, "assetA", "assetB", 0, 1000000, 2000000⟩])
        [⟨1, "assetA", "assetB", 0, 1000000, 2000000⟩] = 1000 :=
  have feeFree : FeeFreeHop ⟨1, "assetA", "assetB", 0, 1000000, 2000000⟩ := by
    norm_num [FeeFreeHop]
  ⟨feeFree, getEstimatedRequiredInput_getEstimatedOutput_single feeFree (by norm_num)⟩

end FeeFree

/-- The hop of the scenario pool `assetA/assetB` traded from `assetB` to `assetA`. -/
def scenarioHopBA : RouteHop := ⟨1, "assetB", "assetA", 2 / 1000, 2000000, 1000000⟩

/-- Trading the scenario pool from `assetB` to `assetA`, the input reported as required for the
output of 10000 `assetB` buys less than that output: the fee term, charged on the output, is
too small when the output asset is the dearer one. -/
theorem scenario_requiredInput_insufficient :
    getRoutes scenarioPools "assetB" "assetA" = [[scenarioHopBA]] ∧
      getEstimatedOutput
          (getEstimatedRequiredInput (getEstimatedOutput 10000 [scenarioHopBA]) [scenarioHopBA])
          [scenarioHopBA] <
        getEstimatedOutput 10000 [scenarioHopBA] := by
  refine ⟨?_, ?_⟩
  · simp +decide [getRoutes, buildRoutesForTrade_eval, exploreChildren, endingRoutes,
      possibleStartingPairs, endingPairs, scenarioPools, scenarioHopBA, tokenOut, nextHop,
      endingHop, tokenIn, Pool.reserveOf, Pool.poolAssets]
  · norm_num [scenarioHopBA, getEstimatedOutput, getEstimatedRequiredInput, hopOutput,
      hopRequiredInput, calculateOutputXYKPool, calculateRequiredInputXYKPool]

section Monotone

/-- A hop the output formula prices as a trade: a positive input reserve, a non-negative output
reserve and a fee fraction of at most one. -/
def PricedHop (routeHop : RouteHop) : Prop :=
  0 < routeHop.x1 ∧ 0 ≤ routeHop.y1 ∧ routeHop.swapFee ≤ 1

/-- `cheaper` is `routeHop` with a fee no larger. -/
def LowerFee (routeHop cheaper : RouteHop) : Prop :=
  cheaper = { routeHop with swapFee := cheaper.swapFee } ∧ cheaper.swapFee ≤ routeHop.swapFee

variable {routeHop cheaper : RouteHop} {amount larger : ℚ}

theorem hopOutput_eq_mul (routeHop : RouteHop) (amount : ℚ) :
    hopOutput routeHop amount =
      calculateOutputXYKPool routeHop.x1 routeHop.y1 amount * (1 - routeHop.swapFee) := by
  simp only [hopOutput]
  ring

theorem calculateOutputXYKPool_nonneg {x1 y1 : ℚ} (x1_nonneg : 0 ≤ x1) (y1_nonneg : 0 ≤ y1)
    (nonneg : 0 ≤ amount) : 0 ≤ calculateOutputXYKPool x1 y1 amount :=
  div_nonneg (mul_nonneg y1_nonneg nonneg) (add_nonneg x1_nonneg nonneg)

/-- The constant-product output grows with the input. -/
theorem calculateOutputXYKPool_le {x1 y1 : ℚ} (x1_pos : 0 < x1) (y1_nonneg : 0 ≤ y1)
    (nonneg : 0 ≤ amount) (le : amount ≤ larger) :
    calculateOutputXYKPool x1 y1 amount ≤ calculateOutputXYKPool x1 y1 larger := by
  unfold calculateOutputXYKPool
  rw [div_le_div_iff₀ (by linarith) (by linarith)]
  nlinarith [mul_nonneg (mul_nonneg y1_nonneg x1_pos.le) (sub_nonneg.mpr le)]

theorem hopOutput_nonneg (priced : PricedHop routeHop) (nonneg : 0 ≤ amount) :
    0 ≤ hopOutput routeHop amount := by
  rw [hopOutput_eq_mul]
  exact mul_nonneg (calculateOutputXYKPool_nonneg priced.1.le priced.2.1 nonneg)
    (sub_nonneg.mpr priced.2.2)

/-- One hop: more input and a lower fee give at least as much output. -/
theorem hopOutput_le (priced : PricedHop routeHop) (lower : LowerFee routeHop cheaper)
    (nonneg : 0 ≤ amount) (le : amount ≤ larger) :
    hopOutput routeHop amount ≤ hopOutput cheaper larger := by
  obtain ⟨x1_pos, y1_nonneg, fee_le_one⟩ := priced
  have output_nonneg := calculateOutputXYKPool_nonneg x1_pos.le y1_nonneg (nonneg.trans le)
  have reserves : cheaper.x1 = routeHop.x1 ∧ cheaper.y1 = routeHop.y1 := by
    rw [lower.1]
    exact ⟨rfl, rfl⟩
  rw [hopOutput_eq_mul, hopOutput_eq_mul, reserves.1, reserves.2]
  calc _ ≤ calculateOutputXYKPool routeHop.x1 routeHop.y1 larger * (1 - routeHop.swapFee) :=
        mul_le_mul_of_nonneg_right (calculateOutputXYKPool_le x1_pos y1_nonneg nonneg le)
          (sub_nonneg.mpr fee_le_one)
    _ ≤ _ := mul_le_mul_of_nonneg_left (by linarith [lower.2]) output_nonneg

theorem foldl_hopOutput_nonneg {route : Route} (priced : ∀ routeHop ∈ route, PricedHop routeHop)
    (nonneg : 0 ≤ amount) :
    0 ≤ route.foldl (fun amount routeHop => hopOutput routeHop amount) amount := by
  induction route generalizing amount with
  | nil => exact nonneg
  | cons routeHop rest induction =>
      exact induction (fun other member => priced other (List.mem_cons_of_mem _ member))
        (hopOutput_nonneg (priced routeHop (List.mem_cons_self _ _)) nonneg)

/-- The forward fold is monotone in its input and antitone in every hop's fee. -/
theorem foldl_hopOutput_le {route cheaperRoute : Route}
    (lower : List.Forall₂ LowerFee route cheaperRoute)
    (priced : ∀ routeHop ∈ route, PricedHop routeHop) (nonneg : 0 ≤ amount) (le : amount ≤ larger) :
    route.foldl (fun amount routeHop => hopOutput routeHop amount) amount ≤
      cheaperRoute.foldl (fun amount routeHop => hopOutput routeHop amount) larger := by
  induction lower generalizing amount larger with
  | nil => exact le
  | cons lowerHop _ induction =>
      have first := priced _ (List.mem_cons_self _ _)
      exact induction (fun other member => priced other (List.mem_cons_of_mem _ member))
        (hopOutput_nonneg first nonneg) (hopOutput_le first lowerHop nonneg le)

/-- `getEstimatedOutput` is non-decreasing in the input and non-increasing in every hop's
fee, on routes of every length. -/
theorem getEstimatedOutput_le_of_lowerFee {route cheaperRoute : Route}
    (priced : ∀ routeHop ∈ route, PricedHop routeHop)
    (lower : List.Forall₂ LowerFee route cheaperRoute) (nonneg : 0 ≤ amount) (le : amount ≤ larger) :
    getEstimatedOutput amount route ≤ getEstimatedOutput larger cheaperRoute := by
  rcases eq_or_ne route [] with rfl | ne_nil
  · rw [List.forall₂_nil_left_iff.mp lower]
    simp [getEstimatedOutput]
  have cheaper_ne_nil : cheaperRoute ≠ [] := by
    rintro rfl
    exact ne_nil (List.forall₂_nil_right_iff.mp lower)
  by_cases zero : amount = 0
  · rw [getEstimatedOutput, if_pos zero]
    by_cases larger_zero : larger = 0
    · simp [getEstimatedOutput, larger_zero]
    rw [getEstimatedOutput_eq_foldl larger_zero cheaper_ne_nil]
    exact (foldl_hopOutput_nonneg priced le_rfl).trans
      (foldl_hopOutput_le lower priced le_rfl (zero ▸ le))
  · rw [getEstimatedOutput_eq_foldl zero ne_nil,
      getEstimatedOutput_eq_foldl ((lt_of_le_of_ne nonneg (Ne.symm zero)).trans_le le).ne'
        cheaper_ne_nil]
    exact foldl_hopOutput_le lower priced nonneg le

/-- `walkHops` with a fee of 0.3% on each hop. -/
def walkHopsWithFee : Route :=
  [⟨1, "assetA", "assetB", 3 / 1000, 1000, 4000⟩, ⟨2, "assetB", "assetC", 3 / 1000, 2000, 2000⟩]

theorem walkHops_output_le_feeFree :
    (∀ routeHop ∈ walkHopsWithFee, PricedHop routeHop) ∧
      List.Forall₂ LowerFee walkHopsWithFee walkHops ∧ (0 : ℚ) ≤ 1000 ∧ (1000 : ℚ) ≤ 2000 ∧
      getEstimatedOutput 1000 walkHopsWithFee ≤ getEstimatedOutput 2000 walkHops :=
  have priced : ∀ routeHop ∈ walkHopsWithFee, PricedHop routeHop := by
    norm_num [walkHopsWithFee, PricedHop]
  have lower : List.Forall₂ LowerFee walkHopsWithFee walkHops :=
    .cons ⟨rfl, by norm_num⟩ (.cons ⟨rfl, by norm_num⟩ .nil)
  ⟨priced, lower, by norm_num, by norm_num,
    getEstimatedOutput_le_of_lowerFee priced lower (by norm_num) (by norm_num)⟩

end Monotone

section Reserve

/-- A hop of a pool holding both its reserves, with a fee fraction between zero and one. -/
def StockedHop (routeHop : RouteHop) : Prop :=
  0 < routeHop.x1 ∧ 0 < routeHop.y1 ∧ 0 ≤ routeHop.swapFee ∧ routeHop.swapFee ≤ 1

instance (routeHop : RouteHop) : Decidable (StockedHop routeHop) :=
  inferInstanceAs (Decidable (_ ∧ _))

variable {routeHop : RouteHop} {amount : ℚ}

theorem StockedHop.priced (stocked : StockedHop routeHop) : PricedHop routeHop :=
  ⟨stocked.1, stocked.2.1.le, stocked.2.2.2⟩

/-- A hop never pays out its whole output reserve. -/
theorem hopOutput_lt_y1 (stocked : StockedHop routeHop) (nonneg : 0 ≤ amount) :
    hopOutput routeHop amount < routeHop.y1 := by
  obtain ⟨x1_pos, y1_pos, fee_nonneg, fee_le_one⟩ := stocked
  have output_nonneg := calculateOutputXYKPool_nonneg x1_pos.le y1_pos.le nonneg
  have below : calculateOutputXYKPool routeHop.x1 routeHop.y1 amount < routeHop.y1 := by
    unfold calculateOutputXYKPool
    rw [div_lt_iff₀ (by linarith)]
    nlinarith
  rw [hopOutput_eq_mul]
  calc _ ≤ calculateOutputXYKPool routeHop.x1 routeHop.y1 amount :=
        mul_le_of_le_one_right output_nonneg (by linarith)
    _ < routeHop.y1 := below

/-- `getEstimatedOutput` never quotes more than the last pool of the route holds: from any
non-negative input, along any route of stocked pools, the quote is non-negative and below the
output reserve of the last hop. -/
theorem getEstimatedOutput_lt_lastReserve {route : Route} (ne_nil : route ≠ [])
    (stocked : ∀ routeHop ∈ route, StockedHop routeHop) (nonneg : 0 ≤ amount) :
    0 ≤ getEstimatedOutput amount route ∧
      getEstimatedOutput amount route < (route.getLast ne_nil).y1 := by
  obtain ⟨front, last, rfl⟩ := (List.eq_nil_or_concat route).resolve_left ne_nil
  have lastStocked := stocked last (by simp)
  rw [List.getLast_concat']
  by_cases zero : amount = 0
  · rw [getEstimatedOutput, if_pos zero]
    exact ⟨le_rfl, lastStocked.2.1⟩
  have frontOutput : 0 ≤ front.foldl (fun amount routeHop => hopOutput routeHop amount) amount :=
    foldl_hopOutput_nonneg (fun routeHop member => (stocked routeHop (by simp [member])).priced)
      nonneg
  rw [getEstimatedOutput_eq_foldl zero ne_nil, List.concat_eq_append, List.foldl_append,
    List.foldl_cons, List.foldl_nil]
  exact ⟨hopOutput_nonneg lastStocked.priced frontOutput, hopOutput_lt_y1 lastStocked frontOutput⟩

theorem walkHops_quote_below_reserve :
    walkHops ≠ [] ∧ (∀ routeHop ∈ walkHops, StockedHop routeHop) ∧ (0 : ℚ) ≤ 5000 ∧
      0 ≤ getEstimatedOutput 5000 walkHops ∧
        getEstimatedOutput 5000 walkHops < (walkHops.getLast (by decide)).y1 :=
  have stocked : ∀ routeHop ∈ walkHops, StockedHop routeHop := by decide
  ⟨by decide, stocked, by norm_num,
    getEstimatedOutput_lt_lastReserve (by decide) stocked (by norm_num)⟩

end Reserve

section Liquidity

/-- Every running amount of the inverse fold stays below the output reserve of the hop it is
priced against: the region where the inverse formula is a price. -/
def Liquid : ℚ → Route → Prop
  | _, [] => True
  | tokenOutRequired, routeHop :: rest =>
      tokenOutRequired < routeHop.y1 ∧ Liquid (hopRequiredInput routeHop tokenOutRequired) rest

instance decidableLiquid : (tokenOutRequired : ℚ) → (route : Route) →
    Decidable (Liquid tokenOutRequired route)
  | _, [] => isTrue trivial
  | tokenOutRequired, routeHop :: rest =>
      haveI := decidableLiquid (hopRequiredInput routeHop tokenOutRequired) rest
      inferInstanceAs (Decidable (_ ∧ _))

variable {tokenOutRequired : ℚ}

/-- A positive required amount below the hop's output reserve costs a positive input. -/
theorem hopRequiredInput_pos {routeHop : RouteHop} (x1_pos : 0 < routeHop.x1)
    (fee_nonneg : 0 ≤ routeHop.swapFee) (pos : 0 < tokenOutRequired)
    (liquid : tokenOutRequired < routeHop.y1) :
    0 < hopRequiredInput routeHop tokenOutRequired :=
  add_pos_of_pos_of_nonneg (div_pos (mul_pos x1_pos pos) (sub_pos.mpr liquid))
    (mul_nonneg pos.le fee_nonneg)

theorem foldl_hopRequiredInput_pos {route : Route}
    (reserves : ∀ routeHop ∈ route, 0 < routeHop.x1 ∧ 0 ≤ routeHop.swapFee)
    (pos : 0 < tokenOutRequired) (liquid : Liquid tokenOutRequired route) :
    0 < route.foldl (fun amount routeHop => hopRequiredInput routeHop amount) tokenOutRequired := by
  induction route generalizing tokenOutRequired with
  | nil => exact pos
  | cons routeHop rest induction =>
      obtain ⟨x1_pos, fee_nonneg⟩ := reserves routeHop (List.mem_cons_self _ _)
      exact induction (fun other member => reserves other (List.mem_cons_of_mem _ member))
        (hopRequiredInput_pos x1_pos fee_nonneg pos liquid.1) liquid.2

/-- Where the inverse formula is a price at every hop, the required input is positive.  Nothing
in the fold checks that region: outside it the formula's value is passed on as it is. -/
theorem getEstimatedRequiredInput_pos {route : Route} (ne_nil : route ≠ [])
    (reserves : ∀ routeHop ∈ route, 0 < routeHop.x1 ∧ 0 ≤ routeHop.swapFee)
    (pos : 0 < tokenOutRequired) (liquid : Liquid tokenOutRequired route) :
    0 < getEstimatedRequiredInput tokenOutRequired route := by
  rw [getEstimatedRequiredInput_eq_foldl pos.ne' ne_nil]
  exact foldl_hopRequiredInput_pos reserves pos liquid

theorem twoHop_requiredInput_pos :
    walkHops ≠ [] ∧ (∀ routeHop ∈ walkHops, 0 < routeHop.x1 ∧ 0 ≤ routeHop.swapFee) ∧
      (0 : ℚ) < 1000 ∧ Liquid 1000 walkHops ∧ 0 < getEstimatedRequiredInput 1000 walkHops :=
  have reserves : ∀ routeHop ∈ walkHops, 0 < routeHop.x1 ∧ 0 ≤ routeHop.swapFee := by
    norm_num [walkHops]
  have liquid : Liquid 1000 walkHops := by
    norm_num [Liquid, walkHops, hopRequiredInput, calculateRequiredInputXYKPool]
  ⟨List.cons_ne_nil _ _, reserves, by norm_num, liquid,
    getEstimatedRequiredInput_pos (List.cons_ne_nil _ _) reserves (by norm_num) liquid⟩

/-- On the two-hop route of `twoHopPools`, a target of 3000 `assetC` is below the first
hop's reserve, but the inverse fold carries a running amount of 3000 into the second hop, whose
output reserve is 2000: the router reports a required input of -6000, and nothing is flagged. -/
theorem twoHop_requiredInput_negative :
    getRoutes twoHopPools "assetA" "assetC" = [walkHops] ∧ ¬Liquid 3000 walkHops ∧
      getEstimatedRequiredInput 3000 walkHops = -6000 := by
  refine ⟨getRoutes_twoHopPools, ?_, ?_⟩
  · norm_num [Liquid, walkHops, hopRequiredInput, calculateRequiredInputXYKPool]
  · norm_num [walkHops, getEstimatedRequiredInput, hopRequiredInput,
      calculateRequiredInputXYKPool]

end Liquidity

end AMMRouter

end Liquidator
