import Mathlib.Data.Rat.Defs
import Mathlib.Data.List.Nodup

/-!
# The liquidator's data model

Pools, route hops, positions, liquidation transactions and coins as the TypeScript sources read
them.  Chain amounts (`Uint128` strings) are natural numbers, `BigNumber` values are exact
rationals, and a JavaScript `Map` keyed by denom is an insertion-ordered association list that
carries the uniqueness of its keys.
-/

namespace Liquidator

/-- Asset identifiers on the chain. -/
abbrev Denom := String

/-- Pool identifiers, compared by value. -/
abbrev PoolId := ℕ

/-- One reserve of an AMM pool. -/
structure PoolAsset where
  /-- Denom of the reserve. -/
  denom : Denom
  /-- Reserve amount. -/
  amount : ℕ
  deriving DecidableEq, Repr

/-- A two-asset constant-product pool; `base` and `quote` are `poolAssets[0]` and
`poolAssets[1]`. -/
structure Pool where
  /-- Pool identifier. -/
  id : PoolId
  /-- `poolAssets[BASE_ASSET_INDEX]`. -/
  base : PoolAsset
  /-- `poolAssets[QUOTE_ASSET_INDEX]`. -/
  quote : PoolAsset
  /-- Fee fraction charged on the output, `Number(pool.swapFee || '0')`. -/
  swapFee : ℚ
  deriving DecidableEq, Repr

namespace Pool

/-- The pool's asset array, in index order. -/
def poolAssets (pool : Pool) : List PoolAsset := [pool.base, pool.quote]

/-- One of the pool's two reserves has the given denom. -/
def HasDenom (pool : Pool) (denom : Denom) : Prop :=
  pool.base.denom = denom ∨ pool.quote.denom = denom

instance (pool : Pool) (denom : Denom) : Decidable (pool.HasDenom denom) :=
  inferInstanceAs (Decidable (_ ∨ _))

/-- The two reserves have distinct denoms. -/
def DistinctDenoms (pool : Pool) : Prop := pool.base.denom ≠ pool.quote.denom

/-- The reserve of `denom`, as `poolAssets.find((asset) => asset.denom === denom)?.amount` reads
it. -/
def reserveOf (pool : Pool) (denom : Denom) : ℚ :=
  ((pool.poolAssets.find? (·.denom == denom)).map (·.amount)).getD 0

@[simp]
theorem reserveOf_base (pool : Pool) : pool.reserveOf pool.base.denom = pool.base.amount := by
  simp [reserveOf, poolAssets]

theorem reserveOf_quote {pool : Pool} (distinct : pool.DistinctDenoms) :
    pool.reserveOf pool.quote.denom = pool.quote.amount := by
  simp [reserveOf, poolAssets, show pool.base.denom ≠ pool.quote.denom from distinct]

end Pool

/-- One hop of a route, with the reserves of its pool captured when the hop was built. -/
structure RouteHop where
  /-- Pool traded against. -/
  poolId : PoolId
  /-- Denom paid into the pool. -/
  tokenInDenom : Denom
  /-- Denom received from the pool. -/
  tokenOutDenom : Denom
  /-- Fee fraction of the pool. -/
  swapFee : ℚ
  /-- Reserve of `tokenInDenom`. -/
  x1 : ℚ
  /-- Reserve of `tokenOutDenom`. -/
  y1 : ℚ
  deriving DecidableEq, Repr

/-- A route is its hops, in trading order. -/
abbrev Route := List RouteHop

/-- A `{denom, amount}` record of a position, as the position source returns it. -/
structure PositionAsset where
  /-- Denom of the collateral or debt. -/
  denom : Denom
  /-- Amount held or owed. -/
  amount : ℕ
  deriving DecidableEq, Repr

/-- A collateral entry of a position. -/
abbrev Collateral := PositionAsset

/-- A debt entry of a position. -/
abbrev Debt := PositionAsset

/-- One position of the fetched batch, `positionResponse.data[positionAddress]` with its address. -/
structure Position where
  /-- `Object.keys(positionResponse.data)[0]`. -/
  address : String
  /-- Deposited collaterals. -/
  collaterals : List Collateral
  /-- Outstanding debts. -/
  debts : List Debt
  deriving DecidableEq, Repr

/-- A liquidation request of the `liquidate_many` message. -/
structure LiquidationTx where
  /-- Collateral to receive. -/
  collateralDenom : Denom
  /-- Debt to repay. -/
  debtDenom : Denom
  /-- Owner of the position. -/
  userAddress : String
  /-- Debt units to repay. -/
  amount : ℤ
  deriving DecidableEq, Repr

/-- A cosmjs `Coin`; its amount string holds an integer. -/
structure Coin where
  /-- Denom of the coin. -/
  denom : Denom
  /-- Amount, the integer the string denotes. -/
  amount : ℤ
  deriving DecidableEq, Repr

/-- The executor configuration fields the planning pass reads. -/
structure ExecutorConfig where
  /-- The settlement asset. -/
  neutralAssetDenom : Denom
  /-- The denom paying gas. -/
  gasDenom : Denom
  deriving DecidableEq, Repr

/-- A JavaScript `Map` keyed by denom: entries in insertion order, one per key. -/
structure DenomMap (α : Type) where
  /-- Entries in insertion order. -/
  entries : List (Denom × α)
  /-- No key occurs twice. -/
  keys_nodup : (entries.map Prod.fst).Nodup

namespace DenomMap

variable {α : Type}

/-- `new Map()`. -/
def empty : DenomMap α := ⟨[], List.nodup_nil⟩

/-- `Map.prototype.get`. -/
def get (m : DenomMap α) (key : Denom) : Option α := m.entries.lookup key

private theorem keys_overwrite (entries : List (Denom × α)) (key : Denom) (value : α) :
    (entries.map fun entry => if entry.1 = key then (key, value) else entry).map Prod.fst =
      entries.map Prod.fst := by
  induction entries with
  | nil => rfl
  | cons entry entries induction =>
      by_cases hit : entry.1 = key <;> simp [hit, induction]

/-- `Map.prototype.set`: an existing key keeps its position, a new key goes last. -/
def set (m : DenomMap α) (key : Denom) (value : α) : DenomMap α :=
  if present : key ∈ m.entries.map Prod.fst then
    ⟨m.entries.map fun entry => if entry.1 = key then (key, value) else entry,
      by rw [keys_overwrite]; exact m.keys_nodup⟩
  else
    ⟨m.entries ++ [(key, value)], by
      simpa [List.nodup_append, present] using m.keys_nodup⟩

/-- `Map.prototype.keys`, in insertion order. -/
def keys (m : DenomMap α) : List Denom := m.entries.map Prod.fst

@[simp]
theorem keys_empty : (empty : DenomMap α).keys = [] := rfl

@[simp]
theorem mem_keys_set {m : DenomMap α} {key denom : Denom} {value : α} :
    denom ∈ (m.set key value).keys ↔ denom = key ∨ denom ∈ m.keys := by
  unfold set keys
  split_ifs with present
  · rw [keys_overwrite]
    exact ⟨.inr, fun member => member.elim (· ▸ present) id⟩
  · simp [or_comm]

@[simp]
theorem get_empty (denom : Denom) : (empty : DenomMap α).get denom = none := rfl

@[simp]
theorem get_isSome {m : DenomMap α} {denom : Denom} : (m.get denom).isSome ↔ denom ∈ m.keys := by
  simp only [get, keys, List.lookup_isSome_iff, beq_iff_eq, List.mem_map]
  exact exists_congr fun _ => and_congr_right fun _ => eq_comm

private theorem lookup_cons_ite (entries : List (Denom × α)) (key denom : Denom) (value : α) :
    ((key, value) :: entries).lookup denom =
      if denom = key then some value else entries.lookup denom := by
  by_cases same : denom = key
  · simp [same]
  · simp [List.lookup_cons, same, beq_false_of_ne same]

private theorem lookup_overwrite (entries : List (Denom × α)) (key denom : Denom) (value : α) :
    (entries.map fun entry => if entry.1 = key then (key, value) else entry).lookup denom =
      if denom = key then (entries.lookup key).map fun _ => value else entries.lookup denom := by
  induction entries with
  | nil => split_ifs <;> rfl
  | cons entry entries induction =>
      obtain ⟨k, v⟩ := entry
      by_cases hit : k = key
      · subst hit
        by_cases same : denom = k <;> simp [lookup_cons_ite, same, induction]
      · by_cases same : denom = k
        · simp [lookup_cons_ite, hit, same]
        · simp [lookup_cons_ite, hit, same, induction, Ne.symm hit]

/-- A read after `set` sees the value just written, and only at its key. -/
@[simp]
theorem get_set (m : DenomMap α) (key denom : Denom) (value : α) :
    (m.set key value).get denom = if denom = key then some value else m.get denom := by
  have found : (m.get key).isSome ↔ key ∈ m.entries.map Prod.fst := get_isSome
  unfold set get
  split_ifs with present same same
  · rw [lookup_overwrite, if_pos same, Option.map_eq_some']
    exact ⟨_, Option.get_mem (found.mpr present), rfl⟩
  · rw [lookup_overwrite, if_neg same]
  · have absent : m.entries.lookup key = none :=
      Option.not_isSome_iff_eq_none.mp (mt found.mp present)
    simp [List.lookup_append, same, absent]
  · simp [List.lookup_append, lookup_cons_ite, same]

/-- The keys after a run of `set`s: the keys written and the keys already there. -/
theorem mem_keys_foldl_set {β : Type} (key : β → Denom) (value : DenomMap α → β → α)
    (items : List β) (m : DenomMap α) (denom : Denom) :
    denom ∈ (items.foldl (fun m item => m.set (key item) (value m item)) m).keys ↔
      denom ∈ items.map key ∨ denom ∈ m.keys := by
  induction items generalizing m with
  | nil => simp
  | cons item items induction => simp [induction, or_assoc, or_left_comm]

/-- A key read back is filed with the value read. -/
theorem mem_of_get {m : DenomMap α} {key : Denom} {value : α} (found : m.get key = some value) :
    (key, value) ∈ m.entries := by
  obtain ⟨front, back, split, -⟩ := List.lookup_eq_some_iff.mp found
  exact split ▸ List.mem_append_right _ (List.mem_cons_self _ _)

/-- With distinct keys, every entry is what `get` reads at its key. -/
theorem get_of_mem {m : DenomMap α} {key : Denom} {value : α} (member : (key, value) ∈ m.entries) :
    m.get key = some value := by
  obtain ⟨front, back, split⟩ := List.append_of_mem member
  have fresh : key ∉ front.map Prod.fst := by
    have := m.keys_nodup
    rw [split, List.map_append, List.map_cons, List.nodup_append] at this
    exact fun mem => this.2.2 mem (List.mem_cons_self _ _)
  refine List.lookup_eq_some_iff.mpr ⟨front, back, split, fun p mem => ?_⟩
  simpa using fun same : key = p.1 => fresh (same ▸ List.mem_map_of_mem _ mem)

end DenomMap

end Liquidator
