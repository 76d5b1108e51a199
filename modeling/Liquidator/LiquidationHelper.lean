import Mathlib.Data.List.Basic

/-!
# Reading liquidations back from the transaction events

`LiquidationHelper.parseLiquidationResult` keeps the `wasm` events of a transaction's log and
reads each one attribute by attribute.  A `collateral_denom`, `debt_denom` or
`collateral_amount` attribute fills its field of the result being built; a `debt_amount`
attribute fills the last field, pushes a copy of the result and starts a blank one; any other
attribute is skipped.

Every event list that encodes a list of results, each as a group of attributes inside one `wasm`
event closed by its `debt_amount`, with the other fields present once when they are not empty,
in any order and among attributes of other keys, is read back as exactly that list.  The reset
after each `debt_amount` is what keeps the fields of one result out of the next.
-/

namespace Liquidator

namespace LiquidationHelper

/-- A cosmjs log attribute. -/
structure Attribute where
  /-- Attribute key. -/
  key : String
  /-- Attribute value. -/
  value : String
  deriving DecidableEq, Repr

/-- A cosmjs log event. -/
structure Event where
  /-- Event type, `wasm` for contract events. -/
  type : String
  /-- Attributes, in emission order. -/
  attributes : List Attribute
  deriving DecidableEq, Repr

/-- A `LiquidationResult`: the attribute values, as strings. -/
structure LiquidationResult where
  /-- From `collateral_denom`. -/
  collateralReceivedDenom : String
  /-- From `debt_denom`. -/
  debtRepaidDenom : String
  /-- From `debt_amount`. -/
  debtRepaidAmount : String
  /-- From `collateral_amount`. -/
  collateralReceivedAmount : String
  deriving DecidableEq, Repr

namespace LiquidationResult

/-- The result every group starts from. -/
def blank : LiquidationResult := ⟨"", "", "", ""⟩

/-- The field the parser fills from an attribute key, `""` for a key it skips. -/
def read (result : LiquidationResult) : String → String
  | "collateral_denom" => result.collateralReceivedDenom
  | "debt_denom" => result.debtRepaidDenom
  | "collateral_amount" => result.collateralReceivedAmount
  | "debt_amount" => result.debtRepaidAmount
  | _ => ""

end LiquidationResult

/-- The keys of the three fields read before a group's `debt_amount`. -/
def fieldKeys : List String := ["collateral_denom", "debt_denom", "collateral_amount"]

/-- What the `forEach` of `parseLiquidationResultInner` carries. -/
structure ParseState where
  /-- `results` pushed so far. -/
  results : List LiquidationResult
  /-- `result` being filled. -/
  result : LiquidationResult

/-- The `switch` on one attribute of `parseLiquidationResultInner`. -/
def parseAttribute (state : ParseState) (attr : Attribute) : ParseState :=
  if attr.key = "collateral_denom" then
    { state with result := { state.result with collateralReceivedDenom := attr.value } }
  else if attr.key = "debt_denom" then
    { state with result := { state.result with debtRepaidDenom := attr.value } }
  else if attr.key = "collateral_amount" then
    { state with result := { state.result with collateralReceivedAmount := attr.value } }
  else if attr.key = "debt_amount" then
    ⟨state.results ++ [{ state.result with debtRepaidAmount := attr.value }],
      LiquidationResult.blank⟩
  else state

/-- `LiquidationHelper.parseLiquidationResultInner`: the results of one event. -/
def parseLiquidationResultInner (wasm : Event) : List LiquidationResult :=
  (wasm.attributes.foldl parseAttribute ⟨[], LiquidationResult.blank⟩).results

/-- The body of the `forEach` of `parseLiquidationResult`, for one event. -/
def collectResults (liquidationResults : List LiquidationResult) (e : Event) :
    List LiquidationResult :=
  if e.type = "wasm" then liquidationResults ++ parseLiquidationResultInner e
  else liquidationResults

/-- `LiquidationHelper.parseLiquidationResult`: the results of the `wasm` events, in order. -/
def parseLiquidationResult (events : List Event) : List LiquidationResult :=
  events.foldl collectResults []

section Encoding

/-- The attributes of one result's group before its `debt_amount`: every field that is not empty
under its key, once, each carrying the result's value, in any order and among attributes of other
keys. -/
structure GroupBody (result : LiquidationResult) (body : List Attribute) : Prop where
  /-- Only the closing attribute is a `debt_amount`. -/
  not_closing : ∀ attr ∈ body, attr.key ≠ "debt_amount"
  /-- A field attribute carries the result's value for its field. -/
  carries : ∀ attr ∈ body, attr.key ∈ fieldKeys →
    attr.value = result.read attr.key
  /-- A field appears once, or not at all when it is empty. -/
  once : ∀ key ∈ fieldKeys,
    (body.filter (·.key = key)).length = if result.read key = "" then 0 else 1

/-- A group: its body, closed by the result's `debt_amount`. -/
def group (result : LiquidationResult) (body : List Attribute) : List Attribute :=
  body ++ [⟨"debt_amount", result.debtRepaidAmount⟩]

/-- The event lists that report a list of results: each result as a group inside one `wasm`
event, whose attributes may end with a trailer holding no `debt_amount`, and events of other
types anywhere. -/
inductive Encodes : List LiquidationResult → List Event → Prop
  | nil : Encodes [] []
  | other {results : List LiquidationResult} {events : List Event} (e : Event) :
      e.type ≠ "wasm" → Encodes results events → Encodes results (e :: events)
  | wasm {results : List LiquidationResult} {events : List Event}
      (groups : List (LiquidationResult × List Attribute)) (trailer : List Attribute) :
      (∀ entry ∈ groups, GroupBody entry.1 entry.2) →
      (∀ attr ∈ trailer, attr.key ≠ "debt_amount") → Encodes results events →
      Encodes (groups.map Prod.fst ++ results)
        (⟨"wasm", groups.flatMap (fun entry => group entry.1 entry.2) ++ trailer⟩ :: events)

end Encoding

section Parsing

namespace LiquidationResult

@[simp]
theorem read_blank (key : String) : blank.read key = "" := by
  unfold read
  split <;> rfl

/-- Setting the debt amount leaves the three fields read before it. -/
@[simp]
theorem read_setDebt (result : LiquidationResult) (debt : String) {key : String}
    (member : key ∈ fieldKeys) :
    { result with debtRepaidAmount := debt }.read key = result.read key := by
  simp only [fieldKeys, List.mem_cons, List.mem_singleton, List.not_mem_nil, or_false] at member
  rcases member with rfl | rfl | rfl <;> rfl

/-- A result is determined by its three fields and its debt amount. -/
theorem ext_read {result other : LiquidationResult}
    (fields : ∀ key ∈ fieldKeys, result.read key = other.read key)
    (debt : result.debtRepaidAmount = other.debtRepaidAmount) : result = other := by
  have collateralDenom := fields "collateral_denom" (by decide)
  have debtDenom := fields "debt_denom" (by decide)
  have collateralAmount := fields "collateral_amount" (by decide)
  cases result
  cases other
  simp only [read] at collateralDenom debtDenom collateralAmount debt
  rw [collateralDenom, debtDenom, collateralAmount, debt]

end LiquidationResult

/-- A `debt_amount` pushes the result with its value and starts a blank one. -/
theorem parseAttribute_closing {attr : Attribute} (closing : attr.key = "debt_amount")
    (state : ParseState) :
    parseAttribute state attr =
      ⟨state.results ++ [{ state.result with debtRepaidAmount := attr.value }],
        LiquidationResult.blank⟩ := by
  simp [parseAttribute, closing]

/-- Any other attribute pushes nothing, keeps the debt amount and writes its value under its own
key, if that key is a field's. -/
theorem parseAttribute_of_ne {attr : Attribute} (not_closing : attr.key ≠ "debt_amount")
    (state : ParseState) :
    (parseAttribute state attr).results = state.results ∧
      (parseAttribute state attr).result.debtRepaidAmount = state.result.debtRepaidAmount ∧
      ∀ key ∈ fieldKeys, (parseAttribute state attr).result.read key =
        if attr.key = key then attr.value else state.result.read key := by
  unfold parseAttribute
  refine ⟨by split_ifs <;> rfl, by split_ifs <;> rfl, fun key member => ?_⟩
  simp only [fieldKeys, List.mem_cons, List.mem_singleton, List.not_mem_nil, or_false] at member
  rcases member with rfl | rfl | rfl <;> split_ifs <;> simp_all [LiquidationResult.read]

/-- Over attributes with no `debt_amount` nothing is pushed, the debt amount is kept, and each
field holds the last value given under its key. -/
theorem foldl_parseAttribute_body {body : List Attribute}
    (not_closing : ∀ attr ∈ body, attr.key ≠ "debt_amount") (state : ParseState) :
    (body.foldl parseAttribute state).results = state.results ∧
      (body.foldl parseAttribute state).result.debtRepaidAmount = state.result.debtRepaidAmount ∧
      ∀ key ∈ fieldKeys, (body.foldl parseAttribute state).result.read key =
        ((body.filter (·.key = key)).getLast?.map (·.value)).getD (state.result.read key) := by
  induction body generalizing state with
  | nil => simp
  | cons attr rest induction =>
      obtain ⟨pushed, debt, fields⟩ := parseAttribute_of_ne (not_closing attr (.head _)) state
      obtain ⟨pushed', debt', fields'⟩ := induction
        (fun other member => not_closing other (.tail _ member)) (parseAttribute state attr)
      refine ⟨pushed'.trans pushed, debt'.trans debt, fun key member => ?_⟩
      rw [List.foldl_cons, fields' key member, fields key member]
      by_cases same : attr.key = key
      · rw [if_pos same, List.filter_cons_of_pos (by simpa using same), List.getLast?_cons]
        cases (rest.filter fun other => other.key = key).getLast? <;> rfl
      · rw [if_neg same, List.filter_cons_of_neg (by simpa using same)]

/-- The fields of a group's body are read back as the group's result. -/
theorem GroupBody.read_eq {result : LiquidationResult} {body : List Attribute}
    (groupBody : GroupBody result body) {key : String} (member : key ∈ fieldKeys) :
    ((body.filter (·.key = key)).getLast?.map (·.value)).getD "" = result.read key := by
  have count := groupBody.once key member
  split_ifs at count with empty
  · rw [List.length_eq_zero.mp count, empty]
    rfl
  · obtain ⟨attr, single⟩ := List.length_eq_one.mp count
    obtain ⟨inBody, keyed⟩ := List.mem_filter.mp (single ▸ List.mem_singleton_self attr)
    have sameKey : attr.key = key := of_decide_eq_true keyed
    rw [single, List.getLast?_singleton, Option.map_some', Option.getD_some,
      groupBody.carries attr inBody (sameKey ▸ member), sameKey]

/-- A group read from a blank result pushes exactly its result and leaves a blank one. -/
theorem foldl_parseAttribute_group {result : LiquidationResult} {body : List Attribute}
    (groupBody : GroupBody result body) (results : List LiquidationResult) :
    (group result body).foldl parseAttribute ⟨results, LiquidationResult.blank⟩ =
      ⟨results ++ [result], LiquidationResult.blank⟩ := by
  obtain ⟨pushed, -, fields⟩ :=
    foldl_parseAttribute_body groupBody.not_closing ⟨results, LiquidationResult.blank⟩
  rw [group, List.foldl_append, List.foldl_cons, List.foldl_nil, parseAttribute_closing rfl, pushed]
  congr
  refine LiquidationResult.ext_read (fun key member => ?_) rfl
  rw [LiquidationResult.read_setDebt _ _ member, fields key member,
    LiquidationResult.read_blank, groupBody.read_eq member]

theorem foldl_parseAttribute_groups (groups : List (LiquidationResult × List Attribute))
    (bodies : ∀ entry ∈ groups, GroupBody entry.1 entry.2) (results : List LiquidationResult) :
    (groups.flatMap fun entry => group entry.1 entry.2).foldl parseAttribute
        ⟨results, LiquidationResult.blank⟩ =
      ⟨results ++ groups.map Prod.fst, LiquidationResult.blank⟩ := by
  induction groups generalizing results with
  | nil => simp
  | cons entry rest induction =>
      rw [List.flatMap_cons, List.foldl_append, foldl_parseAttribute_group (bodies entry (.head _)),
        induction (fun other member => bodies other (.tail _ member))]
      simp

/-- A `wasm` event of groups and a trailer is read as the groups' results. -/
theorem parseLiquidationResultInner_groups (groups : List (LiquidationResult × List Attribute))
    (trailer : List Attribute) (bodies : ∀ entry ∈ groups, GroupBody entry.1 entry.2)
    (trailing : ∀ attr ∈ trailer, attr.key ≠ "debt_amount") :
    parseLiquidationResultInner
        ⟨"wasm", groups.flatMap (fun entry => group entry.1 entry.2) ++ trailer⟩ =
      groups.map Prod.fst := by
  rw [parseLiquidationResultInner, List.foldl_append, foldl_parseAttribute_groups groups bodies [],
    (foldl_parseAttribute_body trailing _).1, List.nil_append]

theorem foldl_collectResults {results : List LiquidationResult} {events : List Event}
    (encodes : Encodes results events) (liquidationResults : List LiquidationResult) :
    events.foldl collectResults liquidationResults = liquidationResults ++ results := by
  induction encodes generalizing liquidationResults with
  | nil => simp
  | other e notWasm _ induction =>
      rw [List.foldl_cons, collectResults, if_neg notWasm, induction]
  | wasm groups trailer bodies trailing _ induction =>
      rw [List.foldl_cons, collectResults, if_pos rfl,
        parseLiquidationResultInner_groups groups trailer bodies trailing, induction,
        List.append_assoc]

/-- `parseLiquidationResult` reads back exactly the results an event list encodes. -/
theorem parseLiquidationResult_of_encodes {results : List LiquidationResult} {events : List Event}
    (encodes : Encodes results events) : parseLiquidationResult events = results :=
  foldl_collectResults encodes []

/-- Two liquidations in one `wasm` event between a `message` and a `transfer` event; the
second reports no collateral amount. -/
def twoLiquidationEvents : List Event :=
  [⟨"message", [⟨"action", "execute"⟩]⟩,
    ⟨"wasm", [⟨"_contract_address", "osmo1filterer"⟩, ⟨"debt_denom", "uusdc"⟩,
      ⟨"collateral_amount", "1200"⟩, ⟨"collateral_denom", "uatom"⟩, ⟨"debt_amount", "1000"⟩,
      ⟨"collateral_denom", "uosmo"⟩, ⟨"action", "liquidate"⟩, ⟨"debt_denom", "uatom"⟩,
      ⟨"debt_amount", "40"⟩]⟩,
    ⟨"transfer", [⟨"amount", "1200uatom"⟩]⟩]

/-- The liquidations `twoLiquidationEvents` reports. -/
def twoLiquidationResults : List LiquidationResult :=
  [⟨"uatom", "uusdc", "1000", "1200"⟩, ⟨"uosmo", "uatom", "40", ""⟩]

theorem parseLiquidationResult_twoLiquidations :
    Encodes twoLiquidationResults twoLiquidationEvents ∧
      parseLiquidationResult twoLiquidationEvents = twoLiquidationResults :=
  have encodes : Encodes twoLiquidationResults twoLiquidationEvents :=
    .other _ (by decide) (.wasm
      [(⟨"uatom", "uusdc", "1000", "1200"⟩, [⟨"_contract_address", "osmo1filterer"⟩,
          ⟨"debt_denom", "uusdc"⟩, ⟨"collateral_amount", "1200"⟩, ⟨"collateral_denom", "uatom"⟩]),
        (⟨"uosmo", "uatom", "40", ""⟩,
          [⟨"collateral_denom", "uosmo"⟩, ⟨"action", "liquidate"⟩, ⟨"debt_denom", "uatom"⟩])]
      [] (by
        simp only [List.mem_cons, List.mem_singleton, List.not_mem_nil, or_false]
        rintro entry (rfl | rfl) <;> exact ⟨by decide, by decide, by decide⟩)
      (by simp) (.other _ (by decide) .nil))
  ⟨encodes, parseLiquidationResult_of_encodes encodes⟩

end Parsing

section Groups

/-!
### Any event list

Over every event list, well formed or not, the parser's output is described without its state:
each `debt_amount` of a `wasm` event closes one result, carrying its value, and each other field
of that result holds the last value given under its key since the previous `debt_amount` of the
same event.  Nothing is carried from one event, or one result, into the next.
-/

/-- The value last given under a key among some attributes, `""` when none is. -/
def lastValue (key : String) (attrs : List Attribute) : String :=
  ((attrs.filter (·.key = key)).getLast?.map (·.value)).getD ""

/-- The result a group describes: each field the last value given under its key in the group's
attributes, and the debt amount its closing attribute carries. -/
def resultOf (body : List Attribute) (debtRepaidAmount : String) : LiquidationResult :=
  ⟨lastValue "collateral_denom" body, lastValue "debt_denom" body, debtRepaidAmount,
    lastValue "collateral_amount" body⟩

/-- An event's attributes cut after each `debt_amount`: for each one, the attributes since
the previous one (after those of `pending`, already open), with its value.  Attributes after
the last `debt_amount` close no group. -/
def closedGroups (pending : List Attribute) : List Attribute → List (List Attribute × String)
  | [] => []
  | attr :: rest =>
      if attr.key = "debt_amount" then (pending, attr.value) :: closedGroups [] rest
      else closedGroups (pending ++ [attr]) rest

theorem lastValue_append_singleton (key : String) (attrs : List Attribute) (attr : Attribute) :
    lastValue key (attrs ++ [attr]) =
      if attr.key = key then attr.value else lastValue key attrs := by
  by_cases same : attr.key = key <;> simp [lastValue, List.filter_append, same]

theorem read_resultOf (body : List Attribute) (debt : String) {key : String}
    (member : key ∈ fieldKeys) : (resultOf body debt).read key = lastValue key body := by
  simp only [fieldKeys, List.mem_cons, List.mem_singleton, List.not_mem_nil, or_false] at member
  rcases member with rfl | rfl | rfl <;> rfl

/-- From a result the open attributes describe, the parser pushes the results of the groups the
remaining attributes close. -/
theorem foldl_parseAttribute_closedGroups (attrs pending : List Attribute) (state : ParseState)
    (described : state.result = resultOf pending "") :
    (attrs.foldl parseAttribute state).results =
      state.results ++ (closedGroups pending attrs).map fun g => resultOf g.1 g.2 := by
  induction attrs generalizing pending state with
  | nil => simp [closedGroups]
  | cons attr rest induction =>
      by_cases closing : attr.key = "debt_amount"
      · rw [List.foldl_cons, parseAttribute_closing closing, induction [] _ rfl]
        simp [closedGroups, closing, described, resultOf]
      · obtain ⟨pushed, debt, fields⟩ := parseAttribute_of_ne closing state
        have joined : (parseAttribute state attr).result = resultOf (pending ++ [attr]) "" :=
          LiquidationResult.ext_read (fun key member => by
            rw [fields key member, described, read_resultOf _ _ member,
              read_resultOf _ _ member, lastValue_append_singleton])
            (debt.trans (by rw [described]; rfl))
        rw [List.foldl_cons, induction _ _ joined, pushed]
        simp [closedGroups, closing]

theorem parseLiquidationResultInner_eq_closedGroups (e : Event) :
    parseLiquidationResultInner e =
      (closedGroups [] e.attributes).map fun g => resultOf g.1 g.2 := by
  rw [parseLiquidationResultInner,
    foldl_parseAttribute_closedGroups e.attributes [] ⟨[], .blank⟩ rfl, List.nil_append]

theorem foldl_collectResults_eq (events : List Event) (results : List LiquidationResult) :
    events.foldl collectResults results =
      results ++ (events.filter (·.type = "wasm")).flatMap fun e =>
        (closedGroups [] e.attributes).map fun g => resultOf g.1 g.2 := by
  induction events generalizing results with
  | nil => simp
  | cons e rest induction =>
      by_cases wasm : e.type = "wasm" <;>
        simp [collectResults, wasm, induction, parseLiquidationResultInner_eq_closedGroups]

/-- `parseLiquidationResult` on any event list: for the `wasm` events in order, one
result per `debt_amount`, with its value, each other field the last value given under its key
since the previous `debt_amount` of the same event, `""` when none was. -/
theorem parseLiquidationResult_eq_closedGroups (events : List Event) :
    parseLiquidationResult events =
      (events.filter (·.type = "wasm")).flatMap fun e =>
        (closedGroups [] e.attributes).map fun g => resultOf g.1 g.2 := by
  rw [parseLiquidationResult, foldl_collectResults_eq, List.nil_append]

end Groups

end LiquidationHelper

end Liquidator
