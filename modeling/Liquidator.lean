import Liquidator.Types
import Liquidator.Decimal
import Liquidator.Router.Search
import Liquidator.Router.Soundness
import Liquidator.Router.Completeness
import Liquidator.Router.Enumeration
import Liquidator.Router.Pricing
import Liquidator.Executor.Sizer
import Liquidator.Executor.Budget
import Liquidator.Executor.SwapPlanner
import Liquidator.Executor.NeutralSwaps
import Liquidator.Executor.FirstBatch
import Liquidator.Executor.RedBank
import Liquidator.Executor.SecondBatch
import Liquidator.LiquidationHelper
