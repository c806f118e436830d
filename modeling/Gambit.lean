import Gambit.Accounting.DailyRows
import Gambit.Accounting.DetailedRows
import Gambit.Accounting.PlainAgreement
import Gambit.Accounting.RoundTripLedger
import Gambit.ControlPlane.ExposureLimits
import Gambit.Csv.Decimals
import Gambit.Csv.Limits
import Gambit.Evaluator.Drawdowns
import Gambit.FactorCache.RoundTrip
import Gambit.FactorIdentity.CanonicalIdentities
import Gambit.FactorStore.DryRunReports
import Gambit.Hdf5.OtherKeys
import Gambit.Iterations.Simulation
import Gambit.Optimizer.MultiProcess
import Gambit.Stages.EachPairOnce
import Gambit.Stages.Ordering
import Gambit.Strategy.Atomicity
import Gambit.Strategy.PortfolioReturns
import Gambit.Strategy.ReduceOnly
import Gambit.Strategy.RollAtomicity
import Gambit.Strategy.TradeBudget
import Gambit.Strategy.VWAPMarketSimulator
import Gambit.TickRing.Depth
import Gambit.TopOfBook.Causality
import Gambit.Calendars.DayOffsets
import Gambit.FactorStore.EvictionCrashes
import Gambit.Lib.JsonAscii
import Gambit.Lib.LoggedActions
import Gambit.Publication.Lifetimes
