import ArbBot.Laws.StateDb
import ArbBot.Laws.PackedSlots
import ArbBot.Laws.MarketState
import ArbBot.Laws.PoolLoader
import ArbBot.Laws.Accounts.Codes
import ArbBot.Laws.Accounts.WriteBack
import ArbBot.Laws.Accounts.TickPrefetch
import ArbBot.Laws.Accounts.SwapFilter
import ArbBot.Laws.Calculation.PreFilter
import ArbBot.Laws.Calculation.V3.Loaded
import ArbBot.Laws.Calculation.V3.OnChain
import ArbBot.Laws.Calculation.V3.Liquidity
import ArbBot.Laws.Calculation.V3.Traversal
import ArbBot.Laws.Calculation.Aerodrome
import ArbBot.Laws.Calculation.Isqrt
import ArbBot.Laws.Calculation.WideRates
import ArbBot.Laws.Calculation.Balancer.AmountOut
import ArbBot.Laws.Searcher.Touches
import ArbBot.Laws.Searcher.Cache
import ArbBot.Laws.Searcher.Rates
import ArbBot.Laws.Searcher.SpotRates
import ArbBot.Laws.Simulator.Accounting
import ArbBot.Laws.Simulator.PriceCache
import ArbBot.Laws.Simulator.SpotConversion
import ArbBot.Laws.TxSender.TokenStrikes
import ArbBot.Laws.TxSender.PathStrikes
import ArbBot.Laws.TxSender.Preflight
import ArbBot.Laws.TxSender.Bids
import ArbBot.Laws.ToxicTokens.StartTokens
import ArbBot.Laws.Ignition
import ArbBot.Laws.Mempool.Decode
import ArbBot.Laws.Mempool.PackedPaths
import ArbBot.Laws.Mempool.RoundTrip
import ArbBot.Laws.Mempool.Touched
import ArbBot.Laws.PathBuilder.Window
import ArbBot.Laws.PathBuilder.Cap
import ArbBot.Laws.Contracts.OneFormula
import ArbBot.Laws.Contracts.Paths
import ArbBot.Laws.Contracts.Strangers
import ArbBot.Laws.Contracts.Lenders
import ArbBot.Laws.Contracts.Profit
import ArbBot.Laws.Contracts.FlashSwap
import ArbBot.Laws.Contracts.QuoteMath
import ArbBot.Laws.Contracts.StableQuote
import ArbBot.Laws.BlockStream
import ArbBot.Laws.FilterRevm
import ArbBot.Laws.Quoter.Optimum
import ArbBot.Laws.CalcCache
import ArbBot.Laws.TxSender.Fallback
import ArbBot.Laws.GasStation
import ArbBot.Laws.Pipeline.Gates
import ArbBot.Laws.Pipeline.Provenance
import ArbBot.Laws.Pipeline.Drain
import ArbBot.Laws.MarketFeed.Rates
import ArbBot.Laws.Gossip
import ArbBot.Laws.Accounts.SlotMap
import ArbBot.Laws.Startup.Routers
import ArbBot.Laws.Startup.Paths
import ArbBot.Laws.PoolDiscovery
import ArbBot.Laws.Searcher.Seed
import ArbBot.Contracts.Loans
import ArbBot.Laws.Contracts.Arbitrage
