import Elsa.Base.SortedMap
import Elsa.Base.Totals
import Elsa.Base.Allot
import Elsa.Base.Steps
import Elsa.Base.Effects
import Elsa.Base.Interleaving
import Elsa.Base.RoundRobin
import Elsa.Base.FixedWidth
import Elsa.Base.RunningAverage
import Elsa.Base.Bimap
import Elsa.Base.Index
import Elsa.Base.Wire
import Elsa.Base.FreeNumbers
import Elsa.Base.Glob
import Elsa.Base.CString
import Elsa.Base.Window
import Elsa.Base.WriteThrough
import Elsa.Base.Text
import Elsa.Base.Settings
import Elsa.Core.Containers
import Elsa.Transport.Proto
import Elsa.Transport.Messaging
import Elsa.InterProcess.RingBuffer
import Elsa.InterProcess.RingInvariant
import Elsa.InterProcess.RingRuns
import Elsa.InterProcess.Sequential
import Elsa.InterProcess.ThreadSafeQueue
import Elsa.Engine.LimitOrderBook
import Elsa.Engine.Levels
import Elsa.Engine.Trades
import Elsa.Engine.Matching
import Elsa.Engine.BookInvariant
import Elsa.Engine.Cancellation
import Elsa.Engine.PriceTime
import Elsa.Engine.FillCost
import Elsa.Engine.Snapshot
import Elsa.Engine.Conservation
import Elsa.Engine.MatchingEngine
import Elsa.Engine.Outbox
import Elsa.Manager.BalanceChecker
import Elsa.Manager.OrderManager
import Elsa.Manager.Spec
import Elsa.Manager.Process
import Elsa.Manager.AveragePrice
import Elsa.Manager.Packing
import Elsa.Manager.Authorisation
import Elsa.Manager.Requests
import Elsa.Manager.Forwarding
import Elsa.Manager.Validation
import Elsa.System.Exchange
import Elsa.System.Placement
import Elsa.System.Quotes
import Elsa.System.Agreement
import Elsa.System.Schedules
import Elsa.System.Polling
import Elsa.System.Handling
import Elsa.System.Wired
import Elsa.System.Aggregates
import Elsa.System.Reports
import Elsa.System.Solvency
import Elsa.System.Ledger
import Elsa.System.Assets
import Elsa.System.Shares
import Elsa.System.Acceptance
import Elsa.System.Progress
import Elsa.System.Amounts
import Elsa.System.Refunds
import Elsa.System.Persistence
import Elsa.Database.Records
import Elsa.Database.AsyncWriter
import Elsa.System.Recording
import Elsa.Client.Inventory
import Elsa.MarketData.Json
import Elsa.MarketData.Codec
import Elsa.MarketData.TextFields
import Elsa.Deployment.Instances
import Elsa.Simulation.MarketDataHandler
import Elsa.Simulation.InformedTrader
import Elsa.Backend.CreateServer
import Elsa.Backend.Ports
import Elsa.Backend.ServerConfig
import Elsa.Backend.ServerStore
import Elsa.Backend.Creation
import Elsa.Backend.AllOrNothing
import Elsa.Backend.Users
import Elsa.Backend.Bots
import Elsa.Backend.InitialBalances
import Elsa.Backend.PgArray
import Elsa.Backend.Configuration
import Elsa.Deployment.Whitelist
import Elsa.Deployment.Removal
import Elsa.Backend.Removal
import Elsa.Manager.Startup
import Elsa.System.Restart
import Elsa.System.FirstStart
import Elsa.Frontend.Values
import Elsa.Frontend.Chart
import Elsa.Frontend.App
import Elsa.Frontend.ChartedOnce
import Elsa.Frontend.Candles
import Elsa.Base.Tagged
import Elsa.MarketData.Feed
