import HftPlatform.OrderState
import HftPlatform.Replay
import HftPlatform.LostCommands
import HftPlatform.CancelReplace
import HftPlatform.ClosePosition
import HftPlatform.RiskRoute
import HftPlatform.RealOrders
import HftPlatform.FillStore
import HftPlatform.ReduceOnly
import HftPlatform.PaperOrder
import HftPlatform.OrderFlow
import HftPlatform.SignalResult
import HftPlatform.SignalWeights
import HftPlatform.Alignment
import HftPlatform.Throttle
import HftPlatform.FeaturePipeline
import HftPlatform.RiskAudit
import HftPlatform.KillSwitch
import HftPlatform.DynamicLimits
import HftPlatform.CancelAll
import HftPlatform.CandleSink
import HftPlatform.ExitLabels
import HftPlatform.KillSwitchStore
import HftPlatform.StrategyControl
import HftPlatform.ConfigAudit
import HftPlatform.ModelLoader
import HftPlatform.CandleViews
import HftPlatform.FuturesContext
import HftPlatform.EntryPrice
import HftPlatform.AveragePrice
import HftPlatform.SideReading
import HftPlatform.OrderIdentity
import HftPlatform.CandleDedupe
import HftPlatform.ReportTrace
import HftPlatform.FactorPairs
import HftPlatform.SignalParts
import HftPlatform.SignalBound
import HftPlatform.SignalSymmetry
import HftPlatform.FactorOrder
import HftPlatform.SessionVwap
import HftPlatform.BatchIndicators
import HftPlatform.MacdQuality
import HftPlatform.FeatureBounds
import HftPlatform.TokenBucket
import HftPlatform.FixedWindow
import HftPlatform.CheckThenIncrement
import HftPlatform.DlqHops
import HftPlatform.WsFrames
import HftPlatform.Subscriptions
import HftPlatform.Reconnect
import HftPlatform.RetryLoop
import HftPlatform.RedisKeys
import HftPlatform.PlannerIds
import HftPlatform.SymbolLimits
import HftPlatform.CorrelationRange
import HftPlatform.Performance
import HftPlatform.Ingestor
import HftPlatform.LatencyMetric
import HftPlatform.TradeSequence
import HftPlatform.AsyncConsumer
import HftPlatform.WireRoute
import HftPlatform.PredictionPipeline
import HftPlatform.TableIntegrity
import HftPlatform.OrderEntry
import HftPlatform.CandlePipeline
import HftPlatform.SymbolIsolation
import HftPlatform.McSnapshot
import HftPlatform.DecisionLog
import HftPlatform.Normalizer
