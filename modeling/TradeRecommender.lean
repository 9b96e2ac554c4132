import TradeRecommender.Lib.Vintage
import TradeRecommender.Strategy.AdapterAgreement
import TradeRecommender.Strategy.MonthlyGrouping
import TradeRecommender.Strategy.IncrementalBatch
import TradeRecommender.Research.Feed
import TradeRecommender.Research.Macro
import TradeRecommender.Research.Calendars
import TradeRecommender.Research.MacroVintages
import TradeRecommender.Research.EventVintages
import TradeRecommender.Lib.Summation
import TradeRecommender.Lib.Tally
import TradeRecommender.Research.ValidationReports
import TradeRecommender.Assessments.Admission
import TradeRecommender.Research.EvidencePackets
import TradeRecommender.Lib.Midnights
import TradeRecommender.Research.CheckpointCatalog
import TradeRecommender.Operations.BackupProtocol
import TradeRecommender.Operations.JobQueue
import TradeRecommender.Operations.Outbox
import TradeRecommender.Market.ChunkCoverage
import TradeRecommender.Research.RetrospectiveStore
import TradeRecommender.Forecasts.ContextReplay
import TradeRecommender.Research.SignalConservation
import TradeRecommender.Operations.ProviderBudget
import TradeRecommender.MarketState.Repainting
import TradeRecommender.MarketStrategy.AdverseExits
import TradeRecommender.MarketStrategy.Accounting
import TradeRecommender.Market.ObservationLedger
import TradeRecommender.Market.PageCollection
import TradeRecommender.Market.RegistrationGate
import TradeRecommender.Market.Freshness
import TradeRecommender.Strategy.LevelLifecycle
import TradeRecommender.Strategy.EntryEligibility
import TradeRecommender.Strategy.Drawdown
import TradeRecommender.Forecasts.LifecycleChain
import TradeRecommender.Forecasts.ReviewChain
import TradeRecommender.Forecasts.HourlyCoverage
import TradeRecommender.Strategy.EventRefusals
import TradeRecommender.Strategy.SessionHorizon
import TradeRecommender.Strategy.CapacityDiagnostic
import TradeRecommender.Lib.Components
import TradeRecommender.Lib.UnionFind
import TradeRecommender.Research.DependenceUnits
import TradeRecommender.Lib.EffectiveSize
import TradeRecommender.Strategy.SharedFactors
import TradeRecommender.Market.FinalCompletion
import TradeRecommender.Strategy.RolloverCalendars
import TradeRecommender.Lib.Orbit
import TradeRecommender.Lib.Zone
import TradeRecommender.Operations.EnqueueRuns
import TradeRecommender.Operations.Collisions
import TradeRecommender.MarketState.Compression
import TradeRecommender.MarketState.GapLifecycle
import TradeRecommender.MarketStrategy.OutcomeSummaries
import TradeRecommender.Forecasts.TradingCosts
import TradeRecommender.Forecasts.PaperTrades
import TradeRecommender.Forecasts.PaperAccounts
import TradeRecommender.Forecasts.PaperIncrements
import TradeRecommender.Forecasts.PortfolioCapacity
import TradeRecommender.Lib.BreadthFirst
import TradeRecommender.Forecasts.PositionSizing
import TradeRecommender.Lib.Smoothing
import TradeRecommender.MarketStrategy.Trend
import TradeRecommender.Market.LiveIntervals
