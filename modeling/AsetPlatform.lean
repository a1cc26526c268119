import AsetPlatform.Accounts.RoleTier
import AsetPlatform.Accounts.SuperuserCap
import AsetPlatform.Auth.DenyList
import AsetPlatform.Auth.OAuthState
import AsetPlatform.Auth.PasswordReset
import AsetPlatform.Auth.SessionListing
import AsetPlatform.Auth.SingleUse
import AsetPlatform.Billing.Cleanup
import AsetPlatform.Billing.Redelivery
import AsetPlatform.Billing.UsageIncrements
import AsetPlatform.Billing.UsageRollover
import AsetPlatform.Byo.KeyRouting
import AsetPlatform.Byo.MaskKey
import AsetPlatform.Chat.ContextIsolation
import AsetPlatform.Chat.SessionTurns
import AsetPlatform.Chat.WsProtocol
import AsetPlatform.Forecast.Ensemble
import AsetPlatform.Forecast.RegressorRuns
import AsetPlatform.Forecast.StoredFeatures
import AsetPlatform.Ingestion.FundamentalsRuns
import AsetPlatform.Ingestion.OhlcvRuns
import AsetPlatform.Ingestion.SeedRuns
import AsetPlatform.Jobs.Accounting
import AsetPlatform.Jobs.Dormancy
import AsetPlatform.Jobs.ParseScores
import AsetPlatform.Jobs.PipelineRuns
import AsetPlatform.Jobs.ScheduleWindows
import AsetPlatform.Jobs.SchedulerExclusion
import AsetPlatform.Jobs.SentimentScores
import AsetPlatform.Llm.BudgetRuns
import AsetPlatform.Llm.BudgetTotals
import AsetPlatform.Llm.CascadeCharges
import AsetPlatform.Llm.CompressionSize
import AsetPlatform.Llm.FlushRuns
import AsetPlatform.Llm.RoundRobin
import AsetPlatform.Llm.ToolIds
import AsetPlatform.Maintenance.BackupRuns
import AsetPlatform.Maintenance.Compaction
import AsetPlatform.Maintenance.Rollback
import AsetPlatform.Maintenance.Rotation
import AsetPlatform.Maintenance.UriSpellings
import AsetPlatform.Portfolio.ChatReturns
import AsetPlatform.Portfolio.DailyPnl
import AsetPlatform.Portfolio.LedgerRequests
import AsetPlatform.Portfolio.LedgerRuns
import AsetPlatform.Portfolio.ReadYourWrites
import AsetPlatform.Portfolio.WeightedForecast
import AsetPlatform.Recommendations.DueForOutcome
import AsetPlatform.Recommendations.GapAnalysis
import AsetPlatform.Recommendations.MonthlyRuns
import AsetPlatform.Recommendations.OutcomeRuns
import AsetPlatform.Recommendations.ReplyRepair
import AsetPlatform.Recommendations.ScoreBehaviour
import AsetPlatform.Recommendations.Stage3Rules
import AsetPlatform.Reports.CachedReport
import AsetPlatform.ScreenQL.LineBreaks
import AsetPlatform.ScreenQL.Literals
import AsetPlatform.ScreenQL.Pages
import AsetPlatform.Screening.Annual
import AsetPlatform.StockData.AdjCloseRuns
import AsetPlatform.StockData.AnalysisFreshness
import AsetPlatform.StockData.FetchTool
import AsetPlatform.StockData.ForecastSeries
import AsetPlatform.StockData.LatestReaders
import AsetPlatform.StockData.MetadataVersions
import AsetPlatform.StockData.PricingRuns
import AsetPlatform.StockData.RefreshRuns
