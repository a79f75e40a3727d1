import ClickRec.Kafka.CommitSafety
import ClickRec.Cache.FillLock
import ClickRec.Api.ReleaseOwner
import ClickRec.Api.AtMostOnce
import ClickRec.Kafka.Markers
import ClickRec.Api.LlmFallback
import ClickRec.Kafka.RetryDrift
import ClickRec.Kafka.DlqSurvival
import ClickRec.Ranker.RedisOutage
import ClickRec.Ranker.RowOrder
import ClickRec.Cache.RefreshTick
import ClickRec.Api.BatchOrder
import ClickRec.Ranker.ScoreChecks
import ClickRec.Ranker.ScoreUnits
import ClickRec.Ranker.DecayArithmetic
import ClickRec.Ranker.SizeKnobs
import ClickRec.Ranker.EncodeRaces
import ClickRec.Llm.RerankOrder
import ClickRec.Kafka.SessionWindow
import ClickRec.Cache.StoredBytes
import ClickRec.Cache.Staleness
import ClickRec.Cache.RefreshRace
import ClickRec.Llm.Fences
import ClickRec.Eval.Ndcg
import ClickRec.Eval.JudgePairs
import ClickRec.Eval.Offline
import ClickRec.Eval.ReplayLog
import ClickRec.Seed.Run
import ClickRec.Kafka.RowLocks
import ClickRec.Replay.EvalLog
import ClickRec.Llm.ExplainRuns
import ClickRec.Kafka.CacheRaces
import ClickRec.Kafka.EndToEnd
import ClickRec.Kafka.Writers
import ClickRec.Ranker.FeaturesOfClicks
import ClickRec.Ranker.Newcomers
