import Leetrank.Library.Machine
import Leetrank.Library.Threads
import Leetrank.Library.ReadCommitted
import Leetrank.Library.Rotation
import Leetrank.Library.InsertionMap
import Leetrank.Library.Lease
import Leetrank.Library.Text
import Leetrank.Library.Path
import Leetrank.Library.Multimap
import Leetrank.Library.SortedSet
import Leetrank.Strings
import Leetrank.Judge.Protocol
import Leetrank.Judge.Sandbox
import Leetrank.Judge.Languages
import Leetrank.Judge.Execute
import Leetrank.Judge.Outcome
import Leetrank.Judge.CompileErrors
import Leetrank.Judge.Runners
import Leetrank.Judge.PassedSoundness
import Leetrank.Judge.Handler
import Leetrank.Judge.Isolation
import Leetrank.Judge.Scheduler
import Leetrank.Judge.SchedulerSafety
import Leetrank.Web.JudgeClient
import Leetrank.Web.Verdict
import Leetrank.Web.Submissions
import Leetrank.Web.JudgeAgreement
import Leetrank.Web.SubmissionStore
import Leetrank.Web.JudgeHandler
import Leetrank.Web.JudgeFailures
import Leetrank.Web.JudgingCluster
import Leetrank.Web.ClaimSafety
import Leetrank.Web.WorkerQueue
import Leetrank.Web.JudgeWorker
import Leetrank.Web.QueueConservation
import Leetrank.Auth.KeyStore
import Leetrank.Auth.RefreshSafety
import Leetrank.Auth.RevocationSafety
import Leetrank.Auth.RefreshReplay
import Leetrank.Auth.PasswordReset
import Leetrank.Auth.Lockout
import Leetrank.Auth.LockoutSafety
import Leetrank.Contest.Rating
import Leetrank.Contest.FinalizeRating
import Leetrank.Contest.RatingChain
import Leetrank.Contest.Standings
import Leetrank.Contest.FinalizeAtomic
import Leetrank.Web.TtlCache
import Leetrank.Web.CacheLoads
import Leetrank.Web.CacheInvalidation
import Leetrank.Web.CacheSingleFlight
import Leetrank.Web.CacheValues
import Leetrank.Web.ProblemList
import Leetrank.Web.ProblemListCache
import Leetrank.Web.ProblemListTransparent
import Leetrank.Realtime.Hub
import Leetrank.Realtime.HubRouting
import Leetrank.Realtime.Limiter
import Leetrank.Realtime.ServeWs
import Leetrank.Realtime.Quota
import Leetrank.Realtime.Drain
import Leetrank.Realtime.Channels
import Leetrank.Notifications.Worker
import Leetrank.Achievements.Criteria
import Leetrank.Achievements.Awarding
import Leetrank.Achievements.AwardedOnce
import Leetrank.Achievements.DailyChallenge
import Leetrank.Achievements.AcceptHooks
import Leetrank.Achievements.JudgingModes
import Leetrank.Achievements.Listing
import Leetrank.Web.SubmissionStream
import Leetrank.Achievements.SolvedSets
import Leetrank.Web.SweepAge
import Leetrank.Solutions.Votes
import Leetrank.Achievements.Completions
import Leetrank.Contest.FrozenContest
import Leetrank.Contest.Leaderboard
import Leetrank.Web.RateLimit
import Leetrank.Admin.LastAdmin
import Leetrank.Leaderboard.Rebuild
import Leetrank.Leaderboard.UserRank
import Leetrank.Web.Recommendations
import Leetrank.Analytics.HeatmapCache
import Leetrank.Auth.SessionTokens
import Leetrank.Auth.Recovery
import Leetrank.Auth.LoginThrottle
import Leetrank.Auth.TimeoutReply
import Leetrank.Contest.Division
import Leetrank.Library.OrderBy
import Leetrank.Playback.Events
import Leetrank.Playback.Frames
import Leetrank.Playback.Debounce
import Leetrank.Playback.Recorder
import Leetrank.Playback.Routes
import Leetrank.Library.TextPosition
import Leetrank.Playback.Positions
import Leetrank.Library.NearestEven
import Leetrank.Library.JsValue
import Leetrank.Playback.WireFormat
import Leetrank.Library.Illinois
import Leetrank.Contest.Volatility
import Leetrank.Contest.Glicko2
import Leetrank.Contest.ExactRating
import Leetrank.Library.Doubles
import Leetrank.Library.ScaledDoubles
import Leetrank.Contest.Inactivity
import Leetrank.Contest.Alignment
import Leetrank.Library.Runs
import Leetrank.Achievements.Streaks
import Leetrank.Library.Paging
import Leetrank.Library.Tally
import Leetrank.Leaderboard.Pages
import Leetrank.Library.Histogram
import Leetrank.Analytics.RuntimeDistribution
import Leetrank.Analytics.Percentile
import Leetrank.Api.Metrics
import Leetrank.Library.SlidingWindow
import Leetrank.Web.MemoryLimit
import Leetrank.Web.RedisLimit
import Leetrank.Web.BoundedCache
import Leetrank.Web.CacheRecency
import Leetrank.Web.RecommendationRank
import Leetrank.Library.Forest
import Leetrank.Web.CommentTree
import Leetrank.Library.References
import Leetrank.Web.CommentDepth
import Leetrank.Solutions.VoteAutomaton
import Leetrank.Leaderboard.ContestScore
import Leetrank.Analytics.HeatmapStreaks
import Leetrank.Library.MachineInt
import Leetrank.Judge.Profiles
import Leetrank.Api.Pagination
import Leetrank.Library.Words
import Leetrank.Web.Slugify
import Leetrank.Library.Fifo
import Leetrank.Web.QueueOrder
import Leetrank.Judge.SchedulerStats
import Leetrank.Judge.LanguageLookup
import Leetrank.Judge.Placeholders
import Leetrank.Library.Templates
import Leetrank.Library.CounterMaps
import Leetrank.Realtime.LimiterMaps
import Leetrank.Web.ServiceWorker
import Leetrank.Auth.EmailVerification
import Leetrank.Web.LoginBudget
import Leetrank.Web.Registration
import Leetrank.Discussions.HotPages
import Leetrank.Editor.Preferences
import Leetrank.Api.LogRedaction
import Leetrank.Leaderboard.Tops
import Leetrank.Problems.Trending
import Leetrank.Library.Linearization
import Leetrank.Problems.Bookmarks
import Leetrank.Problems.Listing
import Leetrank.Solutions.Sharing
import Leetrank.Solutions.SharingSafety
import Leetrank.Analytics.ContestDeltas
import Leetrank.Library.Delimited
import Leetrank.Web.ChatRedaction
