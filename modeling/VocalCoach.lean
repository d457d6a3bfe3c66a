import VocalCoach.Align
import VocalCoach.Machine
import VocalCoach.Positions
import VocalCoach.WaitingSongs
import VocalCoach.WakeLedger
import VocalCoach.Canceled
import VocalCoach.QueueTurns
import VocalCoach.Ranking
import VocalCoach.Streams
import VocalCoach.DeliveredEntries
import VocalCoach.PrepFairness
import VocalCoach.Rotation
import VocalCoach.Revocation
import VocalCoach.ReuseDetection
import VocalCoach.Verification
import VocalCoach.GoogleAccounts
import VocalCoach.ParallelGroups
import VocalCoach.Redelivery
import VocalCoach.DeadSongs
import VocalCoach.Acknowledgements
import VocalCoach.DetailColumns
import VocalCoach.StatusChannel
import VocalCoach.GroupCreation
import VocalCoach.LatticeCosts
import VocalCoach.DtwOptimal
import VocalCoach.RefineBand
import VocalCoach.MatchedOverlap
import VocalCoach.AspectScores
import VocalCoach.RetryBudget
import VocalCoach.StreamLength
import VocalCoach.AudioFiles
import VocalCoach.KeyNormalization
import VocalCoach.ScoringWeights
import VocalCoach.VoiceActivity
import VocalCoach.ProgressReports
import VocalCoach.VerificationGuesses
import VocalCoach.AnalysisRateLimiter
import VocalCoach.LoginThrottle
import VocalCoach.SchedulerPolicy
import VocalCoach.Admission
import VocalCoach.StopHonoured
import VocalCoach.CoarsePass
import VocalCoach.UsableCenters
import VocalCoach.WeakAlignment
import VocalCoach.PauseComparison
import VocalCoach.ResendThrottle
import VocalCoach.Similarity
import VocalCoach.AspectStages
import VocalCoach.PerfectTake
import VocalCoach.Vibrato
import VocalCoach.RecordingCondition
import VocalCoach.PerfectScores
import VocalCoach.JsonText
import VocalCoach.JsonPrint
import VocalCoach.EventRelay
import VocalCoach.Dataflow
import VocalCoach.Hub
