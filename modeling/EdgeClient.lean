import EdgeClient.Basis.FloatArithmetic
import EdgeClient.Basis.Ieee754
import EdgeClient.Basis.Rounding
import EdgeClient.Basis.Runs
import EdgeClient.Basis.UriSyntax
import EdgeClient.Basis.StatefulPrograms
import EdgeClient.Vision.Types
import EdgeClient.Vision.Alignment
import EdgeClient.Vision.GalleryMatcher
import EdgeClient.Vision.AttendanceConfig
import EdgeClient.Vision.AttendanceProcessor
import EdgeClient.Vision.ProcessorRules
import EdgeClient.Vision.PadGate
import EdgeClient.Vision.FrameSemantics
import EdgeClient.Vision.Cooldown
import EdgeClient.Vision.Isolation
import EdgeClient.Tracking.KalmanFilter
import EdgeClient.Tracking.Association
import EdgeClient.Tracking.Assignment
import EdgeClient.Tracking.ByteTrack
import EdgeClient.Tracking.TrackerStages
import EdgeClient.Tracking.TrackLists
import EdgeClient.Tracking.TrackerFrame
import EdgeClient.Tracking.FrameOutcome
import EdgeClient.Tracking.TrackerArithmetic
import EdgeClient.Tracking.TrackerRuns
import EdgeClient.Pipeline.Session
import EdgeClient.Vision.Conclusions
import EdgeClient.Vision.InterruptedFrames
import EdgeClient.Vision.ExtraAttempts
import EdgeClient.Camera.SelectionOrder
import EdgeClient.Storage.GalleryRepository
import EdgeClient.App.Conservation
import EdgeClient.Sync.Backoff
import EdgeClient.Sync.PoisonedBatch
import EdgeClient.Sync.Draining
import EdgeClient.Sync.DeviceChannel
import EdgeClient.App.GalleryUpdates
import EdgeClient.App.CleanStop
import EdgeClient.Sync.GalleryBackoff
import EdgeClient.Storage.Separation
import EdgeClient.Sync.ReceiptHandling
import EdgeClient.Storage.GalleryPersistence
import EdgeClient.Vision.MatcherReference
import EdgeClient.Tracking.ExactKalman
import EdgeClient.Tracking.DetectionFates
import EdgeClient.Tracking.CoupledCovariance
import EdgeClient.Tracking.FilterRuns
import EdgeClient.Sync.EventIds
import EdgeClient.Sync.WireRoundTrip
import EdgeClient.Pipeline.FrameOrder
import EdgeClient.Sync.ChannelBackoff
import EdgeClient.Vision.LivenessCoverage
import EdgeClient.Vision.ExactDetections
import EdgeClient.Vision.ExactAlignment
import EdgeClient.Vision.AlignmentGate
import EdgeClient.Vision.Budgets
import EdgeClient.Tracking.AssignmentSearch
import EdgeClient.Tracking.OptimalMatching
import EdgeClient.Tracking.SteadyFrames
import EdgeClient.Vision.RecognitionRounds
import EdgeClient.Vision.LivenessJournal
import EdgeClient.App.GalleryAcceptance
import EdgeClient.Basis.Histories
import EdgeClient.Sync.SyncService
import EdgeClient.Sync.RefreshRequests
