import Can2Rest.Properties.Accounts
import Can2Rest.Properties.Addressing
import Can2Rest.Properties.ArrayPayloads
import Can2Rest.Properties.ConfigKeys
import Can2Rest.Properties.ConfigUpdates
import Can2Rest.Properties.Directions
import Can2Rest.Properties.Documents
import Can2Rest.Properties.ErrorAnswers
import Can2Rest.Properties.FailedSends
import Can2Rest.Properties.FrameLimits
import Can2Rest.Properties.FrameStore
import Can2Rest.Properties.Isolation
import Can2Rest.Properties.JsonSettings
import Can2Rest.Properties.JsonTexts
import Can2Rest.Properties.PacketFilter
import Can2Rest.Properties.Ports
import Can2Rest.Properties.Posts
import Can2Rest.Properties.Queries
import Can2Rest.Properties.Reads
import Can2Rest.Properties.RedisConvergence
import Can2Rest.Properties.RedisProgress
import Can2Rest.Properties.RedisSwitches
import Can2Rest.Properties.RedisUpdates
import Can2Rest.Properties.RedisVersions
import Can2Rest.Properties.RequestSteps
import Can2Rest.Properties.SendProgress
import Can2Rest.Properties.SendQueue
import Can2Rest.Properties.SendReceive
import Can2Rest.Properties.SendRequests
import Can2Rest.Properties.ServiceStart
import Can2Rest.Properties.ServiceStop
import Can2Rest.Properties.SharedDigest
import Can2Rest.Properties.Startup
import Can2Rest.Properties.StartupSettings
import Can2Rest.Properties.SyncTicks
import Can2Rest.Properties.TypeRegistration
import Can2Rest.Properties.TypeStability
import Can2Rest.Properties.Views
import Can2Rest.Properties.LockedSections
import Can2Rest.Shared.Json11Meaning
import Can2Rest.Shared.Sha256Standard
