import ZaqorinCore.Agent.Command
import ZaqorinCore.Base.Run
import ZaqorinCore.Server.Command
import ZaqorinCore.Protocol.Signature
import ZaqorinCore.Server.Stream
import ZaqorinCore.Server.Channel
import ZaqorinCore.Server.Ownership
import ZaqorinCore.Server.Isolation
import ZaqorinCore.Server.Lifecycle
import ZaqorinCore.Agent.AtMostOnce
import ZaqorinCore.Agent.AckTruth
import ZaqorinCore.Agent.Handshake
import ZaqorinCore.Agent.Ebpf
import ZaqorinCore.Server.Matching
import ZaqorinCore.Server.Compile
import ZaqorinCore.Server.Loader
import ZaqorinCore.Server.Faults
import ZaqorinCore.Server.Firing
import ZaqorinCore.Server.FiringLaw
import ZaqorinCore.Server.Keys
import ZaqorinCore.Server.Cooldown
import ZaqorinCore.Base.Triple
import ZaqorinCore.Server.Consumer
import ZaqorinCore.Server.Hunt
import ZaqorinCore.Server.Detectors
import ZaqorinCore.Server.Leases
import ZaqorinCore.Server.Soar
import ZaqorinCore.Server.SoarLoss
import ZaqorinCore.Server.Canonical
import ZaqorinCore.Server.DeadLetters
import ZaqorinCore.Server.LetterNames
import ZaqorinCore.Server.Evidence
import ZaqorinCore.Server.SoarCooldown
import ZaqorinCore.Server.Custody
import ZaqorinCore.Agent.Evidence
import ZaqorinCore.Protocol.EvidenceFrame
import ZaqorinCore.Agent.Kinds
import ZaqorinCore.Protocol.Targets
import ZaqorinCore.Agent.Tarpit
import ZaqorinCore.Server.Progress
import ZaqorinCore.Server.Studio
import ZaqorinCore.Agent.TarpitLru
import ZaqorinCore.Agent.TarpitCookies
import ZaqorinCore.Agent.Engine
import ZaqorinCore.Agent.Timing
import ZaqorinCore.Agent.Decode
import ZaqorinCore.Agent.Efsm
import ZaqorinCore.Agent.EfsmStrictness
import ZaqorinCore.Agent.EfsmIsolation
import ZaqorinCore.Agent.TtlActions
import ZaqorinCore.Agent.Event
import ZaqorinCore.Protocol.AgentFrames
import ZaqorinCore.Base.SlidingWindow
import ZaqorinCore.Server.RateLimit
import ZaqorinCore.Server.BadFrames
import ZaqorinCore.Server.Auth
import ZaqorinCore.Server.Conditions
import ZaqorinCore.Server.Webhook
import ZaqorinCore.Server.Ingest
import ZaqorinCore.Base.Journal
import ZaqorinCore.Server.Audit
import ZaqorinCore.Server.SigningSecrets
import ZaqorinCore.Server.StudioFiles
import ZaqorinCore.Server.StudioStored
import ZaqorinCore.Server.StudioLive
import ZaqorinCore.Server.StudioWrites
import ZaqorinCore.Server.Thresholds
import ZaqorinCore.Server.SoarRetries
import ZaqorinCore.Base.Ring
import ZaqorinCore.Agent.Budget
import ZaqorinCore.Agent.EfsmBody
import ZaqorinCore.Agent.TimingTable
import ZaqorinCore.Base.Firsts
import ZaqorinCore.Server.StudioListing
import ZaqorinCore.Server.StudioMeaning
import ZaqorinCore.Agent.Canary
import ZaqorinCore.Agent.DecodeStrictness
import ZaqorinCore.Agent.Tailer
import ZaqorinCore.Agent.Webtail
import ZaqorinCore.Base.TumblingWindow
import ZaqorinCore.Protocol.SignatureChecks
import ZaqorinCore.Server.CspThrottle
import ZaqorinCore.Server.DepthGuard
import ZaqorinCore.Server.MessageRate
import ZaqorinCore.Server.RetryAfter
import ZaqorinCore.Agent.SquareRoot
import ZaqorinCore.Base.EditDistance
import ZaqorinCore.Server.AgentToml
import ZaqorinCore.Server.BrandProtection
import ZaqorinCore.Server.ErrorEnvelope
import ZaqorinCore.Server.Identifiers
import ZaqorinCore.Server.Interpolation
import ZaqorinCore.Server.WebhookIngest
import ZaqorinCore.Agent.Bridge
import ZaqorinCore.Agent.Enrich
import ZaqorinCore.Agent.EventLog
import ZaqorinCore.Agent.FanIn
import ZaqorinCore.Agent.PushBackend
import ZaqorinCore.Agent.PushDrain
import ZaqorinCore.Server.Attribution
import ZaqorinCore.Server.Durable
import ZaqorinCore.Server.Published
import ZaqorinCore.Server.SelfDefense
