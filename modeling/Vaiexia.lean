import Vaiexia.Lib.JsonParse
import Vaiexia.Audit.Eviction
import Vaiexia.Audit.Tamper
import Vaiexia.Audit.Sink
import Vaiexia.Privd.Socket
import Vaiexia.Api.Delegation
import Vaiexia.Api.Jobs
import Vaiexia.Auth.ResetRace
import Vaiexia.Auth.Sequential
import Vaiexia.Auth.RateLimit
import Vaiexia.Auth.Decisions
import Vaiexia.Auth.TokenFormat
import Vaiexia.Auth.Claims
import Vaiexia.Auth.Maintenance
import Vaiexia.Api.Lifetime
import Vaiexia.Api.Evidence
import Vaiexia.Api.Attribution
import Vaiexia.Api.CutOff
import Vaiexia.Api.LoginOracle
import Vaiexia.Api.Secrecy
import Vaiexia.Api.JobPanics
import Vaiexia.Api.JobEvents
import Vaiexia.Api.PackageAudit
import Vaiexia.Backend.RunJob
import Vaiexia.Backend.Logs
import Vaiexia.Events.Pumps
import Vaiexia.Privd.Frames
import Vaiexia.Audit.LostEvents
import Vaiexia.Audit.Recovery
import Vaiexia.Audit.Fields
import Vaiexia.Backend.Services
import Vaiexia.Backend.ListParse
import Vaiexia.Backend.LogPage
import Vaiexia.Auth.HexBytes
import Vaiexia.Auth.RetryAfter
import Vaiexia.Privd.AptGet
import Vaiexia.Backend.InstalledOnly
import Vaiexia.Lib.Broadcast
import Vaiexia.Events.Relay
import Vaiexia.Events.JobFeed
import Vaiexia.Events.LogFeed
import Vaiexia.Lib.JsonLayout
import Vaiexia.Auth.IdentityFile
import Vaiexia.Privd.Operations
import Vaiexia.Audit.Sessions
import Vaiexia.Api.PackageRequests
import Vaiexia.Lib.DiskBounds
import Vaiexia.Audit.Usage
import Vaiexia.Lib.GetOpt
import Vaiexia.Api.LogRequests
import Vaiexia.Api.ServiceRequests
import Vaiexia.Api.ErrorTexts
import Vaiexia.Lib.Calls
import Vaiexia.Config.Startup
import Vaiexia.Backend.Detect
import Vaiexia.Backend.RunCapped
import Vaiexia.Audit.Emission
import Vaiexia.Api.Accountability
import Vaiexia.Events.StatusFeed
import Vaiexia.Lib.Windows
import Vaiexia.Api.Guessing
