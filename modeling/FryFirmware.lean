import FryFirmware.Lib.Machine
import FryFirmware.Lib.Memory
import FryFirmware.Lib.References
import FryFirmware.Lib.AtomicWrites
import FryFirmware.Lib.Base64
import FryFirmware.Lib.Blocks
import FryFirmware.Lib.Components
import FryFirmware.Lib.Decimal
import FryFirmware.Lib.Joined
import FryFirmware.Lib.Octets
import FryFirmware.Lib.SortedMap
import FryFirmware.Lib.Url
import FryFirmware.Lib.Query
import FryFirmware.Lib.Ring
import FryFirmware.Lib.Fips180
import FryFirmware.Lib.TwoRuns
import FryFirmware.Lib.OrderedTrace
import FryFirmware.Lib.LruMap
import FryFirmware.Lib.InPlace
import FryFirmware.Lib.Strongest
import FryFirmware.Lib.Needle
import FryFirmware.Lib.Json
import FryFirmware.Lib.JsonProperties
import FryFirmware.Lib.JsonText
import FryFirmware.Lib.JsonTextProperties
import FryFirmware.Relay.Socks5
import FryFirmware.Relay.Socks5Properties
import FryFirmware.Relay.Socks5Grammar
import FryFirmware.Relay.Esp8266
import FryFirmware.Relay.Esp8266Properties
import FryFirmware.Relay.Esp8266Deadline
import FryFirmware.Relay.Slot
import FryFirmware.Relay.Session
import FryFirmware.Relay.SlotProperties
import FryFirmware.Relay.HistoryProperties
import FryFirmware.Relay.FinProperties
import FryFirmware.Relay.SessionProperties
import FryFirmware.Relay.SessionRuns
import FryFirmware.Relay.Segmentation
import FryFirmware.Relay.Pool
import FryFirmware.Relay.Timers
import FryFirmware.Relay.Watching
import FryFirmware.Relay.Accepting
import FryFirmware.Relay.Latency
import FryFirmware.Relay.FinProtocol
import FryFirmware.Dns.Cache
import FryFirmware.Dns.Jobs
import FryFirmware.Dns.CacheProperties
import FryFirmware.Dns.CacheLru
import FryFirmware.Dns.Expiry
import FryFirmware.Dns.RequestedName
import FryFirmware.Dns.JobsProperties
import FryFirmware.Dns.Accounting
import FryFirmware.Ota.Semver
import FryFirmware.Ota.Precedence
import FryFirmware.Ota.Schedule
import FryFirmware.Ota.ScheduleProperties
import FryFirmware.Ota.TlsGate
import FryFirmware.Wifi.Station
import FryFirmware.Wifi.StationProperties
import FryFirmware.Ota.Settle
import FryFirmware.Ota.SettleProperties
import FryFirmware.Ota.TlsSession
import FryFirmware.Ota.TlsSessionProperties
import FryFirmware.Ota.Check
import FryFirmware.Ota.CheckProperties
import FryFirmware.Ota.RetryBound
import FryFirmware.Ota.Redirect
import FryFirmware.Ota.RedirectProperties
import FryFirmware.Ota.ManifestRead
import FryFirmware.Ota.ManifestReadProperties
import FryFirmware.Ota.Sha256
import FryFirmware.Ota.Sha256Properties
import FryFirmware.Ota.Sha256Standard
import FryFirmware.Ota.Commit
import FryFirmware.Ota.CommitProperties
import FryFirmware.Ota.CommitSoundness
import FryFirmware.Ota.Esp32
import FryFirmware.Ota.Esp32Properties
import FryFirmware.Ota.Rollout
import FryFirmware.Ota.RolloutAgreement
import FryFirmware.Config.Store
import FryFirmware.Config.PrefsStore
import FryFirmware.Config.PrefsStoreProperties
import FryFirmware.Config.NvsStore
import FryFirmware.Config.NvsStoreProperties
import FryFirmware.Wireguard.Cidr
import FryFirmware.Wireguard.CidrProperties
import FryFirmware.Wireguard.KeyText
import FryFirmware.Wireguard.Provision
import FryFirmware.Wireguard.Endpoint
import FryFirmware.Wireguard.ProvisionProperties
import FryFirmware.Wireguard.Routes
import FryFirmware.Wireguard.RoutesProperties
import FryFirmware.Wireguard.RouteLaws
import FryFirmware.Wireguard.Client
import FryFirmware.Wireguard.ResponseProperties
import FryFirmware.Wireguard.ServerAddress
import FryFirmware.Wireguard.BringUp
import FryFirmware.Wireguard.BringUpProperties
import FryFirmware.Wireguard.BringUpOrder
import FryFirmware.Wireguard.Pacing
import FryFirmware.Identity.KeyPolicy
import FryFirmware.Identity.World
import FryFirmware.Identity.BootReads
import FryFirmware.Identity.MinerKey
import FryFirmware.Identity.MinerKeyProperties
import FryFirmware.Identity.Registration
import FryFirmware.Identity.TokenPair
import FryFirmware.Identity.PairIntegrity
import FryFirmware.Identity.OwnerChange
import FryFirmware.Identity.StableKey
import FryFirmware.Identity.HealPacing
import FryFirmware.Identity.ServerDetail
import FryFirmware.Identity.ServerDetailProperties
import FryFirmware.Identity.TokenMask
import FryFirmware.Provisioning.Fsm
import FryFirmware.Provisioning.FsmProperties
import FryFirmware.Provisioning.Device
import FryFirmware.Provisioning.Transports
import FryFirmware.Provisioning.TransportProperties
import FryFirmware.Provisioning.Safety
import FryFirmware.Provisioning.KeyProvenance
import FryFirmware.Provisioning.FreshStart
import FryFirmware.Provisioning.ScanAnswer
import FryFirmware.Improv.Packet
import FryFirmware.Improv.ParserProperties
import FryFirmware.Improv.Streams
import FryFirmware.Improv.Codec
import FryFirmware.Improv.CodecProperties
import FryFirmware.Improv.Answers
import FryFirmware.Improv.ScanList
import FryFirmware.Reports.Bodies
import FryFirmware.Reports.BodiesProperties
import FryFirmware.Wireguard.RequestBody
import FryFirmware.Reports.Pacing
import FryFirmware.Reports.PacingProperties
import FryFirmware.Boot.Loop
import FryFirmware.Boot.LoopProperties
import FryFirmware.Boot.Timers
import FryFirmware.Improv.Glue
import FryFirmware.Improv.GlueProperties
import FryFirmware.Strikes.Rules
import FryFirmware.Ota.VersionOrder
import FryFirmware.Strikes.Board
import FryFirmware.Strikes.Client
import FryFirmware.Strikes.Ledger
import FryFirmware.Strikes.LedgerProperties
import FryFirmware.Strikes.Start
import FryFirmware.Strikes.Operations
import FryFirmware.Strikes.Bound
import FryFirmware.Strikes.PowerLoss
import FryFirmware.Lib.InetText
import FryFirmware.Lib.Clock
import FryFirmware.Lib.Latch
import FryFirmware.Lib.Stretch
import FryFirmware.Lib.Wait
import FryFirmware.Strikes.Watch
import FryFirmware.Olostep.Guard
import FryFirmware.Olostep.Literals
import FryFirmware.Olostep.Hosts
import FryFirmware.Olostep.Inet
import FryFirmware.Olostep.Headers
import FryFirmware.Olostep.Capability
