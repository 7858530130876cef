import Cc2obp.Dmr.Bptc
import Cc2obp.Dmr.Ambe
import Cc2obp.Cccc.Ambe
import Cc2obp.Cccc.CcccLink
import Cc2obp.Crypto
import Cc2obp.Lib.Channel
import Cc2obp.Lib.Session
import Cc2obp.Openbridge.ObpLink
import Cc2obp.System
import Cc2obp.System.Streams
import Cc2obp.System.VoiceNumbers
import Cc2obp.Translate.Calls
import Cc2obp.Translate.Independence
import Cc2obp.Cccc.Descriptors
import Cc2obp.Cccc.Keepalive
import Cc2obp.Cccc.Lifecycle
import Cc2obp.System.Live
import Cc2obp.Translate.Routing
import Cc2obp.Cccc.Traffic
import Cc2obp.Lib.Periods
import Cc2obp.System.CcCalls
import Cc2obp.System.CcPeriods
import Cc2obp.System.ClosedGate
import Cc2obp.System.Outbound
import Cc2obp.System.PeerOff
import Cc2obp.Cccc.CallSignals
import Cc2obp.Config.Documented
import Cc2obp.Dmr.Regenerate
import Cc2obp.Eventloop.Readiness
import Cc2obp.Openbridge.Rebind
import Cc2obp.System.BoffTotals
import Cc2obp.System.Rejected
import Cc2obp.System.Signals
import Cc2obp.Translate.Callers
import Cc2obp.Translate.Regeneration
import Cc2obp.Translate.Relaying
import Cc2obp.Cccc.Answer
import Cc2obp.Cccc.Handshake
import Cc2obp.System.Agreement
import Cc2obp.Cccc.Registrations
import Cc2obp.Cccc.RxBuffer
import Cc2obp.Cccc.Steady
import Cc2obp.Crypto.Sha1
import Cc2obp.Dmr.Blocks
import Cc2obp.Dmr.EmbeddedLc
import Cc2obp.Dmr.FullLc
import Cc2obp.Dmr.ReedSolomon
import Cc2obp.Eventloop.Timers
import Cc2obp.System.Deadlines
import Cc2obp.System.Registrations
import Cc2obp.Translate.Identity
import Cc2obp.System.Tandem
import Cc2obp.Cccc.HandshakeFields
import Cc2obp.Config.Blocks
import Cc2obp.Config.Comments
import Cc2obp.Config.Limits
import Cc2obp.Config.Passphrase
import Cc2obp.Config.Toggles
import Cc2obp.Translate.RoutingKeys
import Cc2obp.System.Joined
import Cc2obp.Cccc.Schedule
import Cc2obp.Eventloop.Timeout
import Cc2obp.Lib.Progress
import Cc2obp.Main
import Cc2obp.Main.Calls
import Cc2obp.System.Shutdown
import Cc2obp.Main.Waits
