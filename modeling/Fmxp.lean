import Fmxp.Client.Accepted
import Fmxp.Client.Descriptors
import Fmxp.Client.Finality
import Fmxp.Client.Replay
import Fmxp.Client.Stream
import Fmxp.Core.Aliasing
import Fmxp.Core.Decoding
import Fmxp.Core.Progress
import Fmxp.Core.Grammar
import Fmxp.Library.Transition
import Fmxp.Server.CommandQueue
import Fmxp.Server.Errors
import Fmxp.Server.Finality
import Fmxp.Server.Isolation
import Fmxp.Server.Notified
import Fmxp.Server.PeerClose
import Fmxp.Server.PoolLiveness
import Fmxp.Server.Registry
import Fmxp.Server.Replies
import Fmxp.Server.Segmentation
import Fmxp.Server.Shutdown
import Fmxp.Server.Teardown
import Fmxp.Server.ThreadPool
import Fmxp.Session.Agreement
import Fmxp.Session.Answers
import Fmxp.Session.Deliveries
import Fmxp.Session.Handshake
import Fmxp.Session.Liveness
import Fmxp.Session.Numbering
import Fmxp.Session.Origin
import Fmxp.Session.Reads
import Fmxp.Session.Reassembly
import Fmxp.Session.Responses
import Fmxp.Session.Wakeup
