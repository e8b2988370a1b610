import Disc.Lib.Memory
import Disc.Lib.Chain
import Disc.Msg.Avp
import Disc.Msg.AvpList
import Disc.Msg.Message
import Disc.Msg.Decode
import Disc.Msg.Codec
import Disc.Lib.Frame
import Disc.Transport.Read
import Disc.Transport.HashTable
import Disc.Transport.Wire
import Disc.Transport.Peer
import Disc.Lib.Run
import Disc.Transport.World
import Disc.Transport.Core
import Disc.Transport.Refine
import Disc.Transport.Handshake
import Disc.Transport.Timers
import Disc.Transport.Counter
import Disc.Transport.Stale
import Disc.Transport.Guard
import Disc.Transport.Books
import Disc.Transport.Claimed
import Disc.Transport.Labels
import Disc.Server.Relay
import Disc.Transport.Beat
import Disc.Transport.Watchdog
import Disc.Transport.Admission
import Disc.Transport.Failure
import Disc.Transport.Exchange
import Disc.Transport.Says
import Disc.Transport.Listen
import Disc.Transport.Said
import Disc.Transport.Pair
import Disc.Client.Pending
import Disc.Client.Live
import Disc.Client.Callbacks
import Disc.Client.SessionId
import Disc.Client.Manager
import Disc.Msg.Received
import Disc.Transport.Walk
import Disc.Transport.Trail
import Disc.Transport.Verdict
import Disc.Transport.Overread
import Disc.Msg.Answer
import Disc.Server.Route
import Disc.Server.Request
import Disc.Transport.Interop
import Disc.Transport.Template
import Disc.Msg.Edits
import Disc.Lib.Links
import Disc.Timer.TimerList
import Disc.Timer.Calls
import Disc.Rings.ListHead
import Disc.Rings.RcvThreads
import Disc.Timer.Sweep
import Disc.Rings.Buckets
import Disc.Rings.ActivPeers
import Disc.Lib.Deref
import Disc.Msg.Shortcuts
import Disc.Server.Missing
import Disc.Server.Reply
import Disc.Server.Handled
import Disc.Client.Answers
import Disc.Server.RealmLookup
import Disc.Config.Uri
import Disc.Config.Identity
import Disc.Config.UriValues
import Disc.Config.Line
import Disc.Config.Peers
import Disc.Digest.ParamName
import Disc.Digest.Cred
import Disc.SipAuth.ModMsg
import Disc.SipAuth.Worker
import Disc.SipAuth.Reader
import Disc.Client.Lookup
import Disc.Digest.Nonce
import Disc.Transport.FdSets
import Disc.Transport.Watched
import Disc.Transport.Sweeps
import Disc.Transport.Instances
import Disc.Lib.Tiles
import Disc.Mem.FreeLists
import Disc.Mem.Pool
import Disc.Mem.Malloc
import Disc.Mem.Free
import Disc.Mem.Start
import Disc.Mem.Runs
import Disc.Digest.Md5
import Disc.Digest.Response
import Disc.Lib.Copy
import Disc.Digest.Challenge
import Disc.Digest.Queries
import Disc.Digest.Inside
import Disc.Digest.Auth
import Disc.Digest.Login
import Disc.Digest.Account
import Disc.Digest.Service
