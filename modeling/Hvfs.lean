import Hvfs.Library.Transition
import Hvfs.Library.Path
import Hvfs.ItbRuns
import Hvfs.ItbMap
import Hvfs.ItbUnlinked
import Hvfs.NameUnique
import Hvfs.CbhtMap
import Hvfs.TxLists
import Hvfs.Dispatch
import Hvfs.TxMessages
import Hvfs.ReplyRoundTrip
import Hvfs.DirHash
import Hvfs.CbhtCache
import Hvfs.CbhtLockBalance
import Hvfs.TxSearched
import Hvfs.TxCommits
import Hvfs.TxgHeld
import Hvfs.ChRing
import Hvfs.Uuid
import Hvfs.ItbCreated
import Hvfs.ItbFound
import Hvfs.ItbRecopy
import Hvfs.XnetFrames
import Hvfs.XnetSites
import Hvfs.RequestBounds
import Hvfs.ItbAsserts
import Hvfs.AsyncUnlinkTxg
import Hvfs.ItbSnapshot
import Hvfs.UnlinkList
import Hvfs.PassCount
import Hvfs.ItbTouched
import Hvfs.LinkCount
import Hvfs.Symlink
import Hvfs.CbhtCount
import Hvfs.CbhtEnds
import Hvfs.CbhtFailed
import Hvfs.RingGrow
import Hvfs.XnetPoll
import Hvfs.DirThreads
import Hvfs.TxgReleased
import Hvfs.BitmapKept
import Hvfs.ItbidFound
import Hvfs.HashInjective
import Hvfs.ItbRoom
import Hvfs.CbhtDouble
import Hvfs.Service
import Hvfs.CbhtHistory
import Hvfs.ItbAddRuns
import Hvfs.TxgDrain
