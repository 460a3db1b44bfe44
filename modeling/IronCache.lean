import IronCache.Coord.Pipeline
import IronCache.Dash.Refine
import IronCache.Protocol.Framed
import IronCache.Protocol.Requests
import IronCache.Raft.Agreement
import IronCache.RaftNet.Codec
import IronCache.RaftNet.Recovery
import IronCache.Repl.Imported
import IronCache.Repl.Owned
import IronCache.Repl.Resume
import IronCache.Repl.Roles
import IronCache.Repl.Served
import IronCache.Repl.Serving
import IronCache.Serve.Crc
import IronCache.Serve.Glob
import IronCache.Serve.Owner
import IronCache.Serve.Quorum
import IronCache.Serve.Scanning
import IronCache.Store.SetRun
import IronCache.Store.WatchRun
import IronCache.Upgrade.Fence
