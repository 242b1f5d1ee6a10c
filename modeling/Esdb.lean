import Esdb.Binary
import Esdb.GoMap
import Esdb.Stream.Format
import Esdb.Stream.OpenStream
import Esdb.Stream.Log
import Esdb.Stream.Reads
import Esdb.Stream.Close
import Esdb.Stream.Reopen
import Esdb.Blocks.Reader
import Esdb.Events
import Esdb.Cluster.StreamFile
import Esdb.Cluster.DB
import Esdb.Cluster.Cursor
import Esdb.Cluster.Snapshot
import Esdb.Cluster.Invariants
import Esdb.Cluster.Replay
import Esdb.Cluster.Compress
import Esdb.Cluster.ReadBack
import Esdb.Cluster.Serve
import Esdb.Cluster.Pages
import Esdb.Cluster.Restart
import Esdb.Cluster.Cache
import Esdb.Cluster.Follow
import Esdb.Cluster.Compaction
import Esdb.Cluster.Join
