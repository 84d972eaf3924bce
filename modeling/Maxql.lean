import Maxql.Index.BtreeLoad
import Maxql.Index.BtreeInvariant
import Maxql.Index.BtreeOverrun
import Maxql.Index.BtreePredecessor
import Maxql.Index.RowIndex
import Maxql.Index.BtreeStream
import Maxql.Engine.InSync
import Maxql.Engine.IndexPlan
import Maxql.Engine.Database
import Maxql.Engine.DatabaseRefines
import Maxql.Engine.PrintRow
import Maxql.Engine.Readback
import Maxql.Engine.Relational
import Maxql.Engine.Resolve
import Maxql.Database.CatalogRun
import Maxql.Disk.Failure
import Maxql.Disk.Unchanged
import Maxql.Parser.Accepts
import Maxql.Parser.Progress
import Maxql.Denotation
import Maxql.RowCodec
import Maxql.Schema.RoundTrip
import Maxql.Index.KeyOrder
import Maxql.Cli.Browsing
import Maxql.Lib.Simulation
import Maxql.View.Select
import Maxql.View.Show
import Maxql.View.Sessions
