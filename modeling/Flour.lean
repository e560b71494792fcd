import Flour.Backend.Cpu
import Flour.DistKv.Client
import Flour.DistKv.Colocated
import Flour.DistKv.HttpServed
import Flour.DistKv.Placement
import Flour.DistKv.Reads
import Flour.DistKv.Refinement
import Flour.DistKv.WorkerRun
import Flour.DistKv.WriteRoom
import Flour.Engine.Driven
import Flour.Engine.Fleet
import Flour.Engine.Positions
import Flour.Engine.Sampling
import Flour.Engine.Streaming
import Flour.Engine.Window
import Flour.Kv.Coalesced
import Flour.Kv.Keys
import Flour.Kv.Matching
import Flour.Kv.Rollback
import Flour.Models.Serve
import Flour.Models.Shapes
