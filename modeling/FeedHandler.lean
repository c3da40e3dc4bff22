import FeedHandler.Protocol
import FeedHandler.Parser.MessageParser
import FeedHandler.Parser.Reframer
import FeedHandler.Parser.Refinement
import FeedHandler.Parser.Stream
import FeedHandler.Parser.Calls
import FeedHandler.Parser.Counters
import FeedHandler.Parser.Reset
import FeedHandler.Cache.SymbolCache
import FeedHandler.Cache.Seqlock
import FeedHandler.Perf.LatencyTracker
import FeedHandler.Perf.Recording
import FeedHandler.Perf.Percentiles
import FeedHandler.Server.Broadcast
import FeedHandler.Server.Run
import FeedHandler.Server.TickGenerator
import FeedHandler.Server.Pacing
import FeedHandler.Session
import FeedHandler.Server.Args
import FeedHandler.Server.Simulator
import FeedHandler.TestClient
import FeedHandler.Visualizer
