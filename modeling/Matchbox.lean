import Matchbox.Client.Load
import Matchbox.Client.Replay
import Matchbox.Client.Watch
import Matchbox.Gateway.Life
import Matchbox.Safety.Client
import Matchbox.Safety.Isolation
import Matchbox.Safety.Match
import Matchbox.Safety.Priority
import Matchbox.Safety.Replace
import Matchbox.Safety.Shape
import Matchbox.Safety.Symbols
import Matchbox.Spsc.Refines
import Matchbox.Spsc.Weak
import Matchbox.Stream.Backlog
import Matchbox.Stream.CatchUp
import Matchbox.Stream.Handshake
import Matchbox.Stream.OneGap
import Matchbox.Stream.Pace
import Matchbox.Stream.Retention
import Matchbox.Stream.Splitter
import Matchbox.Stream.Stall
import Matchbox.System.Descriptors
import Matchbox.System.Memory
import Matchbox.System.Progress
import Matchbox.System.Rings
import Matchbox.System.Shutdown
import Matchbox.System.Venue
