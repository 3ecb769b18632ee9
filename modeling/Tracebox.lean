import Tracebox.Stream.Crash
import Tracebox.Stream.RoundTrip
import Tracebox.Stream.Pairing
import Tracebox.Stream.Collisions
import Tracebox.Stream.Pacing
import Tracebox.Stream.Faults
import Tracebox.Stream.Limits
import Tracebox.Storage.Estimate
import Tracebox.Storage.Growth
import Tracebox.Storage.Budget
import Tracebox.Hosted.Exceptions
import Tracebox.Hosted.Confinement
import Tracebox.Hosted.Minimal
import Tracebox.Hosted.Buffered
import Tracebox.Storage.Retry
import Tracebox.Storage.Acknowledged
import Tracebox.Storage.Sessions
import Tracebox.Writer.LogWriter
import Tracebox.Writer.Threads
import Tracebox.Net.Framing
import Tracebox.Net.Recording
import Tracebox.Net.TraceboxLogger
import Tracebox.Net.Server
import Tracebox.Net.Lifecycle
import Tracebox.Net.FailedStart
import Tracebox.Net.PartialSend
import Tracebox.Net.ReaderClient
import Tracebox.Net.ClientContract
import Tracebox.Reader.PayloadConfinement
import Tracebox.Reader.Addressable
import Tracebox.Reader.Counts
import Tracebox.Reader.Discovery
import Tracebox.Storage.Accounting
import Tracebox.Storage.Eviction
import Tracebox.Reader.Locality
import Tracebox.Reader.Query
import Tracebox.Reader.EndToEnd
import Tracebox.Client.StreamsCombiner
