import UAFlow.Dpdk.Queues
import UAFlow.Dpdk.Mask
import UAFlow.Dpdk.Tables
import UAFlow.Forward.Ownership
import UAFlow.Forward.Gate
import UAFlow.Forward.Bounds
import UAFlow.Forward.Polling
import UAFlow.Config.Selection
import UAFlow.Config.Placement
import UAFlow.Config.Rules
import UAFlow.Config.Scan
import UAFlow.AhoCorasick.Sequel
import UAFlow.AhoCorasick.FindNext
import UAFlow.AhoCorasick.Chunks
import UAFlow.AhoCorasick.Exhausted
import UAFlow.AhoCorasick.BinarySearch
import UAFlow.AhoCorasick.Matches
import UAFlow.AhoCorasick.Descent
import UAFlow.AhoCorasick.Iterations
import UAFlow.AhoCorasick.Copies
import UAFlow.UserAgent.Capture
import UAFlow.UserAgent.Handler
import UAFlow.UserAgent.Leftovers
import UAFlow.UserAgent.Dispatch
import UAFlow.Ddos.Window
import UAFlow.Ddos.Isolation
import UAFlow.Ddos.Families
import UAFlow.Ddos.Overflow
import UAFlow.Ddos.Victim
import UAFlow.MemoryPool.Serving
import UAFlow.ConfigXml.Agreement
import UAFlow.Http.Bodies
import UAFlow.Service.Order
import UAFlow.Service.Draining
import UAFlow.Http.Safety
import UAFlow.Http.Pauses
import UAFlow.Http.Names
import UAFlow.UserAgent.Parsing
