import StateProxy.ProofKit.Table
import StateProxy.Backend.Manager
import StateProxy.Backend.Effect
import StateProxy.Backend.Invariant
import StateProxy.Backend.Selection
import StateProxy.Backend.History
import StateProxy.Backend.Calls
import StateProxy.Backend.Progress
import StateProxy.Backend.Linearization
import StateProxy.Net.Text
import StateProxy.Kubernetes.Runtime
import StateProxy.Kubernetes.Effect
import StateProxy.Kubernetes.Watch
import StateProxy.Kubernetes.Announcements
import StateProxy.Kubernetes.Availability
import StateProxy.Kubernetes.Relist
import StateProxy.Kubernetes.Coverage
import StateProxy.Net.RoundTrip
import StateProxy.ProofKit.Json
import StateProxy.ProofKit.Serde
import StateProxy.Protocol.Message
import StateProxy.Protocol.Serialization
import StateProxy.Protocol.Format
import StateProxy.Kubernetes.Annotation
import StateProxy.ProofKit.TwoRuns
import StateProxy.Kubernetes.Loop
import StateProxy.Backend.Failure
import StateProxy.Backend.Protocols
import StateProxy.Kubernetes.Routing
import StateProxy.Kubernetes.Emission
import StateProxy.Kubernetes.Addresses
import StateProxy.Matchmaking.Matchmaker
import StateProxy.Protocol.Buffer
import StateProxy.Kubernetes.Rejection
import StateProxy.Backend.Taken
import StateProxy.Backend.Listeners
import StateProxy.Backend.Delivery
import StateProxy.Backend.Discoveries
import StateProxy.ProofKit.Drain
import StateProxy.Backend.Convergence
import StateProxy.Kubernetes.Interruption
import StateProxy.Kubernetes.Stream
import StateProxy.Kubernetes.Cluster
import StateProxy.Backend.PortStreams
import StateProxy.Matchmaking.Serving
import StateProxy.Protocol.Client
import StateProxy.Protocol.Session
import StateProxy.ProofKit.Registry
import StateProxy.Protocol.Registry
import StateProxy.Matchmaking.Connections
import StateProxy.State
import StateProxy.Matchmaking.Balance
