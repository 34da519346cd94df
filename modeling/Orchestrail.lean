import Orchestrail.Proof.Resumable
import Orchestrail.Proof.Standing
import Orchestrail.Proof.TxLock
import Orchestrail.Proof.Authority
import Orchestrail.Proof.Notification
import Orchestrail.Proof.Packing
import Orchestrail.Proof.Domains
import Orchestrail.Proof.Registry
import Orchestrail.Proof.Publication
import Orchestrail.Proof.StatusStream
import Orchestrail.Proof.CiGate
import Orchestrail.Proof.RetryBudget
import Orchestrail.Proof.Roadmap
import Orchestrail.Proof.Canary
import Orchestrail.Proof.Pitfalls
import Orchestrail.Proof.Readiness
import Orchestrail.Proof.Fingerprint
import Orchestrail.Proof.Restrictions
import Orchestrail.Proof.Patch
import Orchestrail.Proof.Instant
import Orchestrail.Proof.Observer
import Orchestrail.Proof.Pricing
import Orchestrail.Proof.Console
import Orchestrail.Proof.Stabilize
import Orchestrail.Proof.Coherent
import Orchestrail.Proof.CommandLine
import Orchestrail.Proof.Replay
