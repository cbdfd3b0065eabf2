import Veritas.Library.BigEndian
import Veritas.Library.Cursor
import Veritas.Groth16
import Veritas.Spec
import Veritas.Host
import Veritas.Contract
import Veritas.Proof.Parsing
import Veritas.Proof.Scalars
import Veritas.Proof.Submission
import Veritas.Library.Machine
import Veritas.Invocation
import Veritas.Proof.Step
import Veritas.Proof.Replay
import Veritas.Library.Hex
import Veritas.Encoder
import Veritas.Proof.RoundTrip
import Veritas.Library.Pairing
import Veritas.Curve
import Veritas.Proof.Verifier
import Veritas.Proof.Tamper
import Veritas.DiscreteLog
import Veritas.Proof.Acceptance
import Veritas.Proof.Faucet
import Veritas.Proof.Clock
import Veritas.Library.MerkleTree
import Veritas.Library.BitDecomposition
import Veritas.Circuits
import Veritas.Proof.Membership
import Veritas.Proof.Credential
import Veritas.Proof.Ownership
import Veritas.Issuer
import Veritas.Proof.Issuance
import Veritas.Layout
import Veritas.Proof.Documented
import Veritas.Library.Register
import Veritas.Proof.Administration
import Veritas.Proof.Eligibility
import Veritas.Proof.Orders
import Veritas.MerklePaths
import Veritas.Proof.Paths
import Veritas.Proof.AllowSet
import Veritas.Library.Calendar
import Veritas.Proof.Comparators
import Veritas.Proof.Age
import Veritas.Proof.Wraparound
import Veritas.Proof.Chunks
import Veritas.Proof.Traps
import Veritas.Deployment
import Veritas.Proof.Holders
import Veritas.Proof.Service
import Veritas.Proof.FirstClaim
import Veritas.Element
import Veritas.Library.Montgomery
import Veritas.Numbers
import Veritas.Proof.Additive
import Veritas.Proof.Numbers
import Veritas.Proof.Program
import Veritas.Calculator
import Veritas.NodeCalculator
import Veritas.Proof.Calculator
import Veritas.Proof.NodeCalculator
