import Signet.Crypto.Computed
import Signet.Engine.Goal
import Signet.Env.Simplify
import Signet.Telemetry
import Signet.LogFilter
import Signet.Toml.Computed
import Signet.Term.Equality
import Signet.Proofs.Env.Loops
import Signet.Proofs.Env.Acyclic
import Signet.Proofs.Env.Solutions
import Signet.Proofs.Env.Soundness
import Signet.Proofs.Codec.Bound
import Signet.Proofs.Options.Names
import Signet.Proofs.Engine.Force
import Signet.Proofs.Verify.Contract
import Signet.Proofs.Env.Lists
import Signet.Proofs.Codec.Octets
import Signet.Proofs.Env.Extension
import Signet.Proofs.Env.Readings
import Signet.Proofs.Codec.Readings
import Signet.Proofs.Options.Scan
import Signet.Proofs.Options.Readings
import Signet.Proofs.Verify.Readings
import Signet.Proofs.Env.Ground
import Signet.Proofs.Codec.HexText
import Signet.Proofs.Engine.Outcome
import Signet.Proofs.Predicates.HexBytes
import Signet.Proofs.Env.Variants
import Signet.Proofs.Env.Order
import Signet.Proofs.Verify.Encodings
import Signet.Proofs.Engine.Sequence
import Signet.Proofs.Engine.Conjunction
import Signet.Proofs.Engine.Moments
import Signet.Proofs.Engine.Interruption
import Signet.Proofs.Term.Printing
import Signet.Proofs.Codec.HexFaults
import Signet.Proofs.Codec.HexRules
import Signet.Proofs.Env.Iteration
import Signet.Proofs.Env.Settled
import Signet.Proofs.Env.Cells
import Signet.Proofs.Options.Entries
import Signet.Proofs.Codec.Offences
import Signet.Proofs.Env.Substitution
import Signet.Proofs.Env.Renaming
import Signet.Proofs.Predicates.Renaming
import Signet.Proofs.Env.Termination
import Signet.Proofs.Engine.Solution
import Signet.Proofs.Predicates.ShaHash
import Signet.Proofs.Verify.Logs
import Signet.Proofs.Crypto.Verdicts
import Signet.Proofs.Crypto.Digests
import Signet.Proofs.Toml.Config
import Signet.Proofs.Env.Machine
import Signet.Proofs.Env.Occurrence
import Signet.Proofs.Term.Sharing
