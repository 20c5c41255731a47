import NativeContracts.Config.Document
import NativeContracts.Description
import NativeContracts.Exchange
import NativeContracts.Genesis
import NativeContracts.Proofs.Accounting
import NativeContracts.Proofs.Dispatch
import NativeContracts.Proofs.Conservation
import NativeContracts.Proofs.RoundTrip
import NativeContracts.StackPool
import NativeContracts.Proofs.Acceptance
import NativeContracts.Proofs.Representation
import NativeContracts.Proofs.Registration
import NativeContracts.Proofs.Isolation
import NativeContracts.Proofs.Rewards
import NativeContracts.Proofs.Phases
import NativeContracts.Proofs.Opening
import NativeContracts.Proofs.SharedBudget
import NativeContracts.Proofs.Normal
import NativeContracts.Proofs.Minting
import NativeContracts.Proofs.Configuration
import NativeContracts.Proofs.Lifecycle
import NativeContracts.Proofs.WriteOnce
import NativeContracts.Proofs.Burning
import NativeContracts.Proofs.Posting
import NativeContracts.Proofs.Reader
import NativeContracts.Proofs.Seeding
import NativeContracts.Proofs.Untrusted
import NativeContracts.Proofs.Unambiguous
import NativeContracts.Proofs.Headroom
import NativeContracts.Proofs.Trials
import NativeContracts.Proofs.Founding
import NativeContracts.Proofs.Assembly
import NativeContracts.Proofs.Building
import NativeContracts.Proofs.Methods
import NativeContracts.Proofs.Readings
import NativeContracts.Proofs.StackAccess
import NativeContracts.Proofs.Weighing
