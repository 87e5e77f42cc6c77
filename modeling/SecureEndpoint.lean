import SecureEndpoint.Proofs.Workers.FailedStart
import SecureEndpoint.Proofs.Workers.Dropping
import SecureEndpoint.Proofs.Lifecycle.Attempts
import SecureEndpoint.Proofs.Tls.Remembered
import SecureEndpoint.Channel.Script
import SecureEndpoint.Proofs.Workers.Closing
import SecureEndpoint.Proofs.Workers.Dispatch
import SecureEndpoint.Proofs.Workers.Reactor
import SecureEndpoint.Tls.Asking
import SecureEndpoint.Tls.Configure
import SecureEndpoint.Tls.Peer
import SecureEndpoint.Work.Alone
import SecureEndpoint.Workers.Script
import SecureEndpoint.Proofs.Workers.Custody
import SecureEndpoint.Proofs.Workers.Quiescence
import SecureEndpoint.Proofs.Workers.Transition
import SecureEndpoint.Proofs.Tls.Rebuild
import SecureEndpoint.Proofs.Tls.Sharing
import SecureEndpoint.Proofs.Tls.Identity
import SecureEndpoint.Proofs.Tls.Authentication
import SecureEndpoint.Proofs.Tls.NativeView
import SecureEndpoint.Proofs.Tls.Renewal
import SecureEndpoint.Proofs.Workers.Sleepers
import SecureEndpoint.Proofs.Workers.Wakeups
import SecureEndpoint.Proofs.Workers.Runners
import SecureEndpoint.Proofs.Workers.Command
import SecureEndpoint.Proofs.Workers.Session
import SecureEndpoint.Proofs.Workers.Returning
import SecureEndpoint.Proofs.Workers.Serial
import SecureEndpoint.Proofs.Channel.Moves
import SecureEndpoint.Proofs.Channel.Rounds
import SecureEndpoint.Proofs.Channel.Service
import SecureEndpoint.Proofs.Tls.Selective
import SecureEndpoint.Proofs.Tls.Configuration
import SecureEndpoint.Proofs.Tls.Agreement
import SecureEndpoint.Proofs.Workers.Patience
import SecureEndpoint.Proofs.Workers.Waiting
import SecureEndpoint.Proofs.Workers.Deadlock
import SecureEndpoint.Proofs.Tls.Preference
import SecureEndpoint.Proofs.Tls.BothEnds
import SecureEndpoint.Proofs.Work.Polling
import SecureEndpoint.Proofs.Certificate.Reports
import SecureEndpoint.Proofs.Certificate.Addresses
import SecureEndpoint.Proofs.Workers.Counters
import SecureEndpoint.Proofs.Tls.Verification
