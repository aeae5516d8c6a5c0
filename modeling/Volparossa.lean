import Volparossa.Abci.Frames
import Volparossa.Abci.Lifecycle
import Volparossa.Compute.Plan
import Volparossa.Content.Floors
import Volparossa.Discovery.Lineage
import Volparossa.Discovery.Slots
import Volparossa.Inspection.Quic
import Volparossa.Mptcp.Ownership
import Volparossa.Ordered.Faithful
import Volparossa.Ordered.Handles
import Volparossa.Policy.Authorization
import Volparossa.PrivateStorage.Content
import Volparossa.PrivateStorage.Custody
import Volparossa.PrivateStorage.Deletion
import Volparossa.Protocol.Replay
import Volparossa.Reservation.Coordinator.NativeRoute
import Volparossa.Reservation.Coordinator.Separation
import Volparossa.Reservation.Ledger
import Volparossa.Selection.Pinning
import Volparossa.Transaction.History
import Volparossa.Transaction.Signing
