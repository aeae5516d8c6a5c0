import Volparossa.Core.Basic
import Volparossa.Foundations.Machine
import Volparossa.Foundations.Table

/-!
# The capacity ledger

Atomic, expiring reservation accounting of a relay or an exit. A ledger holds its limits, the grants
it accepted, and the bandwidth they take up together. The total is a field of its own: the ledger
adds to it and subtracts from it, and never computes it from the grants again. `Sound` says that the
two agree and keep to the limits.

The main result is **`ledger_sound`**: for all limits that a ledger can be made with, and every
sequence of calls with arbitrary reservations and times, the total is the sum over the grants and
within the limits, the free capacity is never negative, the errors that report an overflow or a
broken ledger are out of reach, and a reservation that is refused leaves the ledger as the purge
before it did.
-/

namespace Volparossa.Reservation

open Volparossa.Core

/-! ## Reservations, limits and grants -/

/-- Reservation validation, resource or replay failure. -/
inductive ReservationError where
  | invalidLimits
  | wrongLedger
  | invalidBandwidth
  | invalidTransports
  | invalidMaximumPaths
  | invalidLifetime
  | lifetimeTooLong
  | duplicateReservation
  | insufficientCapacity
  | noFreeSlot
  | capacityOverflow
  | unknownReservation
  | reservationExpired
  | ledgerInvariantViolation
  deriving DecidableEq, Repr

/-- Maximum number of distinct transport values in one reservation. -/
def maxAllowedTransports : ℕ := 3

/-- Fixed per-role operator limits for one local service node. The session ceiling is a 32-bit
number, as is the count of grants that it is compared with. -/
structure LedgerLimits where
  serviceNodeId : NodeId
  role : ServiceRole
  bandwidth : Bandwidth
  maximumSessions : UInt32
  maximumReservationTtlSeconds : ℕ
  tunnelSetupTimeoutSeconds : ℕ
  deriving DecidableEq

def LedgerLimits.validate (limits : LedgerLimits) : Except ReservationError Unit := do
  refuse (limits.bandwidth.validate = false) .invalidLimits
  refuse (limits.bandwidth.upMbps = 0 ∨ limits.bandwidth.downMbps = 0 ∨
    limits.maximumSessions = 0 ∨ limits.maximumReservationTtlSeconds = 0 ∨
    limits.tunnelSetupTimeoutSeconds = 0 ∨
    limits.maximumReservationTtlSeconds < limits.tunnelSetupTimeoutSeconds) .invalidLimits

/-- A request after control-message authentication, replay and policy checks. -/
structure AuthorizedReservation where
  reservationId : ReservationId
  routeContextId : RouteContextId
  serviceNodeId : NodeId
  clientEphemeralId : ClientEphemeralId
  role : ServiceRole
  allowedTransports : List Transport
  bandwidth : Bandwidth
  maximumPaths : ℕ
  createdAt : ℕ
  expiresAt : ℕ
  deriving DecidableEq

def AuthorizedReservation.validate (r : AuthorizedReservation) (limits : LedgerLimits) (now : ℕ) :
    Except ReservationError Unit := do
  refuse (r.role ≠ limits.role ∨ r.serviceNodeId ≠ limits.serviceNodeId) .wrongLedger
  refuse (r.bandwidth.validate = false) .invalidBandwidth
  refuse (r.bandwidth.upMbps = 0 ∨ r.bandwidth.downMbps = 0) .invalidBandwidth
  refuse (r.allowedTransports = [] ∨ maxAllowedTransports < r.allowedTransports.length)
    .invalidTransports
  refuse (¬r.allowedTransports.Nodup) .invalidTransports
  refuse (r.maximumPaths = 0 ∨ 8 < r.maximumPaths ∨ r.role = .relay ∧ r.maximumPaths ≠ 1)
    .invalidMaximumPaths
  refuse (now < r.createdAt ∨ r.expiresAt ≤ r.createdAt ∨ isExpiredAt r.expiresAt now = true)
    .invalidLifetime
  refuse (limits.maximumReservationTtlSeconds < r.expiresAt - r.createdAt) .lifetimeTooLong

/-- Pending-tunnel or active allocation state. -/
inductive AllocationState where
  | pendingTunnel
  | active
  deriving DecidableEq, Repr

/-- Accepted reservation metadata returned to the service. -/
structure ReservationGrant where
  reservation : AuthorizedReservation
  acceptedAt : ℕ
  tunnelSetupDeadline : ℕ
  state : AllocationState
  deriving DecidableEq

/-- The key of a grant. -/
abbrev ReservationGrant.id (grant : ReservationGrant) : ReservationId :=
  grant.reservation.reservationId

/-- Why an allocation was automatically released. -/
inductive ExpiryReason where
  | reservationExpired
  | tunnelNotEstablished
  deriving DecidableEq, Repr

/-- One automatically released allocation. -/
structure ExpiredAllocation where
  reservationId : ReservationId
  reason : ExpiryReason
  deriving DecidableEq

/-- Why a grant is released at a time, if it is. -/
def ReservationGrant.expiry (grant : ReservationGrant) (now : ℕ) : Option ExpiryReason :=
  if isExpiredAt grant.reservation.expiresAt now then some .reservationExpired
  else if grant.state = .pendingTunnel ∧ isExpiredAt grant.tunnelSetupDeadline now = true then
    some .tunnelNotEstablished
  else none

/-- Capacity and slots available after all accepted allocations. -/
structure AvailableCapacity where
  bandwidth : Bandwidth
  freeSlots : ℕ
  deriving DecidableEq

/-! ## The ledger -/

/-- In-memory, per-role capacity ledger. -/
structure CapacityLedger where
  limits : LedgerLimits
  reserved : Bandwidth
  grants : Table ReservationGrant.id
  deriving DecidableEq

namespace CapacityLedger

def new (limits : LedgerLimits) : Except ReservationError CapacityLedger := do
  limits.validate
  pure ⟨limits, .zero, .empty⟩

/-- One turn of the loop of `purgeExpired`: the grant goes even if its bandwidth cannot be
subtracted. -/
def dropGrant (l : CapacityLedger) (grant : ReservationGrant) : CapacityLedger :=
  { l with
    grants := l.grants.erase grant.id
    reserved := (l.reserved.checkedSub grant.reservation.bandwidth).getD l.reserved }

/-- The loop of `purgeExpired` over the allocations that it found expired. -/
def dropExpired : CapacityLedger → List ExpiredAllocation → List ExpiredAllocation × CapacityLedger
  | l, [] => ([], l)
  | l, expired :: rest =>
    match l.grants.lookup expired.reservationId with
    | none => dropExpired l rest
    | some grant =>
      let (released, l') := dropExpired (l.dropGrant grant) rest
      (expired :: released, l')

/-- Releases every hard-expired or setup-expired allocation. The released allocations are listed in
the order of the table, where the source lists them in the order of its hash map. -/
def purgeExpired (l : CapacityLedger) (now : ℕ) : List ExpiredAllocation × CapacityLedger :=
  l.dropExpired (l.grants.rows.filterMap fun grant =>
    (grant.expiry now).map fun reason => ⟨grant.id, reason⟩)

/-- The part of `reserve` after the purge. -/
def accept (l : CapacityLedger) (r : AuthorizedReservation) (now : ℕ) :
    Except ReservationError (ReservationGrant × CapacityLedger) := do
  r.validate l.limits now
  refuse (l.grants.lookup r.reservationId ≠ none) .duplicateReservation
  let nextUp := l.reserved.upMbps + r.bandwidth.upMbps
  refuse (2 ^ 32 ≤ nextUp) .capacityOverflow
  let nextDown := l.reserved.downMbps + r.bandwidth.downMbps
  refuse (2 ^ 32 ≤ nextDown) .capacityOverflow
  refuse (l.limits.bandwidth.upMbps < nextUp ∨ l.limits.bandwidth.downMbps < nextDown)
    .insufficientCapacity
  refuse (2 ^ 32 ≤ l.grants.rows.length) .capacityOverflow
  refuse (l.limits.maximumSessions.toNat ≤ l.grants.rows.length) .noFreeSlot
  let setupDeadline := now + l.limits.tunnelSetupTimeoutSeconds
  refuse (2 ^ 64 ≤ setupDeadline) .invalidLifetime
  let grant : ReservationGrant := ⟨r, now, min setupDeadline r.expiresAt, .pendingTunnel⟩
  refuse (Bandwidth.validate ⟨nextUp, nextDown⟩ = false) .capacityOverflow
  pure (grant, { l with reserved := ⟨nextUp, nextDown⟩, grants := l.grants.put grant })

/-- Atomically accepts a request, immediately reducing advertised free capacity. -/
def reserve (l : CapacityLedger) (r : AuthorizedReservation) (now : ℕ) :
    Except ReservationError ReservationGrant × CapacityLedger :=
  let purged := (l.purgeExpired now).2
  match purged.accept r now with
  | .error e => (.error e, purged)
  | .ok (grant, l') => (.ok grant, l')

/-- Marks successful tunnel establishment before the setup deadline. -/
def markTunnelEstablished (l : CapacityLedger) (id : ReservationId) (now : ℕ) :
    Except ReservationError Unit × CapacityLedger :=
  let (expired, l') := l.purgeExpired now
  if expired.any fun allocation => allocation.reservationId = id then
    (.error .reservationExpired, l')
  else
    match l'.grants.lookup id with
    | none => (.error .unknownReservation, l')
    | some _ =>
      (.ok (), { l' with
        grants := l'.grants.modify id (fun grant => { grant with state := .active }) fun _ => rfl })

/-- Explicitly releases an allocation and returns the removed grant. -/
def release (l : CapacityLedger) (id : ReservationId) :
    Except ReservationError ReservationGrant × CapacityLedger :=
  match l.grants.lookup id with
  | none => (.error .unknownReservation, l)
  | some grant =>
    match l.reserved.checkedSub grant.reservation.bandwidth with
    | none => (.error .ledgerInvariantViolation, { l with grants := l.grants.erase id })
    | some reserved => (.ok grant, { l with grants := l.grants.erase id, reserved })

/-- Returns free capacity after first releasing expired allocations. There is none to return when
the subtraction underflows, which stops the program. -/
def available (l : CapacityLedger) (now : ℕ) : Option AvailableCapacity × CapacityLedger :=
  let l' := (l.purgeExpired now).2
  let sessionCount := min l'.grants.rows.length (2 ^ 32 - 1)
  ((l'.limits.bandwidth.checkedSub l'.reserved).map fun bandwidth =>
    ⟨bandwidth, l'.limits.maximumSessions.toNat - sessionCount⟩, l')

def allocationCount (l : CapacityLedger) : ℕ := l.grants.rows.length

end CapacityLedger

/-! ## Runs -/

/-- A call of an operation that changes the ledger. -/
inductive LedgerCall where
  | reserve (r : AuthorizedReservation) (now : ℕ)
  | markTunnelEstablished (id : ReservationId) (now : ℕ)
  | release (id : ReservationId)
  | purgeExpired (now : ℕ)
  | available (now : ℕ)

/-- What a call returns. -/
inductive LedgerOutcome where
  | reserved (result : Except ReservationError ReservationGrant)
  | marked (result : Except ReservationError Unit)
  | released (result : Except ReservationError ReservationGrant)
  | purged (released : List ExpiredAllocation)
  | available (capacity : Option AvailableCapacity)

namespace CapacityLedger

def call (l : CapacityLedger) : LedgerCall → LedgerOutcome × CapacityLedger
  | .reserve r now => (.reserved (l.reserve r now).1, (l.reserve r now).2)
  | .markTunnelEstablished id now =>
    (.marked (l.markTunnelEstablished id now).1, (l.markTunnelEstablished id now).2)
  | .release id => (.released (l.release id).1, (l.release id).2)
  | .purgeExpired now => (.purged (l.purgeExpired now).1, (l.purgeExpired now).2)
  | .available now => (.available (l.available now).1, (l.available now).2)

/-- The ledger as a machine that takes one call after another. -/
def machine : Machine CapacityLedger LedgerCall LedgerOutcome := ⟨call⟩

/-! ## The invariant -/

variable {l l' : CapacityLedger}

/-- **The invariant of the ledger**: the total is the sum over the grants, in both directions, and
the limits, which are ones that a ledger can have, are kept. -/
structure Sound (l : CapacityLedger) : Prop where
  limits : l.limits.validate = .ok ()
  up_eq : l.reserved.upMbps = l.grants.sum fun grant => grant.reservation.bandwidth.upMbps
  down_eq : l.reserved.downMbps = l.grants.sum fun grant => grant.reservation.bandwidth.downMbps
  reserved_le : l.reserved ≤ l.limits.bandwidth
  sessions_le : l.allocationCount ≤ l.limits.maximumSessions.toNat

variable {limits : LedgerLimits}

theorem limits_bounded (h : limits.validate = .ok ()) :
    limits.bandwidth.upMbps ≤ maxBandwidthMbps ∧ limits.bandwidth.downMbps ≤ maxBandwidthMbps := by
  simp only [LedgerLimits.validate, ok_iff, exists_const, Bool.not_eq_false,
    Bandwidth.validate_eq_true] at h
  exact h.1

/-! ## Releasing grants -/

variable {grant : ReservationGrant}

/-- The bandwidth of a grant can be subtracted, and what is left is that of the others. -/
theorem Sound.checkedSub (h : l.Sound) {id : ReservationId}
    (hgrant : l.grants.lookup id = some grant) :
    ∃ reserved, l.reserved.checkedSub grant.reservation.bandwidth = some reserved ∧
      Sound { l with grants := l.grants.erase id, reserved } := by
  have hup := Table.sum_erase hgrant fun grant => grant.reservation.bandwidth.upMbps
  have hdown := Table.sum_erase hgrant fun grant => grant.reservation.bandwidth.downMbps
  have hlength := Table.length_erase hgrant
  have hsessions := h.sessions_le
  have hle : grant.reservation.bandwidth ≤ l.reserved :=
    ⟨by rw [h.up_eq]; omega, by rw [h.down_eq]; omega⟩
  refine ⟨_, if_pos hle, h.limits, ?_, ?_, ⟨?_, ?_⟩, ?_⟩
  · have := h.up_eq
    dsimp only
    omega
  · have := h.down_eq
    dsimp only
    omega
  · exact (Nat.sub_le _ _).trans h.reserved_le.1
  · exact (Nat.sub_le _ _).trans h.reserved_le.2
  · unfold allocationCount at hsessions ⊢
    dsimp only
    omega

theorem Sound.dropGrant (h : l.Sound) {id : ReservationId}
    (hgrant : l.grants.lookup id = some grant) : (l.dropGrant grant).Sound := by
  rw [← Table.key_of_lookup hgrant] at hgrant
  obtain ⟨reserved, hsub, hsound⟩ := h.checkedSub hgrant
  rw [CapacityLedger.dropGrant, hsub]
  exact hsound

/-- What releasing expired allocations does. -/
theorem dropExpired_spec (h : l.Sound) (expired : List ExpiredAllocation) :
    (l.dropExpired expired).2.Sound ∧ (l.dropExpired expired).2.limits = l.limits ∧
      (l.dropExpired expired).2.grants.rows =
        l.grants.rows.filter fun grant => grant.id ∉ expired.map (·.reservationId) := by
  induction expired generalizing l with
  | nil => exact ⟨h, rfl, by simp [dropExpired]⟩
  | cons first rest ih =>
    rw [dropExpired]
    cases hgrant : l.grants.lookup first.reservationId with
    | none =>
      obtain ⟨hsound, hlimits, hrows⟩ := ih h
      refine ⟨hsound, hlimits, hrows.trans (List.filter_congr fun grant hmem => ?_)⟩
      have hne := (l.grants.lookup_eq_none _).mp hgrant grant hmem
      simp [hne]
    | some grant =>
      obtain ⟨hsound, hlimits, hrows⟩ := ih (h.dropGrant hgrant)
      refine ⟨hsound, hlimits, hrows.trans ?_⟩
      rw [CapacityLedger.dropGrant, Table.key_of_lookup hgrant, Table.erase, List.filter_filter]
      refine List.filter_congr fun grant' _ => ?_
      simp only [List.map_cons, List.mem_cons, not_or, Bool.decide_and, Bool.and_comm]

/-- The allocations that are expired at a time. -/
theorem mem_expired {now : ℕ} {a : ExpiredAllocation} :
    a ∈ (l.grants.rows.filterMap fun grant =>
      (grant.expiry now).map fun reason => (⟨grant.id, reason⟩ : ExpiredAllocation)) ↔
      ∃ grant ∈ l.grants.rows, grant.id = a.reservationId ∧ grant.expiry now = some a.reason := by
  simp only [List.mem_filterMap, Option.map_eq_some_iff]
  constructor
  · rintro ⟨grant, hgrant, reason, hreason, rfl⟩
    exact ⟨grant, hgrant, rfl, hreason⟩
  · rintro ⟨grant, hgrant, hid, hreason⟩
    exact ⟨grant, hgrant, a.reason, hreason, by rw [hid]⟩

/-- **What a purge does**: it keeps the grants that are not expired, and the invariant. -/
theorem purgeExpired_spec (h : l.Sound) (now : ℕ) :
    (l.purgeExpired now).2.Sound ∧ (l.purgeExpired now).2.limits = l.limits ∧
      (l.purgeExpired now).2.grants.rows =
        l.grants.rows.filter fun grant => grant.expiry now = none := by
  obtain ⟨hsound, hlimits, hrows⟩ := dropExpired_spec h (l.grants.rows.filterMap fun grant =>
    (grant.expiry now).map fun reason => ⟨grant.id, reason⟩)
  refine ⟨hsound, hlimits, hrows.trans (List.filter_congr fun grant hgrant => ?_)⟩
  rw [decide_eq_decide, List.mem_map, not_exists]
  constructor
  · intro hnone
    cases hreason : grant.expiry now with
    | none => rfl
    | some reason =>
      exact absurd ⟨mem_expired.mpr ⟨grant, hgrant, rfl, hreason⟩, rfl⟩
        (hnone ⟨grant.id, reason⟩)
  · rintro hnone a ⟨ha, hid⟩
    obtain ⟨grant', hgrant', hid', hreason⟩ := mem_expired.mp ha
    rw [l.grants.eq_of_key_eq hgrant' hgrant (hid'.trans hid), hnone] at hreason
    cases hreason

/-! ## Accepting reservations -/

/-- The failures that report an overflow or a broken ledger. -/
def Corrupt : ReservationError → Prop
  | .capacityOverflow | .ledgerInvariantViolation => True
  | _ => False

theorem validate_failsOnly (r : AuthorizedReservation) (limits : LedgerLimits) (now : ℕ) :
    FailsOnly (fun e => ¬Corrupt e) (r.validate limits now) := by
  simp only [AuthorizedReservation.validate, failsOnly_bind, failsOnly_refuse]
  simp [Corrupt]

variable {r : AuthorizedReservation}

theorem bandwidth_of_validate {now : ℕ} (h : r.validate limits now = .ok ()) :
    r.bandwidth.upMbps ≤ maxBandwidthMbps ∧ r.bandwidth.downMbps ≤ maxBandwidthMbps := by
  simp only [AuthorizedReservation.validate, ok_iff, exists_const, Bool.not_eq_false,
    Bandwidth.validate_eq_true] at h
  exact h.2.1

/-- The sums that are checked for overflow stay far below the bound. -/
theorem Sound.sums_lt (h : l.Sound) {now : ℕ} (hr : r.validate l.limits now = .ok ()) :
    l.reserved.upMbps + r.bandwidth.upMbps < 2 ^ 32 ∧
      l.reserved.downMbps + r.bandwidth.downMbps < 2 ^ 32 := by
  obtain ⟨hup, hdown⟩ := bandwidth_of_validate hr
  obtain ⟨hup', hdown'⟩ := limits_bounded h.limits
  obtain ⟨hle, hle'⟩ := h.reserved_le
  unfold maxBandwidthMbps at *
  omega

theorem Sound.allocationCount_lt (h : l.Sound) : l.grants.rows.length < 2 ^ 32 :=
  h.sessions_le.trans_lt l.limits.maximumSessions.toNat_lt

/-- No reservation is refused because of an overflow. -/
theorem accept_failsOnly (h : l.Sound) (r : AuthorizedReservation) (now : ℕ) :
    FailsOnly (fun e => ¬Corrupt e) (l.accept r now) := by
  obtain ⟨hup, hdown⟩ := limits_bounded h.limits
  have hlength := h.allocationCount_lt
  unfold accept
  refine failsOnly_bind.mpr ⟨validate_failsOnly r l.limits now, fun _ hr => ?_⟩
  obtain ⟨hup', hdown'⟩ := h.sums_lt hr
  simp only [failsOnly_bind, failsOnly_refuse, refuse_eq_ok, pure_ok, failsOnly_ok]
  refine ⟨fun _ => id, fun _ _ => ⟨fun hover => absurd hover (by omega), fun _ _ =>
    ⟨fun hover => absurd hover (by omega), fun _ _ => ⟨fun _ => id, fun _ hle =>
      ⟨fun hover => absurd hover (by omega), fun _ _ => ⟨fun _ => id, fun _ _ =>
        ⟨fun _ => id, fun _ _ => ⟨fun hinvalid => absurd hinvalid ?_, fun _ _ => trivial⟩⟩⟩⟩⟩⟩⟩⟩
  rw [Bool.not_eq_false, Bandwidth.validate_eq_true]
  dsimp only
  omega

/-- What an accepted reservation does. -/
theorem accept_eq_ok {now : ℕ} (h : l.accept r now = .ok (grant, l')) :
    r.validate l.limits now = .ok () ∧ l.grants.lookup r.reservationId = none ∧
      l.reserved.upMbps + r.bandwidth.upMbps ≤ l.limits.bandwidth.upMbps ∧
      l.reserved.downMbps + r.bandwidth.downMbps ≤ l.limits.bandwidth.downMbps ∧
      l.grants.rows.length < l.limits.maximumSessions.toNat ∧
      grant = ⟨r, now, min (now + l.limits.tunnelSetupTimeoutSeconds) r.expiresAt,
        .pendingTunnel⟩ ∧
      l' = { l with
        reserved := ⟨l.reserved.upMbps + r.bandwidth.upMbps,
          l.reserved.downMbps + r.bandwidth.downMbps⟩
        grants := l.grants.put grant } := by
  simp only [accept, ok_iff, Prod.mk.injEq, exists_const, not_or, not_lt, not_le, ne_eq,
    not_not] at h
  obtain ⟨⟨⟩, hvalid, hfresh, -, -, ⟨hup, hdown⟩, -, hslot, -, -, rfl, rfl⟩ := h
  exact ⟨hvalid, hfresh, hup, hdown, hslot, rfl, rfl⟩

theorem Sound.accept (h : l.Sound) {now : ℕ} (haccept : l.accept r now = .ok (grant, l')) :
    l'.Sound := by
  obtain ⟨-, hfresh, hup, hdown, hslot, rfl, rfl⟩ := accept_eq_ok haccept
  have hkey : l.grants.lookup (ReservationGrant.id ⟨r, now,
    min (now + l.limits.tunnelSetupTimeoutSeconds) r.expiresAt, .pendingTunnel⟩) = none := hfresh
  refine ⟨h.limits, ?_, ?_, ⟨hup, hdown⟩, ?_⟩
  · rw [Table.sum_put hkey, ← h.up_eq]
  · rw [Table.sum_put hkey, ← h.down_eq]
  · rw [allocationCount, Table.rows_put hkey, List.length_append]
    exact hslot

/-! ## One call -/

/-- Marking a grant active changes neither totals nor numbers. -/
theorem Sound.activate (h : l.Sound) (id : ReservationId) :
    Sound { l with grants :=
      l.grants.modify id (fun grant => { grant with state := .active }) fun _ => rfl } := by
  have hsum : ∀ g : AuthorizedReservation → ℕ,
      (l.grants.modify id (fun grant => { grant with state := .active }) fun _ => rfl).sum
        (fun grant => g grant.reservation) = l.grants.sum fun grant => g grant.reservation :=
    fun g => Table.sum_modify_of_eq id _ _ _ fun _ => rfl
  refine ⟨h.limits, ?_, ?_, h.reserved_le, ?_⟩
  · exact h.up_eq.trans (hsum fun r => r.bandwidth.upMbps).symm
  · exact h.down_eq.trans (hsum fun r => r.bandwidth.downMbps).symm
  · have := h.sessions_le
    simpa [allocationCount] using this

/-- What a call says about the ledger before and after it: no failure reports an overflow or a
broken ledger, a refused reservation leaves what the purge leaves, and the free capacity is what the
limits leave over the grants. -/
def Faithful (e : Machine.Event CapacityLedger LedgerCall LedgerOutcome) : Prop :=
  match e.input, e.output with
  | .reserve _ now, .reserved (.error error) =>
    ¬Corrupt error ∧ e.after = (e.before.purgeExpired now).2
  | _, .marked (.error error) | _, .released (.error error) => ¬Corrupt error
  | .available _, .available capacity => ∃ free, capacity = some free ∧
    free.bandwidth.upMbps + e.after.reserved.upMbps = e.before.limits.bandwidth.upMbps ∧
    free.bandwidth.downMbps + e.after.reserved.downMbps = e.before.limits.bandwidth.downMbps ∧
    free.freeSlots + e.after.allocationCount = e.before.limits.maximumSessions.toNat
  | _, _ => True

/-- The invariant and the limits are kept by a call, which is faithful. -/
structure Keeps (l : CapacityLedger) (i : LedgerCall) (result : LedgerOutcome × CapacityLedger) :
    Prop where
  sound : result.2.Sound
  limits : result.2.limits = l.limits
  faithful : Faithful ⟨l, i, result.1, result.2⟩

/-- The free capacity is what the limits leave. -/
theorem keeps_available (h : l.Sound) (now : ℕ) :
    Keeps l (.available now) (l.call (.available now)) := by
  obtain ⟨hsound, hlimits, -⟩ := purgeExpired_spec h now
  have hle := hsound.reserved_le
  have hsessions := hsound.sessions_le
  have hlt := hsound.allocationCount_lt
  refine ⟨hsound, hlimits, ?_⟩
  simp only [Faithful, call, available, Bandwidth.checkedSub, if_pos hle, ← hlimits]
  refine ⟨_, rfl, Nat.sub_add_cancel hle.1, Nat.sub_add_cancel hle.2, ?_⟩
  unfold allocationCount at hsessions ⊢
  dsimp only
  omega

/-- **One call keeps the invariant.** -/
theorem keeps_call (h : l.Sound) (i : LedgerCall) : Keeps l i (l.call i) := by
  cases i with
  | reserve r now =>
    obtain ⟨hsound, hlimits, -⟩ := purgeExpired_spec h now
    rw [call, reserve]
    cases haccept : (l.purgeExpired now).2.accept r now with
    | error e => exact ⟨hsound, hlimits, accept_failsOnly hsound r now e haccept, rfl⟩
    | ok result =>
      have hsound' := hsound.accept haccept
      obtain ⟨-, -, -, -, -, -, hl'⟩ := accept_eq_ok haccept
      exact ⟨hsound', by rw [hl', ← hlimits], trivial⟩
  | markTunnelEstablished id now =>
    obtain ⟨hsound, hlimits, -⟩ := purgeExpired_spec h now
    rw [call, markTunnelEstablished]
    dsimp only
    split
    · exact ⟨hsound, hlimits, not_false⟩
    · split
      · exact ⟨hsound, hlimits, not_false⟩
      · exact ⟨hsound.activate id, hlimits, trivial⟩
  | release id =>
    rw [call, release]
    cases hgrant : l.grants.lookup id with
    | none => exact ⟨h, rfl, not_false⟩
    | some grant =>
      obtain ⟨reserved, hsub, hsound⟩ := h.checkedSub hgrant
      dsimp only
      rw [hsub]
      exact ⟨hsound, rfl, trivial⟩
  | purgeExpired now =>
    obtain ⟨hsound, hlimits, -⟩ := purgeExpired_spec h now
    exact ⟨hsound, hlimits, trivial⟩
  | available now => exact keeps_available h now

/-! ## Every run -/

theorem new_eq_ok :
    new limits = .ok l ↔ limits.validate = .ok () ∧ ⟨limits, .zero, .empty⟩ = l := by
  simp only [new, ok_iff]
  exact ⟨fun ⟨(), h⟩ => h, fun h => ⟨(), h⟩⟩

theorem new_sound (h : new limits = .ok l) : l.Sound := by
  obtain ⟨hlimits, rfl⟩ := new_eq_ok.mp h
  exact ⟨hlimits, rfl, rfl, ⟨Nat.zero_le _, Nat.zero_le _⟩, Nat.zero_le _⟩

/-- **The capacity ledger is sound.** For all limits that a ledger can be made with and every
sequence of calls with arbitrary reservations and times, the reserved bandwidth is in both
directions the sum over the grants and within the limits, the grants are within the session limit,
and every call is faithful to that: available capacity never underflows, no overflow and no broken
ledger is ever reported, and a reservation that fails leaves exactly what the purge at its time
leaves. -/
theorem ledger_sound {limits : LedgerLimits} (hnew : new limits = .ok l) (calls : List LedgerCall) :
    (machine.run l calls).Sound ∧ (machine.run l calls).limits = limits ∧
      ∀ e ∈ machine.events l calls, Faithful e := by
  have hl := new_sound hnew
  have hrun := Machine.run_invariant (m := machine) (P := fun l => l.Sound ∧ l.limits = limits)
    (fun _ i h => ⟨(keeps_call h.1 i).sound, (keeps_call h.1 i).limits.trans h.2⟩)
    ⟨hl, by obtain ⟨-, rfl⟩ := new_eq_ok.mp hnew; rfl⟩ calls
  refine ⟨hrun.1, hrun.2, fun e he => ?_⟩
  obtain ⟨hbefore, hevent⟩ := Machine.events_invariant (m := machine) (P := Sound)
    (fun _ i h => (keeps_call h i).sound) hl calls e he
  rw [hevent]
  exact (keeps_call hbefore e.input).faithful

/-- An exit with 100 Mbit/s in both directions and two sessions. -/
def sampleLimits : LedgerLimits := ⟨sampleId 1, .exit, ⟨100, 100⟩, 2, 600, 30⟩

def sampleReservation (n : Fin 10) (mbps : ℕ) : AuthorizedReservation :=
  ⟨sampleId n, sampleId 2, sampleId 1, sampleId 3, .exit, [.tcpMptcp], ⟨mbps, mbps⟩, 2, 1000, 1500⟩

/-- The second reservation does not fit, and is accepted once the first has missed its setup
deadline, in spite of a clock that goes back. -/
theorem ledger_sound_sample :
    new sampleLimits = .ok ⟨sampleLimits, .zero, .empty⟩ ∧
      (machine.run ⟨sampleLimits, .zero, .empty⟩
        [.reserve (sampleReservation 4 60) 1000, .reserve (sampleReservation 5 50) 1010,
          .reserve (sampleReservation 5 50) 1030, .available 1000]).reserved = ⟨50, 50⟩ ∧
      (machine.run ⟨sampleLimits, .zero, .empty⟩
        [.reserve (sampleReservation 4 60) 1000, .reserve (sampleReservation 5 50) 1010,
          .reserve (sampleReservation 5 50) 1030, .available 1000]).Sound :=
  ⟨rfl, by decide +kernel, (ledger_sound (l := ⟨sampleLimits, .zero, .empty⟩)
    (rfl : new sampleLimits = _) _).1⟩

end CapacityLedger

end Volparossa.Reservation
