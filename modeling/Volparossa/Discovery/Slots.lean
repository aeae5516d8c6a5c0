import Volparossa.Discovery.Preselection

/-!
# Slots and tokens

Any number of discovery services, and the callers that hold their tokens: a caller may present any
token that it holds, with any response that was sealed, to any service, and keeps what it is given
back. `System.slots_free_again` says when this works out: a slot is occupied exactly while one token
for its request is held, if a client dispatch is presented to the service that made it and an
upstream token to that service, with its own response. `present_cases` is what one presentation can
do: it frees the slot of the token, it gives the token back, or it loses the token.
-/

namespace Volparossa.Discovery

open Transaction (Crypto)

/-- The two slots of a service. -/
inductive Direction where
  | client
  | upstream
  deriving DecidableEq

/-- A token that a caller holds. -/
inductive Token (Context : Type) where
  | clientDispatch (dispatch : ClientPreselectionDispatch)
  | clientTransaction (transaction : ClientPreselectionTransaction Context)
  | upstreamDispatch (dispatch : UpstreamPreselectionDispatch)
  | upstreamTransaction (transaction : UpstreamPreselectionTransaction Context)

/-- What a caller presents a token for. -/
inductive Purpose where
  | bind (arrival : PreselectionResponseArrival)
  | cancel
  | outboundFailure (eventPeer : PeerId) (eventRequest : ℕ)

variable {Context : Type}

namespace Token

def dispatch : Token Context → PreselectionDispatch
  | .clientDispatch dispatch | .upstreamDispatch dispatch => dispatch
  | .clientTransaction transaction => transaction.dispatch
  | .upstreamTransaction transaction => transaction.dispatch

def direction : Token Context → Direction
  | .clientDispatch _ | .clientTransaction _ => .client
  | .upstreamDispatch _ | .upstreamTransaction _ => .upstream

/-- The token is one for a slot. -/
def isFor (direction : Direction) (ownInstance : ℕ) (token : Token Context) : Bool :=
  token.direction = direction && token.dispatch.ownerInstance = ownInstance

end Token

namespace DiscoveryService

def active (s : DiscoveryService) : Direction → Option ℕ
  | .client => s.clientActive
  | .upstream => s.upstreamActive

/-- The service with a slot that is free. -/
def release (s : DiscoveryService) : Direction → DiscoveryService
  | .client => { s with clientActive := none }
  | .upstream => { s with upstreamActive := none }

/-- Present a token: what is left of it, and the service afterwards. -/
def present (s : DiscoveryService) :
    Token Context → Purpose → Option (Token Context) × DiscoveryService
  | .clientDispatch dispatch, .bind arrival =>
    (none, (s.bindPreselectionObservationResponse dispatch arrival).2)
  | .clientDispatch dispatch, .cancel =>
    (none, (s.cancelPreselectionObservationDispatch dispatch).2)
  | .clientTransaction transaction, .bind arrival =>
    match s.bindPreselectionObservationResponseWithContext transaction arrival with
    | (.error (.retained transaction _), s') => (some (.clientTransaction transaction), s')
    | (_, s') => (none, s')
  | .clientTransaction transaction, .cancel =>
    match s.cancelPreselectionObservationTransaction transaction with
    | (.error failure, s') => (some (.clientTransaction failure.transaction), s')
    | (.ok _, s') => (none, s')
  | .clientTransaction transaction, .outboundFailure eventPeer eventRequest =>
    match s.consumePreselectionObservationOutboundFailureWithContext transaction eventPeer
      eventRequest with
    | (.error failure, s') => (some (.clientTransaction failure.transaction), s')
    | (.ok _, s') => (none, s')
  | .upstreamDispatch dispatch, .bind arrival =>
    (none, (s.bindPreselectionObservationUpstreamResponse dispatch arrival).2)
  | .upstreamDispatch dispatch, .cancel =>
    (none, (s.cancelPreselectionObservationUpstreamDispatch dispatch).2)
  | .upstreamTransaction transaction, .bind arrival =>
    (none, (s.bindPreselectionObservationUpstreamResponseWithContext transaction arrival).2)
  | .upstreamTransaction transaction, .cancel =>
    (none, (s.cancelPreselectionObservationUpstreamTransaction transaction).2)
  -- only a client transaction can be presented for a failure
  | token, .outboundFailure _ _ => (some token, s)

/-- The token is the one of the request that occupies its slot of the service. -/
def Active (s : DiscoveryService) (token : Token Context) : Prop :=
  s.ownInstance = token.dispatch.ownerInstance ∧
    s.active token.direction = some token.dispatch.requestId

end DiscoveryService

/-- A response that is presented is the one to the request of the dispatch, sealed by the
service. -/
def Purpose.Answers (ownInstance : ℕ) (dispatch : PreselectionDispatch) : Purpose → Prop
  | .bind arrival => arrival.ownerInstance = ownInstance ∧
      arrival.peer = dispatch.expectedPeerId ∧ arrival.requestId = dispatch.requestId
  | .cancel | .outboundFailure .. => True

/-- A caller presents a token as its documentation demands: to the service that made it, and
upstream with the response to its own request; a client transaction may be presented anywhere. -/
def Token.Due (ownInstance : ℕ) (purpose : Purpose) : Token Context → Prop
  | .clientTransaction _ => True
  | .clientDispatch dispatch => dispatch.ownerInstance = ownInstance
  | .upstreamDispatch dispatch =>
    dispatch.ownerInstance = ownInstance ∧ purpose.Answers ownInstance dispatch
  | .upstreamTransaction transaction =>
    transaction.dispatch.ownerInstance = ownInstance ∧
      purpose.Answers ownInstance transaction.dispatch

instance (ownInstance : ℕ) (dispatch : PreselectionDispatch) (purpose : Purpose) :
    Decidable (purpose.Answers ownInstance dispatch) :=
  match purpose with
  | .bind arrival => inferInstanceAs (Decidable (arrival.ownerInstance = ownInstance ∧
      arrival.peer = dispatch.expectedPeerId ∧ arrival.requestId = dispatch.requestId))
  | .cancel | .outboundFailure .. => .isTrue trivial

instance (ownInstance : ℕ) (purpose : Purpose) (token : Token Context) :
    Decidable (token.Due ownInstance purpose) :=
  match token with
  | .clientTransaction _ => .isTrue trivial
  | .clientDispatch dispatch => inferInstanceAs (Decidable (dispatch.ownerInstance = ownInstance))
  | .upstreamDispatch dispatch => inferInstanceAs (Decidable
      (dispatch.ownerInstance = ownInstance ∧ purpose.Answers ownInstance dispatch))
  | .upstreamTransaction transaction => inferInstanceAs (Decidable
      (transaction.dispatch.ownerInstance = ownInstance ∧
        purpose.Answers ownInstance transaction.dispatch))

namespace DiscoveryService

variable {s : DiscoveryService} {token : Token Context} {purpose : Purpose}

variable {dispatch : PreselectionDispatch}

theorem isActive_iff :
    s.clientPreselectionDispatchIsActive dispatch = true ↔
      s.ownInstance = dispatch.ownerInstance ∧ s.clientActive = some dispatch.requestId := by
  simp [clientPreselectionDispatchIsActive]

theorem bind_client_of_active
    (h : s.ownInstance = dispatch.ownerInstance ∧ s.clientActive = some dispatch.requestId)
    (arrival : PreselectionResponseArrival) :
    (s.bindPreselectionObservationResponse dispatch arrival).2 = s.release .client := by
  rw [bindPreselectionObservationResponse, if_neg (by simp [isActive_iff.mpr h])]
  rfl

theorem bind_upstream_of_active {arrival : PreselectionResponseArrival}
    (h : s.ownInstance = dispatch.ownerInstance ∧ s.upstreamActive = some dispatch.requestId)
    (hinstance : arrival.ownerInstance = s.ownInstance)
    (hpeer : arrival.peer = dispatch.expectedPeerId)
    (hrequest : arrival.requestId = dispatch.requestId) :
    (s.bindPreselectionObservationUpstreamResponse dispatch arrival).2 = s.release .upstream := by
  rw [bindPreselectionObservationUpstreamResponse, if_neg (by simp [hinstance, ← h.1]),
    bindPreselectionObservationUpstreamResponseAt, if_neg (by simp [h.1, h.2]),
    if_neg (by simp [hpeer, hrequest])]
  dsimp only
  split <;> rename_i heq <;> simp only [Prod.mk.injEq] at heq <;> exact heq.2.symm

theorem cancel_client_of_active
    (h : s.ownInstance = dispatch.ownerInstance ∧ s.clientActive = some dispatch.requestId) :
    (s.cancelPreselectionObservationDispatch dispatch).2 = s.release .client := by
  rw [cancelPreselectionObservationDispatch, if_neg (by simp [h.1, h.2])]
  rfl

theorem cancel_upstream_of_active
    (h : s.ownInstance = dispatch.ownerInstance ∧ s.upstreamActive = some dispatch.requestId) :
    (s.cancelPreselectionObservationUpstreamDispatch dispatch).2 = s.release .upstream := by
  rw [cancelPreselectionObservationUpstreamDispatch, if_neg (by simp [h.1, h.2])]
  rfl

theorem bind_upstreamTransaction (s : DiscoveryService)
    (transaction : UpstreamPreselectionTransaction Context)
    (arrival : PreselectionResponseArrival) :
    (s.bindPreselectionObservationUpstreamResponseWithContext transaction arrival).2 =
      (s.bindPreselectionObservationUpstreamResponse transaction.dispatch arrival).2 := by
  unfold bindPreselectionObservationUpstreamResponseWithContext
  split <;> rename_i heq <;> rw [heq]

theorem cancel_upstreamTransaction (s : DiscoveryService)
    (transaction : UpstreamPreselectionTransaction Context) :
    (s.cancelPreselectionObservationUpstreamTransaction transaction).2 =
      (s.cancelPreselectionObservationUpstreamDispatch transaction.dispatch).2 := by
  unfold cancelPreselectionObservationUpstreamTransaction
  split <;> rename_i heq <;> rw [heq]

/-- A client transaction that is not active is given back. -/
theorem present_clientTransaction_of_not_active
    {transaction : ClientPreselectionTransaction Context}
    (h : s.clientPreselectionDispatchIsActive transaction.dispatch = false) (purpose : Purpose) :
    s.present (.clientTransaction transaction) purpose =
      (some (.clientTransaction transaction), s) := by
  cases purpose with
  | bind => rw [present, bindPreselectionObservationResponseWithContext, if_pos h]
  | cancel => rw [present, cancelPreselectionObservationTransaction, if_pos h]
  | outboundFailure =>
    rw [present, consumePreselectionObservationOutboundFailureWithContext, if_pos (.inl h)]

/-- An active client transaction frees its slot, unless the failure is one of another request. -/
theorem present_clientTransaction_of_active {transaction : ClientPreselectionTransaction Context}
    (h : s.clientPreselectionDispatchIsActive transaction.dispatch = true) (purpose : Purpose) :
    s.present (.clientTransaction transaction) purpose = (none, s.release .client) ∨
      s.present (.clientTransaction transaction) purpose =
        (some (.clientTransaction transaction), s) := by
  cases purpose with
  | bind arrival =>
    left
    have hbind := bind_client_of_active (isActive_iff.mp h) arrival
    rw [present, bindPreselectionObservationResponseWithContext, if_neg (by simp [h])]
    split
    · rename_i heq
      split at heq <;> simp at heq
    · rename_i heq
      split at heq <;> rename_i heq' <;> rw [heq'] at hbind <;>
        simp only [Prod.mk.injEq] at heq <;> exact Prod.ext rfl (heq.2.symm.trans hbind)
  | cancel =>
    left
    rw [present, cancelPreselectionObservationTransaction, if_neg (by simp [h])]
    rfl
  | outboundFailure eventPeer eventRequest =>
    rw [present, consumePreselectionObservationOutboundFailureWithContext]
    by_cases hevent : transaction.dispatch.expectedPeerId ≠ eventPeer ∨
        transaction.dispatch.requestId ≠ eventRequest
    · rw [if_pos (.inr hevent)]
      exact .inr rfl
    · rw [if_neg (by simp [h, hevent])]
      exact .inl rfl

/-- **What a presentation does**: a token that is due, and active if it is one of the service, frees
its slot or is given back. -/
theorem present_cases (h : token.Due s.ownInstance purpose)
    (hactive : token.dispatch.ownerInstance = s.ownInstance → s.Active token) :
    (s.Active token ∧ s.present token purpose = (none, s.release token.direction)) ∨
      s.present token purpose = (some token, s) := by
  cases token with
  | clientDispatch dispatch =>
    have hslot := hactive h
    cases purpose with
    | bind => exact .inl ⟨hslot, Prod.ext rfl (bind_client_of_active hslot _)⟩
    | cancel => exact .inl ⟨hslot, Prod.ext rfl (cancel_client_of_active hslot)⟩
    | outboundFailure => exact .inr rfl
  | clientTransaction transaction =>
    cases his : s.clientPreselectionDispatchIsActive transaction.dispatch with
    | true =>
      exact (present_clientTransaction_of_active his purpose).imp_left (⟨isActive_iff.mp his, ·⟩)
    | false => exact .inr (present_clientTransaction_of_not_active his purpose)
  | upstreamDispatch dispatch =>
    cases purpose with
    | bind =>
      have hslot := hactive h.1
      exact .inl ⟨hslot, Prod.ext rfl (bind_upstream_of_active hslot h.2.1 h.2.2.1 h.2.2.2)⟩
    | cancel => exact .inl ⟨hactive h.1, Prod.ext rfl (cancel_upstream_of_active (hactive h.1))⟩
    | outboundFailure => exact .inr rfl
  | upstreamTransaction transaction =>
    cases purpose with
    | bind =>
      have hslot := hactive h.1
      exact .inl ⟨hslot, Prod.ext rfl ((bind_upstreamTransaction s _ _).trans
        (bind_upstream_of_active hslot h.2.1 h.2.2.1 h.2.2.2))⟩
    | cancel =>
      exact .inl ⟨hactive h.1, Prod.ext rfl ((cancel_upstreamTransaction s _).trans
        (cancel_upstream_of_active (hactive h.1)))⟩
    | outboundFailure => exact .inr rfl

/-- An active token can be cancelled. -/
theorem present_cancel (h : s.Active token) :
    s.present token .cancel = (none, s.release token.direction) := by
  cases token with
  | clientDispatch => exact Prod.ext rfl (cancel_client_of_active h)
  | clientTransaction =>
    rw [present, cancelPreselectionObservationTransaction,
      if_neg (Bool.not_eq_false _ ▸ isActive_iff.mpr h)]
    rfl
  | upstreamDispatch => exact Prod.ext rfl (cancel_upstream_of_active h)
  | upstreamTransaction =>
    exact Prod.ext rfl ((cancel_upstreamTransaction s _).trans (cancel_upstream_of_active h))

@[simp] theorem ownInstance_release (direction : Direction) :
    (s.release direction).ownInstance = s.ownInstance := by
  cases direction <;> rfl

theorem active_release (direction direction' : Direction) :
    (s.release direction).active direction' =
      if direction' = direction then none else s.active direction' := by
  cases direction <;> cases direction' <;> rfl

end DiscoveryService

/-! ## The system -/

/-- The services, the tokens that callers hold, and the responses that were sealed. -/
structure System (Context : Type) where
  services : List DiscoveryService
  tokens : List (Token Context)
  arrivals : Direction → List PreselectionResponseArrival

/-- What a caller wants with a token; a response is named by its place. -/
inductive Use where
  | bind (arrival : ℕ)
  | cancel
  | outboundFailure (eventPeer : PeerId) (eventRequest : ℕ)

/-- What can happen: a service starts, its swarm reports a connection, a caller dispatches a request
with or without a context, the service seals a response, a caller presents a token. -/
inductive Operation (Context : Type) where
  | start (localPeerId : PeerId) (protocolRoles : DiscoveryProtocolRoles)
  | swarm (service : ℕ) (event : Event)
  | dispatch (service : ℕ) (direction : Direction) (request : Bytes) (absoluteDeadline : Instant)
    (clocks : Clocks) (requestId : ℕ) (context : Option Context)
  | sealResponse (service : ℕ) (direction : Direction) (peer : PeerId) (connectionId : ConnectionId)
    (requestId : ℕ) (response : Bytes) (clocks : Clocks)
  | present (service : ℕ) (token : ℕ) (use : Use)

/-- The service that an operation is one of. -/
def Operation.service : Operation Context → Option ℕ
  | .start .. => none
  | .swarm service _ | .dispatch service .. | .sealResponse service .. | .present service .. =>
    some service

namespace DiscoveryService

variable (crypto : Crypto) (fromBytes : Bytes → Option PeerId)

/-- Dispatch a request in a direction: the token, and the service afterwards. -/
def dispatchToken (s : DiscoveryService) (direction : Direction) (request : Bytes)
    (absoluteDeadline : Instant) (clocks : Clocks) (requestId : ℕ) (context : Option Context) :
    Option (Token Context) × DiscoveryService :=
  match direction, context with
  | .client, none =>
    let (result, s') := s.dispatchPreselectionObservation crypto fromBytes request absoluteDeadline
      clocks requestId
    (result.toOption.map .clientDispatch, s')
  | .client, some context =>
    let (result, s') := s.dispatchPreselectionObservationWithContext crypto fromBytes request
      absoluteDeadline clocks requestId context
    (result.toOption.map .clientTransaction, s')
  | .upstream, none =>
    let (result, s') := s.dispatchPreselectionObservationUpstream crypto fromBytes request
      absoluteDeadline clocks requestId
    (result.toOption.map .upstreamDispatch, s')
  | .upstream, some context =>
    let (result, s') :=
      s.dispatchPreselectionObservationUpstreamWithContext crypto fromBytes request
      absoluteDeadline clocks requestId context
    (result.toOption.map .upstreamTransaction, s')

def sealIn (s : DiscoveryService) (direction : Direction) (peer : PeerId)
    (connectionId : ConnectionId) (requestId : ℕ) (response : Bytes) (clocks : Clocks) :
    Option PreselectionResponseArrival :=
  match direction with
  | .client =>
    (s.sealClientPreselectionResponse peer connectionId requestId response clocks).toOption
  | .upstream =>
    (s.sealUpstreamPreselectionResponse peer connectionId requestId response clocks).toOption

end DiscoveryService

namespace System

variable (crypto : Crypto) (fromBytes : Bytes → Option PeerId)

def empty : System Context := ⟨[], [], fun _ => []⟩

/-- The purpose of a use: a token is bound only to a response of its own direction. -/
def purpose (sys : System Context) (token : Token Context) : Use → Option Purpose
  | .bind arrival => (sys.arrivals token.direction)[arrival]?.map .bind
  | .cancel => some .cancel
  | .outboundFailure eventPeer eventRequest => some (.outboundFailure eventPeer eventRequest)

/-- One operation; one that names no service, no token or no response does nothing. -/
def next (sys : System Context) : Operation Context → System Context
  | .start localPeerId protocolRoles =>
    let ownInstance := sys.services.length
    { sys with services := sys.services ++
        [⟨ownInstance, none, none, protocolRoles, localPeerId, .new ownInstance⟩] }
  | .swarm service event =>
    match sys.services[service]? with
    | none => sys
    | some s =>
      let connectionProvenance := s.connectionProvenance.onSwarmEvent event
      { sys with services := sys.services.set service { s with connectionProvenance } }
  | .dispatch service direction request absoluteDeadline clocks requestId context =>
    match sys.services[service]? with
    | none => sys
    | some s =>
      let (token, s') := s.dispatchToken crypto fromBytes direction request absoluteDeadline clocks
        requestId context
      { sys with services := sys.services.set service s', tokens := sys.tokens ++ token.toList }
  | .sealResponse service direction peer connectionId requestId response clocks =>
    match sys.services[service]? with
    | none => sys
    | some s =>
      { sys with arrivals := Function.update sys.arrivals direction (sys.arrivals direction ++
          (s.sealIn direction peer connectionId requestId response clocks).toList) }
  | .present service token use =>
    match sys.services[service]?, sys.tokens[token]? with
    | some s, some held =>
      match sys.purpose held use with
      | none => sys
      | some purpose =>
        let (kept, s') := s.present held purpose
        { sys with services := sys.services.set service s',
                   tokens := sys.tokens.eraseIdx token ++ kept.toList }
    | _, _ => sys

/-- The operation presents a token only if it is due. -/
def Careful (sys : System Context) : Operation Context → Prop
  | .present service token use =>
    ∀ held ∈ sys.tokens[token]?, ∀ purpose ∈ sys.purpose held use, held.Due service purpose
  | .start .. | .swarm .. | .dispatch .. | .sealResponse .. => True

instance (sys : System Context) (operation : Operation Context) :
    Decidable (sys.Careful operation) :=
  match operation with
  | .present service token use => inferInstanceAs (Decidable (∀ held ∈ sys.tokens[token]?,
      ∀ purpose ∈ sys.purpose held use, held.Due service purpose))
  | .start .. | .swarm .. | .dispatch .. | .sealResponse .. => .isTrue trivial

/-- The system takes one operation after another. -/
def machine : Machine (System Context) (Operation Context) Unit :=
  ⟨fun sys operation => ((), sys.next crypto fromBytes operation)⟩

/-- The requests of the tokens for a slot. -/
def requestsOf (tokens : List (Token Context)) (direction : Direction) (service : ℕ) : List ℕ :=
  (tokens.filter fun token => token.isFor direction service).map fun token =>
    token.dispatch.requestId

/-- The requests of the tokens that are held for a slot. -/
def requests (sys : System Context) (direction : Direction) (service : ℕ) : List ℕ :=
  requestsOf sys.tokens direction service

/-- Every slot is occupied by exactly the requests of the tokens that are held for it: one token, or
none. -/
structure Settled (sys : System Context) : Prop where
  instances : ∀ service (s : DiscoveryService),
    sys.services[service]? = some s → s.ownInstance = service
  owners : ∀ token ∈ sys.tokens, token.dispatch.ownerInstance < sys.services.length
  slots : ∀ service (s : DiscoveryService) direction, sys.services[service]? = some s →
    sys.requests direction service = (s.active direction).toList

end System

/-! ## What an operation does -/

namespace DiscoveryService

variable {crypto : Crypto} {fromBytes : Bytes → Option PeerId} {s : DiscoveryService}

/-- The service with a slot that a request occupies. -/
def occupy (s : DiscoveryService) (requestId : ℕ) : Direction → DiscoveryService
  | .client => { s with clientActive := some requestId }
  | .upstream => { s with upstreamActive := some requestId }

@[simp] theorem ownInstance_occupy (requestId : ℕ) (direction : Direction) :
    (s.occupy requestId direction).ownInstance = s.ownInstance := by
  cases direction <;> rfl

theorem active_occupy (requestId : ℕ) (direction direction' : Direction) :
    (s.occupy requestId direction).active direction' =
      if direction' = direction then some requestId else s.active direction' := by
  cases direction <;> cases direction' <;> rfl

/-- **What a dispatch does**: it takes the free slot and makes one token for it, or it does
nothing. -/
theorem dispatchToken_cases (crypto : Crypto) (fromBytes : Bytes → Option PeerId)
    (s : DiscoveryService) (direction : Direction) (request : Bytes) (absoluteDeadline : Instant)
    (clocks : Clocks) (requestId : ℕ) (context : Option Context) :
    (∃ token : Token Context,
      s.dispatchToken crypto fromBytes direction request absoluteDeadline clocks requestId context =
        (some token, s.occupy requestId direction) ∧ s.active direction = none ∧
      token.direction = direction ∧ token.dispatch.ownerInstance = s.ownInstance ∧
      token.dispatch.requestId = requestId) ∨
    s.dispatchToken crypto fromBytes direction request absoluteDeadline clocks requestId context =
      (none, s) := by
  cases direction with
  | client =>
    cases hprepare : s.prepareClient crypto fromBytes request absoluteDeadline clocks requestId with
    | error e =>
      right
      cases context <;> simp [dispatchToken, dispatchPreselectionObservationWithContext,
        dispatchPreselectionObservation, hprepare, Except.toOption]
    | ok dispatch =>
      left
      obtain ⟨hfree, howner, hrequest⟩ : s.clientActive = none ∧
          dispatch.ownerInstance = s.ownInstance ∧ dispatch.requestId = requestId := by
        simp only [prepareClient, ok_iff] at hprepare
        obtain ⟨_, hfree, _, _, _, _, _, _, _, _, _, _, rfl⟩ := hprepare
        exact ⟨by simpa using hfree, rfl, rfl⟩
      cases context with
      | none =>
        refine ⟨.clientDispatch dispatch, ?_, hfree, rfl, howner, hrequest⟩
        simp [dispatchToken, dispatchPreselectionObservation, hprepare, Except.toOption, occupy]
      | some context =>
        refine ⟨.clientTransaction ⟨dispatch, context⟩, ?_, hfree, rfl, howner, hrequest⟩
        simp [dispatchToken, dispatchPreselectionObservationWithContext,
          dispatchPreselectionObservation, hprepare, Except.toOption, occupy]
  | upstream =>
    cases hprepare : s.prepareUpstream crypto fromBytes request absoluteDeadline clocks
      requestId with
    | error e =>
      right
      cases context <;> simp [dispatchToken, dispatchPreselectionObservationUpstreamWithContext,
        dispatchPreselectionObservationUpstream, hprepare, Except.toOption]
    | ok dispatch =>
      left
      obtain ⟨hfree, howner, hrequest⟩ : s.upstreamActive = none ∧
          dispatch.ownerInstance = s.ownInstance ∧ dispatch.requestId = requestId := by
        simp only [prepareUpstream, ok_iff] at hprepare
        obtain ⟨_, hfree, _, _, _, _, _, _, _, _, rfl⟩ := hprepare
        exact ⟨by simpa using hfree, rfl, rfl⟩
      cases context with
      | none =>
        refine ⟨.upstreamDispatch dispatch, ?_, hfree, rfl, howner, hrequest⟩
        simp [dispatchToken, dispatchPreselectionObservationUpstream, hprepare, Except.toOption,
          occupy]
      | some context =>
        refine ⟨.upstreamTransaction ⟨dispatch, context⟩, ?_, hfree, rfl, howner, hrequest⟩
        simp [dispatchToken, dispatchPreselectionObservationUpstreamWithContext,
          dispatchPreselectionObservationUpstream, hprepare, Except.toOption, occupy]

end DiscoveryService

namespace System

variable {crypto : Crypto} {fromBytes : Bytes → Option PeerId} {sys : System Context}

theorem requestsOf_append (tokens : List (Token Context)) (token : Token Context)
    (direction : Direction) (service : ℕ) :
    requestsOf (tokens ++ [token]) direction service = requestsOf tokens direction service ++
      if token.isFor direction service then [token.dispatch.requestId] else [] := by
  cases h : token.isFor direction service <;> simp [requestsOf, h]

theorem perm_requestsOf_eraseIdx {tokens : List (Token Context)} {i : ℕ} {token : Token Context}
    (h : tokens[i]? = some token) (direction : Direction) (service : ℕ) :
    ((if token.isFor direction service then [token.dispatch.requestId] else []) ++
      requestsOf (tokens.eraseIdx i) direction service).Perm
        (requestsOf tokens direction service) := by
  obtain ⟨hi, rfl⟩ := List.getElem?_eq_some_iff.mp h
  have hperm := ((List.getElem_cons_eraseIdx_perm hi).filter fun token =>
    token.isFor direction service).map fun token => token.dispatch.requestId
  cases hfor : tokens[i].isFor direction service <;> simpa [requestsOf, hfor] using hperm

theorem eq_of_perm_toList {l : List ℕ} {o : Option ℕ} (h : l.Perm o.toList) : l = o.toList := by
  cases o with
  | none => exact List.perm_nil.mp h
  | some r => exact List.perm_singleton.mp h

namespace Settled

variable {service : ℕ}

/-- A service and the tokens change together; the order of the tokens does not matter. -/
theorem set {s s' : DiscoveryService} {tokens : List (Token Context)}
    {arrivals : Direction → List PreselectionResponseArrival} (h : Settled sys)
    (hs : sys.services[service]? = some s) (hown : s'.ownInstance = s.ownInstance)
    (howners : ∀ token ∈ tokens, token.dispatch.ownerInstance < sys.services.length)
    (hslots : ∀ direction, (requestsOf tokens direction service).Perm (s'.active direction).toList)
    (hothers : ∀ direction other, other ≠ service →
      (requestsOf tokens direction other).Perm (sys.requests direction other)) :
    Settled ⟨sys.services.set service s', tokens, arrivals⟩ := by
  have hlookup : ∀ other (t : DiscoveryService), (sys.services.set service s')[other]? = some t →
      other = service ∧ t = s' ∨ other ≠ service ∧ sys.services[other]? = some t := by
    intro other t ht
    rw [List.getElem?_set] at ht
    split at ht
    · rename_i heq
      split at ht
      · exact .inl ⟨heq.symm, (Option.some.inj ht).symm⟩
      · cases ht
    · rename_i hne
      exact .inr ⟨Ne.symm hne, ht⟩
  refine ⟨fun other t ht => ?_, by simpa using howners, fun other t direction ht => ?_⟩
  · rcases hlookup other t ht with ⟨rfl, rfl⟩ | ⟨_, ht⟩
    · exact hown.trans (h.instances _ _ hs)
    · exact h.instances other t ht
  · rcases hlookup other t ht with ⟨rfl, rfl⟩ | ⟨hne, ht⟩
    · exact eq_of_perm_toList (hslots direction)
    · exact eq_of_perm_toList (h.slots other t direction ht ▸ hothers direction other hne)

/-- A token of a service is the one of the request that occupies its slot. -/
theorem active {s : DiscoveryService} {token : Token Context} (h : Settled sys)
    (hs : sys.services[service]? = some s) (htoken : token ∈ sys.tokens)
    (howner : token.dispatch.ownerInstance = s.ownInstance) : s.Active token := by
  refine ⟨howner.symm, ?_⟩
  have hmem : token.dispatch.requestId ∈ sys.requests token.direction service :=
    List.mem_map_of_mem (List.mem_filter.mpr ⟨htoken, by
      simp [Token.isFor, howner, h.instances _ _ hs]⟩)
  rw [h.slots _ _ _ hs] at hmem
  simpa using hmem

theorem start (h : Settled sys) (localPeerId : PeerId) (protocolRoles : DiscoveryProtocolRoles) :
    Settled (sys.next crypto fromBytes (.start localPeerId protocolRoles)) := by
  have hlookup : ∀ service (s : DiscoveryService),
      (sys.next crypto fromBytes (.start localPeerId protocolRoles)).services[service]? = some s →
      sys.services[service]? = some s ∨ service = sys.services.length ∧
        s = ⟨sys.services.length, none, none, protocolRoles, localPeerId,
          .new sys.services.length⟩ := by
    intro service s hs
    rw [next, List.getElem?_append] at hs
    split at hs
    · exact .inl hs
    · rename_i hge
      obtain ⟨hlt, rfl⟩ := List.getElem?_eq_some_iff.mp hs
      simp only [List.length_singleton] at hlt
      exact .inr ⟨by omega, by simp⟩
  refine ⟨fun service s hs => ?_, fun token htoken => ?_, fun service s direction hs => ?_⟩
  · rcases hlookup service s hs with hs | ⟨rfl, rfl⟩
    · exact h.instances service s hs
    · rfl
  · have := h.owners token htoken
    simp only [next, List.length_append, List.length_singleton]
    omega
  · rcases hlookup service s hs with hs | ⟨rfl, rfl⟩
    · exact h.slots service s direction hs
    · -- no token can be one of a service that did not exist
      have hnone : sys.requests direction sys.services.length = [] := by
        rw [requests, requestsOf, List.map_eq_nil_iff, List.filter_eq_nil_iff]
        intro token htoken
        have := h.owners token htoken
        simp only [Token.isFor, Bool.and_eq_true, decide_eq_true_eq, not_and]
        omega
      cases direction <;> exact hnone

theorem dispatch (h : Settled sys) (service : ℕ) (direction : Direction) (request : Bytes)
    (absoluteDeadline : Instant) (clocks : Clocks) (requestId : ℕ) (context : Option Context) :
    Settled (sys.next crypto fromBytes
      (.dispatch service direction request absoluteDeadline clocks requestId context)) := by
  rw [next]
  cases hs : sys.services[service]? with
  | none => exact h
  | some s =>
    have hown := h.instances _ _ hs
    obtain ⟨token, heq, hfree, rfl, howner, rfl⟩ | heq := s.dispatchToken_cases crypto fromBytes
      direction request absoluteDeadline clocks requestId context
    · dsimp only
      rw [heq]
      refine h.set hs (by simp) (forall_mem_concat h.owners ?_) (fun direction' => ?_)
        fun direction' other hne => ?_
      · rw [howner, hown]
        exact (List.getElem?_eq_some_iff.mp hs).1
      · rw [Option.toList_some, requestsOf_append, ← requests, h.slots _ _ direction' hs,
          DiscoveryService.active_occupy]
        by_cases hdirection : direction' = token.direction
        · subst hdirection
          simp [hfree, Token.isFor, howner, hown]
        · simp [hdirection, Token.isFor, Ne.symm hdirection]
      · rw [Option.toList_some, requestsOf_append, ← requests]
        simp [Token.isFor, howner, hown, Ne.symm hne]
    · dsimp only
      rw [heq]
      rw [Option.toList_none, List.append_nil]
      exact h.set hs rfl h.owners (fun direction' => .of_eq (h.slots _ _ direction' hs))
        fun _ _ _ => .refl _

theorem present {token : ℕ} {use : Use} (h : Settled sys)
    (hcareful : sys.Careful (.present service token use)) :
    Settled (sys.next crypto fromBytes (.present service token use)) := by
  rw [next]
  split
  swap
  · exact h
  rename_i s held hs hheld
  cases hpurpose : sys.purpose held use with
  | none => exact h
  | some purpose =>
    have hown := h.instances _ _ hs
    have hmem := List.mem_of_getElem? hheld
    have hperm := perm_requestsOf_eraseIdx hheld
    have hsub : ∀ token' ∈ sys.tokens.eraseIdx token,
        token'.dispatch.ownerInstance < sys.services.length := fun token' htoken' =>
      h.owners token' (List.eraseIdx_subset htoken')
    obtain ⟨⟨howner, hrequest⟩, heq⟩ | heq := DiscoveryService.present_cases
      (hown ▸ hcareful held hheld purpose hpurpose) (h.active hs hmem)
    · -- the slot is freed, and the token was the only one for it
      dsimp only
      rw [heq, Option.toList_none, List.append_nil]
      refine h.set hs (by simp) hsub (fun direction => ?_) fun direction other hne => ?_
      · have hall := hperm direction service
        rw [← requests, h.slots _ _ direction hs] at hall
        rw [DiscoveryService.active_release]
        by_cases hdirection : direction = held.direction
        · subst hdirection
          simp only [Token.isFor, ← howner, hown, decide_true, Bool.and_self, if_true, hrequest,
            Option.toList_some, List.singleton_append] at hall
          simpa using List.Perm.cons_inv hall
        · simpa [Token.isFor, hdirection, Ne.symm hdirection] using hall
      · simpa [requests, Token.isFor, ← howner, hown, Ne.symm hne] using hperm direction other
    · -- the token is only moved to the end
      dsimp only
      rw [heq, Option.toList_some]
      have hback : ∀ direction other, (requestsOf (sys.tokens.eraseIdx token ++ [held]) direction
          other).Perm (sys.requests direction other) := fun direction other => by
        rw [requestsOf_append]
        exact List.perm_append_comm.trans (hperm direction other)
      exact h.set hs rfl (forall_mem_concat hsub (h.owners held hmem)) (fun direction =>
        h.slots _ _ direction hs ▸ hback direction service) fun direction other _ =>
        hback direction other

/-- **A step**: an operation that presents a token only if it is due keeps the slots settled. -/
theorem next {operation : Operation Context} (h : Settled sys) (hcareful : sys.Careful operation) :
    Settled (sys.next crypto fromBytes operation) := by
  cases operation with
  | start => exact h.start _ _
  | swarm service event =>
    rw [System.next]
    cases hs : sys.services[service]? with
    | none => exact h
    | some s =>
      refine h.set hs rfl h.owners (fun direction => ?_) fun _ _ _ => .refl _
      have hslot := h.slots _ _ direction hs
      cases direction <;> exact .of_eq hslot
  | dispatch => exact h.dispatch _ _ _ _ _ _ _
  | sealResponse service =>
    rw [System.next]
    cases sys.services[service]? with
    | none => exact h
    | some s => exact ⟨h.instances, h.owners, h.slots⟩
  | present => exact h.present hcareful

/-- The token for an occupied slot can be cancelled, which frees the slot. -/
theorem exists_cancel {s : DiscoveryService} {direction : Direction} (h : Settled sys)
    (hs : sys.services[service]? = some s) (hoccupied : s.active direction ≠ none) :
    ∃ token s', (sys.next crypto fromBytes (.present service token .cancel)).services[service]? =
      some s' ∧ s'.active direction = none := by
  obtain ⟨requestId, hrequest⟩ := Option.ne_none_iff_exists'.mp hoccupied
  have hmem : requestId ∈ sys.requests direction service := by
    rw [h.slots _ _ direction hs, hrequest]
    exact List.mem_singleton_self requestId
  obtain ⟨held, hfilter, -⟩ := List.mem_map.mp hmem
  obtain ⟨hheld, hfor⟩ := List.mem_filter.mp hfilter
  obtain ⟨token, htoken⟩ := List.mem_iff_getElem?.mp hheld
  simp only [Token.isFor, Bool.and_eq_true, decide_eq_true_eq] at hfor
  obtain ⟨rfl, howner⟩ := hfor
  have hactive := h.active hs hheld (howner.trans (h.instances _ _ hs).symm)
  refine ⟨token, s.release held.direction, ?_, by rw [DiscoveryService.active_release, if_pos rfl]⟩
  have hlt := (List.getElem?_eq_some_iff.mp hs).1
  rw [System.next, hs, htoken]
  simp only [purpose, DiscoveryService.present_cancel hactive, List.getElem?_set_self hlt]

end Settled

/-- An operation of one service leaves the others as they are. -/
theorem services_next_of_ne {operation : Operation Context} {service : ℕ} {s : DiscoveryService}
    (hs : sys.services[service]? = some s) (hne : operation.service ≠ some service) :
    (sys.next crypto fromBytes operation).services[service]? = some s := by
  cases operation with
  | start => rw [next, List.getElem?_append_left (List.getElem?_eq_some_iff.mp hs).1, hs]
  | swarm other | dispatch other =>
    have hother : other ≠ service := fun heq => hne (congrArg some heq)
    rw [next]
    cases sys.services[other]? with
    | none => exact hs
    | some t => simpa [List.getElem?_set_ne hother] using hs
  | sealResponse other =>
    rw [next]
    cases sys.services[other]? <;> exact hs
  | present other =>
    have hother : other ≠ service := fun heq => hne (congrArg some heq)
    rw [next]
    split
    · dsimp only
      split
      · exact hs
      · simpa [List.getElem?_set_ne hother] using hs
    · exact hs

/-- The operations of a run present tokens only when they are due. -/
def CarefulRun (crypto : Crypto) (fromBytes : Bytes → Option PeerId) (sys : System Context) :
    List (Operation Context) → Prop
  | [] => True
  | operation :: operations =>
    sys.Careful operation ∧
      CarefulRun crypto fromBytes (sys.next crypto fromBytes operation) operations

instance (crypto : Crypto) (fromBytes : Bytes → Option PeerId) (sys : System Context)
    (operations : List (Operation Context)) :
    Decidable (CarefulRun crypto fromBytes sys operations) :=
  decidableCarefulRun sys operations
where
  decidableCarefulRun (sys : System Context) : ∀ operations : List (Operation Context),
      Decidable (CarefulRun crypto fromBytes sys operations)
    | [] => .isTrue trivial
    | operation :: operations =>
      have := decidableCarefulRun (sys.next crypto fromBytes operation) operations
      inferInstanceAs (Decidable (sys.Careful operation ∧
        CarefulRun crypto fromBytes (sys.next crypto fromBytes operation) operations))

theorem settled_empty : Settled (empty : System Context) :=
  ⟨by simp [empty], by simp [empty], by simp [empty]⟩

/-- **A run** in which tokens are presented when they are due keeps the slots settled. -/
theorem settled_run {operations : List (Operation Context)} (hs : Settled sys)
    (h : CarefulRun crypto fromBytes sys operations) :
    Settled ((machine crypto fromBytes).run sys operations) := by
  induction operations generalizing sys with
  | nil => exact hs
  | cons operation operations ih => exact ih (hs.next h.1) h.2

/-! ## Slots are never orphaned -/

namespace Sample

/-- The identity of an Ed25519 key. -/
def identity (key : UInt8) : PeerId := ⟨[0, 36, 8, 1, 18, 32] ++ List.replicate 32 key⟩

def actor (key : UInt8) (nodeId : ℕ) : Protocol.PreselectionActorBinding where
  nodeId := (FixedBytes.ofNat 32 nodeId).toBytes
  peerId := (identity key).bytes
  publicKey := List.replicate 32 key
  advertisementSequence := 1
  advertisementExpiresAtMs := 1060000
  advertisementPayloadHash := List.replicate 32 5
  capabilityExpiresAtMs := 1060000

/-- A challenge of an exit, forwarded by a control relay. -/
def request : Bytes := Protobuf.encode ({
  protocolVersion := 4
  challenge := List.replicate 32 3
  actor := some (actor 9
    0x49598396f67a5600a448bcb10f44c6e4e128b6f3f1f1414c0e81ab672060d8f9)
  scope := some ⟨2, 1, 1, 1, List.replicate 32 9, 1060000⟩
  forwardedControl := some (actor 7
    0xb977916ad571d6d0c8b7c3dd4c24e343747de11c51f1d82d39a3cea04291744a)
  createdAtMs := 1000000
  expiresAtMs := 1004000 } : Protocol.PreselectionObservationRequest)

def clocks : Clocks := ⟨10 ^ 9, some 1001000⟩

def primitives : Crypto := Protocol.Signatures.primitives []

/-- The control relay forwards the challenge, cancels it when the response arrives, forwards it
again, and presents the token of the second request with the response to the first. -/
def staleResponse : List (Operation Unit) := [
  .start (identity 7) ⟨false, true, false⟩,
  .dispatch 0 .upstream request (10 ^ 12) clocks 0 none,
  .sealResponse 0 .upstream (identity 9) 41 0 [] clocks,
  .present 0 0 .cancel,
  .dispatch 0 .upstream request (10 ^ 12) clocks 1 none,
  .present 0 0 (.bind 0)]

/-- The control relay forwards the challenge over a connection that it has, binds the response, and
forwards the challenge again. -/
def forwardedTwice : List (Operation Unit) := [
  .start (identity 7) ⟨false, true, false⟩,
  .swarm 0 (.established (identity 9) 41 ⟨false, [.ip4 9 9 9 9, .tcp 443]⟩ 0),
  .dispatch 0 .upstream request (10 ^ 12) clocks 0 none,
  .sealResponse 0 .upstream (identity 9) 41 0 [] clocks,
  .present 0 0 (.bind 0),
  .dispatch 0 .upstream request (10 ^ 12) clocks 1 (some ())]

/-- A client challenges the exit, and presents the token to another service. -/
def otherService : List (Operation Unit) := [
  .start (identity 1) ⟨true, false, false⟩,
  .start (identity 2) ⟨true, false, false⟩,
  .dispatch 0 .client request (10 ^ 12) clocks 0 none,
  .present 1 0 .cancel]

/-- The state after operations. -/
def after (operations : List (Operation Unit)) : System Unit :=
  (machine primitives fun b => some ⟨b⟩).run empty operations

end Sample

/-- **Slots are never orphaned.** In every run of any number of services in which tokens are
presented when they are due, a slot is occupied by exactly the requests of the tokens that are held
for it, which is one or none, and the token frees it; and in any run an operation of one service
leaves every other one as it is. -/
theorem slots_free_again (crypto : Crypto) (fromBytes : Bytes → Option PeerId) :
    (∀ operations : List (Operation Context), CarefulRun crypto fromBytes empty operations →
      ∀ service s direction,
        ((machine crypto fromBytes).run empty operations).services[service]? = some s →
        ((machine crypto fromBytes).run empty operations).requests direction service =
          (s.active direction).toList ∧
        (s.active direction ≠ none → ∃ token s',
          (((machine crypto fromBytes).run empty operations).next crypto fromBytes
            (.present service token .cancel)).services[service]? = some s' ∧
          s'.active direction = none)) ∧
    ∀ (operations : List (Operation Context)) (operation : Operation Context) service s,
      ((machine crypto fromBytes).run empty operations).services[service]? = some s →
      operation.service ≠ some service →
      (((machine crypto fromBytes).run empty operations).next crypto fromBytes
        operation).services[service]? = some s := by
  refine ⟨fun operations hcareful service s direction hs => ?_,
    fun operations operation service s hs hne => services_next_of_ne hs hne⟩
  have hsettled := settled_run settled_empty hcareful
  exact ⟨hsettled.slots service s direction hs, hsettled.exists_cancel hs⟩

open Sample in
/-- A slot stays occupied without a token that could free it: upstream after a response to another
request, and for a client after its dispatch was presented to another service. -/
theorem slot_orphaned :
    ((after staleResponse).services[0]?.map (·.upstreamActive) = some (some 1) ∧
      (after staleResponse).requests .upstream 0 = []) ∧
    ((after otherService).services[0]?.map (·.clientActive) = some (some 0) ∧
      (after otherService).requests .client 0 = []) := by
  decide +kernel

open Sample in
theorem slots_free_again_forwarded : ∃ s,
    (after forwardedTwice).services[0]? = some s ∧ s.active .upstream = some 1 ∧
    (after forwardedTwice).requests .upstream 0 = (s.active .upstream).toList ∧
    ∃ token s', ((after forwardedTwice).next primitives (fun b => some ⟨b⟩)
      (.present 0 token .cancel)).services[0]? = some s' ∧ s'.active .upstream = none := by
  have hactive : (after forwardedTwice).services[0]?.map (·.active .upstream) = some (some 1) := by
    decide +kernel
  obtain ⟨s, hs, hs'⟩ := Option.map_eq_some_iff.mp hactive
  have h := (slots_free_again primitives fun b => some ⟨b⟩).1 forwardedTwice (by decide +kernel) 0 s
    .upstream hs
  exact ⟨s, hs, hs', h.1, h.2 (by simp [hs'])⟩

end System

end Volparossa.Discovery
