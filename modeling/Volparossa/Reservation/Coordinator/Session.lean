import Volparossa.Reservation.Coordinator.Extension

/-!
# The session of a coordinator

A coordinator works for one client session: no operation changes its key (`sameSession_call`), and
those that verify a response keep its leases as well (`frame_of_verifies`). What else a coordinator
has is its `retention`, which can be compared, so that a run in which every call succeeds can be
evaluated (`run_of_leadsTo`).

This is used for a run of genuine messages, from the hold to the verified final grant.
-/

namespace Volparossa.Reservation.ReservationCoordinator

open Protocol

open Transaction (Crypto)

variable {crypto : Crypto} {c c' : ReservationCoordinator} {nowMs : ℕ}

/-! ## The session -/

/-- The time at which an operation verifies a response, if it does. -/
def Call.verifiesAt : Call → Option ℕ
  | .verifyHoldResponse _ _ _ _ nowMs => some nowMs
  | .verifyProbePermit _ _ nowMs => some nowMs
  | .verifyProbeResult _ _ nowMs => some nowMs
  | .verifyFinalizeResponse _ _ _ _ _ _ nowMs => some nowMs
  | .verifyRelayResponse _ _ _ _ _ nowMs => some nowMs
  | .verifyConfirmationReceipt _ _ _ nowMs => some nowMs
  | .verifyRouteExtensionResponse _ _ _ nowMs => some nowMs
  | .verifyExtensionRelayResponse _ _ _ _ nowMs => some nowMs
  | .verifyMptcpPathsState _ _ _ nowMs => some nowMs
  | .signFinalizeRequest .. | .takeNativeRouteAuthorization .. | .release _ | .purgeExpired _
  | .signExtensionRelayRequest .. => none

/-- Coordinators of one client session. -/
def SameSession (c' c : ReservationCoordinator) : Prop :=
  c'.sessionKey = c.sessionKey ∧ c'.clientSessionId = c.clientSessionId

/-- An operation that verifies a response keeps the session and the leases. -/
theorem frame_of_verifies {call : Call} (h : call.verifiesAt = some nowMs) :
    SameSession (c.call crypto call).2 c ∧ (c.call crypto call).2.clientPaths = c.clientPaths := by
  cases call with
  | signFinalizeRequest | takeNativeRouteAuthorization | release | purgeExpired
  | signExtensionRelayRequest => cases h
  | verifyHoldResponse | verifyProbePermit | verifyProbeResult => exact ⟨⟨rfl, rfl⟩, rfl⟩
  | _ =>
    simp only [ReservationCoordinator.call, Outcome.answer, verifyFinalizeResponse,
      verifyRelayResponse, verifyRelayResponseInner, verifyConfirmationReceipt,
      verifyRouteExtensionResponse, verifyExtensionRelayResponse, verifyMptcpPathsState]
    repeat' split
    all_goals exact ⟨⟨rfl, rfl⟩, rfl⟩

theorem sameSession_call (crypto : Crypto) (c : ReservationCoordinator) (i : Call) :
    SameSession (c.call crypto i).2 c := by
  cases hverifies : i.verifiesAt with
  | some nowMs => exact (frame_of_verifies hverifies).1
  | none =>
    cases i with
    | signFinalizeRequest | takeNativeRouteAuthorization | signExtensionRelayRequest =>
      simp only [call, Outcome.answer, signFinalizeRequest, takeNativeRouteAuthorization,
        signExtensionRelayRequest]
      repeat' split
      all_goals exact ⟨rfl, rfl⟩
    | release | purgeExpired => exact ⟨rfl, rfl⟩
    | _ => cases hverifies

/-- What a session retains, apart from its key. -/
def retention (c : ReservationCoordinator) : ReplayCache × ReplayCache × ReplayCache ×
    Table ClientPathState.key × Table PendingNativeRouteAuthorization.finalizeId :=
  (c.exitReplay, c.probeReplay, c.relayReplay, c.clientPaths, c.pendingNativeAuthorizations)

/-- A coordinator of the session that retains what another one does is that one. -/
theorem SameSession.eq_of_retention {c' c : ReservationCoordinator} (h : SameSession c' c)
    (hretention : c'.retention = c.retention) : c' = c := by
  obtain ⟨hkey, hid⟩ := h
  simp only [retention, Prod.mk.injEq] at hretention
  obtain ⟨hexit, hprobe, hrelay, hpaths, hpending⟩ := hretention
  cases c'
  cases c
  simp_all

/-- The calls succeed, one after the other, and what is retained in the end is what another
coordinator retains. -/
def leadsTo (crypto : Crypto) (c' : ReservationCoordinator) :
    ReservationCoordinator → List Call → Bool
  | c, [] => decide (c.retention = c'.retention)
  | c, i :: calls =>
    match c.call crypto i with
    | (.ok _, next) => leadsTo crypto c' next calls
    | (.error _, _) => false

/-- **The evaluation of a run.** -/
theorem run_of_leadsTo {calls : List Call} (h : leadsTo crypto c' c calls = true)
    (hsession : SameSession c c') :
    (∀ e ∈ (machine crypto).events c calls, ∃ answer, e.output = .ok answer) ∧
      (machine crypto).run c calls = c' := by
  induction calls generalizing c with
  | nil => exact ⟨by simp, hsession.eq_of_retention (of_decide_eq_true h)⟩
  | cons i calls ih =>
    have hnext := sameSession_call crypto c i
    rw [leadsTo] at h
    rcases hcall : c.call crypto i with ⟨_ | answer, next⟩ <;> simp only [hcall] at h hnext
    · cases h
    · have hstep : (machine crypto).step c i = (.ok answer, next) := hcall
      obtain ⟨hevents, hrun⟩ := ih h ⟨hnext.1.trans hsession.1, hnext.2.trans hsession.2⟩
      rw [Machine.events_cons, List.forall_mem_cons, Machine.run_cons, Machine.event, Machine.next,
        hstep]
      exact ⟨⟨⟨answer, rfl⟩, hevents⟩, hrun⟩

theorem step_of_leadsTo {i : Call} (h : leadsTo crypto c' c [i] = true)
    (hsession : SameSession c c') :
    ∃ answer, (machine crypto).step c i = (.ok answer, c') := by
  obtain ⟨hevents, hrun⟩ := run_of_leadsTo h hsession
  obtain ⟨answer, hanswer⟩ := hevents _ List.mem_cons_self
  exact ⟨answer, Prod.ext hanswer hrun⟩

/-! ## A run

One reservation, from the hold to the final grant. The parties are a client session, an exit and a
relay, with genuine keys and signatures; every argument is what an earlier call of the run
returns. -/

namespace Sample

open Wireguard (ClientEndpointLease)

/-- A party: its public key, and the identifier of its node. -/
structure Party where
  key : FixedBytes 32
  node : FixedBytes 32

def client : Party :=
  ⟨.ofNat 32 0x8a88e3dd7409f195fd52db2d3cba5d72ca6709bf1d94121bf3748801b40f6f5c,
    .ofNat 32 0x99bc094f126197a231c030c63960710159a1490b55e1798d6e404847de4cefd0⟩

def exit : Party :=
  ⟨.ofNat 32 0x8139770ea87d175f56a35466c34c7ecccb8d8a91b4ee37a25df60f5b8fc9b394,
    .ofNat 32 0x6701bdaeb37a88b666332377f429a10ae7ce5030116312490f9d7b077685855f⟩

def relay : Party :=
  ⟨.ofNat 32 0xed4928c628d1c2c6eae90338905995612959273a5c63f93636c14614ac8737d1,
    .ofNat 32 0x059a0220bc25f06da9e1364167e0c32e9e3ff5bae1bdd71aa02314c0ae191ce4⟩

/-- The messages that were signed, numbered from 101: the signer, the digest of the payload, the
digest of the signed bytes, and the halves of the signature. -/
def made : List (Party × ℕ × ℕ × ℕ × ℕ) :=
  [(exit, 0x77953282ec1979e45c7792b9d07945238ceea64c4f8b21439dd7c911a3c8d59f,
      0x4c5953b56d10aff113f72ab74cca54b9776fc0ac85afe77d56d40bbffabdab59,
      0x07b33b5706d7f1628e541367d01e73657db11f655655078dde0897a6a08d8c82,
      0x50d595d7c35ba6ef5c7af23908ac03af9830764c12fd3a94870c3c70b5110107),
    (exit, 0xded289b591498c611e9a88d25b18c61529755c5cc5f3106d58e6c93c780bc887,
      0x6d999a3171b55d7999f9ea7632e051b605aba5bfa872cc1f89af845376fc56d3,
      0x1ea812ab91165f1d86bdaf398a41ecddfef654f6865ef28d8355ef934c9980e4,
      0xd2d9cc66dd0f400b38ca54cec49427952a9f745b21039b20a68c3ecd8032c509),
    (client, 0xe442787eedae374a92c36fc8bf3d55ec4e42e97fcb55c50db0112579a6fd6492,
      0xb56256f1aa9961d6e2aef1994ffd8154d8eb40f3bba10852dc89453dc7fd8163,
      0xa9203930473dc3927a529994fba7b5d75463f5397664ba5d2de069dd3c3b6034,
      0xeecc2e986c0f2dcbd0a9c4dd26d8a3b071c98c56cc1bf6e2d880e6bf37a03702),
    (exit, 0x9c97d0fb118884617ca9cadef52976329eaba730ac2c8d1a3e9d61ba32250c09,
      0x8addf48de0c7c27510a71387a101a4e2478a3046bb5129c449ff60a011719d4e,
      0x2af35038f210b21b557f05366834f1ed093ff40d629b5bc3cb99839ca3589cd6,
      0xded7c2e3141f254a6eaaeff59065c86109f7f4911ba86159a7f7232acd393003),
    (relay, 0xb8fd23f057e7def11ce5b1344a63f59535446305c491109a89157198802b3025,
      0xd0ec3769d5d74138e521649aded80c415238bc72409f686530dfca0e22a43be7,
      0x9ff1050f4e80b658337d0550c8b609c296092c518a0a3d8cba1972d0504d3813,
      0xd9ef1f9ce85424508c54bd9ca9a5b365a634856f45dc0d73e17e5ea75efed505),
    (client, 0x33810f9b0c1c54ee773b8fdbd06832e789740adcafbd4425a0b634dfce863b83,
      0x17d93af98c7cbf96f93ad0ec6bb248fa89a2fffac15d770f7828cd484d742be5,
      0xbca61093bd4ff31f45002129f943ce95db769b6289c86bec0c5de30838c179b2,
      0x2fd1b9e63f9ab6f740dceed78534e4077cb04b226435186697aec0b44f224b0a),
    (client, 0x181c45ccda851fc1a0297b2be35b975d54f676c77d9cb6c51d45a2050ea50c55,
      0x2a3ad1093b5f03fa810b3c6fc36ffad7bd87cd9fcc54ff86db6b9a79e93cf1b8,
      0xc0c320ab2e54c423273961004fa73092947d60daae325a5c26cc1d0ce7e62d35,
      0x77ae13216a6012fa1997b654a2a48efe68b0bc84d26593dbc9b309657f6f0c03),
    (exit, 0x5f767aa665b0f9e927e94b1755e2f5b7dc043682ebb42daedfca59486ad35086,
      0xbf08c80ea6872612a492431a092180d9976e36b56466ecc8f19dddcf5db62d4b,
      0xd1d93e273b3a32dd034a6ecf3bacb4cb83efb9508bd5c86dca4404adf81c7732,
      0x0c3d273dcb495a75eb552cf37ab81830205ff534afab68f263368eaedfd03a02),
    (exit, 0xec071f40889c0306cbe2e8c80db308e9af306e0106c7292f70d2a847a879c5e4,
      0x1c605eeb14f574f7ac3e8d9a6e7a511779310872588dd6e59bac5363940df572,
      0x0d8b1e0860cf686b1adfa1eba3d84af42eb39151b9aa70a5dcc4c486f9497839,
      0x8418c080c8013705da4eeefe66605faa7d118a1e10b7b06dfd843b7fe6dd880c),
    (client, 0xb05ca79dc5d05861ab4c79d359182d3517d9a7ab16107a949c0d6ea3b0fec89c,
      0x6236c12861ccdbb581016f7dd70a45764249866ce53d5b0141061ca0e6406fef,
      0x503be316ac1fce7b2493786987c7f2467f67d660fec66b99717fdb87ae9d11c8,
      0x72c647f6dc54d938b8020f8c423a7e7f68c2b72f43c67b268377a3fa0f325207),
    (client, 0xb05ca79dc5d05861ab4c79d359182d3517d9a7ab16107a949c0d6ea3b0fec89c,
      0x699e289f55da4999150e075b42b752499cd1b8d4733d1882c19cf441cf61e843,
      0xcfbb4c9607efe78e9a0449974401bcf826dc5d02a8d93cf350e098a4479de703,
      0xec9586ada9874bd5be0332ae4c6ab6a32e4415ef59b8099d49fbc8357fc76f0f),
    (exit, 0xd0f73f5f9f5ad4128a2e1a2fa1305b175b3ba02cc49cf3bbe7bc2c754f7e5666,
      0x937cf1f0124b7aa71323ff1ba18516a36a38a15d37d4e02cf5cdf567b8056766,
      0x94c2a2e73bcea266303273dd96d3cd68e398b2a9a471a2dd894b618b7cfdb4ef,
      0x1a6fd03e9ee3bc5dd4fe1152a0058f060660737c213c5532424019dd1db07a01),
    (exit, 0x2b4a4030aefd55abceef60fc11c94d6d03f7b586652d11ae5bff66ab6cc7180a,
      0xcd82e61485a5dc9675a77d975fc1900e07086777649e9e5cd1327efcd7ddea63,
      0x1eafaad7e83218b311e2e028cd597f438c4633f2f18debc73848107a5ab0817a,
      0xb740dd27d361b8db8cead363886e2b02a0446e5f133cfaf5532b4739cf646b06),
    (exit, 0x3967d36e647046013aafe252eee8cde59176cdaa96915e7a3906aa37c6da22fa,
      0x75a0b68f98583aefc66c9f05877d8f777b7aebc9f2bfbe0608f91a389e1f7212,
      0xe46737fc1b86b2f463d5672ae1ca11bf931ae3905c28ab25ea517708eb145cae,
      0xa0654406fb3dac5ccc30bd071faa1258ff47ea1a2744b55f10c42943cb0c3c0c),
    (exit, 0x5bb08bcb5733e322ed7627f6260789bc2299ee7f4346d02c2b5c89bb1c8d8c57,
      0xcc901910e6b020e0814bde8700c4c4e144a9f3fde0a1b1a2df9ac1b446549649,
      0x0d526fbd915ddc184bc4fc32881a734ca99748698fe606951945ea76e666229e,
      0x3929f752939526a00249eb6c576f3816794e4267897e827adaa6796939fe2e00),
    (client, 0xa35f25914cb421e75da5413c9c81931a388d30acc5768b326b4c3a577c54023b,
      0x89f3c0389d745936c80090efc651217bccbefa5ed7ddc5c981581c30a0e60316,
      0x4088bdc1a872017961581322ae5cd44b15aba8f4cac95b9cff233ea9071f7ce3,
      0xabe5d0620ca8f6fae3cb8eba00a8a9e63a47b93f247124df005fcd5aab6b6e01),
    (relay, 0xde834ab41e7e30bf2b2aa423df82e84e9cd30863f5123fcebe760d2426b9a36e,
      0x8f55df39e03f242d6985e577d22010b96f2531bb616cb6d6540579ed8e65e056,
      0xc85f2936aabc7e1e66e61934ec32182d3dee121c10b39c153d4af00845084f81,
      0x88664c4b3a41d96f35dfb23073b15078512d9c6eeeacdcb42aaf94961cb26d00),
    (client, 0x8ea6be2eee48175160e90ff8232b4b6c079ac2689d3070d196bc2f7d0b4b697f,
      0xc6a822f475bbbd8df9480f3e2b65e1d256ec64383488f244c86ebcc5545a7ebb,
      0xc5d35274451c05fadd1e3ed9644cada2a12b53b7c6952896ae3dab9d08e49403,
      0x9fa72d305d6f72d79ab60a5514739d8ae4965d7672ffc99b622fd0c81a951909),
    (exit, 0xbaa8ea7984f7f2b75f717f15ed7df974cc6c3f2a9784d8a385da5c18baf64c4b,
      0x9b35f8092717a22bef1e5b6187b952b3ed583d3fdca91ff452deed309717adfe,
      0xeef95eeecc4fe4fe62484887726502ec73e80a06836e5c78e99eb252efd1d68e,
      0x06b79c918d3dd85f6410ac6aa8af31247a0151eee831ec825d3661080cfe2b05),
    (client, 0x8283f6f725d7d636a5aa76beade9ce0442cb42a2a0952ef95228927128256dcf,
      0x46c66e8dc6c03def3f229dc6e089c3d97d0cfd144b9339614a2200f4276f5746,
      0x9c8a38c4c5e4fd6449e4acc2132840c878bbe6bee7d535e85d7316120a818a4d,
      0x9b2fd040a91eb51084f423553a052fb994c646b63a8d59e91dce68eae2756402)]

/-- A signature, of its halves. -/
def signature (high low : ℕ) : FixedBytes 64 := .ofNat 64 (high <<< 256 + low)

def signatures : Signatures :=
  made.map fun (party, _, digest, high, low) => (party.key, .ofNat 32 digest, signature high low)

/-- A signed message, by its number, which its nonce repeats. -/
def signed {T : Type} [ControlPayload T] (number : ℕ) (message : T) (createdAtMs expiresAtMs : ℕ) :
    Bytes :=
  match made[number - 101]? with
  | none => []
  | some (party, payloadHash, _, high, low) =>
    Protobuf.encode (⟨protocolVersion, party.node.toBytes, party.key.toBytes, createdAtMs,
      expiresAtMs, List.replicate 32 number.toUInt8, (ControlPayload.messageType T).number,
      Protobuf.encode message, (FixedBytes.ofNat 32 payloadHash).toBytes,
      (signature high low).toBytes⟩ : SignedEnvelope)

/-- A coordinator at its start, with the client's session key. -/
def start : ReservationCoordinator :=
  ⟨signatures.signingKey client.key, client.node, ⟨16, .empty⟩, ⟨16, .empty⟩, ⟨16, .empty⟩, .empty,
    .empty⟩

/-- The coordinator is as it is created. -/
theorem new_start : new signatures.primitives (signatures.signingKey client.key) 16 =
    .ok start := by
  have hnode : nodeIdFromPublicKey signatures.primitives
      (signatures.signingKey client.key).verifyingKey = client.node := by decide +kernel
  simp only [new, hnode]
  rfl

def intent : ExitReservationIntent := {
  reservationId := .replicate 16 1, routeContextId := .replicate 16 2, exitNodeId := exit.node
  exitPeerId := [10], controlRelayNodeId := .replicate 32 5, controlRelayPeerId := [11]
  allowedTransports := [.tcpMptcp], reservedUpMbps := 10, reservedDownMbps := 10, maximumPaths := 2
  probePermitLimit := 2, policyHash := .replicate 32 6, createdAtMs := 1000
  holdExpiresAtMs := 31000, reservationExpiresAtMs := 901000, masqueContextId := 1
  clientNativeInstanceId := .replicate 32 7 }

def capability : ClientSessionCapability := {
  capabilityId := List.replicate 16 31, reservationId := List.replicate 16 1
  routeContextId := List.replicate 16 2, clientSessionId := client.node.toBytes
  clientSessionPublicKey := client.key.toBytes, exitNodeId := exit.node.toBytes, exitPeerId := [10]
  exitBootId := List.replicate 16 32, controlRelayNodeId := List.replicate 32 5
  controlRelayPeerId := [11], policyHash := List.replicate 32 6, allowedTransports := [1]
  reservedUpMbps := 10, reservedDownMbps := 10, maximumPaths := 2, probePermitLimit := 2
  createdAtMs := 1000, expiresAtMs := 901000, nonce := List.replicate 32 101 }

def signedCapability : Bytes := signed 101 capability 1000 901000

def holdMessage : ExitCapacityHold := {
  holdId := List.replicate 16 33, clientSessionCapability := signedCapability
  reservationId := List.replicate 16 1, routeContextId := List.replicate 16 2
  clientSessionId := client.node.toBytes, exitNodeId := exit.node.toBytes, exitPeerId := [10]
  exitBootId := List.replicate 16 32, controlRelayNodeId := List.replicate 32 5
  controlRelayPeerId := [11], policyHash := List.replicate 32 6, allowedTransports := [1]
  reservedUpMbps := 10, reservedDownMbps := 10, maximumPaths := 2, probePermitLimit := 2
  createdAtMs := 1000, expiresAtMs := 31000, reservationExpiresAtMs := 901000
  nonce := List.replicate 32 102 }

def signedHold : Bytes := signed 102 holdMessage 1000 31000

def hold : VerifiedExitCapacityHold := ⟨signedCapability, signedHold, capability, holdMessage⟩

def permitRequest : RelayProbePermitRequest := {
  probeId := List.replicate 16 34, exitCapacityHold := signedHold
  clientSessionCapability := signedCapability, pathId := 1, relayNodeId := relay.node.toBytes
  relayPeerId := [12], clientSessionId := client.node.toBytes
  controlRelayNodeId := List.replicate 32 5, controlRelayPeerId := [11], createdAtMs := 1000
  expiresAtMs := 31000, nonce := List.replicate 32 103, exitNodeId := exit.node.toBytes
  exitPeerId := [10], transport := 1, addressFamily := 1 }

def signedPermitRequest : SignedProbePermitRequest :=
  ⟨signed 103 permitRequest 1000 31000, permitRequest, hold⟩

/-- The permit to probe the relay of a path. -/
def permitMessage (pathId : ℕ) (probe : UInt8) (relayNodeId relayPeerId : Bytes) (nonce : UInt8) :
    RelayProbePermit := {
  probeId := List.replicate 16 probe, holdId := List.replicate 16 33
  capabilityId := List.replicate 16 31, reservationId := List.replicate 16 1
  routeContextId := List.replicate 16 2, clientSessionId := client.node.toBytes
  exitNodeId := exit.node.toBytes, exitPeerId := [10], exitBootId := List.replicate 16 32
  controlRelayNodeId := List.replicate 32 5, controlRelayPeerId := [11]
  policyHash := List.replicate 32 6, relayNodeId := relayNodeId, relayPeerId := relayPeerId
  pathId := pathId, createdAtMs := 1000, expiresAtMs := 31000, nonce := List.replicate 32 nonce
  transport := 1, addressFamily := 1 }

def signedPermit : Bytes :=
  signed 104 (permitMessage 1 34 relay.node.toBytes [12] 104) 1000 31000

def permit : VerifiedProbePermit :=
  ⟨signedPermit, permitMessage 1 34 relay.node.toBytes [12] 104, permitRequest, hold⟩

def leg : ProbeLegEvidence := ⟨20, 20, 5000, 1000, 1000, 1000, 1900, 1500⟩

def resultMessage : RelayProbeResult := {
  probeId := List.replicate 16 34, relayProbePermit := signedPermit
  relayNodeId := relay.node.toBytes, relayPeerId := [12], exitNodeId := exit.node.toBytes
  exitPeerId := [10], exitBootId := List.replicate 16 32, holdId := List.replicate 16 33
  capabilityId := List.replicate 16 31, reservationId := List.replicate 16 1
  routeContextId := List.replicate 16 2, clientSessionId := client.node.toBytes
  policyHash := List.replicate 32 6, transport := 1, addressFamily := 1, clientRelay := some leg
  relayExit := some leg, measuredAtMs := 1500, expiresAtMs := 31000
  nonce := List.replicate 32 105 }

def signedResult : Bytes := signed 105 resultMessage 1500 31000

def probe : VerifiedRelayProbe := ⟨permit, signedResult, resultMessage, .tcpMptcp, .ipv4, leg, leg⟩

/-- A lease of the client on a path, by the handle, the key and the port. -/
def lease (pathId : ℕ) (h : 1 ≤ pathId ∧ pathId ≤ Wireguard.maxPaths) (context handle key : UInt8)
    (hcontext : FixedBytes.replicate 32 context ≠ .zero 32)
    (hhandle : FixedBytes.replicate 32 handle ≠ .zero 32)
    (hne : FixedBytes.replicate 32 context ≠ .replicate 32 handle) (port : UInt16) :
    ClientEndpointLease where
  routeContextId := .replicate 16 2
  contextHandle := ⟨.replicate 32 context, hcontext⟩
  leaseHandle := ⟨.replicate 32 handle, hhandle⟩
  pathId := pathId
  publicEndpoint := ⟨.replicate 32 key, .v4 8 8 8 8, port⟩
  bound := ⟨⟨by decide, h⟩, fun heq => hne (congrArg Subtype.val heq)⟩

def firstLease : ClientEndpointLease :=
  lease 1 (by decide) 21 22 23 (by decide) (by decide) (by decide) 51820

/-- A lease for the second path. -/
def secondLease : ClientEndpointLease :=
  lease 2 (by decide) 21 45 26 (by decide) (by decide) (by decide) 51840

/-- A lease for the second path, with the handle and the port of the first. -/
def sharedLease : ClientEndpointLease :=
  lease 2 (by decide) 21 22 26 (by decide) (by decide) (by decide) 51820

/-- Another lease for the first path. -/
def thirdLease : ClientEndpointLease :=
  lease 1 (by decide) 24 25 30 (by decide) (by decide) (by decide) 51830

/-- The client's side of a finalization: the lease of the first path. -/
def provider (lease : ClientEndpointLease) (pathId : ℕ) : Option ClientEndpointLease :=
  if pathId = 1 then some lease else none

def draws (finalizeId entropy nonce : UInt8) : FinalizeDraws :=
  ⟨[.replicate 16 finalizeId], .replicate 32 entropy, .replicate 32 nonce⟩

def commitment : FixedBytes 32 :=
  .ofNat 32 0x44ad8eadb588f0d4d424b06af82d394b7a685761896c03b643c256552f1059e0

/-- The finalization that the coordinator signs in the run. -/
def finalizeMessage : ExitReservationFinalizeRequest :=
  start.finalizeRequest intent hold [(firstLease, probe)] 1000 31000 (.replicate 16 41) commitment
    (.replicate 32 106)

def finalization : SignedExitFinalizeRequest :=
  ⟨signed 106 finalizeMessage 1000 31000, .replicate 16 41,
    [⟨1, relay.node, [12]⟩], commitment, 1, .replicate 32 7⟩

def identity : NativeRouteIdentity := {
  authCommitment := commitment.toBytes, certificateSha256 := List.replicate 32 61
  spkiSha256 := List.replicate 32 62, tlsServerName := Transaction.ascii "exit.example"
  masqueContextId := 1, clientNativeInstanceId := List.replicate 32 7
  exitNativeInstanceId := List.replicate 32 63, credentialHpkePublicKey := List.replicate 32 64 }

def exitMessage : ExitReservation := {
  reservationId := List.replicate 16 1, routeContextId := List.replicate 16 2
  exitNodeId := exit.node.toBytes, clientSessionId := client.node.toBytes, allowedTransports := [1]
  reservedUpMbps := 10, reservedDownMbps := 10, maximumPaths := 1, policyHash := List.replicate 32 6
  createdAtMs := 1000, expiresAtMs := 901000, nonce := List.replicate 32 108
  capabilityId := List.replicate 16 31, clientSessionPublicKey := client.key.toBytes
  exitBootId := List.replicate 16 32, holdId := List.replicate 16 33
  finalizeId := List.replicate 16 41, controlRelayNodeId := List.replicate 32 5
  controlRelayPeerId := [11], exitPeerId := [10], nativeRouteIdentity := some identity }

def signedExit : Bytes := signed 108 exitMessage 1000 901000

def exitEndpoint : WireguardEndpoint := ⟨List.replicate 32 27, [9, 9, 9, 9], 51821, 0⟩

/-- The authorization of the relay of a path. -/
def authorizationMessage (pathId : ℕ) (relayNodeId relayPeerId : Bytes) (key nonce : UInt8) :
    RelayAuthorization := {
  reservationId := List.replicate 16 1, routeContextId := List.replicate 16 2, pathId := pathId
  relayNodeId := relayNodeId, exitNodeId := exit.node.toBytes
  clientSessionId := client.node.toBytes, allowedTransports := [1], maximumUpMbps := 10
  maximumDownMbps := 10, clientWireguardPublicKey := List.replicate 32 key
  exitWireguardEndpoint := some exitEndpoint, policyHash := List.replicate 32 6, createdAtMs := 1000
  expiresAtMs := 901000, nonce := List.replicate 32 nonce, relayPeerId := relayPeerId
  capabilityId := List.replicate 16 31, clientSessionPublicKey := client.key.toBytes
  exitBootId := List.replicate 16 32, holdId := List.replicate 16 33
  finalizeId := List.replicate 16 41, controlRelayNodeId := List.replicate 32 5
  controlRelayPeerId := [11], exitPeerId := [10] }

def signedAuthorization : Bytes :=
  signed 109 (authorizationMessage 1 relay.node.toBytes [12] 23 109) 1000 901000

def bundleHash : FixedBytes 32 :=
  .ofNat 32 0x5eda3d948219420d42af15842a58b6dbc45d5591c4259229d5702d59effc31b7

def bundle : VerifiedFinalizedExitBundle :=
  ⟨signedCapability, signedExit, [signedAuthorization], bundleHash⟩

/-- The calls up to the verified final grant. -/
def finalized : List Call :=
  [.verifyHoldResponse intent signedCapability signedHold [10] 2000,
    .verifyProbePermit signedPermitRequest signedPermit 2000,
    .verifyProbeResult permit signedResult 2000,
    .signFinalizeRequest intent hold [probe] 1000 31000 (provider firstLease) (draws 41 51 106),
    .verifyFinalizeResponse intent hold finalization signedExit [signedAuthorization] [10] 2000]

/-- A retained lease of the run. -/
def retained (lease : ClientEndpointLease) : ClientPathState :=
  ⟨⟨.replicate 16 1, lease.pathId⟩, lease, 901000⟩

/-- The bearer that the run hands out. -/
def pending : PendingNativeRouteAuthorization :=
  ⟨.replicate 16 41, .replicate 16 1, .replicate 16 2, exit.node,
    Transaction.ascii "MzMzMzMzMzMzMzMzMzMzMzMzMzMzMzMzMzMzMzMzMzM", commitment, 1, .replicate 32 7,
    901000, {1}, ∅, some bundleHash, some identity⟩

/-- An accepted message of the run. -/
def entry (party : Party) (nonce : UInt8) (expiresAtMs : ℕ) : ReplayEntry :=
  ⟨⟨party.node, .replicate 32 nonce⟩, expiresAtMs⟩

/-- The coordinator after the verified final grant. -/
def afterFinalized : ReservationCoordinator := { start with
  exitReplay := ⟨16, [entry exit 101 901000, entry exit 102 31000, entry exit 104 31000,
    entry exit 108 901000, entry exit 109 901000], by decide +kernel⟩
  probeReplay := ⟨16, [entry relay 105 31000], by decide +kernel⟩
  clientPaths := ⟨[retained firstLease], by decide +kernel⟩
  pendingNativeAuthorizations := ⟨[pending], by decide +kernel⟩ }

/-- The run to the verified final grant, evaluated. -/
theorem run_finalized :
    (∀ e ∈ (machine signatures.primitives).events start finalized, ∃ answer,
      e.output = .ok answer) ∧
      (machine signatures.primitives).run start finalized = afterFinalized :=
  run_of_leadsTo (by decide +kernel) ⟨rfl, rfl⟩

end Sample

end Volparossa.Reservation.ReservationCoordinator
