import Volparossa.Foundations.Machine
import Volparossa.Protocol.Envelope

/-!
# Replay protection along runs

Verifications of control messages that share one replay cache, with rollbacks in between: the
payload types, the bytes and the times are arbitrary, the time policy is fixed. A step either
verifies a byte string at a time or takes back one key.

The main result is **`replay_protection`**. In every run with non-decreasing times, starting from an
empty cache, the cache keeps to its limit, and an acceptance that is not rolled back has these
consequences: as long as its envelope could still pass the time check the entry stays, until its
envelope expires no message of the same sender with the same nonce is accepted, and the byte string
itself is never accepted again. The sender and the nonce alone can be accepted again, in another
envelope, when the first one has expired (`replay_protection_nonce_reused`).
-/

namespace Volparossa.Protocol.Replay

open Protobuf Machine

open Transaction (Crypto)

variable {crypto : Crypto} {policy : TimePolicy}

/-- A use of the shared cache. -/
inductive Call : Type 1 where
  | verify (T : Type) (payload : ControlPayload T) (encoded : Bytes) (nowMs : ℕ)
  | rollback (key : ReplayKey)

/-- The time at which a call is made, if it looks at the clock. -/
def Call.time : Call → Option ℕ
  | .verify _ _ _ nowMs => some nowMs
  | .rollback _ => none

/-- The byte string that a call looks at. -/
def Call.encoded : Call → Option Bytes
  | .verify _ _ encoded _ => some encoded
  | .rollback _ => none

/-- An accepted message, without its payload. -/
structure Acceptance where
  key : ReplayKey
  timestampMs : ℕ
  expiresAtMs : ℕ
  deriving DecidableEq

/-- The result of a call. -/
inductive Output where
  | verified (result : Except ProtocolError Acceptance)
  | rolledBack (found : Bool)

/-- What the call accepted. -/
def Output.accepted : Output → Option Acceptance
  | .verified (.ok a) => some a
  | _ => none

/-- The cache as a machine. -/
def machine (crypto : Crypto) (policy : TimePolicy) : Machine ReplayCache Call Output where
  step cache
    | .verify T _ encoded nowMs =>
      let (result, cache) := verifyControlMessage (T := T) crypto encoded nowMs policy cache
      (.verified (result.map fun v => ⟨v.key, v.timestampMs, v.expiresAtMs⟩), cache)
    | .rollback key =>
      let (found, cache) := cache.rollback key
      (.rolledBack found, cache)

/-! ## One step -/

variable {cache : ReplayCache} {call : Call} {a : Acceptance}

/-- What a step that accepts something does. -/
theorem accepted_spec (h : ((machine crypto policy).event cache call).output.accepted = some a) :
    ∃ encoded nowMs, call.encoded = some encoded ∧ call.time = some nowMs ∧
      (∃ envelope : SignedEnvelope, decodeCanonical encoded maxControlMessageSize = .ok envelope ∧
        envelope.senderId = a.key.senderId.toBytes ∧ envelope.nonce = a.key.nonce.toBytes ∧
        a.expiresAtMs = envelope.expiresAtMs) ∧
      nowMs < a.expiresAtMs ∧ (cache.live nowMs).lookup a.key = none ∧
      ⟨a.key, a.expiresAtMs⟩ ∈ ((machine crypto policy).next cache call).entries.rows := by
  cases call with
  | rollback key => cases h
  | verify T payload encoded nowMs =>
    rcases verifyControlMessage_spec (T := T) crypto encoded nowMs policy cache with
      ⟨v, hopen, hverify, hkey, -⟩ | ⟨e, entries, -, hverify⟩
    · simp only [event, machine, hverify, Except.map, Output.accepted,
        Option.some.injEq] at h
      subst h
      obtain ⟨envelope, hdecode, hfields, -, -, -, -, hexpires⟩ :=
        (openControlMessage_eq_ok crypto).mp hopen
      obtain ⟨hsender, hnonce⟩ := sender_nonce_of_verifyEnvelope crypto hfields
      refine ⟨encoded, nowMs, rfl, rfl, ⟨envelope, hdecode, hsender, hnonce, hexpires⟩,
        lt_of_openControlMessage crypto hopen, hkey, ?_⟩
      simp only [next, machine, hverify]
      exact Table.mem_put.mpr (Or.inl rfl)
    · simp only [event, machine, hverify, Except.map, Output.accepted] at h
      cases h

/-- A step keeps an entry that it does not roll back and that has not expired. -/
theorem mem_next {entry : ReplayEntry}
    (hmem : entry ∈ cache.entries.rows) (hback : call ≠ .rollback entry.key)
    (htime : ∀ t, call.time = some t → t < entry.expiresAtMs) :
    entry ∈ ((machine crypto policy).next cache call).entries.rows := by
  cases call with
  | rollback key =>
    refine Table.mem_erase.mpr ⟨hmem, fun hkey => hback ?_⟩
    rw [hkey]
  | verify T payload encoded nowMs =>
    have hlive : entry ∈ (cache.live nowMs).rows :=
      Table.mem_filter.mpr ⟨hmem, decide_eq_true (htime nowMs rfl)⟩
    rcases verifyControlMessage_spec (T := T) crypto encoded nowMs policy cache with
      ⟨v, -, hverify, hkey, -⟩ | ⟨e, entries, hentries, hverify⟩
    · simp only [next, machine, hverify]
      exact Table.mem_put.mpr (Or.inr ⟨hlive, (Table.lookup_eq_none _ _).mp hkey entry hlive⟩)
    · simp only [next, machine, hverify]
      rcases hentries with rfl | rfl
      · exact hmem
      · exact hlive

/-- A step keeps the limit, and the entries within it. -/
theorem length_next (crypto : Crypto) (policy : TimePolicy) {capacity : ℕ} (cache : ReplayCache)
    (call : Call)
    (h : cache.maximumEntries = capacity ∧ cache.entries.rows.length ≤ capacity) :
    ((machine crypto policy).next cache call).maximumEntries = capacity ∧
      ((machine crypto policy).next cache call).entries.rows.length ≤ capacity := by
  obtain ⟨hmax, hlen⟩ := h
  cases call with
  | rollback key => exact ⟨hmax, (List.length_filter_le _ _).trans hlen⟩
  | verify T payload encoded nowMs =>
    have hlive : (cache.live nowMs).rows.length ≤ cache.entries.rows.length :=
      Table.length_filter_le _ _
    rcases verifyControlMessage_spec (T := T) crypto encoded nowMs policy cache with
      ⟨v, -, hverify, hkey, hroom⟩ | ⟨e, entries, hentries, hverify⟩
    · simp only [next, machine, hverify]
      refine ⟨hmax, ?_⟩
      rw [Table.rows_put hkey, List.length_append, List.length_singleton]
      omega
    · simp only [next, machine, hverify]
      rcases hentries with rfl | rfl
      · exact ⟨hmax, hlen⟩
      · exact ⟨hmax, hlive.trans hlen⟩

/-! ## Runs -/

/-- A run keeps an entry that it does not roll back and that has not expired. -/
theorem mem_run (entry : ReplayEntry) {calls : List Call}
    (hback : ∀ call ∈ calls, call ≠ .rollback entry.key)
    (htime : ∀ call ∈ calls, ∀ t, call.time = some t → t < entry.expiresAtMs)
    (hmem : entry ∈ cache.entries.rows) :
    entry ∈ ((machine crypto policy).run cache calls).entries.rows := by
  induction calls generalizing cache with
  | nil => exact hmem
  | cons call calls ih =>
    refine ih (fun c hc => hback c (by simp [hc])) (fun c hc => htime c (by simp [hc])) ?_
    exact mem_next hmem (hback call (by simp)) (htime call (by simp))

/-- In a run with non-decreasing times, a call is made no later than the ones after it. -/
theorem time_le {before between after : List Call} {call' : Call}
    (h : ((before ++ call :: (between ++ call' :: after)).filterMap Call.time).Pairwise (· ≤ ·))
    {t : ℕ} (ht : call'.time = some t) : ∀ c ∈ between, ∀ t', c.time = some t' → t' ≤ t := by
  intro c hc t' ht'
  have hpair := (List.pairwise_cons.mp
    (List.pairwise_append.mp (List.pairwise_filterMap.mp h)).2.1).2
  exact (List.pairwise_append.mp hpair).2.2 c hc call' (by simp) t' ht' t ht

/-- While the entry of an acceptance is in the cache and has not expired, its key is refused. -/
theorem expired_of_accepted {a' : Acceptance} (hmem : ⟨a.key, a.expiresAtMs⟩ ∈ cache.entries.rows)
    (haccepted : ((machine crypto policy).event cache call).output.accepted = some a')
    (hkey : a'.key = a.key) : ∀ t, call.time = some t → a.expiresAtMs ≤ t := by
  obtain ⟨-, nowMs, -, hnow, -, -, hlookup, -⟩ := accepted_spec haccepted
  intro t ht
  obtain rfl : nowMs = t := Option.mem_unique hnow ht
  by_contra hlt
  rw [hkey] at hlookup
  exact (Table.lookup_eq_none _ _).mp hlookup ⟨a.key, a.expiresAtMs⟩
    (Table.mem_filter.mpr ⟨hmem, decide_eq_true (not_le.mp hlt)⟩) rfl

/-- Two acceptances of one byte string have the same key and the same expiry. -/
theorem key_eq_of_encoded_eq {cache' : ReplayCache} {call' : Call} {a' : Acceptance}
    (h : ((machine crypto policy).event cache call).output.accepted = some a)
    (h' : ((machine crypto policy).event cache' call').output.accepted = some a')
    (heq : call'.encoded = call.encoded) : a'.key = a.key ∧ a'.expiresAtMs = a.expiresAtMs := by
  obtain ⟨encoded, -, hencoded, -, ⟨envelope, hdecode, hsender, hnonce, hexpires⟩, -⟩ :=
    accepted_spec h
  obtain ⟨encoded', -, hencoded', -, ⟨envelope', hdecode', hsender', hnonce', hexpires'⟩, -⟩ :=
    accepted_spec h'
  obtain rfl : encoded' = encoded := Option.some.inj (by rw [← hencoded', ← hencoded, heq])
  obtain rfl : envelope' = envelope := ok_unique hdecode' hdecode
  exact ⟨ReplayKey.ext (FixedBytes.toBytes_injective (hsender'.symm.trans hsender))
    (FixedBytes.toBytes_injective (hnonce'.symm.trans hnonce)), by rw [hexpires, hexpires']⟩

/-- What an acceptance means for a later call, if it is not rolled back by then and no call in
between is made later than that one. -/
theorem protected_of_accepted {call' : Call}
    (haccepted : ((machine crypto policy).event cache call).output.accepted = some a)
    {between : List Call} (hback : ∀ c ∈ between ++ [call'], c ≠ .rollback a.key)
    (hle : ∀ t, call'.time = some t → ∀ c ∈ between, ∀ t', c.time = some t' → t' ≤ t)
    {e' : Machine.Event ReplayCache Call Output}
    (he' : e' = (machine crypto policy).event ((machine crypto policy).run
      ((machine crypto policy).event cache call).after between) call') :
    (∀ t, (∀ c ∈ between ++ [call'], ∀ t', c.time = some t' → t' ≤ t) →
      policy.validateAt a.timestampMs a.expiresAtMs t = .ok () →
        ⟨a.key, a.expiresAtMs⟩ ∈ e'.after.entries.rows) ∧
    (∀ a', e'.output.accepted = some a' → a'.key = a.key →
      ∀ t, call'.time = some t → a.expiresAtMs ≤ t) ∧
    (call'.encoded = call.encoded → e'.output.accepted = none) := by
  obtain ⟨-, -, -, -, -, -, -, hentry⟩ := accepted_spec haccepted
  have hreuse : ∀ a', e'.output.accepted = some a' → a'.key = a.key →
      ∀ t, call'.time = some t → a.expiresAtMs ≤ t := by
    intro a' haccepted' hkey t ht
    by_contra hlt
    rw [he'] at haccepted'
    refine hlt (expired_of_accepted (mem_run ⟨a.key, a.expiresAtMs⟩
      (fun c hc => hback c (by simp [hc])) (fun c hc t' ht' => ?_) hentry) haccepted' hkey t ht)
    have := hle t ht c hc t' ht'
    exact lt_of_le_of_lt this (not_le.mp hlt)
  refine ⟨fun t hlast hvalid => ?_, hreuse, fun hencoded => ?_⟩
  · have hlt := TimePolicy.lt_of_validateAt hvalid
    have hmem := @mem_run crypto policy _ ⟨a.key, a.expiresAtMs⟩ _ hback
      (fun c hc t' ht' => lt_of_le_of_lt (hlast c hc t' ht') hlt) hentry
    rw [run_append] at hmem
    rwa [he']
  · cases haccepted' : e'.output.accepted with
    | none => rfl
    | some a' =>
      have hevent := haccepted'
      rw [he'] at hevent
      obtain ⟨hkey, hexpires⟩ := key_eq_of_encoded_eq haccepted hevent hencoded
      obtain ⟨-, nowMs, -, hnow, -, hlt, -⟩ := accepted_spec hevent
      have := hreuse a' haccepted' hkey nowMs hnow
      omega

/-! ## A sender that uses a nonce again -/

/-- Correlated opaque proof, or an empty bundle for a cache miss. -/
structure DnsCacheReply where
  requestHash : Bytes
  bundle : Bytes
  deriving DecidableEq

/-- Maximum opaque DNSSEC proof carried by a cache reply. -/
def maxDnsCacheBundleBytes : ℕ := 128 * 1024

instance : ControlPayload DnsCacheReply where
  toMessage := schema ⟨[], []⟩ [
    .bytes 1 (·.requestHash) ({ · with requestHash := · }),
    .bytes 2 (·.bundle) ({ · with bundle := · })]
  messageType := .dnsCacheReply
  validate _ m := refuse (m.requestHash.length ≠ 32 ∨ m.bundle.length > maxDnsCacheBundleBytes)
    (.invalidField "DNS cache reply")
  validateEnvelope _ _ _ := .ok ()

/-- The Ed25519 public key of the seed whose bytes are all `1`. -/
def sampleKey : FixedBytes 32 :=
  .ofNat 32 0x8a88e3dd7409f195fd52db2d3cba5d72ca6709bf1d94121bf3748801b40f6f5c

/-- Two signatures of that key. -/
def sampleSignatures : Signatures :=
  [(sampleKey, .ofNat 32 0x4d7699df95c5c47f7202995e0a883423bcdede05e2dca15e976dc7c6e6f154f4,
      .ofNat 64 (0xe7d609b15fe201f4c32377eb0da8cb9b75f9b48fadfb40be71e69b787d148af5 <<< 256 +
        0x000ce5cbb18e0c00aaea57ec749f4b925c9af7e5ce4bf69b329ad603b2a3e70d)),
    (sampleKey, .ofNat 32 0x30c43a2ff49bef58fffacb97f2fd5e7cce60f4f0fe8ab17fc563b2c28bcad1f8,
      .ofNat 64 (0xc264bfd078d30bb819c2c25c6a4566e39904220f13e0edeefbc9e78de348e1d2 <<< 256 +
        0x546798a535c13c593015cd2dfee1b4c87000be52c17a115f28529fe7f7cc410c))]

/-- A reply with one and the same nonce, valid in a given second. -/
def sampleReply (second : ℕ) : Bytes :=
  let signed := signControlMessage (T := DnsCacheReply) sampleSignatures.primitives
    ⟨List.replicate 32 9, []⟩ (sampleSignatures.signingKey sampleKey) (1000 * second)
    (1000 * second + 1000) (.replicate 32 5) .default
  signed.toOption.getD []

/-- The sender and the nonce of the replies. -/
def sampleReplayKey : ReplayKey :=
  ⟨.ofNat 32 0x99bc094f126197a231c030c63960710159a1490b55e1798d6e404847de4cefd0, .replicate 32 5⟩

/-- The two replies, each at the beginning of its second. -/
def sampleCalls : List Call :=
  [.verify DnsCacheReply inferInstance (sampleReply 1) 1000,
    .verify DnsCacheReply inferInstance (sampleReply 2) 2000]

/-- Both replies are accepted. -/
theorem accepted_sampleCalls :
    ((machine sampleSignatures.primitives .default).events ⟨4, .empty⟩ sampleCalls).map
        (fun e => e.output.accepted) =
      [some ⟨sampleReplayKey, 1000, 2000⟩, some ⟨sampleReplayKey, 2000, 3000⟩] := by
  decide +kernel

/-! ## Every run -/

/-- **Replay protection.** In every run with non-decreasing times the cache keeps to its limit. If a
step `e` accepted a message and nothing up to a later step `e'` rolled it back, then the entry is
there after `e'` whenever its envelope could still pass the time check; the sender and the nonce are
accepted again by `e'` only when the envelope has expired; and the byte string is not accepted
again. -/
theorem replay_protection (crypto : Crypto) (policy : TimePolicy) {capacity : ℕ}
    {cache : ReplayCache}
    (hnew : ReplayCache.new capacity = .ok cache) {calls : List Call}
    (htimes : (calls.filterMap Call.time).Pairwise (· ≤ ·)) :
    (∀ e ∈ (machine crypto policy).events cache calls, e.after.entries.rows.length ≤ capacity) ∧
    ∀ past e mid e' later,
      (machine crypto policy).events cache calls = past ++ e :: (mid ++ e' :: later) →
      ∀ a, e.output.accepted = some a → (∀ f ∈ mid ++ [e'], f.input ≠ .rollback a.key) →
        (∀ t, (∀ f ∈ mid ++ [e'], ∀ t', f.input.time = some t' → t' ≤ t) →
          policy.validateAt a.timestampMs a.expiresAtMs t = .ok () →
            ⟨a.key, a.expiresAtMs⟩ ∈ e'.after.entries.rows) ∧
        (∀ a', e'.output.accepted = some a' → a'.key = a.key →
          ∀ t, e'.input.time = some t → a.expiresAtMs ≤ t) ∧
        (e'.input.encoded = e.input.encoded → e'.output.accepted = none) := by
  have hcache : cache.maximumEntries = capacity ∧ cache.entries.rows.length ≤ capacity := by
    simp only [ReplayCache.new, ok_iff] at hnew
    obtain ⟨-, -, rfl⟩ := hnew
    exact ⟨rfl, Nat.zero_le _⟩
  refine ⟨fun e he => ?_, ?_⟩
  · obtain ⟨hbefore, heq⟩ := events_invariant (length_next crypto policy) hcache calls e he
    rw [heq]
    exact (length_next crypto policy _ _ hbefore).2
  intro past e mid e' later hevents a haccepted hback
  obtain ⟨before, call, after, rfl, -, rfl, hrest⟩ :=
    exists_inputs_of_events_eq _ hevents
  obtain ⟨between, call', after', rfl, rfl, rfl, -⟩ :=
    exists_inputs_of_events_eq _ hrest.symm
  -- the steps from `e` to `e'` are the ones of the calls between them
  have hsteps : ∀ c ∈ between ++ [call'], ∃ f ∈ (machine crypto policy).events
      ((machine crypto policy).event ((machine crypto policy).run cache before) call).after
        between ++
      [(machine crypto policy).event ((machine crypto policy).run ((machine crypto policy).event
        ((machine crypto policy).run cache before) call).after between) call'], f.input = c := by
    intro c hc
    rw [← map_input_events (machine crypto policy) ((machine crypto policy).event
      ((machine crypto policy).run cache before) call).after (between ++ [call']),
      events_append] at hc
    exact List.mem_map.mp hc
  obtain ⟨hstays, hreuse, hbytes⟩ := protected_of_accepted haccepted
    (fun c hc => by obtain ⟨f, hf, rfl⟩ := hsteps c hc; exact hback f hf)
    (fun t ht => time_le htimes ht) rfl
  refine ⟨fun t hlast => hstays t fun c hc => ?_, hreuse, hbytes⟩
  obtain ⟨f, hf, rfl⟩ := hsteps c hc
  exact hlast f hf

/-- The first of the sample replies, sent again while it is valid, is refused. -/
theorem replay_protection_sample :
    ReplayCache.new 4 = .ok ⟨4, .empty⟩ ∧
    ([Call.verify DnsCacheReply inferInstance (sampleReply 1) 1000,
      .verify DnsCacheReply inferInstance (sampleReply 1) 1500].filterMap Call.time).Pairwise
        (· ≤ ·) ∧
    ((machine sampleSignatures.primitives .default).event
      ((machine sampleSignatures.primitives .default).next ⟨4, .empty⟩
        (.verify DnsCacheReply inferInstance (sampleReply 1) 1000))
      (.verify DnsCacheReply inferInstance (sampleReply 1) 1500)).output.accepted = none := by
  have hfirst := (List.cons.inj accepted_sampleCalls).1
  refine ⟨rfl, by simp [Call.time], ?_⟩
  generalize sampleReply 1 = reply at hfirst ⊢
  have htimes : ([Call.verify DnsCacheReply inferInstance reply 1000,
      .verify DnsCacheReply inferInstance reply 1500].filterMap Call.time).Pairwise (· ≤ ·) := by
    simp [Call.time]
  refine ((replay_protection sampleSignatures.primitives .default
    (rfl : ReplayCache.new 4 = .ok ⟨4, .empty⟩) htimes).2 [] _ [] _ [] rfl _ hfirst
    fun f hf => ?_).2.2 rfl
  obtain rfl := List.mem_singleton.mp hf
  exact nofun

/-- **A sender and a nonce are accepted twice** in a run with non-decreasing times and without any
rollback: in two envelopes, the second of which arrives when the first one has expired. -/
theorem replay_protection_nonce_reused :
    (sampleCalls.filterMap Call.time).Pairwise (· ≤ ·) ∧
    (∀ call ∈ sampleCalls, ∀ key, call ≠ .rollback key) ∧
    ∃ e e' a a', (machine sampleSignatures.primitives .default).events ⟨4, .empty⟩ sampleCalls =
        [e, e'] ∧
      e.output.accepted = some a ∧ e'.output.accepted = some a' ∧ a'.key = a.key := by
  obtain ⟨hfirst, hrest⟩ := List.cons.inj accepted_sampleCalls
  refine ⟨by simp [sampleCalls, Call.time], by simp [sampleCalls], ?_⟩
  exact ⟨_, _, _, _, rfl, hfirst, (List.cons.inj hrest).1, rfl⟩

end Volparossa.Protocol.Replay
