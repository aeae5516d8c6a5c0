import Volparossa.Protocol.Envelope

/-!
# Attempts that verify several messages

An operation that verifies one message after another against a replay cache, and refuses some of
them for reasons of its own, must not leave behind that it has seen them: the sender may repeat a
message in a use that is right. An `Attempt` is such an operation. It threads the cache and keeps
the keys that it recorded; `settle` runs it and takes the keys back, the last first, when it fails.

`Attempt.Restores` says that this is enough: rolling back what was recorded leaves the entries that
have not expired as they were. It is kept by sequencing, and `Attempt.settle_error` concludes that a
failed attempt leaves a cache that no later check tells from the one before it
(`ReplayCache.Alike`).
-/

namespace Volparossa.Protocol

open Transaction (Crypto)

namespace ReplayCache

/-- Take back what an attempt recorded, the last first. -/
def rollbackAll (cache : ReplayCache) (accepted : List ReplayKey) : ReplayCache :=
  accepted.foldr (fun key cache => (cache.rollback key).2) cache

theorem rollbackAll_append_singleton (cache : ReplayCache) (accepted : List ReplayKey)
    (key : ReplayKey) :
    cache.rollbackAll (accepted ++ [key]) = (cache.rollback key).2.rollbackAll accepted := by
  rw [rollbackAll, List.foldr_append]
  rfl

/-- Two caches with the same limit and the same entries that have not expired: no check from then on
tells them apart (`Alike.checkAndInsert`). -/
structure Alike (nowMs : ℕ) (cache cache' : ReplayCache) : Prop where
  limit : cache.maximumEntries = cache'.maximumEntries
  live : cache.live nowMs = cache'.live nowMs

theorem Alike.refl (nowMs : ℕ) (cache : ReplayCache) : Alike nowMs cache cache := ⟨rfl, rfl⟩

variable {nowMs : ℕ} {cache cache' : ReplayCache}

theorem Alike.trans {cache'' : ReplayCache} (h : Alike nowMs cache cache')
    (h' : Alike nowMs cache' cache'') : Alike nowMs cache cache'' :=
  ⟨h.limit.trans h'.limit, h.live.trans h'.live⟩

/-- Dropping what has expired and taking back a key may change places. -/
theorem live_rollback (cache : ReplayCache) (key : ReplayKey) (nowMs : ℕ) :
    (cache.rollback key).2.live nowMs = (cache.live nowMs).erase key := by
  apply Table.ext
  simp only [rollback, live, Table.erase, Table.filter, List.filter_filter, Bool.and_comm]

theorem Alike.rollback (h : Alike nowMs cache cache')
    (key : ReplayKey) : Alike nowMs (cache.rollback key).2 (cache'.rollback key).2 :=
  ⟨h.limit, by rw [live_rollback, live_rollback, h.live]⟩

/-- Taking keys back from caches that are alike leaves caches that are alike. -/
theorem Alike.rollbackAll (h : Alike nowMs cache cache') (accepted : List ReplayKey) :
    Alike nowMs (cache.rollbackAll accepted) (cache'.rollbackAll accepted) := by
  induction accepted with
  | nil => exact h
  | cons key accepted ih => exact ih.rollback key

theorem alike_live (cache : ReplayCache) (nowMs : ℕ) :
    Alike nowMs { cache with entries := cache.live nowMs } cache := by
  refine ⟨rfl, Table.ext ?_⟩
  simp only [live, Table.filter, List.filter_filter, Bool.and_self]

/-- A key that was recorded when it was new, and then taken back, leaves no trace. -/
theorem alike_rollback_put (cache : ReplayCache) (entry : ReplayEntry)
    (h : (cache.live nowMs).lookup entry.key = none) :
    Alike nowMs (ReplayCache.rollback { cache with entries := (cache.live nowMs).put entry }
      entry.key).2 cache := by
  have herase : (ReplayCache.rollback { cache with entries := (cache.live nowMs).put entry }
      entry.key).2 = { cache with entries := cache.live nowMs } := by
    rw [ReplayCache.rollback, Table.erase_put h]
  rw [herase]
  exact cache.alike_live nowMs

/-- What is live later was live before. -/
theorem live_of_le (cache : ReplayCache) {laterMs : ℕ} (h : nowMs ≤ laterMs) :
    cache.live laterMs = (cache.live nowMs).filter fun e => decide (laterMs < e.expiresAtMs) := by
  apply Table.ext
  simp only [live, Table.filter, List.filter_filter]
  apply List.filter_congr
  intro e _
  rw [← Bool.decide_and, decide_eq_decide]
  omega

/-- Caches that are alike answer every later check alike. -/
theorem Alike.checkAndInsert {laterMs : ℕ} (h : Alike nowMs cache cache') (hle : nowMs ≤ laterMs)
    (key : ReplayKey) (expiresAtMs : ℕ) :
    (cache.checkAndInsert key expiresAtMs laterMs).1 =
      (cache'.checkAndInsert key expiresAtMs laterMs).1 := by
  have hlive : cache.live laterMs = cache'.live laterMs := by
    rw [cache.live_of_le hle, cache'.live_of_le hle, h.live]
  simp only [ReplayCache.checkAndInsert, hlive, h.limit]

/-- Caches that are alike accept the same messages from then on. -/
theorem Alike.verifyControlMessage {laterMs : ℕ} (h : Alike nowMs cache cache')
    (hle : nowMs ≤ laterMs) (crypto : Crypto) (T : Type)
    [ControlPayload T] (encoded : Bytes) (policy : TimePolicy) :
    (Protocol.verifyControlMessage (T := T) crypto encoded laterMs policy cache).1 =
      (Protocol.verifyControlMessage (T := T) crypto encoded laterMs policy cache').1 := by
  unfold Protocol.verifyControlMessage
  cases openControlMessage (T := T) crypto encoded laterMs policy with
  | error e => rfl
  | ok v =>
    have hcheck := h.checkAndInsert hle v.key v.expiresAtMs
    rcases hc : cache.checkAndInsert v.key v.expiresAtMs laterMs with ⟨_ | _, _⟩ <;>
      rcases hc' : cache'.checkAndInsert v.key v.expiresAtMs laterMs with ⟨_ | _, _⟩ <;>
        simp only [hc, hc', reduceCtorEq] at hcheck <;>
          simp only [hc, hc', Except.error.injEq] at hcheck ⊢
    exact hcheck

theorem rollback_comm (cache : ReplayCache) (key key' : ReplayKey) :
    ((cache.rollback key).2.rollback key').2 = ((cache.rollback key').2.rollback key).2 := by
  simp only [rollback, Table.erase_comm]

end ReplayCache

section Verify

variable {crypto : Crypto} {T : Type} [ControlPayload T] {encoded : Bytes} {nowMs : ℕ}
  {policy : TimePolicy} {cache cache' : ReplayCache}

/-- A verification that fails leaves no trace. -/
theorem alike_of_verify_error {e : ProtocolError}
    (h : verifyControlMessage (T := T) crypto encoded nowMs policy cache = (.error e, cache')) :
    cache'.Alike nowMs cache := by
  rcases verifyControlMessage_spec (T := T) crypto encoded nowMs policy cache with
    ⟨v, -, hverify, -, -⟩ | ⟨e', entries, hentries, hverify⟩
  · rw [hverify] at h
    cases h
  · rw [hverify, Prod.mk.injEq] at h
    obtain ⟨-, rfl⟩ := h
    rcases hentries with rfl | rfl
    · exact .refl _ _
    · exact cache.alike_live nowMs

/-- A verification succeeds when its message opens, its key is not live and there is room for it,
and records the key. -/
theorem verify_eq_ok {v : VerifiedControlMessage T} :
    verifyControlMessage crypto encoded nowMs policy cache = (.ok v, cache') ↔
      openControlMessage crypto encoded nowMs policy = .ok v ∧
      (cache.live nowMs).lookup v.key = none ∧
      (cache.live nowMs).rows.length < cache.maximumEntries ∧
      cache' = { cache with entries := (cache.live nowMs).put ⟨v.key, v.expiresAtMs⟩ } := by
  constructor
  · intro h
    rcases verifyControlMessage_spec (T := T) crypto encoded nowMs policy cache with
      ⟨v', hopen, hverify, hkey, hroom⟩ | ⟨e', entries, hentries, hverify⟩
    · rw [hverify, Prod.mk.injEq, Except.ok.injEq] at h
      obtain ⟨rfl, rfl⟩ := h
      exact ⟨hopen, hkey, hroom, rfl⟩
    · rw [hverify] at h
      cases h
  · rintro ⟨hopen, hkey, hroom, rfl⟩
    simp only [verifyControlMessage, hopen, ReplayCache.checkAndInsert, hkey, ne_eq,
      not_true_eq_false, if_false, if_neg hroom.not_ge]

section

variable {v : VerifiedControlMessage T}
  (h : verifyControlMessage crypto encoded nowMs policy cache = (.ok v, cache'))

include h

/-- The key of a verification that succeeds is live after it. -/
theorem mem_live_of_verify_ok :
    (⟨v.key, v.expiresAtMs⟩ : ReplayEntry) ∈ (cache'.live nowMs).rows := by
  obtain ⟨hopen, -, -, rfl⟩ := verify_eq_ok.mp h
  exact Table.mem_filter.mpr
    ⟨Table.mem_put.mpr (.inl rfl), decide_eq_true (lt_of_openControlMessage crypto hopen)⟩

/-- A verification that succeeds leaves no trace when its key is taken back. -/
theorem alike_of_verify_ok : (cache'.rollback v.key).2.Alike nowMs cache := by
  obtain ⟨-, hkey, -, rfl⟩ := verify_eq_ok.mp h
  exact cache.alike_rollback_put ⟨v.key, v.expiresAtMs⟩ hkey

/-- A verification that succeeds is seen: its key was not live before, and is now. -/
theorem not_alike_of_verify_ok : cache'.live nowMs ≠ cache.live nowMs := by
  intro hlive
  have hsome := (cache.live nowMs).lookup_key (hlive ▸ mem_live_of_verify_ok h)
  rw [(verify_eq_ok.mp h).2.1] at hsome
  cases hsome

/-- A message that was just accepted is a replay. -/
theorem verify_again :
    (verifyControlMessage (T := T) crypto encoded nowMs policy cache').1 = .error .replay := by
  have hsome := Table.lookup_key _ (mem_live_of_verify_ok h)
  simp only [verifyControlMessage, (verify_eq_ok.mp h).1, ReplayCache.checkAndInsert]
  rw [if_pos (by rw [hsome]; exact Option.some_ne_none _)]

end

end Verify

/-- An operation on a replay cache that can fail: its result, the cache after it, and the keys that
were recorded since the start. -/
def Attempt (ε α : Type) : Type :=
  ReplayCache → List ReplayKey → Except ε α × ReplayCache × List ReplayKey

namespace Attempt

variable {ε α β : Type}

instance : Monad (Attempt ε) where
  pure a := fun cache accepted => (.ok a, cache, accepted)
  bind x f := fun cache accepted =>
    match x cache accepted with
    | (.ok a, cache, accepted) => f a cache accepted
    | (.error e, cache, accepted) => (.error e, cache, accepted)

/-- A computation that does not look at the cache. -/
def lift (x : Except ε α) : Attempt ε α := fun cache accepted => (x, cache, accepted)

/-- Fail with `e` when `p` holds. -/
def refuse (p : Prop) [Decidable p] (e : ε) : Attempt ε Unit := lift (Volparossa.refuse p e)

/-- The value of `x`, or the failure `e` when there is none. -/
def orFail (x : Option α) (e : ε) : Attempt ε α := lift (Volparossa.orFail x e)

/-- Verify a message and remember that it was recorded. -/
def verify (crypto : Crypto) (T : Type) [ControlPayload T] (encoded : Bytes) (nowMs : ℕ)
    (policy : TimePolicy) (wrap : ProtocolError → ε) : Attempt ε (VerifiedControlMessage T) :=
  fun cache accepted =>
    match verifyControlMessage crypto encoded nowMs policy cache with
    | (.error e, cache) => (.error (wrap e), cache, accepted)
    | (.ok verified, cache) => (.ok verified, cache, accepted ++ [verified.key])

/-- Run an attempt; if it fails, take back what it recorded. -/
def settle (x : Attempt ε α) (cache : ReplayCache) : Except ε α × ReplayCache :=
  match x cache [] with
  | (.ok a, cache, _) => (.ok a, cache)
  | (.error e, cache, accepted) => (.error e, cache.rollbackAll accepted)

/-- Taking back what was recorded so far comes to the same before and after `x`. -/
def Restores (nowMs : ℕ) (x : Attempt ε α) : Prop :=
  ∀ cache accepted, (((x cache accepted).2.1.rollbackAll (x cache accepted).2.2).Alike nowMs
    (cache.rollbackAll accepted))

variable {nowMs : ℕ}

theorem restores_pure (a : α) : Restores nowMs (pure a : Attempt ε α) := fun _ _ => .refl _ _

theorem restores_lift (x : Except ε α) : Restores nowMs (lift x) := fun _ _ => .refl _ _

theorem Restores.bind {x : Attempt ε α} {f : α → Attempt ε β} (hx : Restores nowMs x)
    (hf : ∀ a, Restores nowMs (f a)) : Restores nowMs (x >>= f) := by
  intro cache accepted
  have hx := hx cache accepted
  simp only [Bind.bind]
  rcases hrun : x cache accepted with ⟨_ | a, cache', accepted'⟩ <;> rw [hrun] at hx
  · exact hx
  · exact (hf a cache' accepted').trans hx

theorem restores_verify (crypto : Crypto) (T : Type) [ControlPayload T] (encoded : Bytes)
    (policy : TimePolicy) (wrap : ProtocolError → ε) :
    Restores nowMs (verify crypto T encoded nowMs policy wrap) := by
  intro cache accepted
  simp only [verify]
  rcases hverify : verifyControlMessage (T := T) crypto encoded nowMs policy cache with
    ⟨e | v, cache'⟩
  · exact (alike_of_verify_error hverify).rollbackAll accepted
  · rw [ReplayCache.rollbackAll_append_singleton]
    exact (alike_of_verify_ok hverify).rollbackAll accepted

/-- A loop of attempts. -/
theorem restores_forM {ι : Type} {f : ι → Attempt ε PUnit} (hf : ∀ i, Restores nowMs (f i))
    (l : List ι) : Restores nowMs (l.forM f) := by
  induction l with
  | nil => exact restores_pure _
  | cons i l ih => exact (hf i).bind fun _ => ih

/-- **A failed attempt leaves no trace.** -/
theorem settle_error {x : Attempt ε α} (hx : Restores nowMs x) {cache : ReplayCache} {e : ε}
    (h : (x.settle cache).1 = .error e) : (x.settle cache).2.Alike nowMs cache := by
  have hx := hx cache []
  unfold settle at h ⊢
  rcases hrun : x cache [] with ⟨_ | a, cache', accepted'⟩ <;> rw [hrun] at hx
  · exact hx
  · rw [hrun] at h
    cases h

end Attempt

end Volparossa.Protocol
