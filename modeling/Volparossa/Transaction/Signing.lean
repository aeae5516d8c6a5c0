import Volparossa.Foundations.Protobuf.RoundTrip
import Volparossa.Transaction.Wire

/-!
# Who signed a command

The bytes of a signed command are determined by what was signed. Bodies and envelopes are lawful
messages, so `verifyMode` reads back what `signMode` wrote. The envelope carries the version of the
mode and the body names the ledger, so no bytes are accepted for two ledgers or for both modes. And
the signature covers the domain of the mode and every field of the envelope but itself: if no forged
signature of a key circulates and the key signs commands for its requests only, whatever is accepted
for its payer is, byte for byte, the output of `signMode` on a request of that key
(`Opens.sign_eq`).
-/

namespace Volparossa.Transaction

open Protobuf Protocol LawfulMessage

/-! ## Bodies and envelopes are read back -/

instance : LawfulMessage Body := lawful
  (fun m => m.version < 2 ^ 32 ∧ m.kind < 2 ^ 32 ∧ m.units < 2 ^ 64) (by decide)
  fun _ ⟨hversion, hkind, hunits⟩ =>
    .cons (.uint32 hversion) <| .cons .bytes <| .cons .bytes <| .cons .bytes <| .cons .bytes <|
    .cons (.uint32 hkind) <| .cons .bytes <| .cons (.uint64 hunits) .nil

instance : LawfulMessage Envelope := lawful
  (fun m => m.version < 2 ^ 32 ∧ m.validFrom < 2 ^ 64 ∧ m.expires < 2 ^ 64) (by decide)
  fun _ ⟨hversion, hvalidFrom, hexpires⟩ =>
    .cons (.uint32 hversion) <| .cons .bytes <| .cons (.uint64 hvalidFrom) <|
    .cons (.uint64 hexpires) <| .cons .bytes <| .cons .bytes <| .cons .bytes <| .cons .bytes .nil

/-! ## What is signed -/

/-- What a key is asked to sign. -/
structure SigningRequest where
  ledger : LedgerId
  command : Command
  validFrom : ℕ
  expires : ℕ
  nonce : FixedBytes 32
  mode : Mode

namespace SigningRequest

/-- The integers of a request have 64 bits. -/
def Fits (r : SigningRequest) : Prop :=
  r.validFrom < 2 ^ 64 ∧ r.expires < 2 ^ 64 ∧ (actionTerms r.command.action).2.2 < 2 ^ 64

def body (r : SigningRequest) : Body :=
  ⟨modeVersion r.mode, testUnit, r.ledger.toBytes, r.command.operationId.toBytes,
    r.command.payer.toBytes, (actionTerms r.command.action).1,
    (actionTerms r.command.action).2.1.toBytes, (actionTerms r.command.action).2.2⟩

/-- The envelope of a request with a signature. -/
def envelope (crypto : Crypto) (key : SigningKey) (r : SigningRequest) (signature : Bytes) :
    Envelope :=
  ⟨modeVersion r.mode, key.verifyingKey.toBytes, r.validFrom, r.expires, r.nonce.toBytes,
    encode r.body, (crypto.sha256 (encode r.body)).toBytes, signature⟩

/-- The message that `signMode` signs for a request. -/
def message (crypto : Crypto) (key : SigningKey) (r : SigningRequest) : Except Error Bytes :=
  signingBytes (r.envelope crypto key [])

/-- `signMode` on a request. -/
def sign (crypto : Crypto) (key : SigningKey) (r : SigningRequest) : Except Error Bytes :=
  signMode crypto r.ledger key r.command r.validFrom r.expires r.nonce r.mode

variable {crypto : Crypto} {key : SigningKey} {r : SigningRequest} {b : Bytes}

theorem sign_eq_ok : r.sign crypto key = .ok b ↔ ∃ m v, (encode r.body).length ≤ maxBytes ∧
    r.message crypto key = .ok m ∧ encode (r.envelope crypto key (key.sign m)) = b ∧
    b.length ≤ maxBytes ∧ verifyMode crypto b r.ledger r.mode = .ok v := by
  unfold sign signMode message envelope body
  rcases actionTerms r.command.action with ⟨kind, target, units⟩
  simp only [ok_iff, encodeCanonical_eq_ok]
  constructor
  · rintro ⟨_, ⟨hbody, rfl⟩, m, hm, _, ⟨hlen, rfl⟩, v, hv, rfl⟩
    exact ⟨m, v, hbody, hm, rfl, hlen, hv⟩
  · rintro ⟨m, v, hbody, hm, rfl, hlen, hv⟩
    exact ⟨_, ⟨hbody, rfl⟩, m, hm, _, ⟨hlen, rfl⟩, v, hv, rfl⟩

theorem modeVersion_lt (mode : Mode) : modeVersion mode < 2 ^ 32 := by
  cases mode <;> decide

theorem modeVersion_injective : Function.Injective modeVersion := by
  intro mode mode' h
  cases mode <;> cases mode' <;> simp_all [modeVersion]

theorem fits_body (h : r.Fits) : LawfulMessage.Fits r.body := by
  refine ⟨modeVersion_lt _, ?_, h.2.2⟩
  unfold body
  cases r.command.action <;> simp [actionTerms]

theorem fits_envelope (h : r.Fits) (signature : Bytes) :
    LawfulMessage.Fits (r.envelope crypto key signature) :=
  ⟨modeVersion_lt _, h.1, h.2.1⟩

end SigningRequest

/-! ## What is accepted -/

/-- What an accepted byte string holds. -/
structure Opens (crypto : Crypto) (b : Bytes) (ledger : LedgerId) (mode : Mode) (v : Verified)
    (envelope : Envelope) (body : Body) : Prop where
  decoded : decodeCanonical b maxBytes = .ok envelope
  payload : decodeCanonical envelope.payload maxBytes = .ok body
  version : envelope.version = modeVersion mode
  window : envelope.validFrom ≤ envelope.expires ∧ envelope.expires ≤ maxUnits
  ledger : body.ledger = ledger.toBytes
  payer : body.payer = v.command.payer.toBytes
  signed : ∃ m, signingBytes envelope = .ok m ∧
    crypto.verifyStrict v.command.payer m envelope.signature = true
  action : ∃ target, body.target = target.toBytes ∧
    bodyAction body v.command.payer target = .ok v.command.action
  operation : body.operation = v.command.operationId.toBytes
  nonce : envelope.nonce = v.nonce.toBytes
  times : v.validFrom = envelope.validFrom ∧ v.expires = envelope.expires

theorem identifier_eq_ok {b : Bytes} {x : FixedBytes 32} (h : identifier b = .ok x) :
    b = x.toBytes := by
  simp only [identifier, ok_iff] at h
  obtain ⟨value, hvalue, -, -, rfl⟩ := h
  exact FixedBytes.ofBytes_eq_some.mp hvalue

theorem exists_opens {crypto : Crypto} {b : Bytes} {ledger : LedgerId} {mode : Mode} {v : Verified}
    (h : verifyMode crypto b ledger mode = .ok v) :
    ∃ envelope body, Opens crypto b ledger mode v envelope body := by
  simp only [verifyMode, ok_iff, not_or, not_not] at h
  obtain ⟨envelope, henvelope, body, hbody, -, ⟨hversion, -, -, hwindow, hexpires, -⟩, bodyLedger,
    hledger, -, rfl, payer, hpayer, -, -, -, -, -, -, m, hm, -, hsigned, target, htarget, action,
    haction, operationId, hoperation, nonce, hnonce, rfl⟩ := h
  refine ⟨envelope, body, henvelope, hbody, hversion, ⟨?_, by omega⟩, identifier_eq_ok hledger,
    identifier_eq_ok hpayer, ⟨m, hm, by simpa using hsigned⟩,
    ⟨target, identifier_eq_ok htarget, haction⟩,
    identifier_eq_ok hoperation, identifier_eq_ok hnonce, rfl, rfl⟩
  by_contra hlt
  exact hwindow (by rw [checkedSub, if_neg hlt]; rfl)

namespace Opens

variable {crypto : Crypto} {b : Bytes} {ledger ledger' : LedgerId} {mode mode' : Mode}
  {v v' : Verified} {envelope envelope' : Envelope} {body body' : Body} {key : SigningKey}
  {r : SigningRequest}

/-- The same bytes are accepted for one ledger and one mode only. -/
theorem unique (h : Opens crypto b ledger mode v envelope body)
    (h' : Opens crypto b ledger' mode' v' envelope' body') : ledger = ledger' ∧ mode = mode' := by
  obtain rfl := ok_unique h.decoded h'.decoded
  obtain rfl := ok_unique h.payload h'.payload
  exact ⟨FixedBytes.toBytes_injective (h.ledger.symm.trans h'.ledger),
    SigningRequest.modeVersion_injective (h.version.symm.trans h'.version)⟩

/-- The body of a request describes its action and no other. -/
theorem bodyAction_body {payer target : FixedBytes 32} {a : Action}
    (htarget : r.body.target = target.toBytes) (h : bodyAction r.body payer target = .ok a) :
    a = r.command.action := by
  obtain rfl := FixedBytes.toBytes_injective htarget
  unfold SigningRequest.body bodyAction at h
  cases haction : r.command.action with
  | reserve recipient units =>
    simp only [haction, actionTerms] at h
    split_ifs at h with h1 h2 h3
    · exact (Except.ok.inj h).symm
    · exact absurd h2.1 (by decide)
    · exact absurd h3.1 (by decide)
  | commit id =>
    simpa [haction, actionTerms, eq_comm] using h
  | cancel id =>
    simpa [haction, actionTerms, eq_comm] using h

/-- What is accepted with the envelope and the body of a request is the request. -/
theorem eq_request {signature : Bytes}
    (h : Opens crypto b ledger mode v (r.envelope crypto key signature) r.body) :
    r.ledger = ledger ∧ r.mode = mode ∧ v = ⟨r.command, r.nonce, r.validFrom, r.expires⟩ := by
  obtain ⟨target, htarget, haction⟩ := h.action
  have haction := bodyAction_body htarget haction
  have hoperation := FixedBytes.toBytes_injective h.operation
  have hpayer := FixedBytes.toBytes_injective h.payer
  have hnonce := FixedBytes.toBytes_injective h.nonce
  obtain ⟨⟨operationId, payer, action⟩, nonce, validFrom, expires⟩ := v
  obtain ⟨hfrom, hexpires⟩ := h.times
  refine ⟨FixedBytes.toBytes_injective h.ledger, SigningRequest.modeVersion_injective h.version, ?_⟩
  dsimp only at haction hoperation hpayer hnonce hfrom hexpires
  subst haction hoperation hpayer hnonce hfrom hexpires
  rfl

/-- The two domains are told apart by their first bytes. -/
theorem domain_append_ne (x y : Bytes) : domain ++ x ≠ orderedDomain ++ y := by
  intro h
  have htake := congrArg (List.take 24) h
  rw [List.take_append_of_le_length (by decide), List.take_append_of_le_length (by decide)] at htake
  exact absurd htake (by decide)

/-- What is signed determines the envelope but for its signature. -/
theorem unsigned_eq {m : Bytes} (h : signingBytes envelope = .ok m)
    (h' : signingBytes envelope' = .ok m) (hfits : Fits envelope) (hfits' : Fits envelope') :
    { envelope with signature := [] } = { envelope' with signature := [] } := by
  simp only [signingBytes, ok_iff, encodeCanonical_eq_ok] at h h'
  obtain ⟨_, ⟨hlen, rfl⟩, rfl⟩ := h
  obtain ⟨_, ⟨hlen', rfl⟩, heq⟩ := h'
  have hmax : maxBytes < 2 ^ 64 := by decide
  have hencode : encode { envelope' with signature := [] } =
      encode { envelope with signature := [] } := by
    split_ifs at heq
    · exact List.append_cancel_left heq
    · exact absurd heq.symm (domain_append_ne _ _)
    · exact absurd heq (domain_append_ne _ _)
    · exact List.append_cancel_left heq
  have hread := decode_encode (m := { envelope with signature := [] }) hfits (by omega)
  have hread' := decode_encode (m := { envelope' with signature := [] }) hfits' (by omega)
  rw [hencode] at hread'
  exact Option.mem_unique hread hread'

end Opens

/-! ## Commands that cannot be forged -/

/-- What the signature that some bytes carry covers, with the signature. -/
def signatureIn (b : Bytes) : Set (Bytes × Bytes) :=
  { p | ∃ envelope, decodeCanonical b maxBytes = .ok envelope ∧ signingBytes envelope = .ok p.1 ∧
    envelope.signature = p.2 }

/-- No forged signature of a key circulates: what circulates and verifies is what the key made, on a
message that it has signed. Signatures on other messages that would verify exist, but nobody has
them. -/
def Unforgeable (crypto : Crypto) (key : SigningKey) (signed : Set Bytes)
    (circulating : Set (Bytes × Bytes)) : Prop :=
  ∀ m signature, (m, signature) ∈ circulating →
    crypto.verifyStrict key.verifyingKey m signature = true → m ∈ signed ∧ signature = key.sign m

/-- Under the domains of commands, a key signs its requests only. What else it signs is free. -/
def SignsRequests (crypto : Crypto) (key : SigningKey) (requests : Set SigningRequest)
    (signed : Set Bytes) : Prop :=
  ∀ m ∈ signed, domain <+: m ∨ orderedDomain <+: m → ∃ r ∈ requests, r.message crypto key = .ok m

/-- What is signed for an envelope begins with the domain of a mode. -/
theorem domain_prefix_of_signingBytes {envelope : Envelope} {m : Bytes}
    (h : signingBytes envelope = .ok m) : domain <+: m ∨ orderedDomain <+: m := by
  simp only [signingBytes, ok_iff] at h
  obtain ⟨encoded, -, rfl⟩ := h
  split_ifs
  · exact .inr (List.prefix_append _ _)
  · exact .inl (List.prefix_append _ _)

/-- What `signMode` returns carries the signature on the message of its request. -/
theorem SigningRequest.signatureIn_sign {crypto : Crypto} {key : SigningKey} {r : SigningRequest}
    {b : Bytes} (hfits : r.Fits) (h : r.sign crypto key = .ok b) :
    ∃ m, r.message crypto key = .ok m ∧ signatureIn b = {(m, key.sign m)} := by
  obtain ⟨m, v, -, hm, rfl, hlen, -⟩ := sign_eq_ok.mp h
  refine ⟨m, hm, Set.eq_singleton_iff_unique_mem.mpr ⟨⟨_, decodeCanonical_encode
    (fits_envelope hfits (key.sign m)) hlen (by decide), hm, rfl⟩, ?_⟩⟩
  rintro ⟨m', signature⟩ ⟨envelope, henvelope, hm', rfl⟩
  obtain rfl := ok_unique henvelope
    (decodeCanonical_encode (fits_envelope hfits (key.sign m)) hlen (by decide))
  obtain rfl : m' = m := ok_unique hm' hm
  rfl

/-- **What is accepted was signed**: the accepted bytes are those of a request of the key. -/
theorem Opens.sign_eq {crypto : Crypto} {b : Bytes} {ledger : LedgerId} {mode : Mode} {v : Verified}
    {envelope : Envelope} {body : Body} {key : SigningKey} {requests : Set SigningRequest}
    {signed : Set Bytes} {circulating : Set (Bytes × Bytes)}
    (h : Opens crypto b ledger mode v envelope body)
    (haccepted : verifyMode crypto b ledger mode = .ok v)
    (hkey : v.command.payer = key.verifyingKey) (hb : signatureIn b ⊆ circulating)
    (hforge : Unforgeable crypto key signed circulating)
    (hsigns : SignsRequests crypto key requests signed) (hfits : ∀ r ∈ requests, r.Fits) :
    ∃ r ∈ requests, r.ledger = ledger ∧ r.mode = mode ∧ r.sign crypto key = .ok b ∧
      v = ⟨r.command, r.nonce, r.validFrom, r.expires⟩ := by
  obtain ⟨m, hm, hverifies⟩ := h.signed
  obtain ⟨hsigned, hsignature⟩ :=
    hforge m envelope.signature (hb ⟨envelope, h.decoded, hm, rfl⟩) (hkey ▸ hverifies)
  obtain ⟨r, hr, hmessage⟩ := hsigns m hsigned (domain_prefix_of_signingBytes hm)
  have hfit : LawfulMessage.Fits envelope := by
    have hversion := SigningRequest.modeVersion_lt mode
    have hwindow := h.window
    unfold maxUnits at hwindow
    exact ⟨h.version ▸ hversion, by omega, by omega⟩
  have henvelope : envelope = r.envelope crypto key (key.sign m) := by
    have heq := Opens.unsigned_eq hm hmessage hfit (SigningRequest.fits_envelope (hfits r hr) [])
    calc
      envelope = { { envelope with signature := [] } with signature := envelope.signature } := rfl
      _ = r.envelope crypto key (key.sign m) := by rw [heq, hsignature]; rfl
  subst henvelope
  have hbody : body = r.body := by
    obtain ⟨-, hlen⟩ := encode_of_decodeCanonical h.payload
    have hread := decodeCanonical_encode (SigningRequest.fits_body (hfits r hr)) hlen (by decide)
    exact ok_unique h.payload hread
  subst hbody
  obtain ⟨rfl, rfl, hv⟩ := h.eq_request
  obtain ⟨hb, hlen⟩ := encode_of_decodeCanonical h.decoded
  exact ⟨r, hr, rfl, rfl, SigningRequest.sign_eq_ok.mpr ⟨m, v,
    (encode_of_decodeCanonical h.payload).2, hmessage, hb, hlen, haccepted⟩, hv⟩

/-- **Signed commands are sound.** What `signMode` returns is accepted for the same ledger and mode,
as exactly the command, nonce and window that were signed. Accepted bytes are rejected for every
other ledger and for the other mode. And if no forged signature of a key circulates, and the key
signs commands for its requests only, then every accepted byte string in circulation with the key as
its payer is the output of `signMode` on a request of the key for that ledger and mode. No
assumption on the hash is needed, since the signature covers the payload too. -/
theorem command_envelope_sound (crypto : Crypto) :
    (∀ (key : SigningKey) (r : SigningRequest) (b : Bytes), r.Fits → r.sign crypto key = .ok b →
      verifyMode crypto b r.ledger r.mode = .ok ⟨r.command, r.nonce, r.validFrom, r.expires⟩) ∧
    ∀ b ledger mode v, verifyMode crypto b ledger mode = .ok v →
      (∀ ledger' mode', ledger' ≠ ledger ∨ mode' ≠ mode →
        ∃ e, verifyMode crypto b ledger' mode' = .error e) ∧
      ∀ (key : SigningKey) (requests : Set SigningRequest) (signed : Set Bytes)
        (circulating : Set (Bytes × Bytes)), signatureIn b ⊆ circulating →
        Unforgeable crypto key signed circulating → SignsRequests crypto key requests signed →
        (∀ r ∈ requests, r.Fits) → v.command.payer = key.verifyingKey →
        ∃ r ∈ requests, r.ledger = ledger ∧ r.mode = mode ∧ r.sign crypto key = .ok b ∧
          v = ⟨r.command, r.nonce, r.validFrom, r.expires⟩ := by
  constructor
  · intro key r b hfits hsign
    obtain ⟨m, v, hbody, -, rfl, hlen, hv⟩ := SigningRequest.sign_eq_ok.mp hsign
    obtain ⟨envelope, body, h⟩ := exists_opens hv
    have henvelope := decodeCanonical_encode (SigningRequest.fits_envelope hfits (key.sign m)) hlen
      (by decide)
    obtain rfl := ok_unique henvelope h.decoded
    have hread := decodeCanonical_encode (SigningRequest.fits_body hfits) hbody (by decide)
    obtain rfl := ok_unique hread h.payload
    rw [hv, h.eq_request.2.2]
  · intro b ledger mode v hv
    obtain ⟨envelope, body, h⟩ := exists_opens hv
    refine ⟨fun ledger' mode' hne => ?_, fun key requests signed circulating hb hforge hsigns hfits
      hkey => h.sign_eq hv hkey hb hforge hsigns hfits⟩
    cases hv' : verifyMode crypto b ledger' mode' with
    | error e => exact ⟨e, rfl⟩
    | ok v' =>
      obtain ⟨envelope', body', h'⟩ := exists_opens hv'
      obtain ⟨rfl, rfl⟩ := h'.unique h
      simp at hne

/-- The reserve of the samples, as a request. -/
def sampleRequest : SigningRequest :=
  ⟨.replicate 32 9, ⟨.replicate 32 3, samplePayer, .reserve sampleRecipient 7⟩, 100, 200,
    .replicate 32 4, .localStore⟩

/-- A key that signs every message by its hash. -/
def hashSigningKey : SigningKey where
  verifyingKey := samplePayer
  sign m := (Sha256.digest m).toBytes ++ (Sha256.digest m).toBytes

/-- The sample primitives, with the signatures of that key. -/
def hashCrypto : Crypto :=
  { sampleCrypto with
    verifyStrict key m signature := decide (key = samplePayer ∧ signature = hashSigningKey.sign m) }

/-- The key signs any message. Besides the sample request it has signed one that is no command, and
all that it has signed circulates. -/
theorem command_envelope_sound_reserve :
    (∀ m, hashCrypto.verifyStrict samplePayer m (hashSigningKey.sign m) = true) ∧
    ∃ b, sampleRequest.sign hashCrypto hashSigningKey = .ok b ∧
      verifyMode hashCrypto b (.replicate 32 9) .localStore =
        .ok ⟨⟨.replicate 32 3, samplePayer, .reserve sampleRecipient 7⟩, .replicate 32 4, 100,
          200⟩ ∧
      (∃ e, verifyMode hashCrypto b (.replicate 32 9) .orderedStore = .error e) ∧
      ∃ r ∈ ({sampleRequest} : Set SigningRequest), r.sign hashCrypto hashSigningKey = .ok b := by
  have hfits : sampleRequest.Fits := by
    refine ⟨?_, ?_, ?_⟩ <;> decide
  have hsign : (sampleRequest.sign hashCrypto hashSigningKey).isOk = true := by
    decide +kernel
  obtain ⟨b, hb⟩ := exists_eq_ok hsign
  obtain ⟨m, hm, hsignature⟩ := SigningRequest.signatureIn_sign hfits hb
  obtain ⟨hreads, haccepted⟩ := command_envelope_sound hashCrypto
  have hv := hreads hashSigningKey sampleRequest b hfits hb
  obtain ⟨hother, hsigned⟩ := haccepted b _ _ _ hv
  obtain ⟨r, hr, -, -, hrsign, -⟩ := hsigned hashSigningKey {sampleRequest} {m, ascii "hello"}
    { p | p.1 ∈ ({m, ascii "hello"} : Set Bytes) ∧ p.2 = hashSigningKey.sign p.1 }
    (by rw [hsignature]; rintro _ rfl; exact ⟨.inl rfl, rfl⟩)
    (fun m' signature hcirculates _ => hcirculates)
    (by
      rintro m' (rfl | rfl) hdomain
      · exact ⟨sampleRequest, rfl, hm⟩
      · rcases hdomain with hdomain | hdomain
        · exact absurd hdomain.length_le (by decide)
        · exact absurd hdomain.length_le (by decide))
    (fun r hr => (Set.mem_singleton_iff.mp hr).symm ▸ hfits) rfl
  exact ⟨fun m => decide_eq_true ⟨rfl, rfl⟩, b, hb, hv, hother _ .orderedStore (.inr (by decide)),
    r, hr, hrsign⟩

end Volparossa.Transaction
