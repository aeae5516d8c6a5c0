import Volparossa.Foundations.Incremental
import Volparossa.Foundations.Protobuf.Message
import Volparossa.Policy.Destination

/-!
# Inspection of a TLS ClientHello

The egress reads the visible server name of a connection from its first handshake message.
`inspectClientHello` parses one complete message; `TlsClientHelloInspector` reassembles the message
from a byte stream, which cuts it into records and the records into arbitrary pieces.

`fragmentation_independent` is the result: what the inspector first decides depends on the stream
and not on the pieces, and the records of an accepted message give the name of the message. The loop
of the inspector is a reader in the sense of `Foundations.Incremental` (`recordReader`), so the
first half is an instance of `Reader.feed_eq`.
-/

namespace Volparossa.Inspection

open Policy (Host normalizeDomain)

open Protobuf (isUtf8)

/-- Maximum complete TLS ClientHello size, including its handshake header. -/
def maxClientHelloBytes : ℕ := 64 * 1024

/-- Maximum plaintext bytes accepted in one TLS record. -/
def maxTlsRecordPayloadBytes : ℕ := 2 ^ 14

/-- Maximum number of TLS records used to assemble one ClientHello. -/
def maxTlsClientHelloRecords : ℕ := 8

def maxTlsClientHelloWireBytes : ℕ := maxClientHelloBytes + 5 * maxTlsClientHelloRecords

def maxTlsExtensions : ℕ := 256

def tlsHandshakeContentType : UInt8 := 22

def clientHelloHandshakeType : UInt8 := 1

def serverNameExtension : ℕ := 0

/-- The extensions that hide the name. -/
def encryptedExtensions : List ℕ := [0xfe0d, 0xff02, 0xffce, 0xfd00]

/-- A fail-closed parsing or resource-limit failure. -/
inductive InspectionError where
  | resourceLimit (what : String)
  | truncatedClientHello
  | invalidTlsRecord (what : String)
  | invalidClientHello (what : String)
  | duplicateTlsExtension (kind : ℕ)
  | encryptedClientHello (kind : ℕ)
  | missingServerName
  | multipleServerNames
  | unsupportedServerNameType (kind : ℕ)
  | invalidServerName
  | invalidQuicInitial (what : String)
  | conflictingCryptoData
  | alreadyComplete
  deriving DecidableEq, Repr

/-! ## The message -/

/-- Take a vector off the front. -/
def take (length : ℕ) (input : Bytes) : Except InspectionError (Bytes × Bytes) := do
  refuse (input.length < length) (.invalidClientHello "truncated vector")
  pure (input.take length, input.drop length)

def readU8 (input : Bytes) : Except InspectionError (ℕ × Bytes) := do
  let (value, input) ← take 1 input
  pure ((value.getD 0 0).toNat, input)

def readU16 (input : Bytes) : Except InspectionError (ℕ × Bytes) := do
  let (value, input) ← take 2 input
  pure (256 * (value.getD 0 0).toNat + (value.getD 1 0).toNat, input)

/-- The one DNS name of a server-name extension. -/
def parseServerName (data : Bytes) : Except InspectionError Bytes := do
  let (listLen, data) ← readU16 data
  refuse (listLen = 0 ∨ listLen ≠ data.length)
    (.invalidClientHello "invalid server-name list length")
  let (nameType, data) ← readU8 data
  refuse (nameType ≠ 0) (.unsupportedServerNameType nameType)
  let (nameLen, data) ← readU16 data
  refuse (nameLen = 0) .invalidServerName
  let (name, data) ← take nameLen data
  refuse (data ≠ []) .multipleServerNames
  pure name

/-- Read one extension, given the types seen so far: its type, and the visible name that is known
then. -/
def readExtension (seen : List ℕ) (serverName : Option Bytes) (input : Bytes) :
    Except InspectionError (ℕ × Option Bytes × Bytes) := do
  refuse (seen.length = maxTlsExtensions) (.resourceLimit "TLS extension count")
  let (extensionType, input) ← readU16 input
  let (extensionDataLen, input) ← readU16 input
  let (extensionData, input) ← take extensionDataLen input
  refuse (extensionType ∈ seen) (.duplicateTlsExtension extensionType)
  refuse (extensionType ∈ encryptedExtensions) (.encryptedClientHello extensionType)
  if extensionType = serverNameExtension then
    let name ← parseServerName extensionData
    pure (extensionType, some name, input)
  else pure (extensionType, serverName, input)

/-- Read extensions up to the end of the vector. Every one has at least four bytes, so that the
length of the vector bounds their number. -/
def readExtensions : ℕ → List ℕ → Option Bytes → Bytes → Except InspectionError (Option Bytes)
  | _, _, serverName, [] => pure serverName
  | 0, _, serverName, _ => pure serverName
  | fuel + 1, seen, serverName, input => do
    let (extensionType, serverName, input) ← readExtension seen serverName input
    readExtensions fuel (extensionType :: seen) serverName input

section Parsing

variable (parseHost : Bytes → Option Host)

/-- The normalized visible name of a message body. -/
def parseClientHelloBody (body : Bytes) : Except InspectionError Bytes := do
  let (version, input) ← readU16 body
  refuse (version ≠ 0x0303) (.invalidClientHello "legacy_version is not TLS 1.2")
  let (_, input) ← take 32 input
  let (sessionIdLen, input) ← readU8 input
  refuse (sessionIdLen > 32) (.invalidClientHello "legacy session identifier is oversized")
  let (_, input) ← take sessionIdLen input
  let (cipherSuitesLen, input) ← readU16 input
  refuse (cipherSuitesLen < 2 ∨ cipherSuitesLen % 2 ≠ 0)
    (.invalidClientHello "invalid cipher-suite vector")
  let (_, input) ← take cipherSuitesLen input
  let (compressionLen, input) ← readU8 input
  let (compressionMethods, input) ← take compressionLen input
  refuse (compressionMethods ≠ [0])
    (.invalidClientHello "legacy compression methods are not null-only")
  let (extensionsLen, input) ← readU16 input
  let (extensions, input) ← take extensionsLen input
  refuse (input ≠ []) (.invalidClientHello "extension vector length mismatch")
  let serverName ← readExtensions extensions.length [] none extensions
  let visibleName ← orFail serverName .missingServerName
  refuse (isUtf8 visibleName = false) .invalidServerName
  (normalizeDomain parseHost visibleName).mapError fun _ => .invalidServerName

/-- The length of the message that starts here, once its header is there. -/
def clientHelloWireLen : Bytes → Except InspectionError (Option ℕ)
  | [] => pure none
  | kind :: input => do
    refuse (kind ≠ clientHelloHandshakeType)
      (.invalidClientHello "first handshake message is not ClientHello")
    match input with
    | high :: middle :: low :: _ =>
      let total := 65536 * high.toNat + 256 * middle.toNat + low.toNat + 4
      refuse (total > maxClientHelloBytes) (.resourceLimit "TLS ClientHello bytes")
      pure (some total)
    | _ => pure none

/-- Inspect one complete, unframed TLS ClientHello handshake message. -/
def inspectClientHello (input : Bytes) : Except InspectionError Bytes := do
  let required ← clientHelloWireLen input
  let required ← orFail required .truncatedClientHello
  refuse (input.length ≠ required) (.invalidClientHello "trailing handshake bytes")
  parseClientHelloBody parseHost (input.drop 4)

/-! ## The stream -/

/-- What has been assembled from complete records. -/
structure Assembly where
  handshake : Bytes
  records : ℕ
  complete : Bool
  deriving DecidableEq

/-- What the inspector stops with. -/
abbrev Outcome := Except InspectionError Bytes

/-- Add the payload of a record to the message, and look whether the message is complete. -/
def assemble (assembly : Assembly) (payload rest : Bytes) : Turn Assembly Outcome UInt8 :=
  let assembly := { assembly with handshake := assembly.handshake ++ payload }
  match clientHelloWireLen assembly.handshake with
  | .error e => .decided (.error e) assembly rest
  | .ok none => .advanced assembly rest
  | .ok (some required) =>
    if assembly.handshake.length > required then
      .decided (.error (.invalidClientHello "trailing handshake bytes")) assembly rest
    else if assembly.handshake.length = required then
      match inspectClientHello parseHost assembly.handshake with
      | .error e => .decided (.error e) assembly rest
      | .ok name => .decided (.ok name) { assembly with complete := true } rest
    else .advanced assembly rest

/-- One turn of the loop over the buffered bytes: the record at their front. -/
def readRecord (assembly : Assembly) (buffer : Bytes) : Turn Assembly Outcome UInt8 :=
  match buffer with
  | kind :: major :: minor :: high :: low :: body =>
    let payloadLen := 256 * high.toNat + low.toNat
    if kind ≠ tlsHandshakeContentType then
      .decided (.error (.invalidTlsRecord "non-handshake record before ClientHello")) assembly
        buffer
    else if major ≠ 3 ∨ ¬(1 ≤ minor ∧ minor ≤ 3) then
      .decided (.error (.invalidTlsRecord "unsupported legacy record version")) assembly buffer
    else if payloadLen = 0 ∨ payloadLen > maxTlsRecordPayloadBytes then
      .decided (.error (.invalidTlsRecord "invalid plaintext record length")) assembly buffer
    else if body.length < payloadLen then .starved
    else
      let assembly := { assembly with records := assembly.records + 1 }
      if assembly.records > maxTlsClientHelloRecords then
        .decided (.error (.resourceLimit "TLS record count")) assembly buffer
      else if payloadLen > maxClientHelloBytes - assembly.handshake.length then
        .decided (.error (.resourceLimit "TLS ClientHello bytes")) assembly buffer
      else assemble parseHost assembly (body.take payloadLen) (body.drop payloadLen)
  | _ => .starved

variable {parseHost} {assembly assembly' : Assembly} {payload rest buffer more : Bytes}

theorem assemble_append : assemble parseHost assembly payload (rest ++ more) =
    (assemble parseHost assembly payload rest).extend more := by
  simp only [assemble]
  repeat' split
  all_goals rfl

theorem assemble_advanced {rest' : Bytes}
    (h : assemble parseHost assembly payload rest = .advanced assembly' rest') :
    assembly' = { assembly with handshake := assembly.handshake ++ payload } ∧ rest' = rest := by
  simp only [assemble] at h
  repeat' split at h
  all_goals cases h
  all_goals exact ⟨rfl, rfl⟩

/-- A turn looks at the record at the front, and at nothing behind it. -/
theorem readRecord_append (h : readRecord parseHost assembly buffer ≠ .starved) :
    readRecord parseHost assembly (buffer ++ more) =
      (readRecord parseHost assembly buffer).extend more := by
  match buffer with
  | kind :: major :: minor :: high :: low :: body =>
    simp only [readRecord, List.cons_append] at h ⊢
    split
    · rfl
    split
    · rfl
    split
    · rfl
    rename_i hkind hversion hlength
    rw [if_neg hkind, if_neg hversion, if_neg hlength] at h
    have hbody : ¬body.length < 256 * high.toNat + low.toNat := fun hbody => h (if_pos hbody)
    rw [if_neg hbody, if_neg (by rw [List.length_append]; omega)]
    split
    · rfl
    split
    · rfl
    · rw [List.take_append_of_le_length (by omega), List.drop_append_of_le_length (by omega)]
      exact assemble_append
  | [] | [_] | [_, _] | [_, _, _] | [_, _, _, _] => exact (h rfl).elim

/-- What a turn that goes on has done: it has added a record. -/
theorem readRecord_advanced
    (h : readRecord parseHost assembly buffer = .advanced assembly' rest) :
    rest.length < buffer.length ∧ assembly'.complete = assembly.complete := by
  match buffer with
  | kind :: major :: minor :: high :: low :: body =>
    simp only [readRecord] at h
    repeat' split at h
    all_goals first
      | cases h
      | obtain ⟨rfl, rfl⟩ := assemble_advanced h
        exact ⟨by simp only [List.length_drop, List.length_cons]; omega, rfl⟩
  | [] | [_] | [_, _] | [_, _, _] | [_, _, _, _] => cases h

end Parsing

section Streaming

variable (parseHost : Bytes → Option Host)

/-- The loop of the inspector. -/
def recordReader : Reader Assembly Outcome UInt8 where
  turn := readRecord parseHost
  extend _ _ _ h := readRecord_append h
  shrinks _ _ _ _ h := (readRecord_advanced h).1

/-- Progress made by the streaming inspector. -/
inductive InspectionProgress where
  | needMore
  | complete (name : Bytes)
  deriving DecidableEq

/-- A bounded streaming TLS-record ClientHello reassembler. -/
structure TlsClientHelloInspector extends Assembly where
  recordBuffer : Bytes
  deriving DecidableEq

namespace TlsClientHelloInspector

/-- An empty fail-closed reassembler. -/
def new : TlsClientHelloInspector := ⟨⟨[], 0, false⟩, []⟩

/-- Add bytes from a TLS byte stream. -/
def push (self : TlsClientHelloInspector) (input : Bytes) :
    Except InspectionError InspectionProgress × TlsClientHelloInspector :=
  if self.complete then (.error .alreadyComplete, self)
  else if input.length > maxTlsClientHelloWireBytes - self.recordBuffer.length then
    (.error (.resourceLimit "TLS record buffer"), self)
  else
    match (recordReader parseHost).read self.toAssembly (self.recordBuffer ++ input) with
    | (none, assembly, rest) => (.ok .needMore, ⟨assembly, rest⟩)
    | (some (.ok name), assembly, rest) => (.ok (.complete name), ⟨assembly, rest⟩)
    | (some (.error e), assembly, rest) => (.error e, ⟨assembly, rest⟩)

/-- The first decisive outcome of pushing pieces of a stream one after the other. -/
def inspect (self : TlsClientHelloInspector) : List Bytes → Option Outcome
  | [] => none
  | piece :: pieces =>
    match self.push parseHost piece with
    | (.ok .needMore, self) => self.inspect pieces
    | (.ok (.complete name), _) => some (.ok name)
    | (.error e, _) => some (.error e)

end TlsClientHelloInspector

/-! ## Pieces -/

variable {parseHost} {assembly : Assembly}

/-- An inspector that has not stopped has no complete message, and buffers at most what it was
given. -/
theorem read_eq_none {assembly' : Assembly} {buffer rest : Bytes}
    (h : (recordReader parseHost).read assembly buffer = (none, assembly', rest)) :
    assembly'.complete = assembly.complete ∧ rest.length ≤ buffer.length := by
  refine (recordReader parseHost).read_invariant
    (fun a b => a.complete = assembly.complete ∧ b.length ≤ buffer.length) ?_ ⟨rfl, le_rfl⟩ h
  rintro a b a' b' ⟨hcomplete, hlength⟩ hturn
  obtain ⟨hshrinks, hkept⟩ := readRecord_advanced hturn
  exact ⟨hkept.trans hcomplete, by omega⟩

/-- Within the wire limit, the inspector is the reader of the records. -/
theorem inspect_eq_feed (self : TlsClientHelloInspector) (hcomplete : self.complete = false)
    (pieces : List Bytes)
    (hlength : self.recordBuffer.length + pieces.flatten.length ≤ maxTlsClientHelloWireBytes) :
    self.inspect parseHost pieces =
      (recordReader parseHost).feed self.toAssembly self.recordBuffer pieces := by
  induction pieces generalizing self with
  | nil => rfl
  | cons piece pieces ih =>
    rw [List.flatten_cons, List.length_append] at hlength
    have hpush : self.push parseHost piece =
        match (recordReader parseHost).read self.toAssembly (self.recordBuffer ++ piece) with
        | (none, assembly, rest) => (.ok .needMore, ⟨assembly, rest⟩)
        | (some (.ok name), assembly, rest) => (.ok (.complete name), ⟨assembly, rest⟩)
        | (some (.error e), assembly, rest) => (.error e, ⟨assembly, rest⟩) := by
      rw [TlsClientHelloInspector.push, if_neg (by simp [hcomplete]), if_neg (by omega)]
    rw [TlsClientHelloInspector.inspect, Reader.feed, hpush]
    rcases hread : (recordReader parseHost).read self.toAssembly (self.recordBuffer ++ piece) with
      ⟨_ | _ | _, assembly, rest⟩
    · obtain ⟨hkept, hrest⟩ := read_eq_none hread
      rw [List.length_append] at hrest
      exact ih ⟨assembly, rest⟩ (hkept.trans hcomplete) (by dsimp only; omega)
    · rfl
    · rfl

/-- What is read of a stream depends on the whole of it only. -/
theorem inspect_eq (pieces : List Bytes)
    (hlength : pieces.flatten.length ≤ maxTlsClientHelloWireBytes) :
    TlsClientHelloInspector.new.inspect parseHost pieces =
      ((recordReader parseHost).read TlsClientHelloInspector.new.toAssembly pieces.flatten).1 := by
  rw [inspect_eq_feed _ rfl pieces (by simpa [TlsClientHelloInspector.new] using hlength)]
  exact (recordReader parseHost).feed_eq rfl pieces

/-! ## Records -/

/-- A plaintext handshake record. -/
structure HandshakeRecord where
  minorVersion : UInt8
  payload : Bytes
  version_mem : 1 ≤ minorVersion ∧ minorVersion ≤ 3
  payload_ne_nil : payload ≠ []
  payload_length_le : payload.length ≤ maxTlsRecordPayloadBytes

/-- The bytes of a record. -/
def HandshakeRecord.encode (record : HandshakeRecord) : Bytes :=
  tlsHandshakeContentType :: 3 :: record.minorVersion ::
    UInt8.ofNat (record.payload.length / 256) :: UInt8.ofNat record.payload.length :: record.payload

/-- The bytes that records carry, and the bytes of the records. -/
def payloads (records : List HandshakeRecord) : Bytes :=
  (records.map HandshakeRecord.payload).flatten

def wire (records : List HandshakeRecord) : Bytes :=
  (records.map HandshakeRecord.encode).flatten

theorem length_wire (records : List HandshakeRecord) :
    (wire records).length = (payloads records).length + 5 * records.length := by
  induction records with
  | nil => rfl
  | cons record records ih =>
    simp only [wire, payloads, List.map_cons, List.flatten_cons, List.length_append,
      List.length_cons, HandshakeRecord.encode] at ih ⊢
    omega

/-- The record at the front is taken off, and its payload added to the message. -/
theorem readRecord_encode (record : HandshakeRecord) (rest : Bytes)
    (hrecords : assembly.records < maxTlsClientHelloRecords)
    (hlength : assembly.handshake.length + record.payload.length ≤ maxClientHelloBytes) :
    readRecord parseHost assembly (record.encode ++ rest) =
      assemble parseHost { assembly with records := assembly.records + 1 } record.payload rest := by
  have hle := record.payload_length_le
  have hne := List.length_pos_of_ne_nil record.payload_ne_nil
  have hlen : 256 * (UInt8.ofNat (record.payload.length / 256)).toNat +
      (UInt8.ofNat record.payload.length).toNat = record.payload.length := by
    simp only [UInt8.toNat_ofNat', maxTlsRecordPayloadBytes] at hle ⊢
    omega
  simp only [HandshakeRecord.encode, readRecord, List.cons_append, hlen]
  rw [if_neg (by simp), if_neg (by simpa using record.version_mem), if_neg (by omega),
    if_neg (by simp), if_neg (by omega), if_neg (by omega), List.take_left, List.drop_left]

/-- The start of a message that has a length declares no other length. -/
theorem clientHelloWireLen_of_append {start rest : Bytes} {total : ℕ}
    (h : clientHelloWireLen (start ++ rest) = .ok (some total)) :
    clientHelloWireLen start = .ok none ∨ clientHelloWireLen start = .ok (some total) := by
  match start with
  | kind :: high :: middle :: low :: start => exact .inr h
  | [] => exact .inl rfl
  | [kind] | [kind, _] | [kind, _, _] =>
    have hkind : kind = clientHelloHandshakeType := by
      simp only [clientHelloWireLen, List.cons_append, ok_iff, not_not] at h
      exact h.choose_spec.1
    left
    simp [clientHelloWireLen, hkind, refuse]

/-- An accepted message has the length it declares, within the limit. -/
theorem inspectClientHello_eq_ok {handshake name : Bytes}
    (h : inspectClientHello parseHost handshake = .ok name) :
    clientHelloWireLen handshake = .ok (some handshake.length) ∧
      handshake.length ≤ maxClientHelloBytes := by
  simp only [inspectClientHello, ok_iff, not_not] at h
  obtain ⟨_, hwire, required, rfl, -, hlength, -⟩ := h
  rw [hlength]
  refine ⟨hwire, ?_⟩
  cases handshake with
  | nil => cases hwire
  | cons kind input =>
    simp only [clientHelloWireLen, bind_eq_ok] at hwire
    obtain ⟨-, -, hwire⟩ := hwire
    split at hwire
    · simp only [ok_iff, Option.some.injEq] at hwire
      obtain ⟨-, hle, rfl⟩ := hwire
      exact Nat.le_of_not_lt hle
    · cases hwire

/-- A record that does not complete the message is added to it. -/
theorem assemble_of_lt {handshake payload more rest : Bytes}
    (hwire : clientHelloWireLen handshake = .ok (some handshake.length))
    (hhandshake : assembly.handshake ++ payload ++ more = handshake) (hmore : more ≠ []) :
    assemble parseHost assembly payload rest =
      .advanced { assembly with handshake := assembly.handshake ++ payload } rest := by
  have hlt : (assembly.handshake ++ payload).length < handshake.length := by
    have hpos := List.length_pos_of_ne_nil hmore
    have hsum := congrArg List.length hhandshake
    rw [List.length_append] at hsum
    omega
  rw [← hhandshake] at hwire
  rcases clientHelloWireLen_of_append hwire with h | h
  · simp only [assemble, h]
  · rw [hhandshake] at h
    simp only [assemble, h]
    rw [if_neg (by omega), if_neg (by omega)]

/-- **Records whose payloads complete an accepted message give its name.** -/
theorem read_wire {handshake name : Bytes}
    (hname : inspectClientHello parseHost handshake = .ok name)
    (records : List HandshakeRecord) (hne : records ≠ [])
    (hrecords : assembly.records + records.length ≤ maxTlsClientHelloRecords)
    (hhandshake : assembly.handshake ++ payloads records = handshake) :
    ((recordReader parseHost).read assembly (wire records)).1 = some (.ok name) := by
  obtain ⟨hwire, hmax⟩ := inspectClientHello_eq_ok hname
  induction records generalizing assembly with
  | nil => exact (hne rfl).elim
  | cons record records ih =>
    have hsplit : assembly.handshake ++ record.payload ++ payloads records = handshake := by
      rw [List.append_assoc]
      exact hhandshake
    have hlength := congrArg List.length hsplit
    simp only [List.length_append] at hlength
    rw [List.length_cons] at hrecords
    have hturn : (recordReader parseHost).turn assembly (wire (record :: records)) =
        assemble parseHost { assembly with records := assembly.records + 1 } record.payload
          (wire records) :=
      readRecord_encode record (wire records) (by omega) (by omega)
    by_cases hlast : records = []
    · subst hlast
      rw [show payloads [] = [] from rfl, List.append_nil] at hsplit
      have hdecided : assemble parseHost { assembly with records := assembly.records + 1 }
          record.payload (wire []) = .decided (.ok name)
            ⟨handshake, assembly.records + 1, true⟩ (wire []) := by
        simp only [assemble, hsplit, hwire, hname]
        rw [if_neg (lt_irrefl _), if_pos trivial]
      rw [(recordReader parseHost).read_of_decided (hturn.trans hdecided)]
    · have hmore : payloads records ≠ [] := by
        obtain ⟨next, records, rfl⟩ := List.exists_cons_of_ne_nil hlast
        exact fun h => next.payload_ne_nil (List.append_eq_nil_iff.mp h).1
      have hadvanced : assemble parseHost { assembly with records := assembly.records + 1 }
          record.payload (wire records) = .advanced
            ⟨assembly.handshake ++ record.payload, assembly.records + 1, assembly.complete⟩
            (wire records) :=
        assemble_of_lt hwire hsplit hmore
      rw [(recordReader parseHost).read_of_advanced (hturn.trans hadvanced)]
      exact ih hlast (by dsimp only; omega) hsplit

/-- **Inspection is independent of fragmentation.** However a stream within the wire limit is cut
into pieces, the first decisive outcome is the same; and however an accepted message is cut into
records, and the records into pieces, the outcome is the name of the message. -/
theorem fragmentation_independent (parseHost : Bytes → Option Host) :
    (∀ pieces pieces' : List Bytes, pieces.flatten = pieces'.flatten →
      pieces.flatten.length ≤ maxTlsClientHelloWireBytes →
      TlsClientHelloInspector.new.inspect parseHost pieces =
        TlsClientHelloInspector.new.inspect parseHost pieces') ∧
    ∀ (handshake name : Bytes), inspectClientHello parseHost handshake = .ok name →
      ∀ records : List HandshakeRecord, records.length ≤ maxTlsClientHelloRecords →
      payloads records = handshake →
      ∀ pieces : List Bytes, pieces.flatten = wire records →
      TlsClientHelloInspector.new.inspect parseHost pieces = some (.ok name) := by
  refine ⟨fun pieces pieces' h hlength => ?_, fun handshake name hname records hrecords hpayloads
    pieces hpieces => ?_⟩
  · rw [inspect_eq pieces hlength, inspect_eq pieces' (h ▸ hlength), h]
  · obtain ⟨hwire, hmax⟩ := inspectClientHello_eq_ok hname
    have hne : records ≠ [] := by
      rintro rfl
      rw [← hpayloads] at hwire
      cases hwire
    have hlength : pieces.flatten.length ≤ maxTlsClientHelloWireBytes := by
      rw [hpieces, length_wire, hpayloads, maxTlsClientHelloWireBytes]
      omega
    rw [inspect_eq pieces hlength, hpieces]
    exact read_wire hname records hne (by simpa [TlsClientHelloInspector.new] using hrecords)
      hpayloads

end Streaming

/-! ## A message -/

namespace Sample

/-- A ClientHello for the name `a.IO`. -/
def hello : Bytes :=
  [1, 0, 0, 56, 3, 3] ++ List.replicate 32 0x42 ++ [0, 0, 2, 0x13, 1, 1, 0, 0, 13] ++
    [0, 0, 0, 9, 0, 7, 0, 0, 4] ++ [97, 46, 73, 79]

/-- A host text that the URL library reads as a domain. -/
def parseHost (host : Bytes) : Option Host := some (.domain host)

/-- The message in two records, the second one of a later version. -/
def records : List HandshakeRecord :=
  [⟨1, hello.take 3, by decide, by decide, by decide⟩,
    ⟨3, hello.drop 3, by decide, by decide, by decide⟩]

end Sample

/-- A message is cut in its length field, and the records byte by byte. -/
theorem fragmentation_independent_bytes :
    TlsClientHelloInspector.new.inspect Sample.parseHost
        ((wire Sample.records).map fun b => [b]) = some (.ok [97, 46, 105, 111]) ∧
      TlsClientHelloInspector.new.inspect Sample.parseHost [wire Sample.records] =
        TlsClientHelloInspector.new.inspect Sample.parseHost
          ((wire Sample.records).map fun b => [b]) :=
  ⟨(fragmentation_independent Sample.parseHost).2 Sample.hello [97, 46, 105, 111]
      (by decide +kernel) Sample.records (by decide) (by decide) _ (by decide),
    (fragmentation_independent Sample.parseHost).1 _ _ (by decide) (by decide)⟩

end Volparossa.Inspection
