import Volparossa.Content.Crash
import Volparossa.Foundations.Protobuf.Reading

/-!
# Floors never sink

The pins of a cache are read back from their file as they were written
(`Pins.decodePins_encodePins`). Over any run of observations, operations on chunks, closings and
openings, with calls that fail at any point, the floor of a publisher and name never sinks, and what
the pins say of it is what was observed: an observation succeeds only when no manifest with a higher
revision and no other manifest with this revision was observed before it (**`floors_hold`**).
-/

namespace Volparossa.Content

open Protobuf OrdMap

open PrivateStorage (Ed25519)

namespace Pins

/-- A pin as the cache makes them. -/
structure ValidRow (row : NameKey × RevisionPin) : Prop where
  name : validateName row.1.name = .ok ()
  utf8 : isUtf8 row.1.name = true
  pos : row.2.revision ≠ 0
  lt : row.2.revision < 2 ^ 64

structure Valid (pins : PinMap) : Prop where
  rows : ∀ row ∈ pins.rows, ValidRow row
  count : pins.rows.length ≤ maxPins

/-! ## The file -/

instance : LawfulMessage PinRecord := lawful
  (fun m => isUtf8 m.name = true ∧ m.revision < 2 ^ 64)
  (by decide)
  fun _ ⟨hname, hrevision⟩ =>
    .cons .bytes <| .cons (.text hname) <| .cons (.uint64 hrevision) <| .cons .bytes <|
    .cons .bool .nil

variable {row : NameKey × RevisionPin}

theorem length_encode_recordOf (h : ValidRow row) :
    (Protobuf.encode (recordOf row)).length ≤ 212 := by
  have hname : (recordOf row).name.length ≤ 128 := by
    have hname := h.name
    simp only [validateName, refuse_eq_ok, not_or, not_lt] at hname
    exact hname.2.1
  have hpublisher : (recordOf row).publisher.length ≤ 32 := by simp [recordOf]
  have hmanifest : (recordOf row).manifestId.length ≤ 32 := by simp [recordOf]
  have hle : (Protobuf.encode (recordOf row)).length ≤ _ :=
    Takes.length_encode_le <| .cons (.bytes hpublisher) <| .cons (.text hname 1) <|
    .cons (.uint64 h.lt) <| .cons (.bytes hmanifest) <| .cons .bool .nil
  exact hle.trans (by decide)

theorem encode_recordOf_ne_nil : Protobuf.encode (recordOf row) ≠ [] :=
  encode_ne_nil (s := .bytes 1 (·.publisher) ({ · with publisher := · })) (by simp)
    (FieldSpec.write_bytes_ne_nil (FixedBytes.ne_nil _))

/-- The bytes of a pin in the file. -/
def framed (row : NameKey × RevisionPin) : Bytes :=
  littleEndian 4 (Protobuf.encode (recordOf row)).length ++ Protobuf.encode (recordOf row)

theorem encodePin_eq (h : ValidRow row) : encodePin row = .ok (framed row) := by
  have := length_encode_recordOf h
  rw [encodePin, refuse_of_not (by simp only [maxRecordBytes]; omega), ok_bind]
  rfl

theorem decodePin_framed (h : ValidRow row) (rest : Bytes) :
    decodePin (framed row ++ rest) = .ok (row, rest) := by
  have hle := length_encode_recordOf h
  have hpos : 0 < (Protobuf.encode (recordOf row)).length :=
    List.length_pos_iff.mpr encode_recordOf_ne_nil
  have hdecode : Protobuf.decode (Protobuf.encode (recordOf row)) = some (recordOf row) :=
    decode_encode (show Fits (recordOf row) from ⟨h.utf8, h.lt⟩) (by omega)
  set record := Protobuf.encode (recordOf row) with hrecord
  have hframed : framed row ++ rest = littleEndian 4 record.length ++ (record ++ rest) := by
    rw [framed, List.append_assoc]
  have hread : ofLittleEndian ((framed row ++ rest).take 4) = record.length := by
    rw [hframed, List.take_left' (by simp), ofLittleEndian_littleEndian (by omega)]
  have hlength : (framed row ++ rest).length = 4 + record.length + rest.length := by
    rw [hframed]
    simp only [List.length_append, length_littleEndian]
    omega
  have htake : ((framed row ++ rest).drop 4).take record.length = record := by
    rw [hframed, List.drop_left' (by simp), List.take_left' rfl]
  have hdrop : (framed row ++ rest).drop (4 + record.length) = rest := by
    rw [hframed, ← List.append_assoc, List.drop_left' (by simp)]
  have hname : (validateName (recordOf row).name).mapError (fun _ => Error.invalidStore) =
      .ok () := by
    rw [mapError_eq_ok]
    exact h.name
  have hpublisher : (recordOf row).publisher = row.1.publisher.toBytes := rfl
  have hmanifest : (recordOf row).manifestId = row.2.manifestId.toBytes := rfl
  simp only [decodePin, hread, htake, hdrop, hlength, hdecode, maxRecordBytes, orFail_some]
  rw [refuse_of_not (by omega), ok_bind, refuse_of_not (by omega), ok_bind,
    refuse_of_not (by omega), ok_bind, ok_bind, refuse_of_not (by simp [hrecord]), ok_bind, hname,
    ok_bind, hpublisher, FixedBytes.ofBytes_toBytes, orFail_some, ok_bind, hmanifest,
    FixedBytes.ofBytes_toBytes, orFail_some, ok_bind]
  rfl

/-- Pins with increasing keys are read one after the other. -/
theorem decodeRows_framed {l : List (NameKey × RevisionPin)} {pins : PinMap}
    (hl : ∀ row ∈ l, ValidRow row)
    (hsorted : (pins.rows ++ l).Pairwise fun r r' => compare r.1 r'.1 = .lt) :
    ∃ pins' : PinMap, decodeRows l.length (l.flatMap framed) pins = .ok (pins', []) ∧
      pins'.rows = pins.rows ++ l := by
  induction l generalizing pins with
  | nil => exact ⟨pins, rfl, by simp⟩
  | cons row l ih =>
    have hbefore : ∀ r ∈ pins.rows, compare r.1 row.1 = .lt := fun r hr =>
      (List.pairwise_append.mp hsorted).2.2 r hr row (by simp)
    have hrows := rows_insert_of_last row.2 hbefore
    have hsorted' : ((pins.insert row.1 row.2).rows ++ l).Pairwise fun r r' =>
        compare r.1 r'.1 = .lt := by
      rw [hrows]
      simpa using hsorted
    obtain ⟨pins', hpins', hrows'⟩ := ih (fun r hr => hl r (by simp [hr])) hsorted'
    refine ⟨pins', ?_, by rw [hrows', hrows]; simp⟩
    have hrow := hl row (by simp)
    rw [List.length_cons, decodeRows, List.flatMap_cons, decodePin_framed hrow, ok_bind]
    dsimp only
    rw [refuse_of_not, ok_bind]
    · exact hpins'
    · refine not_or.mpr ⟨hrow.pos, ?_⟩
      cases hlast : pins.rows.getLast? with
      | none => simp
      | some r => simp [hbefore r (List.mem_of_getLast? hlast)]

theorem length_flatMap_framed_le {l : List (NameKey × RevisionPin)}
    (hl : ∀ row ∈ l, ValidRow row) : (l.flatMap framed).length ≤ l.length * 260 := by
  induction l with
  | nil => simp
  | cons row l ih =>
    have := ih fun r hr => hl r (by simp [hr])
    have := length_encode_recordOf (hl row (by simp))
    simp only [List.flatMap_cons, List.length_append, framed, length_littleEndian, List.length_cons]
    omega

variable {crypto : Ed25519} {cacheId : FixedBytes 32} {pins : PinMap}

theorem encodePins_eq (h : Valid pins) : encodePins crypto pins cacheId = .ok
    (sealed crypto magic cacheId
      (littleEndian 4 pins.rows.length ++ pins.rows.flatMap framed)) := by
  rw [encodePins, refuse_of_not (not_lt.mpr h.count), ok_bind,
    mapM_eq_ok fun row hrow => encodePin_eq (h.rows row hrow), ok_bind, pure_ok,
    List.flatMap_def]

/-- **The file of pins is read back as the pins that it was written for.** -/
theorem decodePins_encodePins (h : Valid pins) {bytes : Bytes}
    (hbytes : encodePins crypto pins cacheId = .ok bytes) :
    decodePins crypto bytes cacheId = .ok pins := by
  obtain rfl := ok_unique (encodePins_eq h) hbytes
  have hcount := h.count
  have hle := length_flatMap_framed_le h.rows
  have hsorted : ((empty : PinMap).rows ++ pins.rows).Pairwise fun r r' =>
      compare r.1 r'.1 = .lt := by
    simpa [empty] using pins.pairwise
  obtain ⟨pins', hpins', hrows⟩ := decodeRows_framed h.rows hsorted
  have heq : pins' = pins := ext_rows (by simpa [empty] using hrows)
  subst heq
  have hread : ofLittleEndian ((littleEndian 4 pins'.rows.length ++
      pins'.rows.flatMap framed).take 4) = pins'.rows.length := by
    rw [List.take_left' (by simp), ofLittleEndian_littleEndian]
    simp only [maxPins] at hcount
    omega
  rw [decodePins, refuse_of_not, ok_bind, unsealed_sealed (by decide), ok_bind]
  · simp only [hread]
    rw [refuse_of_not (not_lt.mpr hcount), ok_bind, List.drop_left' (by simp), hpins', ok_bind]
    rfl
  · rw [length_sealed]
    have hmagic : magic.length = 8 := by decide
    simp only [hmagic, List.length_append, length_littleEndian, headerBytes, checksumBytes,
      maxBytes, maxPins, maxRecordBytes] at hcount ⊢
    omega

end Pins

/-! ## What was observed -/

theorem payload_of_decode {bytes : Bytes} {payload : Payload}
    (h : Protobuf.decode bytes = some payload) :
    isUtf8 payload.name = true ∧ payload.revision < 2 ^ 64 := by
  refine decode_invariant (P := fun m : Payload => isUtf8 m.name = true ∧ m.revision < 2 ^ 64) h
    (by decide) fun s hs acc v acc' hacc hv hread => ?_
  simp only [List.mem_cons, List.not_mem_nil, or_false] at hs
  rcases hs with rfl | rfl | rfl | rfl | rfl | rfl
  · obtain ⟨b, hb, rfl⟩ := FieldSpec.read_text hread
    exact ⟨hb, hacc.2⟩
  · obtain ⟨n, hn, rfl⟩ := FieldSpec.read_uint64 hv hread
    exact ⟨hacc.1, hn⟩
  · obtain ⟨b, -, rfl⟩ := FieldSpec.read_text hread
    exact hacc
  · obtain ⟨n, -, rfl⟩ := FieldSpec.read_uint64 hv hread
    exact hacc
  · obtain ⟨l, rfl⟩ := FieldSpec.read_repeatedMessage hread
    exact hacc
  · obtain ⟨b, rfl⟩ := FieldSpec.read_bytes hread
    exact hacc

/-- The pins of a manifest that was verified are valid. -/
theorem VerifiedManifest.Genuine.validRow {crypto : Ed25519} {manifest : VerifiedManifest}
    (h : manifest.Genuine crypto) {pin : RevisionPin}
    (hpin : pin.revision = manifest.metadata.revision) : Pins.ValidRow (manifest.key, pin) := by
  obtain ⟨signed, key, now, hverify⟩ := h
  simp only [SignedManifest.verify, ok_iff] at hverify
  obtain ⟨-, -, -, -, _, hvalidate, -, -, rfl⟩ := hverify
  simp only [SignedManifest.validate, Metadata.validate, ok_iff, not_or] at hvalidate
  obtain ⟨-, -, -, -, payload, hpayload, -, -, -, ⟨_, hname, hrevision, -⟩, chunks, -, -, -,
    publisher, -, wholeHash, -, rfl⟩ := hvalidate
  obtain ⟨hutf8, hlt⟩ := payload_of_decode hpayload
  exact ⟨hname, hutf8, hpin ▸ hrevision, hpin ▸ hlt⟩

/-- The pins know of a manifest: they have its revision or a higher one, and its identity or a
conflict when they have its revision. -/
def Seen (pins : PinMap) (manifest : VerifiedManifest) : Prop :=
  ∃ pin, pins.lookup manifest.key = some pin ∧ manifest.metadata.revision ≤ pin.revision ∧
    (manifest.metadata.revision = pin.revision →
      pin.conflicted = true ∨ pin.manifestId = manifest.manifestId)

theorem ChunkStore.Disputed.seen {pins : PinMap} {manifest : VerifiedManifest}
    (h : Disputed pins manifest) : Seen pins manifest := by
  obtain ⟨pin, hpin, hrevision, hconflicted⟩ := h
  exact ⟨pin, hpin, hrevision.ge, fun _ => .inl hconflicted⟩

/-- The revision that is retained for a key, and zero when there is none. -/
def floorIn (pins : PinMap) (key : NameKey) : ℕ :=
  ((pins.lookup key).map RevisionPin.revision).getD 0

namespace Raises

variable {manifest : VerifiedManifest} {pins new : PinMap}

theorem valid {crypto : Ed25519} (h : Raises manifest pins new) (hpins : Pins.Valid pins)
    (hgenuine : manifest.Genuine crypto) : Pins.Valid new := by
  have hrows : ∀ {pin : RevisionPin}, pin.revision = manifest.metadata.revision →
      ∀ row ∈ (pins.insert manifest.key pin).rows, Pins.ValidRow row := by
    intro pin hpin row hrow
    rcases mem_insert.mp hrow with rfl | ⟨hrow, -⟩
    · exact hgenuine.validRow hpin
    · exact hpins.rows row hrow
  have hcount : ∀ {pin pin' : RevisionPin}, pins.lookup manifest.key = some pin →
      (pins.insert manifest.key pin').rows.length ≤ maxPins := by
    intro pin pin' hpin
    rw [length_insert_of_mem pin' (lookup_eq_some.mp hpin)]
    exact hpins.count
  cases h with
  | first hkey hroom => exact ⟨hrows rfl, (length_insertRow_le _ _ _).trans hroom⟩
  | higher pin hkey hrevision => exact ⟨hrows rfl, hcount hkey⟩
  | conflict pin hkey hrevision _ _ => exact ⟨hrows hrevision, hcount hkey⟩

/-- What was observed stays observed. -/
theorem seen (h : Raises manifest pins new) {manifest' : VerifiedManifest}
    (hseen : Seen pins manifest') : Seen new manifest' := by
  obtain ⟨pin', hpin', hle, hid⟩ := hseen
  by_cases hkey' : manifest'.key = manifest.key
  · rw [hkey'] at hpin'
    cases h with
    | first hkey _ => simp [hkey] at hpin'
    | higher pin hkey hrevision =>
      obtain rfl := Option.mem_unique hkey hpin'
      refine ⟨manifest.candidate, by rw [lookup_insert, if_pos hkey'], ?_, fun heq => ?_⟩
      · exact hle.trans hrevision.le
      · have : manifest'.metadata.revision = manifest.metadata.revision := heq
        omega
    | conflict pin hkey hrevision _ _ =>
      obtain rfl := Option.mem_unique hkey hpin'
      exact ⟨{ pin with conflicted := true }, by rw [lookup_insert, if_pos hkey'], hle,
        fun _ => .inl rfl⟩
  · have hlookup : new.lookup manifest'.key = pins.lookup manifest'.key := by
      cases h <;> rw [lookup_insert, if_neg hkey']
    exact ⟨pin', hlookup.trans hpin', hle, hid⟩

/-- Floors do not sink. -/
theorem floorIn_le (h : Raises manifest pins new) (key : NameKey) :
    floorIn pins key ≤ floorIn new key := by
  by_cases hkey' : key = manifest.key
  · subst hkey'
    cases h with
    | first hkey _ => simp [floorIn, hkey]
    | higher pin hkey hrevision =>
      simp only [floorIn, hkey, lookup_insert, reduceIte, Option.map_some, Option.getD_some,
        VerifiedManifest.candidate]
      exact hrevision.le
    | conflict pin hkey hrevision _ _ => simp [floorIn, hkey, lookup_insert]
  · have hlookup : new.lookup key = pins.lookup key := by
      cases h <;> rw [lookup_insert, if_neg hkey']
    rw [floorIn, floorIn, hlookup]

end Raises

/-- The pins that a directory holds, as they were written. -/
structure Holds (crypto : Ed25519) (cacheId : FixedBytes 32) (pins : PinMap) (files : Files) :
    Prop where
  valid : Pins.Valid pins
  read : pinsOf crypto cacheId files = .ok pins
  written : ∀ bytes, files .pins = some bytes → Pins.encodePins crypto pins cacheId = .ok bytes

namespace Holds

variable {crypto : Ed25519} {cacheId : FixedBytes 32} {pins : PinMap} {files files' : Files}

theorem congr (h : Holds crypto cacheId pins files) (hfiles : files' .pins = files .pins) :
    Holds crypto cacheId pins files' := by
  refine ⟨h.valid, ?_, ?_⟩
  · rw [pinsOf, hfiles]
    exact h.read
  · rw [hfiles]
    exact h.written

theorem empty (h : files .pins = none) : Holds crypto cacheId .empty files := by
  refine ⟨⟨by simp [OrdMap.empty], Nat.zero_le _⟩, ?_, ?_⟩
  · rw [pinsOf, h]
    rfl
  · simp [h]

/-- Pins that were written are held. -/
theorem replaced {bytes : Bytes} (hvalid : Pins.Valid pins)
    (hbytes : Pins.encodePins crypto pins cacheId = .ok bytes) :
    Holds crypto cacheId pins (Disk.replaced files .pinStage .pins bytes) := by
  refine ⟨hvalid, ?_, fun bytes' h => ?_⟩
  · rw [pinsOf, Disk.replaced_target]
    exact Pins.decodePins_encodePins hvalid hbytes
  · rw [Disk.replaced_target, Option.some.injEq] at h
    exact h ▸ hbytes

end Holds

/-! ## Runs -/

namespace ChunkStore

variable {crypto : Ed25519} {host : Host} {s : ChunkStore} {pins : PinMap}

/-- What an observation does to the pins: they stay, or are raised; when it succeeds they have the
manifest as the floor, and it was that before or is above it; when it reports a conflict they record
it. -/
theorem ensures_observe_holds (h : Holds crypto s.cacheId pins s.disk.files)
    {manifest : VerifiedManifest} (hgenuine : manifest.Genuine crypto) {now : ℕ} :
    (observeNameRevision crypto host manifest now).Ensures s
      (fun _ s' => ∃ new, (new = pins ∨ Raises manifest pins new) ∧
        Holds crypto s.cacheId new s'.disk.files ∧ Seen new manifest ∧
        ∀ pin, pins.lookup manifest.key = some pin →
          pin = manifest.candidate ∨ pin.revision < manifest.metadata.revision)
      fun e s' => ∃ new, (new = pins ∨ Raises manifest pins new) ∧
        Holds crypto s.cacheId new s'.disk.files ∧ (e = .nameConflict → Seen new manifest) := by
  have hpins : ∀ {pins'}, pinsOf crypto s.cacheId s.disk.files = .ok pins' → pins' = pins :=
    fun h' => ok_unique h' h.read
  have hraises : ∀ {pins' new bytes}, Writing crypto s manifest pins' new bytes →
      Raises manifest pins new := fun hw => hpins hw.read ▸ hw.raises
  have hreplaced : ∀ {pins' new bytes} {d : Disk}, Writing crypto s manifest pins' new bytes →
      d.files = Disk.replaced s.disk.files .pinStage .pins bytes →
      Holds crypto s.cacheId new d.files := fun hw hd =>
    hd ▸ .replaced ((hraises hw).valid h.valid hgenuine) hw.encoded
  have hseen : ∀ {new}, new.lookup manifest.key = some manifest.candidate → Seen new manifest :=
    fun hlookup => ⟨_, hlookup, le_rfl, fun _ => .inr rfl⟩
  refine ensures_observeNameRevision (fun e d hd hdisputed => ?_)
    (fun e _ new bytes d he hw hint => ?_) (fun _ new bytes d hw hdisputed hd => ?_)
    (fun _ d hread hlookup hd => ?_) fun _ bytes d hw hbelow hd => ?_
  · refine ⟨pins, .inl rfl, h.congr (congrFun hd _), fun hcon => ?_⟩
    obtain ⟨pins', hread, hdisputed⟩ := hdisputed hcon
    exact hpins hread ▸ hdisputed.seen
  · rcases hint.eq with hd | ⟨content, hd⟩ | hd
    · exact ⟨pins, .inl rfl, h.congr (congrFun hd _), fun hcon => absurd hcon he⟩
    · exact ⟨pins, .inl rfl, h.congr (by simp [hd]), fun hcon => absurd hcon he⟩
    · exact ⟨new, .inr (hraises hw), hreplaced hw hd, fun hcon => absurd hcon he⟩
  · exact ⟨new, .inr (hraises hw), hreplaced hw hd, fun _ => hdisputed.seen⟩
  · obtain rfl := hpins hread
    refine ⟨_, .inl rfl, h.congr (congrFun hd _), hseen hlookup, fun pin hpin => .inl ?_⟩
    exact Option.mem_unique hpin hlookup
  · refine ⟨_, .inr (hraises hw), hreplaced hw hd, hseen ?_, fun pin hpin => .inr ?_⟩
    · rw [lookup_insert, if_pos rfl]
    · exact hbelow pin (hpins hw.read ▸ hpin)

end ChunkStore

namespace Cache

variable {crypto : Ed25519} {cacheId : FixedBytes 32}

/-- The manifest of an observation that succeeded. -/
def accepted (e : Event crypto) : Option VerifiedManifest :=
  match e.input.action, e.output with
  | .observe manifest _ _, some (.ok _) => some manifest
  | _, _ => none

/-- The manifest that was observed: the observation succeeded, or it reported a conflict. -/
def observed (e : Event crypto) : Option VerifiedManifest :=
  match e.input.action, e.output with
  | .observe manifest _ _, some (.ok _) => some manifest
  | .observe manifest _ _, some (.error .nameConflict) => some manifest
  | _, _ => none

/-- The retained revision of a key in a directory, and zero when there is none. -/
def floorOf (crypto : Ed25519) (cacheId : FixedBytes 32) (cache : Cache) (key : NameKey) : ℕ :=
  match pinsOf crypto cacheId cache.disk.files with
  | .ok pins => floorIn pins key
  | .error _ => 0

theorem floorOf_of_holds {cache : Cache} {pins : PinMap}
    (h : Holds crypto cacheId pins cache.disk.files) (key : NameKey) :
    floorOf crypto cacheId cache key = floorIn pins key := by
  rw [floorOf, h.read]

/-- One step of a run, for the pins. -/
structure Advances (cacheId : FixedBytes 32) (e : Event crypto) (pins new : PinMap) : Prop where
  holds : Holds crypto cacheId new e.after.disk.files
  seen : ∀ manifest, Seen pins manifest → Seen new manifest
  floor : ∀ key, floorIn pins key ≤ floorIn new key
  observed : ∀ manifest, observed e = some manifest → Seen new manifest
  accepted : ∀ manifest, accepted e = some manifest → ∀ pin, pins.lookup manifest.key = some pin →
    pin = manifest.candidate ∨ pin.revision < manifest.metadata.revision

/-- A step that leaves the file of the pins and is no observation. -/
theorem Advances.of_files {e : Event crypto} {pins : PinMap}
    (h : Holds crypto cacheId pins e.before.disk.files)
    (hfiles : e.after.disk.files .pins = e.before.disk.files .pins)
    (hobserved : Cache.observed e = none) (haccepted : Cache.accepted e = none) :
    Advances cacheId e pins pins :=
  ⟨h.congr hfiles, fun _ h => h, fun _ => le_rfl, by simp [hobserved], by simp [haccepted]⟩

section

variable {cache : Cache} {ls : List (List Entry)} (hkept : cache.Kept crypto cacheId ls)

include hkept

/-- Only observations write the file of the pins. -/
theorem files_pins_next {request : Request crypto}
    (ho : ∀ manifest genuine now, request.action ≠ .observe manifest genuine now) :
    ((machine crypto).next cache request).disk.files .pins = cache.disk.files .pins := by
  cases hw : cache.working request with
  | none => exact congrFun (hkept.next_of_quiet hw ho).2 _
  | some work => exact (hkept.next_of_working hw).2 .pins (by simp [ChunkStore.Writes])

/-- **Every step keeps what the pins know.** -/
theorem advances {pins : PinMap} (h : Holds crypto cacheId pins cache.disk.files)
    (request : Request crypto) :
    ∃ new, Advances cacheId ((machine crypto).event cache request) pins new := by
  obtain ⟨host, action⟩ := request
  by_cases haction : ∃ manifest genuine now, action = .observe manifest genuine now
  · obtain ⟨manifest, genuine, now, rfl⟩ := haction
    cases cache with
    | closed disk => exact ⟨pins, .of_files h rfl rfl rfl⟩
    | opened s =>
      obtain rfl := hkept.1
      have hobserve : (ChunkStore.observeNameRevision crypto host manifest now).Ensures s _ _ :=
        ChunkStore.ensures_observe_holds h genuine
      have hgrows : ∀ {new}, (new = pins ∨ Raises manifest pins new) →
          (∀ manifest', Seen pins manifest' → Seen new manifest') ∧
            ∀ key, floorIn pins key ≤ floorIn new key := by
        rintro new (rfl | hraises)
        · exact ⟨fun _ h => h, fun _ => le_rfl⟩
        · exact ⟨fun _ => hraises.seen, hraises.floorIn_le⟩
      revert hobserve
      simp only [Procedure.Ensures, Machine.event, Machine.next, machine, step]
      rcases ChunkStore.observeNameRevision crypto host manifest now s with ⟨e | pin, s'⟩
      · rintro ⟨new, hnew, hholds, hconflict⟩
        obtain ⟨hseen, hfloor⟩ := hgrows hnew
        refine ⟨new, hholds, hseen, hfloor, fun manifest' hobserved => ?_,
          fun _ hcon => by cases hcon⟩
        cases e <;> cases hobserved
        exact hconflict rfl
      · rintro ⟨new, hnew, hholds, hseen', hbelow⟩
        obtain ⟨hseen, hfloor⟩ := hgrows hnew
        refine ⟨new, hholds, hseen, hfloor, fun manifest' hobserved => ?_,
          fun manifest' haccepted => ?_⟩
        · cases hobserved
          exact hseen'
        · cases haccepted
          exact hbelow
  · push Not at haction
    refine ⟨pins, .of_files h (files_pins_next hkept haction) ?_ ?_⟩ <;> cases action with
    | observe manifest genuine now => exact absurd rfl (haction manifest genuine now)
    | _ => rfl

end

/-- What the pins know after a run. -/
structure Floored (cacheId : FixedBytes 32) (past : List (Event crypto)) (cache : Cache) :
    Prop where
  kept : ∃ ls, cache.Kept crypto cacheId ls
  pins : ∃ pins, Holds crypto cacheId pins cache.disk.files ∧
    ∀ e ∈ past, ∀ manifest, observed e = some manifest → Seen pins manifest

theorem floored_run (host : Host) (limits : CacheLimits) (cacheId : FixedBytes 32)
    (requests : List (Request crypto)) :
    Floored cacheId ((machine crypto).events (created crypto host limits (some cacheId)) requests)
      ((machine crypto).run (created crypto host limits (some cacheId)) requests) := by
  have hcreated : (created crypto host limits (some cacheId)).Kept crypto cacheId [[]] ∧ _ :=
    created_kept fun id h => (Option.some.inj h).symm
  refine Machine.history_invariant (P := Floored cacheId) ⟨⟨_, hcreated.1⟩, .empty,
    .empty hcreated.2, by simp⟩ (fun past cache request hpast => ?_) requests
  · obtain ⟨⟨ls, hkept⟩, pins, hholds, hseen⟩ := hpast
    obtain ⟨new, hnew⟩ := advances hkept hholds request
    exact ⟨hkept.next request, new, hnew.holds, forall_mem_concat
      (fun e he manifest hobserved => hnew.seen manifest (hseen e he manifest hobserved))
        hnew.observed⟩

/-- **Floors hold.** In every run of a cache, whatever calls fail:
the retained revision of a key never sinks;
an observation succeeds only when no manifest of the key with a higher revision was observed before,
and no other manifest with its revision;
once two manifests were observed with one revision, no later observation with it succeeds;
and the file of the pins, if it is there, is the encoding of at most 64 pins, which are what it is
read as. -/
theorem floors_hold (host : Host) (limits : CacheLimits) (cacheId : FixedBytes 32)
    (requests : List (Request crypto)) {past later : List (Event crypto)} {e : Event crypto}
    (hevents : (machine crypto).events (created crypto host limits (some cacheId)) requests =
      past ++ e :: later) :
    (∀ key, floorOf crypto cacheId e.before key ≤ floorOf crypto cacheId e.after key) ∧
      (∀ manifest, accepted e = some manifest →
        ∀ e' ∈ past, ∀ manifest', observed e' = some manifest' → manifest'.key = manifest.key →
          manifest'.metadata.revision ≤ manifest.metadata.revision ∧
          (manifest'.metadata.revision = manifest.metadata.revision →
            manifest'.manifestId = manifest.manifestId)) ∧
      (∀ e₁ ∈ past, ∀ e₂ ∈ past, ∀ manifest₁ manifest₂ manifest,
        observed e₁ = some manifest₁ → observed e₂ = some manifest₂ →
        manifest₁.key = manifest.key → manifest₂.key = manifest.key →
        manifest₁.metadata.revision = manifest.metadata.revision →
        manifest₂.metadata.revision = manifest.metadata.revision →
        manifest₁.manifestId ≠ manifest₂.manifestId → accepted e ≠ some manifest) ∧
      ∃ pins : PinMap, pinsOf crypto cacheId e.after.disk.files = .ok pins ∧
        pins.rows.length ≤ maxPins ∧
        ∀ bytes, e.after.disk.files .pins = some bytes →
          Pins.encodePins crypto pins cacheId = .ok bytes ∧
          Pins.decodePins crypto bytes cacheId = .ok pins := by
  obtain ⟨before, request, after, -, rfl, rfl, -⟩ := Machine.exists_inputs_of_events_eq _ hevents
  obtain ⟨⟨ls, hkept⟩, pins, hholds, hseen⟩ : Floored cacheId ((machine crypto).events
      (created crypto host limits (some cacheId)) before) _ :=
        floored_run host limits cacheId before
  generalize (machine crypto).run (created crypto host limits (some cacheId)) before = cache at *
  generalize (machine crypto).events (created crypto host limits (some cacheId)) before = past at *
  obtain ⟨new, hnew⟩ := advances hkept hholds request
  have hrevision : ∀ manifest, accepted ((machine crypto).event cache request) = some manifest →
      ∀ e' ∈ past, ∀ manifest', observed e' = some manifest' → manifest'.key = manifest.key →
        manifest'.metadata.revision ≤ manifest.metadata.revision ∧
        (manifest'.metadata.revision = manifest.metadata.revision →
          manifest'.manifestId = manifest.manifestId) := by
    intro manifest haccepted e' he' manifest' hobserved hkey
    obtain ⟨pin, hpin, hle, hid⟩ := hseen e' he' manifest' hobserved
    rw [hkey] at hpin
    rcases hnew.accepted manifest haccepted pin hpin with rfl | hlt
    · exact ⟨hle, fun heq => ((hid heq).resolve_left (by simp [VerifiedManifest.candidate])).symm⟩
    · exact ⟨hle.trans hlt.le, fun heq => absurd hlt (not_lt.mpr (heq ▸ hle))⟩
  refine ⟨fun key => ?_, hrevision, ?_, new, hnew.holds.read, hnew.holds.valid.count,
    fun bytes hbytes => ?_⟩
  · have hbefore : floorOf crypto cacheId cache key = floorIn pins key :=
      floorOf_of_holds hholds key
    have hafter := floorOf_of_holds hnew.holds key
    exact hbefore.trans_le ((hnew.floor key).trans hafter.ge)
  · intro e₁ he₁ e₂ he₂ manifest₁ manifest₂ manifest h₁ h₂ hkey₁ hkey₂ hrev₁ hrev₂ hne haccepted
    have hid₁ := (hrevision manifest haccepted e₁ he₁ manifest₁ h₁ hkey₁).2 hrev₁
    have hid₂ := (hrevision manifest haccepted e₂ he₂ manifest₂ h₂ hkey₂).2 hrev₂
    exact hne (hid₁.trans hid₂.symm)
  · have hencode := hnew.holds.written bytes hbytes
    exact ⟨hencode, Pins.decodePins_encodePins hnew.holds.valid hencode⟩

namespace Published

def publisher : FixedBytes 32 :=
  .ofNat 32 0xea4a6c63e29c520abef5507b132ec5f9954776aebebe7b92421eea691446d22c

/-- Two signatures of the publisher, with the digests of what was signed. -/
def signatures : Protocol.Signatures :=
  [(publisher, .ofNat 32 0x980ffff6a8deaec9c05b48044ed25cc320f16b08b8c1cf06786a539ad3b47a0c,
      .ofNat 64 (0x5b75a3f0c7e48036193d626f4c2a972e58902c7eb5a0a05b189e3706a5d19641 <<< 256 +
        0x502f441e11216a35633f5087e7ed30ec3b1d606c194aff7e0db791b843451d08)),
    (publisher, .ofNat 32 0x834b1efc1a57b086d3f954e4498726486e254a29ec05a91e02aaffd9052d53db,
      .ofNat 64 (0x11d22bbcd30a2c76dfb5aaa7d2810473b5928d095c3982c50c12718937c8546b <<< 256 +
        0xc315856cd13f13c1241ea5e37f0e12510577fc0c4e1434ac6ee1b5749d23bf0d))]

def primitives : Ed25519 := .ofSignatures signatures

def now : ℕ := 1800000000

def payload : Payload where
  name := Transaction.ascii "a"
  revision := 1
  contentType := Transaction.ascii "t"
  wholeHash := (primitives.sha256 []).toBytes

/-- The first revision of an empty object, with one of two nonces. -/
def signed (nonce : UInt8) (signature : FixedBytes 64) : SignedManifest :=
  ⟨⟨1, publisher.toBytes, now, now + 3600, List.replicate 32 nonce, 1,
    (primitives.sha256 (Protobuf.encode payload)).toBytes, Protobuf.encode payload⟩, signature⟩

def manifest (id : FixedBytes 32) : VerifiedManifest where
  manifestId := id
  publisher := publisher
  metadata := ⟨payload.name, 1, payload.contentType⟩
  length := 0
  validity := ⟨now, now + 3600⟩
  chunks := []
  wholeHash := primitives.sha256 []

def first : VerifiedManifest :=
  manifest (.ofNat 32 0x7f4bec1e5eeabe9927e41891758144662a5326cd46756cbe75b1b1412f6d213f)

def second : VerifiedManifest :=
  manifest (.ofNat 32 0x1fb1b89e75ec1f315d0dcca49d5905379f738883b39b8d73fa41ec93a391c297)

theorem genuine_first : first.Genuine primitives :=
  ⟨signed 1 (signatures.map (·.2.2))[0], publisher, now, by decide +kernel⟩

theorem genuine_second : second.Genuine primitives :=
  ⟨signed 2 (signatures.map (·.2.2))[1], publisher, now, by decide +kernel⟩

/-- The first manifest, the second, and the first again. -/
def requests : List (Request primitives) :=
  [⟨Sample.host, .observe first genuine_first now⟩,
    ⟨Sample.host, .observe second genuine_second now⟩,
    ⟨Sample.host, .observe first genuine_first now⟩]

end Published

open Published in
/-- Two manifests with one revision: the first is not accepted again. -/
theorem floors_hold_conflict : ∃ e₁ e₂ e, (machine primitives).events
      (created primitives Sample.host Sample.limits (some (.ofNat 32 7))) requests =
      [e₁, e₂] ++ e :: [] ∧
    accepted e₁ = some first ∧ observed e₂ = some second ∧ accepted e ≠ some first := by
  obtain ⟨e₁, e₂, e, hevents, haccepted, hfirst, hsecond⟩ : ∃ e₁ e₂ e, (machine primitives).events
      (created primitives Sample.host Sample.limits (some (.ofNat 32 7))) requests =
      [e₁, e₂] ++ e :: [] ∧
      accepted e₁ = some first ∧ observed e₁ = some first ∧ observed e₂ = some second :=
    ⟨_, _, _, rfl, by decide +kernel, by decide +kernel, by decide +kernel⟩
  refine ⟨e₁, e₂, e, hevents, haccepted, hsecond, ?_⟩
  exact (floors_hold Sample.host Sample.limits (.ofNat 32 7) requests hevents).2.2.1 e₁ (by simp) e₂
    (by simp) first second first hfirst hsecond rfl rfl rfl rfl (by decide +kernel)

end Cache

end Volparossa.Content
