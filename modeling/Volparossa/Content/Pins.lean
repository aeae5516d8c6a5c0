import Volparossa.Content.Sound

/-!
# Reading and writing the pins

`pinsOf` is what the directory says about names. An observation leaves it as it is, or writes pins
in which one key is new, has a higher revision or is marked as conflicted (`Raises`); what it leaves
when it is cut off is a directory with the old pins, with the new ones, or with a file that was to
be renamed, and then the pins cannot be read again (`ensures_observeNameRevision`). No observation
changes the chunks.
-/

namespace Volparossa.Content

open PrivateStorage (Ed25519)
open Procedure

/-- The pins that the files of a cache hold. -/
def pinsOf (crypto : Ed25519) (cacheId : FixedBytes 32) (files : Files) : Except Error PinMap :=
  match files .pins with
  | none => pure .empty
  | some bytes => Pins.decodePins crypto bytes cacheId

def VerifiedManifest.key (manifest : VerifiedManifest) : NameKey :=
  ⟨manifest.publisher, manifest.metadata.name⟩

def VerifiedManifest.candidate (manifest : VerifiedManifest) : RevisionPin :=
  ⟨manifest.metadata.revision, manifest.manifestId, false⟩

/-- The pins that an observation writes: of a key that is new, of a higher revision, or of a
conflict with the manifest that the revision was observed in. -/
inductive Raises (manifest : VerifiedManifest) (pins : PinMap) : PinMap → Prop
  | first (hkey : pins.lookup manifest.key = none) (hroom : pins.rows.length < maxPins) :
    Raises manifest pins (pins.insert manifest.key manifest.candidate)
  | higher (pin : RevisionPin) (hkey : pins.lookup manifest.key = some pin)
    (hrevision : pin.revision < manifest.metadata.revision) :
    Raises manifest pins (pins.insert manifest.key manifest.candidate)
  | conflict (pin : RevisionPin) (hkey : pins.lookup manifest.key = some pin)
    (hrevision : pin.revision = manifest.metadata.revision) (hsettled : pin.conflicted = false)
    (hother : pin.manifestId ≠ manifest.manifestId) :
    Raises manifest pins (pins.insert manifest.key { pin with conflicted := true })

namespace ChunkStore

variable {crypto : Ed25519} {host : Host} {s : ChunkStore} {E : Error → ChunkStore → Prop}
  {files : Files}

section

variable (hd : s.disk.files = files) (hE : ∀ e d, d.files = files → E e { s with disk := d })

include hd hE

/-- What is read is the file, once the file that is written first is not there. -/
theorem ensures_readSettled {stage file : FileName} {maximum : ℕ}
    {Q : Option Bytes → ChunkStore → Prop}
    (hQ : ∀ d, s.healthy = true → files stage = none → d.files = files →
      Q (files file) { s with disk := d }) :
    (readSettled host stage file maximum).Ensures s Q E := by
  simp only [readSettled, ensures_bind]
  refine ensures_ensureHealthy (fun _ => hE _ s.disk hd) fun hs => ?_
  simp only [onDisk, ensures_within, ensures_attempt]
  refine Disk.ensures_ensureAbsent hd hE fun d hstage hd => ?_
  refine Disk.ensures_openPrivateFile hd (fun e d he hd => ?_) fun b d hb hd => ?_
  · split
    · next heq =>
      cases heq
      exact he rfl ▸ hQ d hs hstage hd
    · next heq => exact Except.error.inj heq ▸ hE _ d hd
    · next heq => cases heq
  · simp only [ensures_bind, ensures_within, ensures_pure]
    exact Disk.ensures_readToEnd hd hE fun d hd => hb ▸ hQ d hs hstage hd

theorem ensures_readNamePins {Q : PinMap → ChunkStore → Prop}
    (hQ : ∀ pins d, s.healthy = true → files .pinStage = none →
      pinsOf crypto s.cacheId files = .ok pins → d.files = files → Q pins { s with disk := d }) :
    (readNamePins crypto host).Ensures s Q E := by
  simp only [readNamePins, ensures_bind]
  refine ensures_readSettled hd hE fun d hs hstage hd => ?_
  unfold pinsOf at hQ
  cases hfile : files .pins with
  | none => exact hQ _ d hs hstage (by rw [hfile]; rfl) hd
  | some b =>
    simp only [ensures_bind, ensures_state, ensures_lift]
    exact ⟨fun pins hpins => hQ pins d hs hstage (by rw [hfile]; exact hpins) hd,
      fun e _ => hE e d hd⟩

theorem ensures_persistNamePins {pins : PinMap} {Q : Unit → ChunkStore → Prop}
    (hcut : ∀ e bytes d, Pins.encodePins crypto pins s.cacheId = .ok bytes →
      Disk.Interrupted files .pinStage .pins bytes d.files →
      E e { s with disk := d, healthy := false })
    (hQ : ∀ bytes d, Pins.encodePins crypto pins s.cacheId = .ok bytes →
      d.files = Disk.replaced files .pinStage .pins bytes → Q () { s with disk := d }) :
    (persistNamePins crypto host pins).Ensures s Q E := by
  simp only [persistNamePins, ensures_bind]
  refine ensures_ensureHealthy (fun _ => hE _ s.disk hd) fun hs => ?_
  simp only [onDisk, setHealthy, ensures_within, ensures_state,
    ensures_lift, ensures_update]
  refine Disk.ensures_ensureAbsent hd hE fun d _ hd =>
    ⟨fun bytes hbytes => ?_, fun e _ => hE e d hd⟩
  refine ensures_checkFreeSpace hd hE fun d hd => ?_
  refine Disk.ensures_replaceFile hd (fun e d => hcut e bytes d hbytes) fun d hd => ?_
  rw [← hs]
  exact hQ bytes d hbytes hd

end

/-! ## Errors -/

/-- Whatever is not about the pins themselves fails with another error than a conflict. -/
def NoConflict (e : Error) : Prop := e ≠ .nameConflict

section Errors

theorem failsOnly_call : (Disk.call host).FailsOnly NoConflict := by
  intro d e he
  simp only [Disk.call] at he
  split at he
  · cases he
    simp [NoConflict]
  · cases he

theorem failsOnly_ensureAbsent {name : FileName} :
    (Disk.ensureAbsent host name).FailsOnly NoConflict :=
  .bind failsOnly_call fun _ => .bind .state fun _ =>
    .refuse (by simp [NoConflict])

theorem failsOnly_openPrivateFile {name : FileName} {maximum : ℕ} :
    (Disk.openPrivateFile host name maximum).FailsOnly NoConflict :=
  .bind failsOnly_call fun _ => .bind .state fun _ =>
    .bind (.orFail (by simp [NoConflict])) fun _ =>
    .bind (.refuse (by simp [NoConflict])) fun _ => .pure

theorem failsOnly_replaceFile {stage target : FileName} {content : Bytes} :
    (Disk.replaceFile host stage target content).FailsOnly NoConflict := by
  refine .bind (.bind failsOnly_call fun _ => .bind .state
    fun _ => .bind (.refuse (by simp [NoConflict])) fun _ => .update)
    fun _ => .bind (.bind failsOnly_call fun _ => .update)
    fun _ => .bind failsOnly_call fun _ => .bind ?_ fun _ => failsOnly_call
  exact .bind failsOnly_call fun _ => .bind .state fun _ =>
    .bind (.orFail (by simp [NoConflict])) fun _ =>
    .bind .update fun _ => .update

theorem failsOnly_ensureHealthy : ensureHealthy.FailsOnly NoConflict :=
  .bind .state fun _ => .refuse (by simp [NoConflict])

theorem failsOnly_readSettled {stage file : FileName} {maximum : ℕ} :
    (readSettled host stage file maximum).FailsOnly NoConflict := by
  refine .bind failsOnly_ensureHealthy fun _ =>
    .bind (.within failsOnly_ensureAbsent) fun _ =>
    .attempt_bind (.within failsOnly_openPrivateFile) ?_
  rintro (e | content) hr
  · rw [failsOnly_error] at hr
    split
    · exact .pure
    · next he => exact Except.error.inj he ▸ .fail hr
    · next he => cases he
  · exact .bind (.within (.bind failsOnly_call fun _ => .pure))
      fun _ => .pure

theorem failsOnly_decodePin {remaining : Bytes} :
    FailsOnly NoConflict (Pins.decodePin remaining) := by
  have hname : ∀ name, FailsOnly NoConflict
      ((validateName name).mapError fun _ => Error.invalidStore) :=
    fun _ => failsOnly_mapError_const (by simp [NoConflict])
  simp [Pins.decodePin, failsOnly_bind, hname, NoConflict]

theorem failsOnly_decodeRows {count : ℕ} {remaining : Bytes} {pins : PinMap} :
    FailsOnly NoConflict (Pins.decodeRows count remaining pins) := by
  induction count generalizing remaining pins with
  | zero => exact failsOnly_ok _
  | succ count ih =>
    simp only [Pins.decodeRows, failsOnly_bind]
    exact ⟨failsOnly_decodePin, fun row _ => ⟨by simp [NoConflict], fun _ _ => ih⟩⟩

theorem failsOnly_unsealed {magic : Bytes} {cacheId : FixedBytes 32} {bytes : Bytes} :
    FailsOnly NoConflict (unsealed crypto magic cacheId bytes) := by
  simp [unsealed, failsOnly_bind, NoConflict]

theorem failsOnly_decodePins {bytes : Bytes} {cacheId : FixedBytes 32} :
    FailsOnly NoConflict (Pins.decodePins crypto bytes cacheId) := by
  simp only [Pins.decodePins, failsOnly_bind]
  exact ⟨by simp [NoConflict], fun _ _ => ⟨failsOnly_unsealed, fun payload _ =>
    ⟨by simp [NoConflict], fun _ _ => ⟨failsOnly_decodeRows, fun result _ => by
      simp [NoConflict]⟩⟩⟩⟩

theorem failsOnly_readNamePins : (readNamePins crypto host).FailsOnly NoConflict := by
  refine .bind failsOnly_readSettled fun content => ?_
  cases content with
  | none => exact .pure
  | some bytes => exact .bind .state fun _ => .lift failsOnly_decodePins

theorem failsOnly_checkFreeSpace {additional : ℕ} :
    (checkFreeSpace host additional).FailsOnly NoConflict :=
  .bind .state fun _ =>
    .bind (.refuse (by simp [NoConflict])) fun _ =>
    .bind (.within (.bind .state fun _ =>
      .bind failsOnly_call fun _ => .pure)) fun _ =>
    .bind (.orFail (by simp [NoConflict])) fun _ =>
    .refuse (by simp [NoConflict])

theorem failsOnly_encodePins {pins : PinMap} {cacheId : FixedBytes 32} :
    FailsOnly NoConflict (Pins.encodePins crypto pins cacheId) := by
  simp only [Pins.encodePins, failsOnly_bind]
  refine ⟨by simp [NoConflict], fun _ _ => ⟨failsOnly_mapM fun row _ => ?_, fun _ _ => ?_⟩⟩
  · simp [Pins.encodePin, failsOnly_bind, NoConflict]
  · exact failsOnly_ok _

theorem failsOnly_persistNamePins {pins : PinMap} :
    (persistNamePins crypto host pins).FailsOnly NoConflict :=
  .bind failsOnly_ensureHealthy fun _ =>
    .bind (.within failsOnly_ensureAbsent) fun _ =>
    .bind .state fun _ => .bind (.lift failsOnly_encodePins)
    fun _ => .bind failsOnly_checkFreeSpace fun _ => .bind .update
    fun _ => .bind (.within failsOnly_replaceFile) fun _ => .update

end Errors

/-! ## Observations -/

/-- The manifest has the revision of a pin that two manifests were observed for. -/
def Disputed (pins : PinMap) (manifest : VerifiedManifest) : Prop :=
  ∃ pin, pins.lookup manifest.key = some pin ∧ pin.revision = manifest.metadata.revision ∧
    pin.conflicted = true

/-- An observation writes pins that it raised. -/
structure Writing (crypto : Ed25519) (s : ChunkStore) (manifest : VerifiedManifest)
    (pins new : PinMap) (bytes : Bytes) : Prop where
  healthy : s.healthy = true
  stage : s.disk.files .pinStage = none
  read : pinsOf crypto s.cacheId s.disk.files = .ok pins
  raises : Raises manifest pins new
  encoded : Pins.encodePins crypto new s.cacheId = .ok bytes

/-- What an observation does: nothing, or it writes the pins that it raises. A conflict is reported
only when the pins record it. -/
theorem ensures_observeNameRevision {manifest : VerifiedManifest} {now : ℕ}
    {Q : RevisionPin → ChunkStore → Prop}
    (hE : ∀ e d, d.files = s.disk.files → (e = .nameConflict → ∃ pins,
      pinsOf crypto s.cacheId s.disk.files = .ok pins ∧ Disputed pins manifest) →
      E e { s with disk := d })
    (hcut : ∀ e pins new bytes d, NoConflict e → Writing crypto s manifest pins new bytes →
      Disk.Interrupted s.disk.files .pinStage .pins bytes d.files →
      E e { s with disk := d, healthy := false })
    (hconflict : ∀ pins new bytes d, Writing crypto s manifest pins new bytes →
      Disputed new manifest → d.files = Disk.replaced s.disk.files .pinStage .pins bytes →
      E .nameConflict { s with disk := d })
    (hsame : ∀ pins d, pinsOf crypto s.cacheId s.disk.files = .ok pins →
      pins.lookup manifest.key = some manifest.candidate → d.files = s.disk.files →
      Q manifest.candidate { s with disk := d })
    (hnew : ∀ pins bytes d,
      Writing crypto s manifest pins (pins.insert manifest.key manifest.candidate) bytes →
      (∀ pin, pins.lookup manifest.key = some pin → pin.revision < manifest.metadata.revision) →
      d.files = Disk.replaced s.disk.files .pinStage .pins bytes →
      Q manifest.candidate { s with disk := d }) :
    (observeNameRevision crypto host manifest now).Ensures s Q E := by
  simp only [observeNameRevision, ensures_bind, ensures_lift]
  refine ⟨fun _ _ => ?_, fun e he => hE e s.disk rfl fun hcon => ?_⟩
  · have hfails : ∀ e d, d.files = s.disk.files → NoConflict e → E e { s with disk := d } :=
      fun e d hd he => hE e d hd fun hcon => absurd hcon he
    refine failsOnly_readNamePins.ensures (ensures_readNamePins rfl hfails
      fun pins d hs hstage hpins hd => ?_)
    -- what writing raised pins does
    have hpersist : ∀ {new : PinMap} {Q' : Unit → ChunkStore → Prop}, Raises manifest pins new →
        (∀ bytes d', Writing crypto s manifest pins new bytes →
          d'.files = Disk.replaced s.disk.files .pinStage .pins bytes →
          Q' () { s with disk := d' }) →
        (persistNamePins crypto host new).Ensures { s with disk := d } Q' E :=
      fun hraises hQ' => failsOnly_persistNamePins.ensures (ensures_persistNamePins hd hfails
        (fun e bytes d' hbytes hint he =>
          hcut e pins _ bytes d' he ⟨hs, hstage, hpins, hraises, hbytes⟩ hint)
        fun bytes d' hbytes => hQ' bytes d' ⟨hs, hstage, hpins, hraises, hbytes⟩)
    rcases hkey : pins.lookup ⟨manifest.publisher, manifest.metadata.name⟩ with _ | previous
    · simp only [ensures_bind, ensures_refuse, ensures_pure]
      refine ⟨fun _ => hE _ d hd (by simp), fun hroom => ?_⟩
      refine hpersist (.first hkey (not_le.mp hroom)) fun bytes d' hwriting hd' => ?_
      refine hnew pins bytes d' hwriting (fun pin hpin => ?_) hd'
      cases hkey.symm.trans hpin
    · simp only [ensures_bind, ensures_refuse, ensures_ite,
        ensures_pure, ensures_fail]
      refine ⟨fun _ => hE _ d hd (by simp), fun hle => ⟨fun heq => ⟨fun hconflicted => ?_,
        fun hsettled => ⟨fun hid => ?_, fun hid => ?_⟩⟩, fun hne => ?_⟩⟩
      · exact hE _ d hd fun _ => ⟨pins, hpins, previous, hkey, heq.symm, hconflicted⟩
      · have hprevious : previous = manifest.candidate := by
          cases previous
          simp_all [VerifiedManifest.candidate]
        rw [hprevious]
        exact hsame pins d hpins (hprevious ▸ hkey) hd
      · rw [Bool.not_eq_true] at hsettled
        refine hpersist (.conflict previous hkey heq.symm hsettled fun hcon => hid hcon.symm)
          fun bytes d' hwriting hd' => ?_
        refine hconflict pins _ bytes d' hwriting
          ⟨{ previous with conflicted := true }, ?_, heq.symm, rfl⟩ hd'
        rw [OrdMap.lookup_insert]
        exact if_pos rfl
      · have hlt : previous.revision < manifest.metadata.revision :=
          lt_of_le_of_ne (not_lt.mp hle) fun hcon => hne hcon.symm
        refine hpersist (.higher previous hkey hlt) fun bytes d' hwriting hd' => ?_
        refine hnew pins bytes d' hwriting (fun pin hpin => ?_) hd'
        obtain rfl := Option.mem_unique hkey hpin
        exact hlt
  · simp [hcon, VerifiedManifest.checkTime, Validity.checkTime] at he

end ChunkStore

end Volparossa.Content
