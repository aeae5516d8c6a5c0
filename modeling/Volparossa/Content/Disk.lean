import Volparossa.Content.Manifest
import Volparossa.Foundations.LittleEndian
import Volparossa.Foundations.Procedure

/-!
# The directory of a cache

A cache owns one directory and only ever touches files of its own names. Every call to the
filesystem is one step: it takes effect completely and for good, or fails and has no effect. Which
calls fail, and how much space each call finds free, is up to a `Host`; a host that serves no call
from some point on is a process that dies there (`Host.crashAt`), since nothing that the process
does afterwards reaches the directory.

The rule for each call says what it does to the files when it succeeds, and that it leaves them
alone when it fails.
-/

namespace Volparossa.Content

open Procedure Function

/-- The names a cache uses in its directory. -/
inductive FileName where
  | owner
  | index
  | indexStage
  | chunkStage
  | replicas
  | replicaStage
  | mailbox
  | mailboxStage
  | pins
  | pinStage
  | manifests
  | manifestStage
  | chunk (id : ChunkId)
  deriving DecidableEq

/-- The files of a directory. -/
abbrev Files := FileName → Option Bytes

/-- A directory, and how many calls to the filesystem were made. -/
structure Disk where
  files : Files
  calls : ℕ

/-- What the calls to the filesystem meet. -/
structure Host where
  /-- The call with this number fails. -/
  fails : ℕ → Bool
  /-- The free bytes that the call with this number finds, if they can be counted. -/
  available : ℕ → Option ℕ
  /-- Device, inode and owner of the directory. -/
  device : ℕ
  inode : ℕ
  uid : ℕ

/-- The host of a process that dies at the call with number `n`. -/
def Host.crashAt (host : Host) (n : ℕ) : Host :=
  { host with fails := fun call => n ≤ call || host.fails call }

namespace Disk

variable (host : Host)

/-- A call that may fail. -/
def call : Procedure Disk Error Unit := fun disk =>
  (if host.fails disk.calls then .error (.io .other) else .ok (),
    { disk with calls := disk.calls + 1 })

def setFile (name : FileName) (content : Option Bytes) : Procedure Disk Error Unit :=
  .update fun disk => { disk with files := update disk.files name content }

/-- Create a file that is not there. -/
def createFile (name : FileName) : Procedure Disk Error Unit := do
  call host
  .refuse ((← .state).files name ≠ none) (.io .alreadyExists)
  setFile name (some [])

/-- Write a file that was just created. -/
def writeAll (name : FileName) (content : Bytes) : Procedure Disk Error Unit := do
  call host
  setFile name (some content)

def syncAll : Procedure Disk Error Unit := call host

/-- Rename a file, over one that is there. -/
def rename (source target : FileName) : Procedure Disk Error Unit := do
  call host
  let content ← .orFail ((← .state).files source) (.io .notFound)
  setFile source none
  setFile target (some content)

/-- Rename a file to a name that is free. -/
def renameNoReplace (source target : FileName) : Procedure Disk Error Unit := do
  call host
  let disk ← .state
  let content ← .orFail (disk.files source) (.io .notFound)
  .refuse (disk.files target ≠ none) (.io .alreadyExists)
  setFile source none
  setFile target (some content)

def unlink (name : FileName) : Procedure Disk Error Unit := do
  call host
  .refuse ((← .state).files name = none) (.io .notFound)
  setFile name none

/-- Open a file of the cache, of at most `maximum` bytes. -/
def openPrivateFile (name : FileName) (maximum : ℕ) : Procedure Disk Error Bytes := do
  call host
  let content ← .orFail ((← .state).files name) (.io .notFound)
  .refuse (content.length > maximum) .invalidStore
  pure content

/-- Read an open file to its end. -/
def readToEnd (content : Bytes) : Procedure Disk Error Bytes := do
  call host
  pure content

def ensureAbsent (name : FileName) : Procedure Disk Error Unit := do
  call host
  .refuse ((← .state).files name ≠ none) .invalidStore

/-- The bytes that the filesystem has free. -/
def freeBytes : Procedure Disk Error (Option ℕ) := do
  let disk ← .state
  call host
  pure (host.available disk.calls)

/-- Replace a file as a whole, by way of another that is written first. -/
def replaceFile (stage target : FileName) (content : Bytes) : Procedure Disk Error Unit := do
  createFile host stage
  writeAll host stage content
  syncAll host
  rename host stage target
  syncAll host

/-! ## Rules

Each rule starts from the files of the directory, and a call that fails leaves them as they are. -/

section Rules

variable {host : Host} {d : Disk} {files : Files} {name stage target : FileName} {content : Bytes}
  {E : Error → Disk → Prop} {Q : Unit → Disk → Prop}

theorem ensures_call (hd : d.files = files) (hE : ∀ d', d'.files = files → E (.io .other) d')
    (hQ : ∀ d', d'.files = files → Q () d') : (call host).Ensures d Q E := by
  simp only [ensures_iff, call]
  cases host.fails d.calls with
  | false => exact ⟨fun _ _ => hQ _ hd, fun _ he => by simp at he⟩
  | true =>
    refine ⟨fun _ ha => by simp at ha, fun e he => ?_⟩
    simp only [reduceIte, Except.error.injEq] at he
    exact he ▸ hE _ hd

section

variable (hd : d.files = files) (hE : ∀ e d', d'.files = files → E e d')

include hd hE

theorem ensures_createFile (hQ : ∀ d', d'.files = update files name (some []) → Q () d') :
    (createFile host name).Ensures d Q E := by
  simp only [createFile, setFile, ensures_bind]
  refine ensures_call hd (hE _) fun d' hd' => ?_
  simp only [ensures_state, ensures_refuse, ensures_update, hd']
  exact ⟨fun _ => hE _ d' hd', fun _ => hQ _ rfl⟩

theorem ensures_writeAll (hQ : ∀ d', d'.files = update files name (some content) → Q () d') :
    (writeAll host name content).Ensures d Q E := by
  simp only [writeAll, setFile, ensures_bind]
  refine ensures_call hd (hE _) fun d' hd' => ?_
  simp only [ensures_update, hd']
  exact hQ _ rfl

section Rename

variable {source : FileName}
  (hQ : ∀ b d', files source = some b →
    d'.files = update (update files source none) target (some b) → Q () d')

include hQ

theorem ensures_rename : (rename host source target).Ensures d Q E := by
  simp only [rename, setFile, ensures_bind]
  refine ensures_call hd (hE _) fun d' hd' => ?_
  simp only [ensures_state, ensures_orFail, ensures_update, hd']
  exact ⟨fun _ => hE _ d' hd', fun b h => hQ b _ h rfl⟩

theorem ensures_renameNoReplace : (renameNoReplace host source target).Ensures d Q E := by
  simp only [renameNoReplace, setFile, ensures_bind]
  refine ensures_call hd (hE _) fun d' hd' => ?_
  simp only [ensures_state, ensures_orFail, ensures_refuse,
    ensures_update, hd']
  exact ⟨fun _ => hE _ d' hd', fun b h => ⟨fun _ => hE _ d' hd', fun _ => hQ b _ h rfl⟩⟩

end Rename

theorem ensures_readToEnd {Q : Bytes → Disk → Prop} (hQ : ∀ d', d'.files = files → Q content d') :
    (readToEnd host content).Ensures d Q E := by
  simp only [readToEnd, ensures_bind, ensures_pure]
  exact ensures_call hd (hE _) hQ

theorem ensures_ensureAbsent (hQ : ∀ d', files name = none → d'.files = files → Q () d') :
    (ensureAbsent host name).Ensures d Q E := by
  simp only [ensureAbsent, ensures_bind]
  refine ensures_call hd (hE _) fun d' hd' => ?_
  simp only [ensures_state, ensures_refuse, hd']
  exact ⟨fun _ => hE _ d' hd', fun h => hQ d' (not_not.mp h) hd'⟩

theorem ensures_freeBytes {Q : Option ℕ → Disk → Prop}
    (hQ : ∀ free d', d'.files = files → Q free d') : (freeBytes host).Ensures d Q E := by
  simp only [freeBytes, ensures_bind, ensures_state, ensures_pure]
  exact ensures_call hd (hE _) fun d' => hQ _ d'

end

section

variable (hd : d.files = files)
  (hE : ∀ e d', (e = .io .notFound → files name = none) → d'.files = files → E e d')

include hd hE

theorem ensures_unlink (hQ : ∀ d', d'.files = update files name none → Q () d') :
    (unlink host name).Ensures d Q E := by
  simp only [unlink, setFile, ensures_bind]
  refine ensures_call hd (fun d' => hE _ d' (by simp)) fun d' hd' => ?_
  simp only [ensures_state, ensures_refuse, ensures_update, hd']
  exact ⟨fun h => hE _ d' (fun _ => h) hd', fun _ => hQ _ rfl⟩

theorem ensures_openPrivateFile {Q : Bytes → Disk → Prop} {maximum : ℕ}
    (hQ : ∀ b d', files name = some b → d'.files = files → Q b d') :
    (openPrivateFile host name maximum).Ensures d Q E := by
  simp only [openPrivateFile, ensures_bind]
  refine ensures_call hd (fun d' => hE _ d' (by simp)) fun d' hd' => ?_
  simp only [ensures_state, ensures_orFail, ensures_refuse,
    ensures_pure, hd']
  exact ⟨fun h => hE _ d' (fun _ => h) hd', fun b h =>
    ⟨fun _ => hE _ d' (by simp) hd', fun _ => hQ b d' h hd'⟩⟩

end

/-- The files after `stage` was written with `content` and renamed to `target`. -/
def replaced (files : Files) (stage target : FileName) (content : Bytes) : Files :=
  update (update files stage none) target (some content)

/-- What a replacement that did not return left behind. -/
inductive Interrupted (files : Files) (stage target : FileName) (content : Bytes) : Files → Prop
  /-- Nothing was done. -/
  | untouched : Interrupted files stage target content files
  /-- The first file is there, empty or written. -/
  | staged (b : Bytes) :
    Interrupted files stage target content (update files stage (some b))
  /-- All is done. -/
  | done : Interrupted files stage target content (replaced files stage target content)

theorem replaced_of_ne (hstage : name ≠ stage) (htarget : name ≠ target) :
    replaced files stage target content name = files name := by
  rw [replaced, update_of_ne htarget, update_of_ne hstage]

theorem replaced_stage (h : stage ≠ target) :
    replaced files stage target content stage = none := by
  rw [replaced, update_of_ne h, update_self]

theorem replaced_target :
    replaced files stage target content target = some content := by
  rw [replaced, update_self]

theorem Interrupted.of_ne {files' : Files} (h : Interrupted files stage target content files')
    (hstage : name ≠ stage) (htarget : name ≠ target) : files' name = files name := by
  cases h with
  | untouched => rfl
  | staged b => exact update_of_ne hstage _ _
  | done => exact replaced_of_ne hstage htarget

theorem Interrupted.eq {files' : Files} (h : Interrupted files stage target content files') :
    files' = files ∨ (∃ b, files' = update files stage (some b)) ∨
      files' = replaced files stage target content := by
  cases h with
  | untouched => exact .inl rfl
  | staged b => exact .inr (.inl ⟨b, rfl⟩)
  | done => exact .inr (.inr rfl)

theorem ensures_replaceFile (hd : d.files = files)
    (hE : ∀ e d', Interrupted files stage target content d'.files → E e d')
    (hQ : ∀ d', d'.files = replaced files stage target content → Q () d') :
    (replaceFile host stage target content).Ensures d Q E := by
  simp only [replaceFile, syncAll, ensures_bind]
  have hstaged : ∀ e b d', d'.files = update files stage (some b) → E e d' :=
    fun e b d' hd' => hE e d' (hd' ▸ .staged b)
  refine ensures_createFile hd (fun e d' hd' => hE e d' (hd' ▸ .untouched)) fun d₁ hd₁ => ?_
  refine ensures_writeAll hd₁ (fun e => hstaged e _) fun d₂ hd₂ => ?_
  rw [update_idem] at hd₂
  refine ensures_call hd₂ (hstaged _ _) fun d₃ hd₃ => ?_
  refine ensures_rename hd₃ (fun e => hstaged e _) fun b d₄ hb hd₄ => ?_
  rw [update_self, Option.some.injEq] at hb
  rw [update_idem, ← hb] at hd₄
  exact ensures_call hd₄ (fun d' hd' => hE _ d' (hd' ▸ .done)) hQ

end Rules

end Disk

end Volparossa.Content
