import Coursework.CrashSafeWrites
import Coursework.EventTraces

/-!
# Runs of writes and crashes

A machine that runs one call of `filewrite` after another, and may crash at any
disk write of a call or between two calls.  After a crash `recover_from_log` runs,
crashing itself any number of times, and the calls go on.

Every such run is a run of the volume over the same events, in which a call that
returned did what `filewrite` does on a volume, and a call that crashed stored a
number of whole pieces.  So a write that returned stays on the disk through all
later crashes and all writes to other files.
-/

namespace Coursework.FileSystem.Buffered

open RedoLog (Machine LogArea RecoveryCrashes recoveredDisk recoverFromLog boot)

variable {sb : Superblock} {area : LogArea} {machine : Machine}

/-! ## The machine after a recovery -/

/-- The buffers agree with the disk. -/
def Synced (machine : Machine) : Prop := machine.view = machine.disk

theorem Synced.emits {after : Machine} {writes : List (Nat × Block)} (synced : Synced machine)
    (emits : RedoLog.Emits machine after writes) : Synced after := by
  unfold Synced at *
  rw [emits.view_eq, emits.disk_eq, synced]

theorem Synced.withHead (synced : Synced machine) (lh : List Nat) :
    Synced { machine with lh := lh } := synced

theorem Synced.installTrans (synced : Synced machine) :
    Synced (RedoLog.installTrans area machine) := by
  unfold RedoLog.installTrans
  generalize List.range machine.lh.length = tails
  induction tails generalizing machine with
  | nil => exact synced
  | cons tail tails ih => exact ih (synced.emits (RedoLog.installBlock_emits area machine tail))

theorem recoverFromLog_synced (crashed : Nat → Block) :
    Synced (recoverFromLog area (boot crashed)) := by
  have booted : Synced (boot crashed) := rfl
  have header : Synced (RedoLog.bread (boot crashed) area.start).2 :=
    booted.emits (RedoLog.bread_emits (boot crashed) area.start)
  have read : Synced (RedoLog.readHead area (boot crashed)) := header.withHead _
  exact (read.installTrans.withHead []).emits (RedoLog.writeHead_emits area _)

theorem OnDisk.recovered {volume : Volume sb} {crashed : Nat → Block}
    (onDisk : OnDisk area (recoveredDisk area crashed) volume) :
    Mounted area (recoverFromLog area (boot crashed)) volume where
  disk := onDisk
  cached := recoverFromLog_synced crashed
  empty := (RedoLog.writeHead_emits area
    { RedoLog.installTrans area (RedoLog.readHead area (boot crashed)) with lh := [] }).lh_eq

/-! ## Events -/

/-- A call that returned, with its result and the file after it, a call that crashed, or a crash
between two calls. -/
inductive Event (sb : Superblock) where
  | write (f : OpenFile sb) (addr : Nat → UInt8) (n : Nat) (value : Int) (f' : OpenFile sb)
  | crash (f : OpenFile sb) (addr : Nat → UInt8) (n : Nat)
  | reboot

/-- The file that a call of an event writes to. -/
def Event.Writes (inum : Fin sb.ninodes) : Event sb → Prop
  | .write f _ _ _ _ | .crash f _ _ => f.ip = inum
  | .reboot => False

/-- The inode that `ilock` reads is that of a file or of a directory. -/
def Locks (machine : Machine) (inum : Fin sb.ninodes) (ip : Dinode) : Prop :=
  loadDinode (machine.view (IBLOCK sb inum)) inum = some ip ∧ (ip.type = .file ∨ ip.type = .dir)

/-- A call of `filewrite` that returns, or a crash after any of the disk writes, with a recovery. -/
inductive MachineStep (sb : Superblock) (area : LogArea) : Machine → Event sb → Machine → Prop
  | write {machine after : Machine} {f f' : OpenFile sb} {addr : Nat → UInt8} {n : Nat}
      {value : Int} {ip ip' : Dinode} : Locks machine f.ip ip →
      filewrite sb area ip f addr n machine = .ok (value, f', ip') after →
      MachineStep sb area machine (.write f addr n value f') after
  | crash {machine : Machine} {f : OpenFile sb} {addr : Nat → UInt8} {n : Nat} {ip : Dinode}
      {writes : List (Nat × Block)} {count : Nat} {crashed : Nat → Block} :
      Locks machine f.ip ip →
      (final (filewrite sb area ip f addr n machine)).writes = machine.writes ++ writes →
      RecoveryCrashes area (applyWrites (writes.take count) machine.disk) crashed →
      MachineStep sb area machine (.crash f addr n) (recoverFromLog area (boot crashed))
  | reboot {machine : Machine} {crashed : Nat → Block} :
      RecoveryCrashes area machine.disk crashed →
      MachineStep sb area machine .reboot (recoverFromLog area (boot crashed))

/-- What an event may do to the volume. -/
inductive VolumeStep : Volume sb → Event sb → Volume sb → Prop
  | write {volume after : Volume sb} {f f' : OpenFile sb} {addr : Nat → UInt8} {n : Nat}
      {value : Int} : volume.IsFile f.ip →
      FileSystem.filewrite volume f addr n = .ok (value, f', after) →
      VolumeStep volume (.write f addr n value f') after
  | crash {volume after : Volume sb} {f f' : OpenFile sb} {addr : Nat → UInt8} {n : Nat}
      (pieces : Nat) : volume.IsFile f.ip →
      Stores volume f (bytesFrom addr 0
        (min (pieces * maxWrite) (stored (volume.inode f.ip).size f.off.toNat n))) f' after →
      VolumeStep volume (.crash f addr n) after
  | reboot (volume : Volume sb) : VolumeStep volume .reboot volume

section Steps

variable {volume after : Volume sb} {event : Event sb}

/-- The inode that `ilock` reads is the one of the volume. -/
theorem Mounted.locks_iff (mounted : Mounted area machine volume) {inum : Fin sb.ninodes}
    {ip : Dinode} :
    Locks machine inum ip ↔ ip = volume.inode inum ∧ volume.IsFile inum := by
  rw [Locks, mounted.cached, mounted.disk.shown.dinodes, mounted.disk.synced, Option.some_inj]
  constructor
  · rintro ⟨rfl, isFile⟩
    exact ⟨rfl, isFile⟩
  · rintro ⟨rfl, isFile⟩
    exact ⟨rfl, isFile⟩

/-- A call that returned stored its bytes, if it returned their number, and changed nothing else. -/
theorem filewrite_stored {f f' : OpenFile sb} {addr : Nat → UInt8} {n : Nat} {value : Int}
    (sound : volume.Sound) (isFile : volume.IsFile f.ip)
    (writes : FileSystem.filewrite volume f addr n = .ok (value, f', after)) :
    after.Sound ∧ Volume.SameOthers f.ip volume after ∧
      (value = n → after.contents f.ip =
        splice (volume.contents f.ip) f.off.toNat (bytesFrom addr 0 n)) := by
  by_cases writable : f.writable = true
  · have spec := filewrite_spec sound isFile writable addr n
    rw [writes] at spec
    obtain ⟨isValue, stores⟩ : (value =
        if stored (volume.inode f.ip).size f.off.toNat n = n then (n : Int) else -1) ∧
        Stores volume f (bytesFrom addr 0 (stored (volume.inode f.ip).size f.off.toNat n)) f' after :=
      spec
    refine ⟨stores.sound, stores.others, ?_⟩
    intro returned
    have all : stored (volume.inode f.ip).size f.off.toNat n = n := by
      by_contra notAll
      rw [if_neg notAll] at isValue
      omega
    rw [stores.contents, all]
  · rw [FileSystem.filewrite, if_pos (Bool.eq_false_of_not_eq_true writable)] at writes
    cases writes
    exact ⟨sound, .refl f.ip volume, fun returned => by omega⟩

theorem VolumeStep.sound (step : VolumeStep volume event after) (sound : volume.Sound) :
    after.Sound := by
  cases step with
  | write isFile writes => exact (filewrite_stored sound isFile writes).1
  | crash pieces isFile stores => exact stores.sound
  | reboot => exact sound

theorem VolumeStep.others (step : VolumeStep volume event after) (sound : volume.Sound)
    {inum : Fin sb.ninodes} (isFile : volume.IsFile inum) (apart : ¬ event.Writes inum) :
    after.contents inum = volume.contents inum ∧ after.IsFile inum := by
  cases step with
  | write isOther writes =>
      have same := (filewrite_stored sound isOther writes).2.1
      exact ⟨same.contents inum (Ne.symm apart) isFile, (same.isFile inum).mpr isFile⟩
  | crash pieces isOther stores =>
      exact ⟨stores.others.contents inum (Ne.symm apart) isFile,
        (stores.others.isFile inum).mpr isFile⟩
  | reboot => exact ⟨rfl, isFile⟩

/-- Each step of the machine is one of the volume that it has mounted. -/
theorem MachineStep.refines (layout : Layout sb area) (machine : Machine) (event : Event sb)
    (next : Machine) (volume : Volume sb)
    (mounted : Mounted area machine volume ∧ volume.Sound)
    (step : MachineStep sb area machine event next) :
    ∃ after, VolumeStep volume event after ∧ Mounted area next after ∧ after.Sound := by
  obtain ⟨mounted, sound⟩ := mounted
  have simulated : ∃ after, VolumeStep volume event after ∧ Mounted area next after := by
    cases step with
    | @write _ f f' addr n value ip ip' locked ran =>
        obtain ⟨rfl, isFile⟩ := mounted.locks_iff.mp locked
        obtain ⟨agrees, -⟩ := @filewrite_safe sb area machine volume f addr layout mounted sound
          isFile n
        rw [ran] at agrees
        cases agrees with
        | ok isCall mounted' => exact ⟨_, .write isFile isCall, mounted'⟩
    | @crash f addr n ip writes count crashed locked issued crash =>
        obtain ⟨rfl, isFile⟩ := mounted.locks_iff.mp locked
        obtain ⟨-, writes', issued', -, crashes⟩ := @filewrite_safe sb area machine volume f addr
          layout mounted sound isFile n
        obtain rfl := List.append_cancel_left (issued.symm.trans issued')
        obtain ⟨pieces, f', after, stores, onDisk⟩ := crashes count crashed crash
        exact ⟨after, .crash pieces isFile stores, onDisk.recovered⟩
    | @reboot crashed crash =>
        obtain ⟨writes, -, -, crashes⟩ := mounted.refl layout rfl rfl
        exact ⟨volume, .reboot volume, (crashes 0 crashed crash).recovered⟩
  obtain ⟨after, isStep, mounted'⟩ := simulated
  exact ⟨after, isStep, mounted', isStep.sound sound⟩

end Steps

/-! ## Whole runs -/

section Runs

variable {volume : Volume sb} {last : Machine} {events : List (Event sb)}

/-- A run of writes and crashes is a run of the volume over the same events, and leaves the machine
with a sound volume. -/
theorem crashing_runs_refine (layout : Layout sb area) (mounted : Mounted area machine volume)
    (sound : volume.Sound) (trace : Trace (MachineStep sb area) machine events last) :
    ∃ after, Trace VolumeStep volume events after ∧ Mounted area last after ∧ after.Sound :=
  trace.simulate (MachineStep.refines layout) ⟨mounted, sound⟩

/-- A write that returned the number of its bytes stays on the disk through all later crashes, and
all later writes to other files. -/
theorem returned_write_endures (layout : Layout sb area) (mounted : Mounted area machine volume)
    (sound : volume.Sound) {f f' : OpenFile sb} {addr : Nat → UInt8} {n : Nat}
    (trace : Trace (MachineStep sb area) machine (.write f addr n n f' :: events) last)
    (apart : ∀ event ∈ events, ¬ event.Writes f.ip) :
    ∃ after, Mounted area last after ∧
      after.contents f.ip = splice (volume.contents f.ip) f.off.toNat (bytesFrom addr 0 n) := by
  obtain ⟨after, trace', mounted', -⟩ :=
    trace.simulate (MachineStep.refines layout) ⟨mounted, sound⟩
  refine ⟨after, mounted', ?_⟩
  cases trace' with
  | cons first rest =>
      cases first with
      | write isFile writes =>
          obtain ⟨middleSound, same, isStored⟩ := filewrite_stored sound isFile writes
          have steps : ∀ (before : Volume sb) (event : Event sb) (later : Volume sb),
              before.Sound ∧ before.IsFile f.ip → ¬ event.Writes f.ip →
              VolumeStep before event later →
              later.contents f.ip = before.contents f.ip ∧ later.Sound ∧ later.IsFile f.ip := by
            rintro before event later ⟨beforeSound, beforeFile⟩ elsewhere step
            obtain ⟨kept, stillFile⟩ := step.others beforeSound beforeFile elsewhere
            exact ⟨kept, step.sound beforeSound, stillFile⟩
          rw [rest.keeps steps ⟨middleSound, (same.isFile f.ip).mpr isFile⟩ apart]
          exact isStored rfl

/-! ## A run with a crash -/

theorem small_returns :
    (FileSystem.filewrite smallVolume smallFile (fun _ => 7) 10).toOption.map Prod.fst =
      some 10 := by
  decide +kernel

/-- A write of ten bytes to the empty file returns. -/
theorem small_write : ∃ f' after volume',
    MachineStep smallSuperblock smallArea (boot smallRaw)
      (.write smallFile (fun _ => 7) 10 10 f') after ∧
    Mounted smallArea after volume' ∧ volume'.Sound ∧ volume'.IsFile smallFile.ip := by
  have isFile : smallVolume.IsFile smallFile.ip := .inl rfl
  have locked : Locks (boot smallRaw) smallFile.ip (smallVolume.inode smallFile.ip) :=
    small_mounted.locks_iff.mpr ⟨rfl, isFile⟩
  obtain ⟨agrees, -⟩ := @filewrite_safe _ _ _ _ smallFile (fun _ => 7) small_layout small_mounted
    smallVolume_sound isFile 10
  have returns := small_returns
  generalize isRun : filewrite smallSuperblock smallArea (smallVolume.inode smallFile.ip) smallFile
    (fun _ => 7) 10 (boot smallRaw) = outcome at agrees
  cases agrees with
  | @ok value f' volume' after isCall mounted =>
      rw [isCall] at returns
      obtain rfl : value = 10 := Option.some_inj.mp returns
      obtain ⟨sound, same, -⟩ := filewrite_stored smallVolume_sound isFile isCall
      exact ⟨f', after, volume', .write locked isRun, mounted, sound,
        (same.isFile smallFile.ip).mpr isFile⟩
  | error isCall =>
      rw [isCall] at returns
      cases returns

/-- The write returns, and a second write crashes after five of its disk writes. -/
theorem crashing_runs_refine_small : ∃ f' last after,
    Trace (MachineStep smallSuperblock smallArea) (boot smallRaw)
      [.write smallFile (fun _ => 7) 10 10 f', .crash smallFile (fun _ => 8) 2000] last ∧
    Trace VolumeStep smallVolume
      [.write smallFile (fun _ => 7) 10 10 f', .crash smallFile (fun _ => 8) 2000] after ∧
    Mounted smallArea last after ∧ after.Sound := by
  obtain ⟨f', middle, volume', returned, mounted, sound, isFile⟩ := small_write
  obtain ⟨-, writes, issued, -, -⟩ := @filewrite_safe _ _ _ _ smallFile (fun _ => 8) small_layout
    mounted sound isFile 2000
  have locked := mounted.locks_iff.mpr ⟨rfl, isFile⟩
  have crashed := MachineStep.crash locked issued
    (.done (applyWrites (writes.take 5) middle.disk))
  have trace := Trace.cons returned (.cons crashed (.nil _))
  obtain ⟨after, isTrace, mounted', sound'⟩ :=
    crashing_runs_refine small_layout small_mounted smallVolume_sound trace
  exact ⟨f', _, after, trace, isTrace, mounted', sound'⟩

/-- The write returns, and the machine crashes twice after it. -/
theorem returned_write_endures_small : ∃ f' last after,
    Trace (MachineStep smallSuperblock smallArea) (boot smallRaw)
      [.write smallFile (fun _ => 7) 10 10 f', .reboot, .reboot] last ∧
    Mounted smallArea last after ∧
    after.contents smallFile.ip = splice (smallVolume.contents smallFile.ip) 0
      (bytesFrom (fun _ => 7) 0 10) := by
  obtain ⟨f', middle, volume', returned, -⟩ := small_write
  have trace := Trace.cons returned (.cons (.reboot (.done _)) (.cons (.reboot (.done _)) (.nil _)))
  have apart : ∀ event ∈ [Event.reboot, .reboot], ¬ event.Writes smallFile.ip := by
    simp [Event.Writes]
  obtain ⟨after, mounted, stored⟩ :=
    returned_write_endures small_layout small_mounted smallVolume_sound trace apart
  exact ⟨f', _, after, trace, mounted, stored⟩

end Runs

end Coursework.FileSystem.Buffered
