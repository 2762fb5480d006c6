import Coursework.InodeCache
import Coursework.PathElements

/-!
# Walking along a path

`namex` starts at the root directory or at the current directory and looks up one element after
the other.  It takes a reference to the next inode before it drops the one that it has, so it
walks through the table of cached inodes with one reference, and every exit but a return of this
inode drops it.  The elements are those of the path, since `skipelem` takes them off one by one.

The only panic on a well-formed tree is the one of `iget` without a vacant entry; two vacant entries
before the walk are enough for any path.
-/

namespace Coursework.FileSystem

open CString Coursework.Path References

variable {sb : Superblock}

/-- `ROOTINO`. -/
def rootInum : Nat := 1

namespace InodeCache

/-- The loop of `namex` and its end: the inode that is returned, if any, and the buffer with the
last element. -/
def walk (cache : InodeCache sb) (nameiparent : Bool) (ip : Fin NINODE) (path name : List UInt8) :
    Except NamexPanic (Option (Fin NINODE) × List UInt8 × InodeCache sb) :=
  match skips : skipelem path name with
  | none =>
      if nameiparent then do
        let cache ← cache.iput ip
        return (none, name, cache)
      else return (some ip, name, cache)
  | some (rest, name) => do
      let cache ← cache.ilock ip
      let dp ← cache.number ip
      if (cache.volume.inode dp).type ≠ .dir then
        let cache ← cache.iunlockput ip
        return (none, name, cache)
      else if nameiparent = true ∧ rest = [] then
        let cache ← cache.iunlock ip
        return (some ip, name, cache)
      else
        let (found, volume) ← (cache.volume.dirlookup dp name).mapError .dir
        let cache := { cache with volume := volume }
        match found with
        | none =>
            let cache ← cache.iunlockput ip
            return (none, name, cache)
        | some (inum, _) =>
            let (next, cache) ← cache.iget inum
            let cache ← cache.iunlockput ip
            walk cache nameiparent next rest name
termination_by path.length
decreasing_by exact skipelem_shorter skips

/-- `namex`, for a process with a current directory. -/
def namex (cache : InodeCache sb) (cwd : Fin NINODE) (path : List UInt8) (nameiparent : Bool)
    (name : List UInt8) : Except NamexPanic (Option (Fin NINODE) × List UInt8 × InodeCache sb) :=
  if path.head? = some SLASH then do
    let (ip, cache) ← cache.iget rootInum
    cache.walk nameiparent ip path name
  else (cache.idup cwd).walk nameiparent cwd path name

end InodeCache

/-! ## What a path means -/

/-- The inode that a directory has under a name. -/
def Volume.lookupIn (volume : Volume sb) (dp : Nat) (name : List UInt8) : Option Nat :=
  if inside : dp < sb.ninodes then
    if (volume.inode ⟨dp, inside⟩).type = .dir then
      (slotLookup name (volume.slots ⟨dp, inside⟩)).map (·.2)
    else none
  else none

/-- The inode that elements lead to. -/
def Volume.resolve (volume : Volume sb) (start : Nat) (names : List (List UInt8)) : Option Nat :=
  names.foldlM volume.lookupIn start

/-- The inode is a directory. -/
def Volume.isDir (volume : Volume sb) (inum : Nat) : Bool :=
  if inside : inum < sb.ninodes then decide ((volume.inode ⟨inum, inside⟩).type = .dir) else false

/-- The inode that `namex` comes to. -/
def Volume.reach (volume : Volume sb) (nameiparent : Bool) : Nat → List (List UInt8) → Option Nat
  | ip, [] => if nameiparent then none else some ip
  | ip, name :: rest =>
      if volume.isDir ip then
        if nameiparent = true ∧ rest = [] then some ip
        else (volume.lookupIn ip name).bind fun next => volume.reach nameiparent next rest
      else none

namespace Volume

theorem lookupIn_of_not_isDir {volume : Volume sb} {dp : Nat} (notDir : volume.isDir dp = false)
    (name : List UInt8) : volume.lookupIn dp name = none := by
  unfold isDir at notDir
  unfold lookupIn
  split
  · next inside =>
      rw [dif_pos inside] at notDir
      rw [if_neg (of_decide_eq_false notDir)]
  · rfl

theorem reach_false (volume : Volume sb) (start : Nat) (names : List (List UInt8)) :
    volume.reach false start names = volume.resolve start names := by
  induction names generalizing start with
  | nil => rfl
  | cons name rest ih =>
      rw [reach, resolve, List.foldlM_cons]
      cases isDir : volume.isDir start with
      | false =>
          rw [lookupIn_of_not_isDir isDir]
          rfl
      | true =>
          simp only [if_true, Bool.false_eq_true, false_and, if_false, ih]
          rfl

theorem reach_true (volume : Volume sb) (start : Nat) {names : List (List UInt8)}
    (nonempty : names ≠ []) : volume.reach true start names =
      (volume.resolve start names.dropLast).filter volume.isDir := by
  induction names generalizing start with
  | nil => exact absurd rfl nonempty
  | cons name rest ih =>
      rw [reach]
      cases rest with
      | nil =>
          simp only [and_self, if_true]
          change _ = Option.filter volume.isDir (some start)
          rw [Option.filter_some]
      | cons next rest =>
          rw [List.dropLast_cons_cons, resolve, List.foldlM_cons]
          cases isDir : volume.isDir start with
          | false =>
              rw [lookupIn_of_not_isDir isDir]
              rfl
          | true =>
              simp only [if_true, reduceCtorEq, and_false, if_false]
              cases volume.lookupIn start name with
              | none => rfl
              | some found => exact ih found (List.cons_ne_nil _ _)

end Volume

namespace InodeCache

variable {cache before after : InodeCache sb} {ip : Fin NINODE}

/-! ## Walks -/

/-- The inode is allocated, and it has links, or somebody refers to it. -/
def Present (cache : InodeCache sb) (inum : Nat) : Prop :=
  ∃ inside : inum < sb.ninodes, (cache.volume.inode ⟨inum, inside⟩).type ≠ .free ∧
    ((cache.volume.inode ⟨inum, inside⟩).nlink ≠ 0 ∨ 0 < refs inum cache.counts)

/-- A well-formed tree of directories, when no call is in progress. -/
structure WellFormed (cache : InodeCache sb) : Prop where
  sound : cache.volume.Sound
  whole : ∀ dp, (cache.volume.inode dp).type = .dir → direntSize ∣ (cache.volume.inode dp).size
  entries : ∀ dp name inum, (cache.volume.inode dp).type = .dir →
    some (name, inum) ∈ cache.volume.slots dp → cache.Present inum
  root : cache.Present rootInum
  one : OneEntry cache.counts
  unlocked : ∀ ip, (cache.icache ip).locked = false

/-- The inodes that directories have are present. -/
theorem WellFormed.lookupIn (wellFormed : cache.WellFormed) {dp inum : Nat} {name : List UInt8}
    (found : cache.volume.lookupIn dp name = some inum) : cache.Present inum := by
  unfold Volume.lookupIn at found
  split at found
  · split at found
    · next isDir =>
        obtain ⟨entry, isFound, rfl⟩ := Option.map_eq_some_iff.mp found
        exact wellFormed.entries _ name entry.2 isDir (slotLookup_mem isFound)
    · cases found
  · cases found

/-- The walk is at an entry. -/
structure Walks (before cache : InodeCache sb) (ip : Fin NINODE) : Prop where
  carries : Carries before.counts cache.counts ip
  volume : cache.volume = before.volume
  unlocked : ∀ j, (cache.icache j).locked = false
  present : before.Present (cache.icache ip).inum

/-- What `namex` leaves: one reference more to the inode that it returns, and no other change of
references. -/
structure Returns (before after : InodeCache sb) (result : Option (Fin NINODE)) : Prop where
  volume : after.volume = before.volume
  unlocked : ∀ j, (after.icache j).locked = false
  isLive : ∀ ip ∈ result, 0 < (after.icache ip).ref
  refs : ∀ inum, refs inum after.counts = refs inum before.counts +
    if result.map (fun ip => (after.icache ip).inum) = some inum then 1 else 0

theorem number_eq (inside : (cache.icache ip).inum < sb.ninodes) :
    cache.number ip = .ok ⟨(cache.icache ip).inum, inside⟩ :=
  dif_pos inside

theorem walk_end (cache : InodeCache sb) {nameiparent : Bool} (ip : Fin NINODE)
    {path name : List UInt8} (ends : skipelem path name = none) :
    cache.walk nameiparent ip path name =
      if nameiparent then (cache.iput ip).map fun cache => (none, name, cache)
      else .ok (some ip, name, cache) := by
  rw [walk]
  split
  · rfl
  · next skips =>
      rw [ends] at skips
      cases skips

namespace Walks

/-- The walk returns the inode where it is. -/
theorem returned (walks : Walks before cache ip) : Returns before cache (some ip) where
  volume := walks.volume
  unlocked := walks.unlocked
  isLive := by
    intro j isIp
    cases isIp
    exact walks.carries.isLive
  refs := by
    intro inum
    rw [walks.carries.refs]
    simp only [Option.map_some, Option.some.injEq, eq_comm]
    rfl

/-- The reference that the walk has is not the last one to an inode without links. -/
theorem kept (walks : Walks before cache ip) {inside : (cache.icache ip).inum < sb.ninodes} :
    (cache.volume.inode ⟨(cache.icache ip).inum, inside⟩).nlink ≠ 0 ∨
      (cache.icache ip).ref ≠ 1 := by
  obtain ⟨_, _, links | others⟩ := walks.present
  · exact .inl (walks.volume ▸ links)
  · right
    have count := walks.carries.count
    change (cache.icache ip).ref = refs (cache.icache ip).inum before.counts + 1 at count
    omega

/-- The walk drops its reference. -/
theorem dropped (walks : Walks before cache ip) :
    ∃ after, cache.iput ip = .ok after ∧ Returns before after none := by
  obtain ⟨inside, -⟩ := walks.present
  refine ⟨_, iput_spec (number_eq inside) (walks.unlocked ip) walks.kept, walks.volume,
    ?_, fun j none => (by cases none), ?_⟩
  · intro j
    rcases eq_or_ne j ip with rfl | other
    · rw [setEntry_self]
      exact walks.unlocked j
    · rw [setEntry_of_ne other]
      exact walks.unlocked j
  · intro inum
    rw [counts_setEntry]
    simp only [Option.map_none, reduceCtorEq, if_false, Nat.add_zero]
    exact walks.carries.drop inum

/-- The inode is locked, and read if it was not. -/
theorem locks (walks : Walks before cache ip) : ∃ valid,
    cache.ilock ip =
      .ok (cache.setEntry ip { cache.icache ip with valid := valid, locked := true }) := by
  obtain ⟨inside, allocated, -⟩ := walks.present
  apply ilock_spec walks.carries.isLive (walks.unlocked ip) (number_eq inside)
  rw [walks.volume]
  exact allocated

/-- The walk with the lock of its inode, which was released again. -/
theorem unlocks (walks : Walks before cache ip) (valid : Bool) :
    (cache.setEntry ip { cache.icache ip with valid := valid, locked := true }).iunlock ip =
        .ok (cache.setEntry ip { cache.icache ip with valid := valid, locked := false }) ∧
      Walks before (cache.setEntry ip { cache.icache ip with valid := valid, locked := false })
        ip := by
  have positive : ¬(cache.icache ip).ref < 1 := Nat.not_lt.mpr walks.carries.isLive
  constructor
  · unfold iunlock
    simp only [setEntry_self, positive, or_false, Bool.true_eq_false, if_false]
    simp only [setEntry, Function.update_idem]
  · refine ⟨?_, walks.volume, ?_, ?_⟩
    · rw [counts_setEntry_same]
      exact walks.carries
    · intro j
      rcases eq_or_ne j ip with rfl | other
      · rw [setEntry_self]
      · rw [setEntry_of_ne other]
        exact walks.unlocked j
    · rw [setEntry_self]
      exact walks.present

/-- The next inode is taken while the last one is locked, and then the last one is dropped. -/
theorem next (walks : Walks before cache ip) (valid : Bool) {inum : Nat}
    (present : before.Present inum) :
    (cache.setEntry ip { cache.icache ip with valid := valid, locked := true }).iget inum =
        .error .igetNoInodes ∧ vacant before.counts < 2 ∨
    ∃ j middle after,
      (cache.setEntry ip { cache.icache ip with valid := valid, locked := true }).iget inum =
        .ok (j, middle) ∧
      middle.iunlockput ip = .ok after ∧ Walks before after j ∧ (after.icache j).inum = inum := by
  have sameCounts := counts_setEntry_same cache ip valid true
  obtain ⟨panics, full⟩ | ⟨j, middle, gets, acquires, volume, locks⟩ := iget_spec
    (cache.setEntry ip { cache.icache ip with valid := valid, locked := true }) inum
  · rw [sameCounts] at full
    exact .inl ⟨panics, walks.carries.vacant_lt_two full⟩
  rw [sameCounts] at acquires
  obtain ⟨isKey, -, -, -, -, kept⟩ := acquires.spec walks.carries.one
  obtain ⟨sameInum, atLeast⟩ := kept ip walks.carries.isLive
  have isLocked : (middle.icache ip).locked = true := by rw [locks, setEntry_self]
  have isLive : live (middle.counts ip) := Nat.lt_of_lt_of_le walks.carries.isLive atLeast
  have sameVolume : middle.volume = cache.volume := volume
  obtain ⟨inside, -⟩ := walks.present
  have isNumber : middle.number ip = .ok ⟨(cache.icache ip).inum, inside⟩ := by
    have isInum : (middle.icache ip).inum = (cache.icache ip).inum := sameInum
    unfold number
    simp only [isInum, inside, dif_pos]
  -- The walk's own reference is still there, next to the new one.
  have keeps : (middle.volume.inode ⟨(cache.icache ip).inum, inside⟩).nlink ≠ 0 ∨
      (middle.icache ip).ref ≠ 1 := by
    rw [sameVolume]
    refine walks.kept.imp_right fun more last => more ?_
    have wasLive : 0 < (cache.icache ip).ref := walks.carries.isLive
    have noLess : (cache.icache ip).ref ≤ (middle.icache ip).ref := atLeast
    omega
  have puts := iunlockput_spec isNumber isLive isLocked keeps
  set after := middle.setEntry ip
    { middle.icache ip with ref := (middle.icache ip).ref - 1, locked := false } with isAfter
  have endCounts : after.counts = lower middle.counts ip := counts_setEntry ..
  have carries := walks.carries.handOver acquires
  rw [← endCounts] at carries
  have isTarget : (after.icache j).inum = inum := by
    rw [← isKey]
    rcases eq_or_ne j ip with rfl | other
    · rw [isAfter, setEntry_self]
      rfl
    · rw [isAfter, setEntry_of_ne other]
      rfl
  refine .inr ⟨j, middle, after, gets, puts, ⟨carries, sameVolume.trans walks.volume, ?_, ?_⟩,
    isTarget⟩
  · intro k
    rcases eq_or_ne k ip with rfl | other
    · rw [isAfter, setEntry_self]
    · rw [isAfter, setEntry_of_ne other, locks, setEntry_of_ne other]
      exact walks.unlocked k
  · rw [isTarget]
    exact present

theorem isDir_eq (walks : Walks before cache ip) : before.volume.isDir (cache.icache ip).inum =
    decide ((before.volume.inode ⟨_, walks.present.1⟩).type = .dir) :=
  dif_pos walks.present.1

/-- The walk releases its inode and drops its reference. -/
theorem refuses (walks : Walks before cache ip) (valid : Bool) : ∃ after,
    (cache.setEntry ip { cache.icache ip with valid := valid, locked := true }).iunlockput ip =
      .ok after ∧ Returns before after none := by
  obtain ⟨unlocks, unlocked⟩ := walks.unlocks valid
  obtain ⟨after, puts, returns⟩ := unlocked.dropped
  refine ⟨after, ?_, returns⟩
  unfold iunlockput
  rw [unlocks]
  exact puts

/-- One round of the loop: the inode is locked, and if it is a directory in which the loop goes on,
then the element is looked up. -/
theorem round (walks : Walks before cache ip) (wellFormed : before.WellFormed)
    (nameiparent : Bool) {path name rest name' : List UInt8}
    (skips : skipelem path name = some (rest, name')) :
    ∃ valid locked,
      locked = cache.setEntry ip { cache.icache ip with valid := valid, locked := true } ∧
      cache.walk nameiparent ip path name =
        if before.volume.isDir (cache.icache ip).inum = false then
          (locked.iunlockput ip).map fun cache => (none, name', cache)
        else if nameiparent = true ∧ rest = [] then
          (locked.iunlock ip).map fun cache => (some ip, name', cache)
        else (before.volume.lookupIn (cache.icache ip).inum (stringOf DIRSIZ name')).elim
          ((locked.iunlockput ip).map fun cache => (none, name', cache))
          fun inum => locked.iget inum >>= fun got =>
            got.2.iunlockput ip >>= fun cache => cache.walk nameiparent got.1 rest name' := by
  obtain ⟨valid, locks⟩ := walks.locks
  have inside := walks.present.1
  refine ⟨valid, _, rfl, ?_⟩
  set locked := cache.setEntry ip { cache.icache ip with valid := valid, locked := true }
    with isLocked
  have isNumber : locked.number ip = .ok ⟨(cache.icache ip).inum, inside⟩ := by
    unfold number
    simp only [isLocked, setEntry_self, inside, dif_pos]
  have sameVolume : locked.volume = before.volume := walks.volume
  have isDir := walks.isDir_eq
  rw [walk]
  split
  · next ends =>
      rw [skips] at ends
      cases ends
  · next rest' name'' skips' =>
      obtain ⟨rfl, rfl⟩ : rest = rest' ∧ name' = name'' := by
        rw [skips] at skips'
        simpa using skips'
      rw [locks]
      change (locked.number ip >>= _) = _
      rw [isNumber]
      change (if (locked.volume.inode ⟨(cache.icache ip).inum, inside⟩).type ≠ .dir then _
        else _) = _
      rw [sameVolume]
      by_cases directory : (before.volume.inode ⟨(cache.icache ip).inum, inside⟩).type = .dir
      · rw [if_neg (not_not.mpr directory), isDir, decide_eq_true directory,
          if_neg Bool.true_eq_false.mp]
        split
        · rfl
        · have isDirectory : before.volume.IsDirectory ⟨(cache.icache ip).inum, inside⟩ :=
            ⟨wellFormed.sound, directory, wellFormed.whole _ directory⟩
          have lookup : before.volume.lookupIn (cache.icache ip).inum (stringOf DIRSIZ name') =
              (slotLookup (stringOf DIRSIZ name')
                (before.volume.slots ⟨(cache.icache ip).inum, inside⟩)).map (·.2) := by
            rw [Volume.lookupIn, dif_pos inside, if_pos directory]
          have unchanged : { locked with volume := before.volume } = locked := by
            rw [← sameVolume]
          rw [isDirectory.dirlookup, lookup]
          cases found : slotLookup (stringOf DIRSIZ name')
              (before.volume.slots ⟨(cache.icache ip).inum, inside⟩) with
          | none =>
              change ({ locked with volume := before.volume }.iunlockput ip >>= _) = _
              rw [unchanged]
              rfl
          | some entry =>
              change ({ locked with volume := before.volume }.iget entry.2 >>= _) = _
              rw [unchanged]
              rfl
      · rw [if_pos directory, isDir, decide_eq_false directory, if_pos rfl]
        rfl

end Walks

/-- What a walk along a path comes to. -/
structure Reaches (before after : InodeCache sb) (nameiparent : Bool) (start : Nat)
    (path : List UInt8) (result : Option (Fin NINODE)) (name : List UInt8) : Prop where
  returns : Returns before after result
  target : result.map (fun ip => (after.icache ip).inum) =
    before.volume.reach nameiparent start (elements path)
  last : nameiparent = true → result ≠ none →
    (elements path).getLast? = some (stringOf DIRSIZ name)

theorem Reaches.nowhere {nameiparent : Bool} {start : Nat} {path name : List UInt8}
    (returns : Returns before after none)
    (nothing : before.volume.reach nameiparent start (elements path) = none) :
    Reaches before after nameiparent start path none name where
  returns := returns
  target := nothing.symm
  last := fun _ found => absurd rfl found

theorem Reaches.cons {nameiparent : Bool} {start next : Nat} {path rest element name : List UInt8}
    {result : Option (Fin NINODE)} (isPath : elements path = element :: elements rest)
    (isDir : before.volume.isDir start = true) (more : ¬(nameiparent = true ∧ elements rest = []))
    (found : before.volume.lookupIn start element = some next)
    (reaches : Reaches before after nameiparent next rest result name) :
    Reaches before after nameiparent start path result name where
  returns := reaches.returns
  target := by
    rw [isPath, Volume.reach, if_pos isDir, if_neg more, found]
    exact reaches.target
  last := by
    intro isParent isFound
    have nonempty : elements rest ≠ [] := fun none => more ⟨isParent, none⟩
    rw [isPath, List.getLast?_cons_of_ne_nil nonempty]
    exact reaches.last isParent isFound

/-- The loop of `namex`. -/
theorem walk_spec (wellFormed : before.WellFormed) (nameiparent : Bool) {path name : List UInt8}
    (string : 0 ∉ path) (isBuffer : name.length = DIRSIZ) (walks : Walks before cache ip) :
    cache.walk nameiparent ip path name = .error .igetNoInodes ∧ vacant before.counts < 2 ∨
    ∃ result name' after, cache.walk nameiparent ip path name = .ok (result, name', after) ∧
      Reaches before after nameiparent (cache.icache ip).inum path result name' := by
  induction shorter : path.length using Nat.strong_induction_on generalizing cache ip path name with
  | _ length ih =>
    cases skips : skipelem path name with
    | none =>
        have noElements := (skipelem_eq_none_iff path name).mp skips
        rw [walk_end cache ip skips]
        cases nameiparent with
        | false =>
            refine .inr ⟨some ip, name, cache, rfl, walks.returned, ?_, nofun⟩
            rw [noElements]
            rfl
        | true =>
            obtain ⟨after, puts, returns⟩ := walks.dropped
            refine .inr ⟨none, name, after, ?_, .nowhere returns ?_⟩
            · rw [if_pos rfl, puts]
              rfl
            · rw [noElements]
              rfl
    | some taken =>
        obtain ⟨rest, name'⟩ := taken
        obtain ⟨isPath, isBuffer', restEmpty, restString⟩ :=
          skipelem_eq_some string isBuffer skips
        obtain ⟨valid, locked, isLocked, rounds⟩ := walks.round wellFormed nameiparent skips
        obtain ⟨after, puts, returns⟩ := walks.refuses valid
        rw [← isLocked] at puts
        rw [rounds]
        cases isDir : before.volume.isDir (cache.icache ip).inum with
        | false =>
            refine .inr ⟨none, name', after, ?_, .nowhere returns ?_⟩
            · rw [if_pos rfl, puts]
              rfl
            · rw [isPath, Volume.reach, isDir, if_neg Bool.false_ne_true]
        | true =>
            rw [if_neg Bool.true_eq_false.mp]
            by_cases stops : nameiparent = true ∧ rest = []
            · obtain ⟨isParent, noRest⟩ := stops
              have noElements := restEmpty.mp noRest
              obtain ⟨unlocks, unlocked⟩ := walks.unlocks valid
              rw [← isLocked] at unlocks
              refine .inr ⟨some ip, name', _, ?_, unlocked.returned, ?_, fun _ _ => ?_⟩
              · rw [if_pos ⟨isParent, noRest⟩, unlocks]
                rfl
              · rw [isPath, Volume.reach, if_pos isDir, if_pos ⟨isParent, noElements⟩,
                  Option.map_some, setEntry_self]
              · rw [isPath, noElements, List.getLast?_singleton]
            · have goesOn : ¬(nameiparent = true ∧ elements rest = []) := fun last =>
                stops ⟨last.1, restEmpty.mpr last.2⟩
              rw [if_neg stops]
              cases found : before.volume.lookupIn (cache.icache ip).inum
                  (stringOf DIRSIZ name') with
              | none =>
                  refine .inr ⟨none, name', after, ?_, .nowhere returns ?_⟩
                  · rw [Option.elim_none, puts]
                    rfl
                  · rw [isPath, Volume.reach, if_pos isDir, if_neg goesOn, found, Option.bind_none]
              | some inum =>
                  rw [Option.elim_some, isLocked]
                  obtain ⟨panics, full⟩ | ⟨j, middle, there, gets, puts, walks', isInum⟩ :=
                    walks.next valid (wellFormed.lookupIn found)
                  · rw [panics]
                    exact .inl ⟨rfl, full⟩
                  · have goesTo : (cache.setEntry ip
                        { cache.icache ip with valid := valid, locked := true }).iget inum >>=
                        (fun got => got.2.iunlockput ip >>= fun cache =>
                          cache.walk nameiparent got.1 rest name') =
                        there.walk nameiparent j rest name' := by
                      rw [gets]
                      change (middle.iunlockput ip >>= _) = _
                      rw [puts]
                      rfl
                    rw [goesTo]
                    have rest := ih rest.length (shorter ▸ skipelem_shorter skips) restString
                      isBuffer' walks' rfl
                    rw [isInum] at rest
                    refine rest.imp_right ?_
                    rintro ⟨result, name'', end', isEnd, reaches⟩
                    exact ⟨result, name'', end', isEnd, .cons isPath isDir goesOn found reaches⟩

/-- The inode where a path starts. -/
def start (cache : InodeCache sb) (cwd : Fin NINODE) (path : List UInt8) : Nat :=
  if path.head? = some SLASH then rootInum else (cache.icache cwd).inum

/-- `namex` takes the first reference and goes into its loop. -/
theorem namex_starts (wellFormed : cache.WellFormed) {cwd : Fin NINODE}
    (isLive : 0 < (cache.icache cwd).ref) (present : cache.Present (cache.icache cwd).inum)
    (nameiparent : Bool) (path name : List UInt8) :
    cache.namex cwd path nameiparent name = .error .igetNoInodes ∧ vacant cache.counts < 2 ∨
    ∃ ip first, cache.namex cwd path nameiparent name = first.walk nameiparent ip path name ∧
      Walks cache first ip ∧ (first.icache ip).inum = cache.start cwd path := by
  unfold namex start
  by_cases absolute : path.head? = some SLASH
  · rw [if_pos absolute, if_pos absolute]
    obtain ⟨panics, full⟩ | ⟨ip, first, gets, acquires, volume, locks⟩ := cache.iget_spec rootInum
    · rw [panics]
      exact .inl ⟨rfl, full ▸ Nat.two_pos⟩
    · have isRoot : (first.icache ip).inum = rootInum := (acquires.spec wellFormed.one).1
      refine .inr ⟨ip, first, by rw [gets]; rfl, ⟨.start wellFormed.one acquires, volume, ?_, ?_⟩,
        isRoot⟩
      · intro j
        rw [locks]
        exact wellFormed.unlocked j
      · rw [isRoot]
        exact wellFormed.root
  · rw [if_neg absolute, if_neg absolute]
    have sameInum : ((cache.idup cwd).icache cwd).inum = (cache.icache cwd).inum := by
      rw [idup, setEntry_self]
    have acquires : Acquires cache.counts (cache.icache cwd).inum cwd (cache.idup cwd).counts := by
      rw [idup, counts_setEntry]
      exact .found isLive rfl
    refine .inr ⟨cwd, cache.idup cwd, rfl, ⟨.start wellFormed.one acquires, rfl, ?_, ?_⟩, sameInum⟩
    · intro j
      rw [← wellFormed.unlocked j]
      exact locked_setEntry (by rfl) j
    · rw [sameInum]
      exact present

/-- A call of `namex` with a result: the inode to which the elements of the path lead, or the
directory of the last one with its name in the buffer, and one reference to what is returned. -/
structure FollowsPath (before after : InodeCache sb) (nameiparent : Bool) (start : Nat)
    (path : List UInt8) (result : Option (Fin NINODE)) (name : List UInt8) : Prop where
  returns : Returns before after result
  inode : nameiparent = false → result.map (fun ip => (after.icache ip).inum) =
    before.volume.resolve start (elements path)
  noParent : nameiparent = true → elements path = [] → result = none
  parent : nameiparent = true → elements path ≠ [] →
    result.map (fun ip => (after.icache ip).inum) =
      (before.volume.resolve start (elements path).dropLast).filter before.volume.isDir
  last : nameiparent = true → result ≠ none →
    (elements path).getLast? = some (stringOf DIRSIZ name)

theorem Reaches.followsPath {nameiparent : Bool} {start : Nat} {path name : List UInt8}
    {result : Option (Fin NINODE)}
    (reaches : Reaches before after nameiparent start path result name) :
    FollowsPath before after nameiparent start path result name where
  returns := reaches.returns
  inode := by
    rintro rfl
    rw [← Volume.reach_false]
    exact reaches.target
  noParent := by
    rintro rfl noElements
    have target := reaches.target
    rw [noElements] at target
    exact Option.map_eq_none_iff.mp target
  parent := by
    rintro rfl nonempty
    rw [← Volume.reach_true _ _ nonempty]
    exact reaches.target
  last := reaches.last

/-- `namex` follows the elements of every path through a well-formed tree, unless the table of
inodes has not two vacant entries and `iget` needs one more. -/
theorem namex_follows_path (wellFormed : cache.WellFormed) {cwd : Fin NINODE}
    (isLive : 0 < (cache.icache cwd).ref) (present : cache.Present (cache.icache cwd).inum)
    (nameiparent : Bool) {path name : List UInt8} (string : 0 ∉ path)
    (isBuffer : name.length = DIRSIZ) :
    cache.namex cwd path nameiparent name = .error .igetNoInodes ∧ vacant cache.counts < 2 ∨
    ∃ result name' after, cache.namex cwd path nameiparent name = .ok (result, name', after) ∧
      FollowsPath cache after nameiparent (cache.start cwd path) path result name' := by
  obtain panics | ⟨ip, first, goes, walks, isStart⟩ :=
    namex_starts wellFormed isLive present nameiparent path name
  · exact .inl panics
  · rw [goes, ← isStart]
    refine (walk_spec wellFormed nameiparent string isBuffer walks).imp_right ?_
    rintro ⟨result, name', after, ends, reaches⟩
    exact ⟨result, name', after, ends, reaches.followsPath⟩

end InodeCache

/-! ## More files than entries -/

/-- A disk with more inodes than the table of cached inodes has entries. -/
def manyInodes : Superblock where
  size := 16
  ninodes := 64
  nlog := 1
  logstart := 2
  inodestart := 3
  bmapstart := 12
  sizeFits := by decide

/-- Empty files, and a root directory. -/
def emptyFiles (inum : Fin manyInodes.ninodes) : Dinode :=
  if inum.val = 0 then .blank .free
  else { Dinode.blank (if inum.val = rootInum then .dir else .file) with nlink := 1 }

def emptyFilesVolume : Volume manyInodes where
  disk :=
    { bitmap := fun _ index => if index.val = 0 then 0xff else if index.val = 1 then 0x1f else 0
      dinodes := emptyFiles
      blocks := fun _ _ => 0 }
  inode := emptyFiles

/-- The blocks in use are those of the metadata. -/
theorem emptyFiles_used : ∀ blockno < manyInodes.size,
    (emptyFilesVolume.disk.isUsed blockno = true ↔ manyInodes.isMeta blockno) := by
  decide +kernel

theorem emptyFilesVolume_sound : emptyFilesVolume.Sound where
  accounts := by
    have nothing : ∀ place, holdings emptyFilesVolume.disk.blocks emptyFilesVolume.inode
        (fun _ => 0) place = none := by
      rintro ⟨inum, position⟩
      have noBlocks : ∀ slot, (emptyFiles inum).addrs slot = 0 := by
        intro slot
        unfold emptyFiles
        split <;> rfl
      refine listed_eq_none.mpr (.inr ?_)
      cases position with
      | slot slot => exact noBlocks slot
      | word bn => exact if_pos (.inl (noBlocks indirectSlot))
    refine ⟨⟨?_, ?_, ?_, ?_, ?_⟩, ?_⟩
    · intro place blockno full
      rw [nothing] at full
      cases full
    · intro place blockno full
      rw [nothing] at full
      cases full
    · intro place blockno full
      rw [nothing] at full
      cases full
    · intro first second blockno full
      rw [nothing] at full
      cases full
    · intro blockno inside notMeta used
      exact (notMeta ((emptyFiles_used blockno inside).mp used)).elim
    · intro blockno inside isMeta
      exact (emptyFiles_used blockno inside).mpr isMeta
  backed := by
    intro inum _ bn inside
    have isEmpty : (emptyFiles inum).size = 0 := by
      unfold emptyFiles
      split <;> rfl
    change bn * BSIZE < (emptyFiles inum).size at inside
    rw [isEmpty] at inside
    exact absurd inside (Nat.not_lt_zero _)

def rootDirectory : Fin manyInodes.ninodes := ⟨rootInum, by decide⟩

/-- The volume after `dirlink` into the root directory. -/
def withEntry (volume : Volume manyInodes) (name : List UInt8) (inum : Nat) : Volume manyInodes :=
  match volume.dirlink rootDirectory name inum with
  | .ok (_, volume) => volume
  | .error _ => volume

theorem withEntry_isDirectory {volume : Volume manyInodes}
    (directory : volume.IsDirectory rootDirectory) (name : List UInt8) {inum : Nat}
    (used : 0 < inum) (isShort : inum < 2 ^ 16)
    (room : direntSize * freeSlot (volume.slots rootDirectory) < MAXFILE * BSIZE) :
    (withEntry volume name inum).IsDirectory rootDirectory := by
  have spec := directory.dirlink name used isShort room
  unfold withEntry
  cases links : volume.dirlink rootDirectory name inum with
  | error panic => exact directory
  | ok result =>
      rw [links] at spec
      change if _ then _ else _ at spec
      split at spec
      · exact spec.2.1
      · rw [spec]
        exact directory

/-- The root directory has one of the files. -/
def oneNamed : Volume manyInodes :=
  withEntry (withEntry (withEntry emptyFilesVolume dotName rootInum) dotdotName rootInum) [97] 51

/-- Each entry of `oneNamed` finds room in the root directory. -/
theorem oneNamed_room : ∀ volume ∈ [emptyFilesVolume,
      withEntry emptyFilesVolume dotName rootInum,
      withEntry (withEntry emptyFilesVolume dotName rootInum) dotdotName rootInum],
    direntSize * freeSlot (volume.slots rootDirectory) < MAXFILE * BSIZE := by
  decide +kernel

theorem oneNamed_directory : oneNamed.IsDirectory rootDirectory := by
  have directory : emptyFilesVolume.IsDirectory rootDirectory :=
    ⟨emptyFilesVolume_sound, rfl, Dvd.intro 0 rfl⟩
  have dot := @withEntry_isDirectory _ directory dotName rootInum (by decide) (by decide)
    (oneNamed_room _ (by simp))
  have dotdot := @withEntry_isDirectory _ dot dotdotName rootInum (by decide) (by decide)
    (oneNamed_room _ (by simp))
  exact withEntry_isDirectory dotdot [97] (by decide) (by decide) (oneNamed_room _ (by simp))

/-- The entries of the root directory, the inodes, and the walk to the file. -/
theorem oneNamed_contents :
    oneNamed.slots rootDirectory =
        [some (dotName, rootInum), some (dotdotName, rootInum), some ([97], 51)] ∧
      (∀ inum, (oneNamed.inode inum).type = .dir → inum = rootDirectory) ∧
      (∀ inum : Fin manyInodes.ninodes, inum.val ≠ 0 →
        (oneNamed.inode inum).type ≠ .free ∧ (oneNamed.inode inum).nlink ≠ 0) ∧
      oneNamed.isDir rootInum = true ∧
      oneNamed.lookupIn rootInum (stringOf DIRSIZ ([97] ++ List.replicate 13 0)) = some 51 ∧
      oneNamed.resolve rootInum (elements [97]) = some 51 := by
  decide +kernel

theorem oneNamed_slots : oneNamed.slots rootDirectory =
    [some (dotName, rootInum), some (dotdotName, rootInum), some ([97], 51)] :=
  oneNamed_contents.1

theorem oneNamed_isDir : ∀ inum, (oneNamed.inode inum).type = .dir → inum = rootDirectory :=
  oneNamed_contents.2.1

theorem oneNamed_allocated : ∀ inum : Fin manyInodes.ninodes, inum.val ≠ 0 →
    (oneNamed.inode inum).type ≠ .free ∧ (oneNamed.inode inum).nlink ≠ 0 :=
  oneNamed_contents.2.2.1

section Tables

variable {icache : Fin NINODE → CacheEntry}

theorem oneNamed_present {inum : Nat} (isInum : inum ≠ 0) (inside : inum < manyInodes.ninodes) :
    InodeCache.Present ⟨oneNamed, icache⟩ inum := by
  obtain ⟨allocated, links⟩ := oneNamed_allocated ⟨inum, inside⟩ isInum
  exact ⟨inside, allocated, .inl links⟩

/-- Any table of cached inodes goes with the volume when no call is in progress. -/
theorem oneNamed_wellFormed (one : OneEntry (InodeCache.counts ⟨oneNamed, icache⟩))
    (unlocked : ∀ ip, (icache ip).locked = false) :
    InodeCache.WellFormed ⟨oneNamed, icache⟩ where
  sound := oneNamed_directory.sound
  whole := by
    intro dp isDir
    obtain rfl := oneNamed_isDir dp isDir
    exact oneNamed_directory.aligned
  entries := by
    intro dp name inum isDir member
    obtain rfl := oneNamed_isDir dp isDir
    change some (name, inum) ∈ oneNamed.slots rootDirectory at member
    rw [oneNamed_slots] at member
    simp only [List.mem_cons, Option.some.injEq, Prod.mk.injEq, List.not_mem_nil,
      or_false] at member
    obtain ⟨-, rfl⟩ | ⟨-, rfl⟩ | ⟨-, rfl⟩ := member
    · exact oneNamed_present (by decide) (by decide)
    · exact oneNamed_present (by decide) (by decide)
    · exact oneNamed_present (by decide) (by decide)
  root := oneNamed_present (by decide) (by decide)
  one := one
  unlocked := unlocked

end Tables

def firstEntry : Fin NINODE := ⟨0, by decide⟩

/-- Only the current directory, the root, is in use. -/
def onlyCwd : InodeCache manyInodes where
  volume := oneNamed
  icache ip := if ip = firstEntry then ⟨rootInum, 1, true, false⟩ else ⟨0, 0, false, false⟩

/-- The root is the current directory, and the other entries have open files. -/
def fullTable : InodeCache manyInodes where
  volume := oneNamed
  icache ip := ⟨ip.val + 1, 1, true, false⟩

theorem onlyCwd_wellFormed : onlyCwd.WellFormed := by
  have onlyFirst : ∀ ip, live (onlyCwd.counts ip) → ip = firstEntry := by
    intro ip isLive
    by_contra isOther
    rw [live, InodeCache.counts, onlyCwd] at isLive
    simp [isOther] at isLive
  apply oneNamed_wellFormed
  · intro i j first second _
    rw [onlyFirst i first, onlyFirst j second]
  · intro ip
    split <;> rfl

theorem fullTable_wellFormed : fullTable.WellFormed := by
  apply oneNamed_wellFormed
  · intro i j _ _ same
    exact Fin.ext (Nat.succ.inj same)
  · exact fun _ => rfl

/-- One table has room for the file, the other one has none, and neither has an entry for it. -/
theorem tables_room : 2 ≤ vacant onlyCwd.counts ∧ vacant fullTable.counts = 0 ∧
    References.refs 51 onlyCwd.counts = 0 ∧ References.refs 51 fullTable.counts = 0 := by
  decide +kernel

/-- The file is found, and there is one reference to it. -/
theorem namex_follows_path_file : ∃ ip name' after,
    onlyCwd.namex firstEntry [97] false (List.replicate DIRSIZ 0) = .ok (some ip, name', after) ∧
      (after.icache ip).inum = 51 ∧ References.refs 51 after.counts = 1 := by
  obtain ⟨room, -, noOthers, -⟩ := tables_room
  have isLive : 0 < (onlyCwd.icache firstEntry).ref := Nat.one_pos
  have present : onlyCwd.Present (onlyCwd.icache firstEntry).inum :=
    oneNamed_present (by decide) (by decide)
  obtain ⟨-, -, -, -, -, resolved⟩ := oneNamed_contents
  have leads : onlyCwd.volume.resolve (onlyCwd.start firstEntry [97]) (elements [97]) = some 51 :=
    resolved
  obtain ⟨-, full⟩ | ⟨result, name', after, ends, follows⟩ :=
    InodeCache.namex_follows_path onlyCwd_wellFormed isLive present false
      (show 0 ∉ [97] by decide) (List.length_replicate (n := DIRSIZ) (a := 0))
  · exact absurd room full.not_ge
  · have isInode := follows.inode rfl
    rw [leads] at isInode
    obtain ⟨ip, rfl, isInum⟩ := Option.map_eq_some_iff.mp isInode
    refine ⟨ip, name', after, ends, isInum, ?_⟩
    rw [follows.returns.refs, noOthers, if_pos isInode]

/-- With the table full of other files, the file is not found: `iget` panics. -/
theorem iget_without_entry :
    fullTable.WellFormed ∧ fullTable.Present rootInum ∧
      (fullTable.icache firstEntry).inum = rootInum ∧ 0 < (fullTable.icache firstEntry).ref ∧
      fullTable.volume.resolve rootInum (elements [97]) = some 51 ∧
      fullTable.namex firstEntry [97] false (List.replicate DIRSIZ 0) = .error .igetNoInodes := by
  have present : fullTable.Present rootInum := oneNamed_present (by decide) (by decide)
  obtain ⟨-, isFull, -, noOthers⟩ := tables_room
  obtain ⟨-, -, -, isDir, found, leads⟩ := oneNamed_contents
  refine ⟨fullTable_wellFormed, present, rfl, Nat.one_pos, leads, ?_⟩
  have isLive : 0 < (fullTable.icache firstEntry).ref := Nat.one_pos
  obtain ⟨panics, -⟩ | ⟨ip, first, goes, walks, isStart⟩ := InodeCache.namex_starts
    fullTable_wellFormed isLive present false [97] (List.replicate DIRSIZ 0)
  · exact panics
  · have stillFull : vacant first.counts = 0 := by
      have room := walks.carries.room
      omega
    have atRoot : (first.icache ip).inum = rootInum := isStart
    have stillAbsent : References.refs 51 first.counts = 0 := by
      have isOther : (51 : Nat) ≠ (first.counts ip).1 := by
        change 51 ≠ (first.icache ip).inum
        rw [atRoot]
        decide
      rw [walks.carries.refs, noOthers, if_neg isOther]
    obtain ⟨valid, locked, isLocked, rounds⟩ := walks.round fullTable_wellFormed false
      (show skipelem [97] (List.replicate DIRSIZ 0) = some ([], [97] ++ List.replicate 13 0) from rfl)
    have sameCounts : locked.counts = first.counts := by
      rw [isLocked, InodeCache.counts_setEntry_same]
    have panics : locked.iget 51 = .error .igetNoInodes := by
      apply InodeCache.iget_full
      · rw [sameCounts]
        exact walks.carries.one
      · rw [sameCounts, stillFull]
      · rw [sameCounts, stillAbsent]
    have isRoot : fullTable.volume.isDir rootInum = true := isDir
    have isFile : fullTable.volume.lookupIn rootInum
        (stringOf DIRSIZ ([97] ++ List.replicate 13 0)) = some 51 := found
    rw [goes, rounds, atRoot, isRoot, isFile, if_neg Bool.true_eq_false.mp,
      if_neg (fun stops => Bool.false_ne_true stops.1), Option.elim_some, panics]
    rfl

end Coursework.FileSystem
