import Mathlib.Data.List.Nodup
import Mathlib.Tactic.Common

/-!
# Aliases of the shell

`newname` stores a new name for an old one in two arrays of ten entries, and `lsh_execute`
replaces a command word that is a new name by the old one.  The words are pointers into the line
they were typed in.  The lines stay allocated, so a word that was just typed never has the
pointer of a stored one: the search for the old name compares pointers, finds nothing, and
`newname` always adds an entry.  There is no check for room.

So the table is right as long as each old name is given once and there are at most ten.  The
replacement goes on through the rest of the table with the word it has put in, so a word is
replaced once if no later entry has this word for its new name.
-/

namespace Coursework.AliasShell

/-- The size of the arrays. -/
def maxNames : Nat := 10

/-- A word: the pointer to it and what it points to. -/
structure Token where
  pointer : Nat
  text : List Char

/-- What the arrays hold at one index. -/
structure Entry where
  newname : Token
  oldname : Token

/-- The entries below `lsh_num_newnames` (the arrays are empty above it) and the start of the
memory that is not allocated. -/
structure Shell where
  table : List Entry
  heap : Nat

/-- The arrays are accessed outside of their bounds, or a null pointer is used. -/
inductive Fault where
  | outside
  | null
  deriving DecidableEq

/-- `LSH_TOK_DELIM`. -/
def delimiters : List Char := [' ', '\t', '\r', '\n', Char.ofNat 7]

/-- `lsh_split_line`, for a line at an address. -/
def lshSplitLine (pointer : Nat) : List Char → List Token
  | [] => []
  | c :: line =>
      if c = Char.ofNat 0 then []
      else if c ∈ delimiters then lshSplitLine (pointer + 1) line
      else
        match lshSplitLine (pointer + 1) line with
        | [] => [⟨pointer, [c]⟩]
        | token :: tokens =>
            if token.pointer = pointer + 1 then ⟨pointer, c :: token.text⟩ :: tokens
            else ⟨pointer, [c]⟩ :: token :: tokens

/-- The arrays at an index. -/
def Shell.entry (shell : Shell) (i : Nat) : Except Fault (Option Entry) :=
  if i < maxNames then .ok shell.table[i]? else .error .outside

/-- The loop of `newname`, with the number of entries that are left. -/
def searchOld (shell : Shell) (pointer i : Nat) : Nat → Except Fault Nat
  | 0 => .ok i
  | left + 1 => do
      let found ← shell.entry i
      if found.map (·.oldname.pointer) ≠ some pointer then searchOld shell pointer (i + 1) left
      else .ok i

/-- `newname`. -/
def newname (shell : Shell) (args : List Token) : Except Fault Shell :=
  match args[1]?, args[2]? with
  | some first, some second => do
      let i ← searchOld shell second.pointer 0 shell.table.length
      match ← shell.entry i with
      | some found =>
          if found.oldname.pointer = second.pointer then
            .ok { shell with table := shell.table.set i ⟨first, found.oldname⟩ }
          else .ok { shell with table := shell.table ++ [⟨first, second⟩] }
      | none => .ok { shell with table := shell.table ++ [⟨first, second⟩] }
  | _, _ => .ok shell

/-- The loop of `lsh_execute` through the entries, with the number of those that are left. -/
def replaceFrom (shell : Shell) (i : Nat) : Nat → Token → Except Fault Token
  | 0, word => .ok word
  | left + 1, word => do
      match ← shell.entry i with
      | some found =>
          replaceFrom shell (i + 1) left
            (if word.text = found.newname.text then found.oldname else word)
      | none => .error .null

inductive Builtin where
  | cd | help | stop | setshellname | setterminator | newname | listnewnames | savenewnames
  | readnewnames
  deriving DecidableEq

/-- `builtin_str` with `builtin_func`. -/
def builtins : List (List Char × Builtin) :=
  [(['c', 'd'], .cd), (['h', 'e', 'l', 'p'], .help), (['s', 't', 'o', 'p'], .stop),
    (['s', 'e', 't', 's', 'h', 'e', 'l', 'l', 'n', 'a', 'm', 'e'], .setshellname),
    (['s', 'e', 't', 't', 'e', 'r', 'm', 'i', 'n', 'a', 't', 'o', 'r'], .setterminator),
    (['n', 'e', 'w', 'n', 'a', 'm', 'e'], .newname),
    (['l', 'i', 's', 't', 'n', 'e', 'w', 'n', 'a', 'm', 'e', 's'], .listnewnames),
    (['s', 'a', 'v', 'e', 'n', 'e', 'w', 'n', 'a', 'm', 'e', 's'], .savenewnames),
    (['r', 'e', 'a', 'd', 'n', 'e', 'w', 'n', 'a', 'm', 'e', 's'], .readnewnames)]

/-- The builtin command that a word names; other words name programs. -/
def builtinOf (text : List Char) : Option Builtin := builtins.lookup text

/-- Run the command that a word names.  The builtin commands but `newname`, and the programs,
which run in a process of their own, leave the table alone. -/
def runCommand (shell : Shell) (command : List Char) (args : List Token) :
    Except Fault (Shell × Bool) :=
  match builtinOf command with
  | some .newname => (newname shell args).map fun after => (after, true)
  | some .stop => .ok (shell, false)
  | _ => .ok (shell, true)

/-- `lsh_execute`: the word that it runs, the shell after the command and the status. -/
def lshExecute (shell : Shell) (args : List Token) : Except Fault (List Char × Shell × Bool) :=
  match args with
  | [] => .ok ([], shell, true)
  | word :: rest => do
      let command ← replaceFrom shell 0 shell.table.length word
      let (after, status) ← runCommand shell command.text (command :: rest)
      .ok (command.text, after, status)

/-- One round of `lsh_loop`, with a line in memory of its own. -/
def lshRound (shell : Shell) (line : List Char) : Except Fault (List Char × Shell × Bool) :=
  lshExecute { shell with heap := shell.heap + line.length + 1 } (lshSplitLine shell.heap line)

/-- The old name that a word is an alias of, or else the word. -/
def aliasOf (table : List Entry) (text : List Char) : List Char :=
  match table.find? (·.newname.text = text) with
  | some found => found.oldname.text
  | none => text

/-- A `newname` command: the new name and the old one. -/
structure Renaming where
  newname : List Char
  oldname : List Char
  deriving DecidableEq

/-- The renaming that a line is, if it is one. -/
def renamingOf (table : List Entry) (args : List Token) : Option Renaming :=
  match args with
  | word :: first :: second :: _ =>
      if builtinOf (aliasOf table word.text) = some .newname then some ⟨first.text, second.text⟩
      else none
  | _ => none

/-- The new name in the latest renaming of an old name; the latest one is the first. -/
def latestName (history : List Renaming) (oldname : List Char) : Option (List Char) :=
  (history.find? (·.oldname = oldname)).map (·.newname)

/-- A line is typed when the table has room, with an old name that has none yet, and its command
word is not replaced twice. -/
structure Harmless (shell : Shell) (line : List Char) : Prop where
  room : ∀ change ∈ renamingOf shell.table (lshSplitLine shell.heap line),
    shell.table.length < maxNames
  fresh : ∀ change ∈ renamingOf shell.table (lshSplitLine shell.heap line),
    ∀ entry ∈ shell.table, entry.oldname.text ≠ change.oldname
  once : ∀ word ∈ (lshSplitLine shell.heap line).head?,
    ∀ before found after, shell.table = before ++ found :: after →
      (∀ entry ∈ before, entry.newname.text ≠ word.text) → found.newname.text = word.text →
      ∀ later ∈ after, later.newname.text ≠ found.oldname.text

/-- The shells that harmless lines lead to, with the renamings so far. -/
inductive Reached : Shell → List Renaming → Prop
  | start (heap : Nat) : Reached ⟨[], heap⟩ []
  | next {shell after : Shell} {history : List Renaming} {line command : List Char} :
      Reached shell history → Harmless shell line →
      lshRound shell line = .ok (command, after, true) →
      Reached after
        ((renamingOf shell.table (lshSplitLine shell.heap line)).toList ++ history)

/-- The table is as the renamings say. -/
structure Right (table : List Entry) (history : List Renaming) : Prop where
  bounded : table.length ≤ maxNames
  distinct : (table.map (·.oldname.text)).Nodup
  latest : ∀ oldname newname, latestName history oldname = some newname ↔
    ∃ entry ∈ table, entry.oldname.text = oldname ∧ entry.newname.text = newname

variable {shell after : Shell} {history : List Renaming} {line : List Char} {word : Token}

theorem lshSplitLine_pointer {pointer : Nat} {token : Token}
    (member : token ∈ lshSplitLine pointer line) :
    pointer ≤ token.pointer ∧ token.pointer < pointer + line.length := by
  induction line generalizing pointer token with
  | nil => cases member
  | cons c line ih =>
      rw [lshSplitLine] at member
      rw [List.length_cons]
      split_ifs at member
      · cases member
      · have bounds := ih member
        omega
      · split at member
        · cases List.mem_singleton.mp member
          dsimp only
          omega
        · next first tokens isSplit =>
            have bounds : ∀ other ∈ first :: tokens,
                pointer + 1 ≤ other.pointer ∧ other.pointer < pointer + 1 + line.length :=
              fun other isOther => ih (isSplit ▸ isOther)
            split_ifs at member
            · rcases List.mem_cons.mp member with rfl | later
              · dsimp only
                omega
              · have := bounds token (List.mem_cons_of_mem first later)
                omega
            · rcases List.mem_cons.mp member with rfl | later
              · dsimp only
                omega
              · have := bounds token later
                omega

theorem entry_eq {i : Nat} (inBounds : i < maxNames) : shell.entry i = .ok shell.table[i]? :=
  if_pos inBounds

/-- A pointer that no entry has is not found. -/
theorem searchOld_fresh {pointer i left : Nat} (bounded : shell.table.length ≤ maxNames)
    (isLeft : i + left = shell.table.length)
    (fresh : ∀ entry ∈ shell.table, entry.oldname.pointer ≠ pointer) :
    searchOld shell pointer i left = .ok shell.table.length := by
  induction left generalizing i with
  | zero => rw [searchOld, ← isLeft, Nat.add_zero]
  | succ left ih =>
      have inside : i < shell.table.length := by omega
      have other := fresh _ (List.getElem_mem inside)
      rw [searchOld, entry_eq (by omega), List.getElem?_eq_getElem inside]
      simp only [bind, Except.bind, Option.map_some, ne_eq, Option.some.injEq, other,
        not_false_eq_true, if_true]
      exact ih (by omega)

/-- With room, `newname` adds an entry for a pointer that no entry has. -/
theorem newname_fresh {first second : Token} {rest : List Token}
    (room : shell.table.length < maxNames)
    (fresh : ∀ entry ∈ shell.table, entry.oldname.pointer ≠ second.pointer) :
    newname shell (word :: first :: second :: rest) =
      .ok { shell with table := shell.table ++ [⟨first, second⟩] } := by
  have notFound := searchOld_fresh (Nat.le_of_lt room) (Nat.zero_add shell.table.length) fresh
  simp [newname, notFound, entry_eq room, bind, Except.bind]

/-- The word that a command word is replaced by. -/
def replaced (table : List Entry) (word : Token) : Token :=
  table.foldl (fun word entry =>
    if word.text = entry.newname.text then entry.oldname else word) word

theorem replaceFrom_eq {i left : Nat} (bounded : shell.table.length ≤ maxNames)
    (isLeft : i + left = shell.table.length) :
    replaceFrom shell i left word = .ok (replaced (shell.table.drop i) word) := by
  induction left generalizing i word with
  | zero =>
      rw [replaceFrom, List.drop_of_length_le (by omega)]
      rfl
  | succ left ih =>
      have inside : i < shell.table.length := by omega
      rw [replaceFrom, entry_eq (by omega), List.getElem?_eq_getElem inside,
        List.drop_eq_getElem_cons inside]
      exact ih (by omega)

theorem replaced_none {table : List Entry}
    (none : ∀ entry ∈ table, entry.newname.text ≠ word.text) : replaced table word = word := by
  induction table with
  | nil => rfl
  | cons entry table ih =>
      have notHere := none entry List.mem_cons_self
      rw [replaced, List.foldl_cons, if_neg (Ne.symm notHere)]
      exact ih fun later member => none later (List.mem_cons_of_mem entry member)

/-- A word is replaced by its alias if no later entry has this alias for its new name. -/
theorem replaced_once {table : List Entry}
    (once : ∀ before found after, table = before ++ found :: after →
      (∀ entry ∈ before, entry.newname.text ≠ word.text) → found.newname.text = word.text →
      ∀ later ∈ after, later.newname.text ≠ found.oldname.text) :
    (replaced table word).text = aliasOf table word.text := by
  induction table with
  | nil => rfl
  | cons entry table ih =>
      by_cases isFound : entry.newname.text = word.text
      · have isLast := once [] entry table rfl (fun _ member => absurd member List.not_mem_nil)
          isFound
        have isAlias : aliasOf (entry :: table) word.text = entry.oldname.text := by
          simp [aliasOf, isFound]
        rw [replaced, List.foldl_cons, if_pos isFound.symm, isAlias]
        exact congrArg Token.text (replaced_none isLast)
      · have isAlias : aliasOf (entry :: table) word.text = aliasOf table word.text := by
          simp [aliasOf, isFound]
        rw [replaced, List.foldl_cons, if_neg (Ne.symm isFound), isAlias]
        apply ih
        intro before found after isTable notBefore
        refine once (entry :: before) found after (by rw [isTable]; rfl) ?_
        intro other member
        rcases List.mem_cons.mp member with rfl | inBefore
        · exact isFound
        · exact notBefore other inBefore

/-- The invariant of the shell: the table is right and points into lines that were typed. -/
structure Inv (shell : Shell) (history : List Renaming) : Prop where
  right : Right shell.table history
  allocated : ∀ entry ∈ shell.table, entry.oldname.pointer < shell.heap

theorem renamingOf_short {table : List Entry} {rest : List Token} (short : rest.length < 2) :
    renamingOf table (word :: rest) = none := by
  match rest with
  | [] => rfl
  | [_] => rfl
  | _ :: _ :: _ =>
      simp only [List.length_cons] at short
      omega

theorem renamingOf_other {table : List Entry} {rest : List Token}
    (other : builtinOf (aliasOf table word.text) ≠ some .newname) :
    renamingOf table (word :: rest) = none := by
  match rest with
  | [] => rfl
  | [_] => rfl
  | _ :: _ :: _ => exact if_neg other

theorem newname_short {rest : List Token} (short : rest.length < 2) :
    newname shell (word :: rest) = .ok shell := by
  match rest with
  | [] => rfl
  | [_] => rfl
  | _ :: _ :: _ =>
      simp only [List.length_cons] at short
      omega

/-- A command that is no renaming with two arguments leaves the shell as it is. -/
theorem runCommand_other {command : List Char} {rest : List Token}
    (other : builtinOf command ≠ some .newname ∨ rest.length < 2) :
    ∃ status, runCommand shell command (word :: rest) = .ok (shell, status) := by
  unfold runCommand
  split
  · next isNewname =>
      rcases other with other | short
      · exact absurd isNewname other
      · rw [newname_short short]
        exact ⟨true, rfl⟩
  · exact ⟨false, rfl⟩
  · exact ⟨true, rfl⟩

theorem runCommand_newname {command : List Char} {first second : Token} {rest : List Token}
    (isNewname : builtinOf command = some .newname) (room : shell.table.length < maxNames)
    (fresh : ∀ entry ∈ shell.table, entry.oldname.pointer ≠ second.pointer) :
    runCommand shell command (word :: first :: second :: rest) =
      .ok ({ shell with table := shell.table ++ [⟨first, second⟩] }, true) := by
  rw [runCommand, isNewname]
  simp only [newname_fresh room fresh, Except.map]

/-- A command word is replaced before the command runs. -/
theorem lshExecute_cons {rest : List Token} (bounded : shell.table.length ≤ maxNames)
    {status : Bool} (runs : runCommand shell (replaced shell.table word).text
      (replaced shell.table word :: rest) = .ok (after, status)) :
    lshExecute shell (word :: rest) =
      .ok ((replaced shell.table word).text, after, status) := by
  have replaces := @replaceFrom_eq shell word _ _ bounded (Nat.zero_add shell.table.length)
  rw [List.drop_zero] at replaces
  simp only [lshExecute, replaces, runs, bind, Except.bind]

/-- What a command leaves: a table with one more entry if it is a renaming, and else the same. -/
def Renamed (table after : List Entry) (args : List Token) : Prop :=
  (renamingOf table args = none ∧ after = table) ∨
    ∃ first, ∃ second ∈ args, renamingOf table args = some ⟨first.text, second.text⟩ ∧
      after = table ++ [⟨first, second⟩]

theorem lshExecute_spec {args : List Token} (bounded : shell.table.length ≤ maxNames)
    (room : ∀ change ∈ renamingOf shell.table args, shell.table.length < maxNames)
    (fresh : ∀ token ∈ args, ∀ entry ∈ shell.table, entry.oldname.pointer ≠ token.pointer)
    (once : ∀ word ∈ args.head?, ∀ before found after, shell.table = before ++ found :: after →
      (∀ entry ∈ before, entry.newname.text ≠ word.text) → found.newname.text = word.text →
      ∀ later ∈ after, later.newname.text ≠ found.oldname.text) :
    ∃ command after status, lshExecute shell args = .ok (command, after, status) ∧
      (∀ word ∈ args.head?, command = aliasOf shell.table word.text) ∧
      after.heap = shell.heap ∧ Renamed shell.table after.table args := by
  cases args with
  | nil => exact ⟨[], shell, true, rfl, by simp, rfl, Or.inl ⟨rfl, rfl⟩⟩
  | cons word rest =>
      have isAlias : (replaced shell.table word).text = aliasOf shell.table word.text :=
        replaced_once (once word rfl)
      have isCommand : ∀ first ∈ (word :: rest).head?,
          (replaced shell.table word).text = aliasOf shell.table first.text := by
        rintro first isFirst
        cases isFirst
        exact isAlias
      by_cases isNewname : builtinOf (aliasOf shell.table word.text) = some .newname ∧
          2 ≤ rest.length
      · obtain ⟨isNewname, long⟩ := isNewname
        obtain ⟨first, second, rest, rfl⟩ : ∃ first second others,
            rest = first :: second :: others := by
          match rest with
          | first :: second :: others => exact ⟨first, second, others, rfl⟩
        have isRenaming : renamingOf shell.table (word :: first :: second :: rest) =
            some ⟨first.text, second.text⟩ := if_pos isNewname
        have isArgument : second ∈ word :: first :: second :: rest := by simp
        have runs : lshExecute shell (word :: first :: second :: rest) =
            .ok ((replaced shell.table word).text,
              { shell with table := shell.table ++ [⟨first, second⟩] }, true) :=
          lshExecute_cons bounded (runCommand_newname (by rw [isAlias]; exact isNewname)
            (room _ isRenaming) (fresh second isArgument))
        exact ⟨_, _, _, runs, isCommand, rfl, Or.inr ⟨first, second, isArgument, isRenaming, rfl⟩⟩
      · have other : builtinOf (replaced shell.table word).text ≠ some .newname ∨
            rest.length < 2 := by
          rw [isAlias]
          by_cases isSome : builtinOf (aliasOf shell.table word.text) = some .newname
          · exact Or.inr (Nat.lt_of_not_le fun long => isNewname ⟨isSome, long⟩)
          · exact Or.inl isSome
        have noRenaming : renamingOf shell.table (word :: rest) = none := by
          rcases other with other | short
          · exact renamingOf_other (isAlias ▸ other)
          · exact renamingOf_short short
        obtain ⟨status, runs⟩ := runCommand_other other
        exact ⟨_, _, _, lshExecute_cons bounded runs, isCommand, rfl,
          Or.inl ⟨noRenaming, rfl⟩⟩

/-- A harmless line runs without a fault. -/
theorem lshRound_harmless (inv : Inv shell history) (harmless : Harmless shell line) :
    ∃ command after status, lshRound shell line = .ok (command, after, status) ∧
      (∀ word ∈ (lshSplitLine shell.heap line).head?,
        command = aliasOf shell.table word.text) ∧
      after.heap = shell.heap + line.length + 1 ∧
      Renamed shell.table after.table (lshSplitLine shell.heap line) := by
  have fresh : ∀ token ∈ lshSplitLine shell.heap line, ∀ entry ∈ shell.table,
      entry.oldname.pointer ≠ token.pointer := by
    intro token member entry isEntry
    have above := (lshSplitLine_pointer member).1
    have below := inv.allocated entry isEntry
    omega
  exact @lshExecute_spec { shell with heap := shell.heap + line.length + 1 }
    (lshSplitLine shell.heap line) inv.right.bounded harmless.room fresh harmless.once

theorem latestName_cons (change : Renaming) (history : List Renaming) (oldname : List Char) :
    latestName (change :: history) oldname =
      if change.oldname = oldname then some change.newname else latestName history oldname := by
  by_cases same : change.oldname = oldname <;> simp [latestName, same]

/-- A renaming of an old name that has none yet. -/
theorem Right.renamed {table : List Entry} {first second : Token} (right : Right table history)
    (room : table.length < maxNames) (fresh : ∀ entry ∈ table, entry.oldname.text ≠ second.text) :
    Right (table ++ [⟨first, second⟩]) (⟨first.text, second.text⟩ :: history) := by
  constructor
  · rw [List.length_append]
    exact room
  · rw [List.map_append, List.nodup_append]
    refine ⟨right.distinct, List.nodup_singleton _, ?_⟩
    intro oldname member other isOther
    obtain ⟨entry, isEntry, rfl⟩ := List.mem_map.mp member
    rw [List.mem_singleton.mp isOther]
    exact fresh entry isEntry
  · intro oldname newname
    rw [latestName_cons]
    by_cases same : second.text = oldname
    · subst same
      rw [if_pos rfl]
      constructor
      · intro isNew
        exact ⟨⟨first, second⟩, by simp, rfl, Option.some.inj isNew⟩
      · rintro ⟨entry, member, isOld, rfl⟩
        rcases List.mem_append.mp member with inTable | isLast
        · exact absurd isOld (fresh entry inTable)
        · rw [List.mem_singleton.mp isLast]
    · rw [if_neg same, right.latest]
      constructor
      · rintro ⟨entry, member, isEntry⟩
        exact ⟨entry, List.mem_append_left _ member, isEntry⟩
      · rintro ⟨entry, member, isOld, isNew⟩
        rcases List.mem_append.mp member with inTable | isLast
        · exact ⟨entry, inTable, isOld, isNew⟩
        · rw [List.mem_singleton.mp isLast] at isOld
          exact absurd isOld same

/-- A harmless line keeps the invariant. -/
theorem Inv.renamed (inv : Inv shell history) (harmless : Harmless shell line)
    (sameHeap : after.heap = shell.heap + line.length + 1)
    (isRenamed : Renamed shell.table after.table (lshSplitLine shell.heap line)) :
    Inv after
      ((renamingOf shell.table (lshSplitLine shell.heap line)).toList ++ history) := by
  rcases isRenamed with ⟨noRenaming, sameTable⟩ | ⟨first, second, isWord, isRenaming, isTable⟩
  · rw [noRenaming]
    refine ⟨?_, ?_⟩
    · rw [sameTable]
      exact inv.right
    · intro entry member
      rw [sameTable] at member
      have below := inv.allocated entry member
      omega
  · rw [isRenaming]
    refine ⟨?_, ?_⟩
    · rw [isTable]
      exact inv.right.renamed (harmless.room _ isRenaming) (harmless.fresh _ isRenaming)
    · intro entry member
      rw [isTable] at member
      rcases List.mem_append.mp member with inTable | isLast
      · have below := inv.allocated entry inTable
        omega
      · have below := (lshSplitLine_pointer isWord).2
        rw [List.mem_singleton.mp isLast]
        dsimp only
        omega

theorem Reached.inv (reached : Reached shell history) : Inv shell history := by
  induction reached with
  | start heap =>
      refine ⟨⟨Nat.zero_le maxNames, List.nodup_nil, ?_⟩, ?_⟩
      · intro oldname newname
        simp [latestName]
      · intro entry member
        cases member
  | next _ harmless isRound ih =>
      obtain ⟨command, after, status, runs, -, sameHeap, isRenamed⟩ :=
        lshRound_harmless ih harmless
      rw [isRound] at runs
      cases runs
      exact ih.renamed harmless sameHeap isRenamed

end Coursework.AliasShell
