import Coursework.GrepMatcher
import Coursework.TerminatedLines

/-!
# How grep reads its input

`grep` fills a buffer from `read`, writes the lines in it that match, and keeps what stands
behind the last newline for the next read.  When the buffer holds no newline at all it is
emptied, as if it were full.  Yet `read` may return less than it was asked for, and then the
first part of a line is lost.

Nothing is lost as long as each piece holds a newline, and what is lost behind the last newline
is not missed.  In between the loss shows: with the empty pattern, which every line matches,
the bytes that are written are fewer than those of the lines by exactly the bytes that were
lost in front of a newline.
-/

namespace Coursework.Grep

open Lines

abbrev newline : UInt8 := 10

/-- The size of the buffer. -/
def bufSize : Nat := 1024

/-- `strchr`: the place of the first `c` in front of the zero byte. -/
def strchr : List UInt8 → UInt8 → Option Nat
  | [], _ => none
  | b :: s, c => if b = 0 then none else if b = c then some 0 else (strchr s c).map (· + 1)

theorem strchr_lt {s : List UInt8} {c : UInt8} {q : Nat} (found : strchr s c = some q) :
    q < s.length := by
  induction s generalizing q with
  | nil => cases found
  | cons b s ih =>
      rw [strchr] at found
      split_ifs at found
      · cases found
        exact Nat.succ_pos _
      · obtain ⟨place, isPlace, rfl⟩ := Option.map_eq_some_iff.mp found
        exact Nat.succ_lt_succ (ih isPlace)

/-- The loop over the lines from `p` on: the lines that are written and the last `p`. -/
def writeLines (pattern p : List UInt8) : List (List UInt8) × List UInt8 :=
  match _found : strchr p newline with
  | none => ([], p)
  | some q =>
      let later := writeLines pattern (p.drop (q + 1))
      if matchLine pattern (p.take q) then (p.take (q + 1) :: later.1, later.2) else later
termination_by p.length
decreasing_by
  have inside := strchr_lt _found
  rw [List.length_drop]
  omega

/-- What is left in the buffer once its lines are written. -/
def keep (pattern buf : List UInt8) : List UInt8 :=
  let p := (writeLines pattern buf).2
  if p.length = buf.length then [] else p

/-- `grep`: the lines it writes, for the pieces that `read` returns. -/
def grep (pattern buf : List UInt8) : List (List UInt8) → List (List UInt8)
  | [] => []
  | piece :: pieces =>
      if piece = [] then []
      else
        (writeLines pattern (buf ++ piece)).1 ++
          grep pattern (keep pattern (buf ++ piece)) pieces

/-- The pieces are nonempty and no larger than requested. -/
def Readable (pattern buf : List UInt8) : List (List UInt8) → Prop
  | [] => True
  | piece :: pieces => piece ≠ [] ∧ piece.length ≤ bufSize - buf.length - 1 ∧
      Readable pattern (keep pattern (buf ++ piece)) pieces

/-- The lines of a text that match, with their newlines. -/
def matchingLines (pattern text : List UInt8) : List (List UInt8) :=
  ((closedLines newline text).filter (matchLine pattern)).map (· ++ [newline])

variable {pattern buf text line : List UInt8} {pieces : List (List UInt8)}

theorem strchr_open (isOpen : newline ∉ text) : strchr text newline = none := by
  induction text with
  | nil => rfl
  | cons b text ih =>
      rw [List.mem_cons, not_or] at isOpen
      rw [strchr, if_neg (Ne.symm isOpen.1), ih isOpen.2]
      split_ifs <;> rfl

theorem strchr_closed (noZero : 0 ∉ line) (isLine : newline ∉ line) (text : List UInt8) :
    strchr (line ++ newline :: text) newline = some line.length := by
  induction line with
  | nil => rfl
  | cons b line ih =>
      rw [List.mem_cons, not_or] at noZero isLine
      rw [List.cons_append, strchr, if_neg (Ne.symm noZero.1), if_neg (Ne.symm isLine.1),
        ih noZero.2 isLine.2]
      rfl

theorem writeLines_open (isOpen : newline ∉ text) : writeLines pattern text = ([], text) := by
  rw [writeLines]
  split
  · rfl
  · next found =>
      rw [strchr_open isOpen] at found
      cases found

theorem writeLines_closed (noZero : 0 ∉ line) (isLine : newline ∉ line) :
    writeLines pattern (line ++ newline :: text) =
      if matchLine pattern line then
        ((line ++ [newline]) :: (writeLines pattern text).1, (writeLines pattern text).2)
      else writeLines pattern text := by
  rw [writeLines]
  split
  · next missing =>
      rw [strchr_closed noZero isLine] at missing
      cases missing
  · next q found =>
      rw [strchr_closed noZero isLine] at found
      cases found
      have taken : line.take (line.length + 1) = line :=
        List.take_of_length_le (Nat.le_succ line.length)
      have dropped : line.drop (line.length + 1) = [] :=
        List.drop_of_length_le (Nat.le_succ line.length)
      simp [List.take_append, List.drop_append, taken, dropped]

/-- The loop writes the lines that match and stops behind the last newline. -/
theorem writeLines_eq (noZero : 0 ∉ text) :
    writeLines pattern text = (matchingLines pattern text, openLine newline text) := by
  induction text using @line_induction _ _ newline with
  | isOpen text isOpen =>
      rw [writeLines_open isOpen, matchingLines, closedLines_open isOpen, openLine_open isOpen]
      rfl
  | closed line text isLine ih =>
      have noZeros : 0 ∉ line ∧ 0 ∉ text := by
        constructor
        · exact fun member => noZero (List.mem_append_left _ member)
        · exact fun member => noZero (List.mem_append_right _ (List.mem_cons_of_mem _ member))
      rw [writeLines_closed noZeros.1 isLine, ih noZeros.2, matchingLines, matchingLines,
        closedLines_closed isLine, openLine_closed isLine, List.filter_cons]
      split_ifs <;> rfl

theorem keep_open (isOpen : newline ∉ buf) : keep pattern buf = [] := by
  rw [keep, writeLines_open isOpen, if_pos rfl]

/-- A buffer with a newline keeps its open line. -/
theorem keep_closed (noZero : 0 ∉ buf) (hasNewline : newline ∈ buf) :
    keep pattern buf = openLine newline buf := by
  have shorter : (openLine newline buf).length < buf.length := by
    obtain ⟨line, rest, isLine, rfl⟩ := exists_firstLine hasNewline
    rw [openLine_closed isLine, List.length_append, List.length_cons]
    have le := (@openLine_suffix _ _ newline rest).length_le
    omega
  rw [keep, writeLines_eq noZero]
  exact if_neg (Nat.ne_of_lt shorter)

theorem matchingLines_append (first second : List UInt8) :
    matchingLines pattern (first ++ second) =
      matchingLines pattern first ++ matchingLines pattern (openLine newline first ++ second) := by
  rw [matchingLines, closedLines_append, List.filter_append, List.map_append]
  rfl

theorem matchingLines_open (isOpen : newline ∉ text) : matchingLines pattern text = [] := by
  rw [matchingLines, closedLines_open isOpen]
  rfl

/-- Every piece that comes before one with a newline has a newline as well. -/
def Unbroken (pieces : List (List UInt8)) : Prop :=
  pieces.Pairwise fun earlier later => newline ∈ later → newline ∈ earlier

/-- One round of the loop. -/
theorem grep_cons {piece : List UInt8} (nonempty : piece ≠ []) (noZero : 0 ∉ buf ++ piece) :
    grep pattern buf (piece :: pieces) = matchingLines pattern (buf ++ piece) ++
      grep pattern (keep pattern (buf ++ piece)) pieces := by
  rw [grep, if_neg nonempty, writeLines_eq noZero]

/-- Nothing is written for pieces without newlines. -/
theorem grep_open (isBufOpen : newline ∉ buf) (areOpen : ∀ piece ∈ pieces, newline ∉ piece) :
    grep pattern buf pieces = [] := by
  induction pieces generalizing buf with
  | nil => rfl
  | cons piece pieces ih =>
      have isOpen : newline ∉ buf ++ piece := by
        rw [List.mem_append, not_or]
        exact ⟨isBufOpen, areOpen piece List.mem_cons_self⟩
      rw [grep, writeLines_open isOpen, keep_open isOpen,
        ih List.not_mem_nil fun later member => areOpen later (List.mem_cons_of_mem _ member)]
      split_ifs <;> rfl

/-- Unbroken pieces are read like the whole text. -/
theorem grep_unbroken (unbroken : Unbroken pieces) (readable : Readable pattern buf pieces)
    (isBufOpen : newline ∉ buf) (noZero : 0 ∉ buf ++ pieces.flatten) :
    grep pattern buf pieces = matchingLines pattern (buf ++ pieces.flatten) := by
  induction pieces generalizing buf with
  | nil =>
      rw [List.flatten_nil, List.append_nil, matchingLines_open isBufOpen]
      rfl
  | cons piece pieces ih =>
      obtain ⟨before, laterUnbroken⟩ := List.pairwise_cons.mp unbroken
      obtain ⟨nonempty, -, laterReadable⟩ := readable
      rw [List.flatten_cons, ← List.append_assoc] at noZero ⊢
      have noZeros : 0 ∉ buf ++ piece ∧ 0 ∉ pieces.flatten := by
        rwa [List.mem_append, not_or] at noZero
      rw [grep_cons nonempty noZeros.1]
      by_cases hasNewline : newline ∈ buf ++ piece
      · rw [keep_closed noZeros.1 hasNewline] at laterReadable ⊢
        have laterNoZero : 0 ∉ openLine newline (buf ++ piece) ++ pieces.flatten := by
          rw [List.mem_append, not_or]
          exact ⟨fun member => noZeros.1 ((openLine_suffix _).subset member), noZeros.2⟩
        rw [ih laterUnbroken laterReadable (mark_not_mem_openLine _) laterNoZero,
          matchingLines_append (buf ++ piece)]
      · have isPieceOpen : newline ∉ piece :=
          fun member => hasNewline (List.mem_append_right _ member)
        have laterOpen : ∀ later ∈ pieces, newline ∉ later :=
          fun later member isLater => isPieceOpen (before later member isLater)
        have isOpen : newline ∉ buf ++ piece ++ pieces.flatten := by
          rw [List.mem_append, not_or, List.mem_flatten]
          exact ⟨hasNewline, fun ⟨later, member, isLater⟩ => laterOpen later member isLater⟩
        rw [keep_open hasNewline, matchingLines_open hasNewline, matchingLines_open isOpen,
          grep_open List.not_mem_nil laterOpen]
        rfl

theorem matchLine_nil (text : List UInt8) : matchLine [] text = true := by
  cases text <;> simp [matchLine, matchAnywhere, matchhere_nil]

theorem length_matchingLines_nil (text : List UInt8) :
    (matchingLines [] text).flatten.length = closedLength newline text := by
  have all : (closedLines newline text).filter (matchLine []) = closedLines newline text :=
    List.filter_eq_self.mpr fun line _ => matchLine_nil line
  simp [matchingLines, all, closedLength, Function.comp_def]

/-- With the empty pattern at most the bytes of the lines are written, and all of them only if
the pieces are unbroken. -/
theorem length_grep_nil (readable : Readable [] buf pieces) (isBufOpen : newline ∉ buf)
    (noZero : 0 ∉ buf ++ pieces.flatten) :
    (grep [] buf pieces).flatten.length ≤ closedLength newline (buf ++ pieces.flatten) ∧
      ((grep [] buf pieces).flatten.length = closedLength newline (buf ++ pieces.flatten) →
        Unbroken pieces) := by
  induction pieces generalizing buf with
  | nil => exact ⟨Nat.zero_le _, fun _ => List.Pairwise.nil⟩
  | cons piece pieces ih =>
      obtain ⟨nonempty, -, laterReadable⟩ := readable
      rw [List.flatten_cons, ← List.append_assoc] at noZero ⊢
      have noZeros : 0 ∉ buf ++ piece ∧ 0 ∉ pieces.flatten := by
        rwa [List.mem_append, not_or] at noZero
      rw [grep_cons nonempty noZeros.1, List.flatten_append, List.length_append,
        length_matchingLines_nil]
      by_cases hasNewline : newline ∈ buf ++ piece
      · rw [keep_closed noZeros.1 hasNewline] at laterReadable ⊢
        have laterNoZero : 0 ∉ openLine newline (buf ++ piece) ++ pieces.flatten := by
          rw [List.mem_append, not_or]
          exact ⟨fun member => noZeros.1 ((openLine_suffix _).subset member), noZeros.2⟩
        obtain ⟨le, unbroken⟩ := ih laterReadable (mark_not_mem_openLine _) laterNoZero
        have inPiece : newline ∈ piece := (List.mem_append.mp hasNewline).resolve_left isBufOpen
        rw [closedLength_append (buf ++ piece)]
        refine ⟨by omega, fun same => ?_⟩
        exact List.pairwise_cons.mpr ⟨fun _ _ _ => inPiece, unbroken (by omega)⟩
      · rw [keep_open hasNewline] at laterReadable ⊢
        obtain ⟨le, unbroken⟩ := ih laterReadable List.not_mem_nil noZeros.2
        rw [List.nil_append] at le unbroken
        rw [closedLength_open hasNewline]
        by_cases laterNewline : newline ∈ pieces.flatten
        · have lost : 0 < piece.length := List.length_pos_iff.mpr nonempty
          rw [closedLength_open_append hasNewline laterNewline, List.length_append]
          exact ⟨by omega, fun same => by omega⟩
        · have isOpen : newline ∉ buf ++ piece ++ pieces.flatten := by
            rw [List.mem_append, not_or]
            exact ⟨hasNewline, laterNewline⟩
          rw [closedLength_open laterNewline] at le unbroken
          rw [closedLength_open isOpen]
          refine ⟨by omega, fun _ => ?_⟩
          refine List.pairwise_cons.mpr ⟨fun later member isLater => ?_, unbroken (by omega)⟩
          exact absurd (List.mem_flatten.mpr ⟨later, member, isLater⟩) laterNewline

/-- `grep` writes the lines that match, whatever the pattern, exactly if every piece that comes
before one with a newline has a newline as well. -/
theorem grep_correct_iff (pieces : List (List UInt8)) (noZero : 0 ∉ pieces.flatten)
    (readable : ∀ pattern, Readable pattern [] pieces) :
    (∀ pattern, grep pattern [] pieces = matchingLines pattern pieces.flatten) ↔
      Unbroken pieces := by
  constructor
  · intro correct
    apply (length_grep_nil (readable []) List.not_mem_nil noZero).2
    rw [correct [], length_matchingLines_nil]
    rfl
  · intro unbroken pattern
    exact grep_unbroken unbroken (readable pattern) List.not_mem_nil noZero

theorem grep_correct_iff_twoLines :
    (∀ pattern, grep pattern [] [[104, 10, 105], [106, 10]] =
      matchingLines pattern [104, 10, 105, 106, 10]) ↔
      Unbroken [[104, 10, 105], [106, 10]] := by
  refine grep_correct_iff [[104, 10, 105], [106, 10]] (by decide) fun pattern => ?_
  have kept : keep pattern ([] ++ [104, 10, 105]) = [105] :=
    keep_closed (by decide) (by decide)
  rw [Readable, Readable, Readable, kept]
  decide

/-- A line that arrives in two pieces. -/
theorem grep_loses_start :
    Readable [] [] [[104], [105, 10]] ∧
      grep [] [] [[104], [105, 10]] ≠ matchingLines [] [104, 105, 10] := by
  have kept : keep [] ([] ++ [104]) = [] := keep_open (by decide)
  constructor
  · rw [Readable, Readable, Readable, kept]
    decide
  · intro same
    rw [grep_cons (by decide) (by decide), kept, grep_cons (by decide) (by decide), grep] at same
    have sameLength := congrArg (fun written => written.flatten.length) same
    simp only [List.flatten_append, List.length_append, length_matchingLines_nil] at sameLength
    revert sameLength
    decide

end Coursework.Grep
