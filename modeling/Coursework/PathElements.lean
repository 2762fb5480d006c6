import Coursework.CStrings
import Coursework.KernelParam

/-!
# The elements of a path

The elements of a path are what stands between its slashes, cut to `DIRSIZ` bytes.
`skipelem` takes the first element off a path: it passes the slashes before the element and
those after it, so that the rest is empty exactly when no element follows.
-/

namespace Coursework.Path

open CString

def SLASH : UInt8 := 47

/-- The elements of a path. -/
def elements (path : List UInt8) : List (List UInt8) :=
  ((path.splitOn SLASH).filter (· ≠ [])).map (·.take DIRSIZ)

/-- The bytes before the next slash. -/
def element (path : List UInt8) : List UInt8 := path.takeWhile (· != SLASH)

/-- `skipelem`: the path behind the element, and the buffer with the element. -/
def skipelem (path name : List UInt8) : Option (List UInt8 × List UInt8) :=
  let path := path.dropWhile (· == SLASH)
  if path = [] then none
  else
    let s := element path
    let name := if s.length ≥ DIRSIZ then s.take DIRSIZ else s ++ 0 :: name.drop (s.length + 1)
    some ((path.dropWhile (· != SLASH)).dropWhile (· == SLASH), name)

@[simp]
theorem elements_nil : elements [] = [] := rfl

theorem elements_slash (path : List UInt8) : elements (SLASH :: path) = elements path := by
  have isSplit := List.splitOn_append_cons_self (a := SLASH) [] path
  rw [List.nil_append] at isSplit
  rw [elements, isSplit]
  simp [elements]

theorem elements_dropWhile (path : List UInt8) :
    elements (path.dropWhile (· == SLASH)) = elements path := by
  induction path with
  | nil => rfl
  | cons byte path ih =>
      rw [List.dropWhile_cons]
      split
      · next isSlash => rw [ih, eq_of_beq isSlash, elements_slash]
      · rfl

theorem slash_not_mem_element (path : List UInt8) : SLASH ∉ element path := by
  intro member
  have passes := List.mem_takeWhile_imp member
  simp at passes

/-- A path that starts with an element. -/
theorem elements_eq_cons {path : List UInt8} (starts : element path ≠ []) :
    elements path = (element path).take DIRSIZ ::
      elements ((path.dropWhile (· != SLASH)).dropWhile (· == SLASH)) := by
  have isSplit : path = element path ++ path.dropWhile (· != SLASH) :=
    (List.takeWhile_append_dropWhile).symm
  have absent := slash_not_mem_element path
  rw [elements_dropWhile]
  cases rest : path.dropWhile (· != SLASH) with
  | nil =>
      rw [rest, List.append_nil] at isSplit
      rw [← isSplit] at absent starts ⊢
      rw [elements, List.splitOn_eq_singleton absent]
      simp [starts]
  | cons byte rest' =>
      have isSlash : byte = SLASH := by
        have stops := List.head?_dropWhile_not (· != SLASH) path
        rw [rest] at stops
        simpa using stops
      subst isSlash
      rw [rest] at isSplit
      rw [elements_slash]
      conv_lhs => rw [isSplit, elements, List.splitOn_append_cons_self,
        List.splitOn_eq_singleton absent]
      simp [elements, starts]

/-- A path without leading slashes starts with an element. -/
theorem element_ne_nil {path : List UInt8} (nonempty : path.dropWhile (· == SLASH) ≠ []) :
    element (path.dropWhile (· == SLASH)) ≠ [] := by
  have stops := List.head?_dropWhile_not (· == SLASH) path
  cases rest : path.dropWhile (· == SLASH) with
  | nil => exact absurd rest nonempty
  | cons byte rest' =>
      rw [rest] at stops
      rw [element, List.takeWhile_cons, if_pos (by simpa using stops)]
      exact List.cons_ne_nil _ _

theorem skipelem_eq_none_iff (path name : List UInt8) :
    skipelem path name = none ↔ elements path = [] := by
  rw [← elements_dropWhile]
  unfold skipelem
  by_cases empty : path.dropWhile (· == SLASH) = []
  · simp [empty]
  · simp [empty, elements_eq_cons (element_ne_nil empty)]

/-- `skipelem` passes at least one byte. -/
theorem skipelem_shorter {path name rest name' : List UInt8}
    (skips : skipelem path name = some (rest, name')) : rest.length < path.length := by
  unfold skipelem at skips
  simp only at skips
  split at skips
  · cases skips
  · next nonempty =>
      have starts := element_ne_nil nonempty
      obtain ⟨isRest, -⟩ := Prod.mk.inj (Option.some.inj skips)
      have suffix := (List.dropWhile_suffix (· == SLASH) (l := path)).length_le
      rw [← isRest]
      generalize path.dropWhile (· == SLASH) = tail at *
      have shorter : (tail.dropWhile (· != SLASH)).length < tail.length := by
        have whole := congrArg List.length (List.takeWhile_append_dropWhile (p := (· != SLASH))
          (l := tail))
        rw [List.length_append] at whole
        have positive := List.length_pos_iff.mpr starts
        unfold element at positive
        omega
      have restSuffix :=
        (List.dropWhile_suffix (· == SLASH) (l := tail.dropWhile (· != SLASH))).length_le
      omega

/-- `skipelem` takes the first element off, and puts it into the buffer. -/
theorem skipelem_eq_some {path name rest name' : List UInt8} (string : 0 ∉ path)
    (isBuffer : name.length = DIRSIZ) (skips : skipelem path name = some (rest, name')) :
    elements path = stringOf DIRSIZ name' :: elements rest ∧ name'.length = DIRSIZ ∧
      (rest = [] ↔ elements rest = []) ∧ 0 ∉ rest := by
  unfold skipelem at skips
  simp only at skips
  split at skips
  · cases skips
  · next nonempty =>
      have starts := element_ne_nil nonempty
      obtain ⟨isRest, isName⟩ := Prod.mk.inj (Option.some.inj skips)
      rw [← elements_dropWhile path, elements_eq_cons starts, ← isRest]
      have suffix : (path.dropWhile (· == SLASH)) <:+ path := List.dropWhile_suffix _
      have noZero : 0 ∉ path.dropWhile (· == SLASH) := fun member => string (suffix.mem member)
      generalize path.dropWhile (· == SLASH) = tail at *
      have elementNoZero : 0 ∉ element tail := fun member =>
        noZero ((List.takeWhile_prefix _).mem member)
      have restSuffix : ((tail.dropWhile (· != SLASH)).dropWhile (· == SLASH)) <:+ tail :=
        (List.dropWhile_suffix _).trans (List.dropWhile_suffix _)
      refine ⟨?_, ?_, ?_, ?_⟩
      · congr 1
        rw [← isName]
        split
        · rw [stringOf_of_not_mem (fun member => elementNoZero (List.mem_of_mem_take member)),
            List.take_take, Nat.min_self]
        · next short =>
            rw [stringOf_append_zero elementNoZero (by omega), List.take_of_length_le (by omega)]
      · rw [← isName]
        split
        · rw [List.length_take]
          omega
        · simp only [List.length_append, List.length_cons, List.length_drop]
          omega
      · refine ⟨fun empty => by rw [empty]; rfl, fun none => ?_⟩
        by_contra more
        rw [elements_eq_cons (element_ne_nil more)] at none
        cases none
      · exact fun member => noZero (restSuffix.mem member)

end Coursework.Path
