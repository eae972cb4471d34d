import Mathlib.Data.List.Basic
import Mathlib.Algebra.Order.Group.Nat

/-! Files the way the kernel presents them to `read` and `write`: a finite
run of cells that reads as zero past its end, where writing beyond the end
leaves a hole of zeros. Files of fixed-width slots are read through `slot`,
so that a hole, a zeroed slot and the end of file look the same to a reader
that only compares cells. -/
namespace SysProg.SparseFile

section Transfer
variable {α : Type*}

/-- What `read` transfers: at most `count` cells, none past the end. -/
def readAt (file : List α) (pos count : Nat) : List α := (file.drop pos).take count

theorem readAt_past_end {file : List α} (past : file.length ≤ pos) : readAt file pos count = [] := by
  simp [readAt, List.drop_eq_nil_of_le past]

@[simp] theorem length_readAt (file : List α) :
    (readAt file pos count).length = min count (file.length - pos) := by
  simp [readAt]

end Transfer

variable {α : Type*} [Zero α]

/-- The cell at an offset; a hole and the space past the end are both zero. -/
def cellAt (file : List α) (offset : Nat) : α := file.getD offset 0

/-- What `write` leaves behind. An empty transfer does not extend the file. -/
def writeAt (file : List α) (pos : Nat) (cells : List α) : List α :=
  if cells.isEmpty then file
  else (file ++ List.replicate (pos - file.length) 0).take pos ++ cells ++
    file.drop (pos + cells.length)

@[simp] theorem writeAt_nil (file : List α) (pos : Nat) : writeAt file pos [] = file := rfl

theorem length_writeAt (file : List α) (nonempty : cells ≠ []) :
    (writeAt file pos cells).length = max file.length (pos + cells.length) := by
  simp [writeAt, nonempty]
  omega

theorem writeAt_end (file : List α) (cells : List α) : writeAt file file.length cells = file ++ cells := by
  cases cells with
  | nil => simp
  | cons cell cells => simp [writeAt]

@[simp] theorem cellAt_zeros (n i : Nat) : cellAt (List.replicate n (0 : α)) i = 0 := by
  rw [cellAt, List.getD_eq_getElem?_getD, List.getElem?_replicate]
  split <;> rfl

/-- Writing past a file of zeros does not show how long the file was. -/
theorem writeAt_zeros {n : Nat} (past : n ≤ pos) (nonempty : cells ≠ []) :
    writeAt (List.replicate n (0 : α)) pos cells = List.replicate pos 0 ++ cells := by
  have padded : n + (pos - n) = pos := by omega
  simp [writeAt, nonempty, padded]
  omega

theorem cellAt_past_end {file : List α} (past : file.length ≤ i) : cellAt file i = 0 := by
  simp [cellAt, List.getElem?_eq_none past]

/-- A write changes exactly the cells it transfers. -/
theorem cellAt_writeAt (file : List α) (pos i : Nat) (cells : List α) :
    cellAt (writeAt file pos cells) i =
      if pos ≤ i ∧ i < pos + cells.length then cellAt cells (i - pos) else cellAt file i := by
  by_cases empty : cells = []
  · subst empty
    simp only [writeAt_nil, List.length_nil, Nat.add_zero]
    rw [if_neg (by omega)]
  have padded : ((file ++ List.replicate (pos - file.length) 0).take pos).length = pos := by
    simp; omega
  simp only [writeAt, List.isEmpty_iff, empty, if_false, cellAt, List.getD_eq_getElem?_getD]
  rcases Nat.lt_or_ge i pos with before | after
  · rw [if_neg (by omega), List.append_assoc, List.getElem?_append_left (by omega),
      List.getElem?_take_of_lt before]
    rcases Nat.lt_or_ge i file.length with inside | hole
    · rw [List.getElem?_append_left inside]
    · rw [List.getElem?_append_right hole, List.getElem?_eq_none hole]
      simp [show i - file.length < pos - file.length by omega]
  rcases Nat.lt_or_ge i (pos + cells.length) with within | beyond
  · rw [if_pos ⟨after, within⟩, List.append_assoc, List.getElem?_append_right (by omega),
      List.getElem?_append_left (by omega), padded]
  · rw [if_neg (by omega), List.getElem?_append_right (by simp only [List.length_append, padded]; omega)]
    simp only [List.length_append, padded, List.getElem?_drop]
    congr 3
    omega

/-! ### Fixed-width slots -/

variable {width : Nat}

/-- Slot `i` of a file of `width`-cell slots, complete even past the end. -/
def slot (width : Nat) (file : List α) (i : Nat) : List α :=
  (List.range width).map fun j => cellAt file (width * i + j)

/-- All slots the file has, in order. -/
def slots (width : Nat) (file : List α) : List (List α) :=
  (List.range (file.length / width)).map (slot width file)

@[simp] theorem length_slot (file : List α) (i : Nat) : (slot width file i).length = width := by
  simp [slot]

@[simp] theorem length_slots (file : List α) : (slots width file).length = file.length / width := by
  simp [slots]

private theorem slot_outside {i j width : Nat} (different : i ≠ j) (within : k < width) :
    ¬ (width * i ≤ width * j + k ∧ width * j + k < width * i + width) := by
  rintro ⟨lower, upper⟩
  rcases Nat.lt_or_gt_of_ne different with less | greater
  · have := Nat.mul_le_mul_left width less
    rw [Nat.mul_succ] at this
    omega
  · have := Nat.mul_le_mul_left width greater
    rw [Nat.mul_succ] at this
    omega

theorem slot_writeAt_same (file : List α) (i : Nat) (wide : cells.length = width) :
    slot width (writeAt file (width * i) cells) i = cells := by
  apply List.ext_getElem (by simp [wide])
  intro k inSlot inCells
  have within : k < width := by simpa using inSlot
  simp only [slot, List.getElem_map, List.getElem_range, cellAt_writeAt, wide]
  rw [if_pos ⟨by omega, by omega⟩]
  simp [cellAt, List.getElem?_eq_getElem inCells]

/-- Writing inside one slot leaves every other slot alone. -/
theorem slot_writeAt_part (file : List α) (inside : cells.length ≤ width) (different : i ≠ j) :
    slot width (writeAt file (width * i) cells) j = slot width file j := by
  apply List.map_congr_left
  intro k member
  have apart := slot_outside different (List.mem_range.mp member)
  rw [cellAt_writeAt, if_neg (by omega)]

theorem slot_writeAt_other (file : List α) (wide : cells.length = width) (different : i ≠ j) :
    slot width (writeAt file (width * i) cells) j = slot width file j :=
  slot_writeAt_part file (Nat.le_of_eq wide) different

theorem slot_past_end {file : List α} (past : file.length ≤ width * i) :
    slot width file i = List.replicate width 0 := by
  apply List.ext_getElem (by simp)
  intro k _ _
  simp only [slot, List.getElem_map, List.getElem_range, List.getElem_replicate]
  exact cellAt_past_end (by omega)

/-- Reading at a slot boundary inside the file returns that slot. -/
theorem readAt_slot {file : List α} (inside : width * i + width ≤ file.length) :
    readAt file (width * i) width = slot width file i := by
  apply List.ext_getElem (by simp; omega)
  intro k inRead inSlot
  have within : k < width := by simpa using inSlot
  simp only [readAt, List.getElem_take, List.getElem_drop, slot, List.getElem_map,
    List.getElem_range, cellAt]
  simp [show width * i + k < file.length by omega]

/-- In a file of whole slots, a slot that starts inside ends inside. -/
theorem slot_inside (whole : width ∣ length) (starts : width * i < length) :
    width * i + width ≤ length := by
  obtain ⟨count, rfl⟩ := whole
  have : i < count := Nat.lt_of_mul_lt_mul_left starts
  calc width * i + width = width * (i + 1) := (Nat.mul_succ ..).symm
    _ ≤ width * count := Nat.mul_le_mul_left _ this

theorem whole_writeAt {file : List α} (whole : width ∣ file.length) (wide : cells.length = width)
    (positive : 0 < width) : width ∣ (writeAt file (width * i) cells).length := by
  rw [length_writeAt _ (by rintro rfl; simp at wide; omega), wide]
  rcases Nat.le_total file.length (width * i + width) with low | high
  · rw [max_eq_right low]
    exact ⟨i + 1, by rw [Nat.mul_succ]⟩
  · rwa [max_eq_left high]

theorem slots_cons {first rest : List α} (wide : first.length = width) (whole : width ∣ rest.length)
    (positive : 0 < width) : slots width (first ++ rest) = first :: slots width rest := by
  obtain ⟨count, length⟩ := whole
  have total : (first ++ rest).length / width = count + 1 := by
    rw [List.length_append, wide, length, Nat.add_comm, ← Nat.mul_succ, Nat.mul_div_cancel_left _ positive]
  have remaining : rest.length / width = count := by rw [length, Nat.mul_div_cancel_left _ positive]
  simp only [slots, total, remaining, List.range_succ_eq_map, List.map_cons, List.map_map]
  congr 1
  · rw [← readAt_slot (by simp [wide])]
    simp [readAt, ← wide]
  · apply List.map_congr_left
    intro i _
    apply List.map_congr_left
    intro k _
    simp only [cellAt, List.getD_eq_getElem?_getD]
    rw [List.getElem?_append_right (by rw [wide, Nat.mul_succ]; omega), wide]
    congr 2
    rw [Nat.mul_succ]
    omega

/-- Slots written one after another read back as written. -/
theorem slots_flatten {records : List (List α)} (wide : ∀ record ∈ records, record.length = width)
    (positive : 0 < width) :
    width ∣ records.flatten.length ∧ slots width records.flatten = records := by
  induction records with
  | nil => simp [slots]
  | cons record records ih =>
    have headWide : record.length = width := wide record (by simp)
    obtain ⟨whole, same⟩ := ih fun other member => wide other (List.mem_cons_of_mem _ member)
    rw [List.flatten_cons, slots_cons headWide whole positive, same]
    exact ⟨by rw [List.length_append, headWide]; exact Nat.dvd_add (Nat.dvd_refl _) whole, rfl⟩

end SysProg.SparseFile
