import Mathlib.Data.Int.Lemmas
import SysProg.Lib.CString
import SysProg.Lib.SparseFile
import SysProg.Lib.WhileLoop

/-! `file-cp-sc.c`, `file-cp-libc.c` and `file-cp-memmap.c`: three programs that
copy a file through a window, when every call succeeds and moves what it was
asked to move. They part where the file is no multiple of the window: the first
writes a whole buffer after a short read, the second drops a short item, and
the third shrinks its window, but counts the bytes to copy in an `int`. -/
namespace SysProg.FileCopies
open CString SparseFile WhileLoop

/-- `bsz`, once a zero has been replaced by the default. -/
structure Window where
  size : Nat
  positive : 0 < size

/-- What `malloc(bsz)` returns: as many bytes, of any value. -/
abbrev Buffer (w : Window) := { bytes : List UInt8 // bytes.length = w.size }

/-- The input and its offset, the buffer and the bytes of the output. -/
structure Copy where
  input : List UInt8
  pos : Nat
  buff : List UInt8
  output : List UInt8

/-! ### `read` and `write` -/

/-- The loop of `file-cp-sc.c` goes on until `read` returns 0. The write takes
`bsz` bytes of the buffer, however many the read has put there. -/
def scLoop (w : Window) : Loop Copy where
  guard s := 0 < (readAt s.input s.pos w.size).length
  step s :=
    let data := readAt s.input s.pos w.size
    let buff := memcpy s.buff data
    { s with pos := s.pos + data.length, buff := buff, output := s.output ++ buff.take w.size }
  size s := s.input.length - s.pos
  progress := by
    intro s more
    have moved : 0 < (readAt s.input s.pos w.size).length := by simpa using more
    rw [length_readAt] at moved
    simp only [length_readAt]
    omega

def copySc (w : Window) (heap : Buffer w) (input : List UInt8) : List UInt8 :=
  ((scLoop w).run ⟨input, 0, heap.1, []⟩).output

/-! ### `fread` and `fwrite` -/

/-- `fread(buff, size, 1, in_fd)`: the number of whole items read. -/
def fread (size : Nat) (s : Copy) : Nat :=
  if size ≠ 0 ∧ (readAt s.input s.pos size).length = size then 1 else 0

/-- The loop of `file-cp-libc.c` goes on until `fread` returns no item. -/
def libcLoop (w : Window) : Loop Copy where
  guard s := fread w.size s ≠ 0
  step s :=
    let data := readAt s.input s.pos w.size
    let buff := memcpy s.buff data
    { s with pos := s.pos + data.length, buff := buff, output := s.output ++ buff.take w.size }
  size s := s.input.length - s.pos
  progress := by
    intro s more
    have item : w.size ≠ 0 ∧ (readAt s.input s.pos w.size).length = w.size := by
      by_contra short
      rw [fread, if_neg short] at more
      cases more
    rw [length_readAt] at item
    simp only [length_readAt]
    omega

def copyLibc (w : Window) (heap : Buffer w) (input : List UInt8) : List UInt8 :=
  ((libcLoop w).run ⟨input, 0, heap.1, []⟩).output

/-! ### Mapped files -/

/-- The mappings of both files, the offset of the two pointers into them and
the bytes left. -/
structure Mapped where
  src : List UInt8
  dest : List UInt8
  offset : Nat
  remaining : Int

def mapLoop (w : Window) : Loop Mapped where
  guard s := 0 < s.remaining
  step s :=
    let cpyWindow := if (w.size : Int) < s.remaining then (w.size : Int) else s.remaining
    { s with
      dest := s.dest.take s.offset ++ memcpy (s.dest.drop s.offset) (readAt s.src s.offset cpyWindow.toNat)
      offset := s.offset + cpyWindow.toNat
      remaining := s.remaining - cpyWindow }
  size s := s.remaining.toNat
  progress := by
    intro s more
    have left : 0 < s.remaining := by simpa using more
    have positive := w.positive
    dsimp only
    split <;> omega

/-- `int remaining = sb.st_size`. -/
def intSize (size : Nat) : Int := (Int32.ofNat size).toInt

/-- `none` when the program gives up: the kernel maps no empty range. Without a
window (`bcopy_sz == -1`) the file is copied in one call. -/
def copyMemmap (bcopySz : Option Window) (input : List UInt8) : Option (List UInt8) :=
  if input = [] then none
  else
    let dest := List.replicate input.length 0
    match bcopySz with
    | none => some (memcpy dest input)
    | some w => some ((mapLoop w).run ⟨input, dest, 0, intSize input.length⟩).dest

/-! ### What each program makes of a file -/

/-- A buffer of `malloc(bsz)` holds exactly a whole block that was read into it. -/
theorem take_memcpy (buff data : List UInt8) (wide : data.length = n) : (memcpy buff data).take n = data := by
  rw [memcpy, List.take_left' wide]

theorem take_readAt (file : List UInt8) (pos count : Nat) :
    file.take pos ++ readAt file pos count = file.take (pos + count) := by
  rw [readAt, List.take_add]

section Blocks
variable {w : Window} {s : Copy}

/-- The two loops part in when they stop, not in what they do. -/
theorem libcLoop_step : (libcLoop w).step s = (scLoop w).step s := rfl

theorem scLoop_pos : ((scLoop w).step s).pos = s.pos + min w.size (s.input.length - s.pos) :=
  congrArg (s.pos + ·) (length_readAt s.input)

theorem scLoop_buff (wide : w.size ≤ s.buff.length) : w.size ≤ ((scLoop w).step s).buff.length := by
  show w.size ≤ (memcpy s.buff (readAt s.input s.pos w.size)).length
  simp only [memcpy, List.length_append, List.length_drop]
  omega

/-- A whole block is copied as it is. -/
theorem scLoop_whole (full : (readAt s.input s.pos w.size).length = w.size) (copied : s.output = s.input.take s.pos)
    (blocks : w.size ∣ s.pos) :
    ((scLoop w).step s).output = s.input.take ((scLoop w).step s).pos ∧ w.size ∣ ((scLoop w).step s).pos := by
  have moved : ((scLoop w).step s).pos = s.pos + w.size := congrArg (s.pos + ·) full
  have written : ((scLoop w).step s).output = s.output ++ readAt s.input s.pos w.size :=
    congrArg (s.output ++ ·) (take_memcpy _ _ full)
  rw [moved, written, copied, take_readAt]
  exact ⟨rfl, (Nat.dvd_add_right blocks).mpr (Nat.dvd_refl _)⟩

/-- A short block takes the rest of the input and more than that of the buffer. -/
theorem scLoop_short (inside : s.pos < s.input.length) (short : s.input.length - s.pos < w.size)
    (wide : w.size ≤ s.buff.length) (copied : s.output = s.input.take s.pos) (blocks : w.size ∣ s.pos) :
    ((scLoop w).step s).pos = s.input.length ∧ s.input.length < ((scLoop w).step s).output.length ∧
      ¬ w.size ∣ s.input.length := by
  have written : ((scLoop w).step s).output = s.output ++ ((scLoop w).step s).buff.take w.size := rfl
  have length : (s.input.take s.pos).length = s.pos := List.length_take_of_le (Nat.le_of_lt inside)
  refine ⟨?_, ?_, fun divides => ?_⟩
  · rw [scLoop_pos]
    omega
  · rw [written, copied, List.length_append, length, List.length_take_of_le (scLoop_buff wide)]
    omega
  · have tail := Nat.dvd_sub divides blocks
    exact absurd (Nat.le_of_dvd (Nat.sub_pos_of_lt inside) tail) (Nat.not_le.mpr short)

end Blocks

/-- After whole blocks the output is what has been read; after a short block
it is longer than the input. -/
theorem copySc_faithful_iff (w : Window) (heap : Buffer w) (input : List UInt8) :
    copySc w heap input = input ↔ w.size ∣ input.length := by
  have kept := run_keeps (scLoop w) (fun s => s.input = input ∧ s.pos ≤ input.length ∧ w.size ≤ s.buff.length ∧
      (s.output = input.take s.pos ∧ w.size ∣ s.pos ∨
        s.pos = input.length ∧ input.length < s.output.length ∧ ¬ w.size ∣ input.length))
    (s := ⟨input, 0, heap.1, []⟩) ?_ ⟨rfl, Nat.zero_le _, Nat.le_of_eq heap.2.symm, .inl ⟨rfl, Nat.dvd_zero _⟩⟩
  · obtain ⟨⟨sameInput, inside, -, written⟩, stopped⟩ := kept
    have atEnd : ((scLoop w).run ⟨input, 0, heap.1, []⟩).pos = input.length := by
      have positive := w.positive
      have nothing : ¬ 0 < (readAt ((scLoop w).run ⟨input, 0, heap.1, []⟩).input
          ((scLoop w).run ⟨input, 0, heap.1, []⟩).pos w.size).length := by
        simpa [scLoop] using stopped
      rw [length_readAt, sameInput] at nothing
      omega
    rw [atEnd, List.take_length] at written
    rw [copySc]
    rcases written with ⟨same, whole⟩ | ⟨-, longer, rest⟩
    · exact iff_of_true same whole
    · exact iff_of_false (fun same => by rw [same] at longer; exact Nat.lt_irrefl _ longer) rest
  · rintro s more ⟨rfl, inside, wide, written⟩
    have moved : 0 < (readAt s.input s.pos w.size).length := by simpa [scLoop] using more
    rw [length_readAt] at moved
    obtain ⟨copied, blocks⟩ := written.resolve_right fun ended => by omega
    refine ⟨rfl, ?_, scLoop_buff wide, ?_⟩
    · rw [scLoop_pos]
      omega
    · rcases Nat.lt_or_ge (s.input.length - s.pos) w.size with short | whole
      · exact .inr (scLoop_short (by omega) short wide copied blocks)
      · have full := (length_readAt s.input).trans (Nat.min_eq_left whole)
        exact .inl (scLoop_whole full copied blocks)

/-- The output is always the whole blocks of what has been read. -/
theorem copyLibc_faithful_iff (w : Window) (heap : Buffer w) (input : List UInt8) :
    copyLibc w heap input = input ↔ w.size ∣ input.length := by
  have kept := run_keeps (libcLoop w) (fun s => s.input = input ∧ s.pos ≤ input.length ∧
      s.output = input.take s.pos ∧ w.size ∣ s.pos)
    (s := ⟨input, 0, heap.1, []⟩) ?_ ⟨rfl, Nat.zero_le _, rfl, Nat.dvd_zero _⟩
  · obtain ⟨⟨sameInput, inside, written, blocks⟩, stopped⟩ := kept
    have positive := w.positive
    have short : input.length - ((libcLoop w).run ⟨input, 0, heap.1, []⟩).pos < w.size := by
      have noItem : ¬ (w.size ≠ 0 ∧ (readAt ((libcLoop w).run ⟨input, 0, heap.1, []⟩).input
          ((libcLoop w).run ⟨input, 0, heap.1, []⟩).pos w.size).length = w.size) := by
        intro item
        have ended : fread w.size ((libcLoop w).run ⟨input, 0, heap.1, []⟩) = 0 := by simpa [libcLoop] using stopped
        rw [fread, if_pos item] at ended
        cases ended
      rw [length_readAt, sameInput] at noItem
      omega
    rw [copyLibc, written]
    constructor
    · intro same
      have all : input.length ≤ ((libcLoop w).run ⟨input, 0, heap.1, []⟩).pos := by
        have cut := congrArg List.length same
        rw [List.length_take] at cut
        omega
      rwa [Nat.le_antisymm inside all] at blocks
    · intro divides
      have tail := Nat.dvd_sub divides blocks
      have none := Nat.eq_zero_of_dvd_of_lt tail short
      exact List.take_of_length_le (by omega)
  · rintro s more ⟨rfl, inside, copied, blocks⟩
    have item : w.size ≠ 0 ∧ (readAt s.input s.pos w.size).length = w.size := by
      by_contra short
      have goesOn : fread w.size s ≠ 0 := by simpa [libcLoop] using more
      rw [fread, if_neg short] at goesOn
      exact goesOn rfl
    rw [libcLoop_step]
    refine ⟨rfl, ?_, scLoop_whole item.2 copied blocks⟩
    rw [scLoop_pos]
    omega

/-- Beyond what the `int` counts, the output keeps the zeros of `ftruncate`. -/
theorem mapLoop_dest (w : Window) (input : List UInt8) (count : Int) (fits : count.toNat ≤ input.length) :
    ((mapLoop w).run ⟨input, List.replicate input.length 0, 0, count⟩).dest =
      input.take count.toNat ++ List.replicate (input.length - count.toNat) 0 := by
  have kept := run_keeps (mapLoop w) (fun s => s.src = input ∧ s.offset + s.remaining.toNat = count.toNat ∧
      s.dest = input.take s.offset ++ List.replicate (input.length - s.offset) 0)
    (s := ⟨input, List.replicate input.length 0, 0, count⟩) ?_ ⟨rfl, Nat.zero_add _, rfl⟩
  · obtain ⟨⟨-, counted, copied⟩, stopped⟩ := kept
    have nothing : ¬ 0 < ((mapLoop w).run ⟨input, List.replicate input.length 0, 0, count⟩).remaining := by
      simpa [mapLoop] using stopped
    have all : ((mapLoop w).run ⟨input, List.replicate input.length 0, 0, count⟩).offset = count.toNat := by omega
    rw [copied, all]
  · rintro ⟨input, dest, offset, remaining⟩ more ⟨rfl, counted, copied⟩
    have left : 0 < remaining := by simpa [mapLoop] using more
    have positive := w.positive
    dsimp only at counted copied fits
    generalize window : (if (w.size : Int) < remaining then (w.size : Int) else remaining) = cpyWindow
    have bounds : 0 < cpyWindow ∧ cpyWindow ≤ remaining := by
      rw [← window]
      split <;> omega
    have next : (mapLoop w).step ⟨input, dest, offset, remaining⟩ =
        ⟨input, dest.take offset ++ memcpy (dest.drop offset) (readAt input offset cpyWindow.toNat),
          offset + cpyWindow.toNat, remaining - cpyWindow⟩ := by
      simp only [mapLoop, window]
    have inside : (input.take offset).length = offset := List.length_take_of_le (by omega)
    have full : (readAt input offset cpyWindow.toNat).length = cpyWindow.toNat := by
      rw [length_readAt]
      omega
    rw [next]
    refine ⟨rfl, ?_, ?_⟩
    · show offset + cpyWindow.toNat + (remaining - cpyWindow).toNat = count.toNat
      omega
    · show dest.take offset ++ memcpy (dest.drop offset) (readAt input offset cpyWindow.toNat) = _
      rw [copied, List.take_left' inside, List.drop_left' inside, memcpy, full, List.drop_replicate,
        ← List.append_assoc, take_readAt, Nat.sub_sub]

theorem intSize_le (size : Nat) : (intSize size).toNat ≤ size := by
  rw [intSize, Int32.toInt_ofNat']
  have := Int.bmod_le (x := (size : Int)) (m := Int32.size) (by decide)
  by_cases small : size < 2 ^ 31
  · rw [Int.bmod_eq_of_le (by omega) (by simp [Int32.size]; omega)]
    exact Nat.le_of_eq (Int.toNat_natCast size)
  · simp only [Int32.size] at this ⊢
    omega

theorem copyMemmap_faithful_iff (w : Window) (input : List UInt8) :
    (∀ output, copyMemmap (some w) input = some output → output = input) ↔
      ∀ byte ∈ input.drop (intSize input.length).toNat, byte = 0 := by
  by_cases empty : input = []
  · subst empty
    exact iff_of_true (fun output copied => by cases copied) (by simp)
  have copied := mapLoop_dest w input (intSize input.length) (intSize_le _)
  have zeros : (∀ byte ∈ input.drop (intSize input.length).toNat, byte = 0) ↔
      List.replicate (input.length - (intSize input.length).toNat) 0 = input.drop (intSize input.length).toNat := by
    rw [eq_comm, List.eq_replicate_iff, List.length_drop]
    exact (and_iff_right rfl).symm
  simp only [copyMemmap, if_neg empty, Option.some.injEq, forall_eq', copied, zeros]
  constructor
  · intro same
    have split := same.trans (List.take_append_drop (intSize input.length).toNat input).symm
    exact List.append_cancel_left split
  · intro same
    rw [same, List.take_append_drop]

/-- Without a window the whole mapping is copied, whatever its size. -/
theorem copyMemmap_oneShot {input : List UInt8} (nonempty : input ≠ []) : copyMemmap none input = some input := by
  rw [copyMemmap, if_neg nonempty]
  show some (input ++ (List.replicate input.length 0).drop input.length) = some input
  rw [List.drop_of_length_le (by simp), List.append_nil]

/-! ### The three programs -/

/-- All three outputs are the input. The mapped copy is asked for an output
only where there is something to map. -/
structure FaithfulCopies (w : Window) (heap heap' : Buffer w) (input : List UInt8) : Prop where
  sc : copySc w heap input = input
  libc : copyLibc w heap' input = input
  memmap : ∀ output, copyMemmap (some w) input = some output → output = input

/-- The copies are faithful exactly for files of whole windows that hold
nothing but zeros past the bytes an `int` counts. -/
theorem copies_faithful_iff (w : Window) (heap heap' : Buffer w) (input : List UInt8) :
    FaithfulCopies w heap heap' input ↔
      w.size ∣ input.length ∧ ∀ byte ∈ input.drop (intSize input.length).toNat, byte = 0 := by
  constructor
  · rintro ⟨sc, -, memmap⟩
    exact ⟨(copySc_faithful_iff w heap input).mp sc, (copyMemmap_faithful_iff w input).mp memmap⟩
  · rintro ⟨whole, zeros⟩
    exact ⟨(copySc_faithful_iff w heap input).mpr whole, (copyLibc_faithful_iff w heap' input).mpr whole,
      (copyMemmap_faithful_iff w input).mpr zeros⟩

/-- Three bytes through a window of two: one copy has a byte more, one has a
byte less. -/
theorem last_block_not_copied :
    copySc ⟨2, by decide⟩ ⟨[0, 0], rfl⟩ [97, 98, 99] = [97, 98, 99, 98] ∧
      copyLibc ⟨2, by decide⟩ ⟨[0, 0], rfl⟩ [97, 98, 99] = [97, 98] ∧
      ¬ FaithfulCopies ⟨2, by decide⟩ ⟨[0, 0], rfl⟩ ⟨[0, 0], rfl⟩ [97, 98, 99] := by
  have padded : copySc ⟨2, by decide⟩ ⟨[0, 0], rfl⟩ [97, 98, 99] = [97, 98, 99, 98] := by decide
  refine ⟨padded, by decide, fun faithful => ?_⟩
  exact absurd (padded.symm.trans faithful.sc) (by decide)

end SysProg.FileCopies
