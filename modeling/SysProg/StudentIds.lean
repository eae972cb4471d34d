import SysProg.StudentDbOps

/-! Where the record of an id can be. `add_student` tests the slot of its id
and writes where that test left the file position, so the record lands in the
slot of the id or in the one behind it. Never in both: the second place is
only used while the first one is empty, and the first one only when the file
ends before it. -/
namespace SysProg.StudentIds
open CString SparseFile StudentRecord StudentDb

/-- The record in slot `i`, the empty one where the file has ended. -/
def recordAt (data : List UInt8) (i : Nat) : Student := Student.ofBytes (slot studentRecordSize data i)

/-- No two non-empty records of the file carry the same id. -/
def IdsUnique (data : List UInt8) : Prop :=
  ∀ (i j : Nat) first second, (records data)[i]? = some first → (records data)[j]? = some second →
    occupied first = true → occupied second = true → first.id = second.id → i = j

/-- A `char` field that holds a name: cut to the field and zero-padded. -/
def padded (n : Nat) (name : List UInt8) : List UInt8 :=
  name.take n ++ List.replicate (n - (name.take n).length) 0

/-! ### The places of an id -/

/-- What the slots of a file look like: slots without an id are zeroed, an id
is in its own slot or one behind it, and neighbours never share an id. -/
structure Placed (file : Nat → Student) : Prop where
  blank : ∀ i, (file i).id = 0 → file i = emptyStudentRecord
  near : ∀ i, (file i).id ≠ 0 → (file i).id.toInt = i ∨ (file i).id.toInt + 1 = i
  apart : ∀ i, (file i).id ≠ 0 → (file i).id ≠ (file (i + 1)).id

theorem placed_empty : Placed fun _ => emptyStudentRecord where
  blank := fun _ _ => rfl
  near := fun _ occupied => absurd rfl occupied
  apart := fun _ occupied => absurd rfl occupied

section Places
variable {file : Nat → Student}

/-- An id has one place. -/
theorem place_unique (placed : Placed file) {i j : Nat} (present : (file i).id ≠ 0)
    (same : (file i).id = (file j).id) : i = j := by
  have other : (file j).id ≠ 0 := same ▸ present
  have nearI := placed.near i present
  have nearJ := placed.near j other
  rw [← same] at nearJ
  rcases Nat.lt_trichotomy i j with less | equal | greater
  · have next : j = i + 1 := by omega
    subst next
    exact absurd same (placed.apart i present)
  · exact equal
  · have next : i = j + 1 := by omega
    subst next
    exact absurd same.symm (placed.apart j other)

/-- A record may be written where neither neighbour has its id. -/
theorem placed_update (placed : Placed file) {record : Student} (p : Nat)
    (blank : record.id = 0 → record = emptyStudentRecord)
    (near : record.id ≠ 0 → record.id.toInt = p ∨ record.id.toInt + 1 = p)
    (before : ∀ i, i + 1 = p → (file i).id ≠ 0 → (file i).id ≠ record.id)
    (after : record.id ≠ 0 → record.id ≠ (file (p + 1)).id) :
    Placed (Function.update file p record) where
  blank := by
    intro i zero
    by_cases here : i = p
    · subst here
      rw [Function.update_self] at zero ⊢
      exact blank zero
    · rw [Function.update_of_ne here] at zero ⊢
      exact placed.blank i zero
  near := by
    intro i present
    by_cases here : i = p
    · subst here
      rw [Function.update_self] at present ⊢
      exact near present
    · rw [Function.update_of_ne here] at present ⊢
      exact placed.near i present
  apart := by
    intro i present
    by_cases here : i = p
    · subst here
      rw [Function.update_self] at present ⊢
      rw [Function.update_of_ne (by omega)]
      exact after present
    · rw [Function.update_of_ne here] at present ⊢
      by_cases next : i + 1 = p
      · rw [next, Function.update_self]
        exact before i next present
      · rw [Function.update_of_ne next]
        exact placed.apart i present

theorem placed_erase (placed : Placed file) (p : Nat) :
    Placed (Function.update file p emptyStudentRecord) :=
  placed_update placed p (fun _ => rfl) (fun present => absurd rfl present)
    (fun _ _ present => present) (fun present => absurd rfl present)

/-- A new record in the slot of its id, behind which the file has ended. -/
theorem placed_at (placed : Placed file) {record : Student} {p : Nat} (present : record.id ≠ 0)
    (own : record.id.toInt = p) (last : (file (p + 1)).id = 0) :
    Placed (Function.update file p record) := by
  apply placed_update placed p (fun zero => absurd zero present) (fun _ => .inl own)
  · intro i next occupied same
    have near := placed.near i occupied
    rw [same, own] at near
    omega
  · rw [last]
    exact fun present => present

/-- A new record behind the slot of its id, which is empty. -/
theorem placed_behind (placed : Placed file) {record : Student} {p : Nat} (present : record.id ≠ 0)
    (own : record.id.toInt = p) (empty : (file p).id = 0) :
    Placed (Function.update file (p + 1) record) := by
  apply placed_update placed (p + 1) (fun zero => absurd zero present)
    (fun _ => .inr (by rw [own, Nat.cast_add, Nat.cast_one]))
  · intro i next occupied
    have here : i = p := by omega
    subst here
    exact absurd empty occupied
  · intro _ same
    have near := placed.near (p + 1 + 1) (same ▸ present)
    rw [← same, own] at near
    omega

end Places

/-! ### The slots of the file -/

/-- Writing a record changes the slot it goes to and no other. -/
theorem recordAt_writeAt (data : List UInt8) (p : Nat) (record : Student) :
    recordAt (writeAt data (studentRecordSize * p) record.toBytes) =
      Function.update (recordAt data) p record := by
  funext i
  by_cases here : i = p
  · subst here
    rw [recordAt, slot_writeAt_same _ _ (length_toBytes record), ofBytes_toBytes, Function.update_self]
  · rw [recordAt, slot_writeAt_other _ (length_toBytes record) (Ne.symm here), Function.update_of_ne here,
      recordAt]

theorem recordAt_past_end {data : List UInt8} (past : data.length ≤ studentRecordSize * i) :
    recordAt data i = emptyStudentRecord := by
  rw [recordAt, slot_past_end past, ofBytes_zeros]

theorem records_getElem? {data : List UInt8} {record : Student} (found : (records data)[i]? = some record) :
    recordAt data i = record := by
  obtain ⟨inside, same⟩ := List.getElem?_eq_some_iff.mp found
  rw [← same]
  simp [records, slots, recordAt]

/-- A record that is there is one of the records a scan goes through. -/
theorem recordAt_mem {data : List UInt8} (whole : studentRecordSize ∣ data.length)
    (present : (recordAt data i).id ≠ 0) : recordAt data i ∈ records data := by
  have starts : studentRecordSize * i < data.length := by
    by_contra past
    rw [recordAt_past_end (by omega)] at present
    exact present rfl
  have inside := slot_inside whole starts
  simp only [records, slots, List.map_map, List.mem_map, List.mem_range, Function.comp_apply]
  refine ⟨i, ?_, rfl⟩
  simp only [studentRecordSize] at inside ⊢
  omega

theorem id_of_occupied {data : List UInt8} (placed : Placed (recordAt data))
    (full : occupied (recordAt data i) = true) : (recordAt data i).id ≠ 0 := by
  intro zero
  simp [occupied, placed.blank i zero] at full

theorem idsUnique_of_placed {data : List UInt8} (placed : Placed (recordAt data)) : IdsUnique data := by
  intro i j first second atI atJ full _ same
  rw [← records_getElem? atI] at full same
  rw [← records_getElem? atJ] at same
  exact place_unique placed (id_of_occupied placed full) same

/-- A scan for an id finds the one record that has it. -/
theorem find_placed {data : List UInt8} (whole : studentRecordSize ∣ data.length)
    (placed : Placed (recordAt data)) (present : (recordAt data i).id ≠ 0) :
    (records data).find? (fun record => occupied record && record.id = (recordAt data i).id) =
      some (recordAt data i) := by
  let wanted (record : Student) : Bool := occupied record && record.id = (recordAt data i).id
  have matched : wanted (recordAt data i) = true := by
    have full : recordAt data i ≠ emptyStudentRecord := by
      intro empty
      rw [empty] at present
      exact present rfl
    simp [wanted, occupied, full]
  obtain ⟨record, found⟩ := Option.isSome_iff_exists.mp
    (List.find?_isSome (p := wanted) |>.mpr ⟨_, recordAt_mem whole present, matched⟩)
  obtain ⟨j, atJ⟩ := List.mem_iff_getElem?.mp (List.mem_of_find?_eq_some found)
  have meets := List.find?_some (p := wanted) found
  simp only [wanted, Bool.and_eq_true, decide_eq_true_eq] at meets
  have same : i = j := by
    apply place_unique placed present
    rw [records_getElem? atJ]
    exact meets.2.symm
  rw [found, same, records_getElem? atJ]

/-! ### The operations -/

theorem id_nonzero (s : NewStudent) : s.id ≠ 0 ∧ s.id.toInt = (s.id.toInt.toNat : Int) := by
  have valid := valid_range s
  simp only [minStdId] at valid
  refine ⟨?_, by omega⟩
  intro zero
  rw [zero] at valid
  simp at valid

/-- Where an accepted add puts its record: the slots stay as they have to
look, and the record is in one of them. -/
theorem placed_add (s : NewStudent) {data : List UInt8} (placed : Placed (recordAt data))
    (accepted : (Op.effect (.add s) data).1.code = noError) :
    ∃ i, (Op.effect (.add s) data).2 =
        writeAt data (studentRecordSize * i) (newRecord s.id s.fname s.lname s.gpa).toBytes ∧
      Placed (recordAt (Op.effect (.add s) data).2) := by
  obtain ⟨present, own⟩ := id_nonzero s
  by_cases empty : (recordAt data s.id.toInt.toNat).id = 0
  · rw [recordAt] at empty
    simp only [Op.effect, if_pos empty]
    refine ⟨_, rfl, ?_⟩
    rw [recordAt_writeAt]
    split
    · exact placed_behind placed present own empty
    · apply placed_at placed present own
      rw [recordAt_past_end]
      · rfl
      · rw [Nat.mul_succ]
        omega
  · rw [recordAt] at empty
    simp only [Op.effect, if_neg empty] at accepted
    cases accepted

/-- Every operation keeps the places of the ids. -/
theorem placed_step (op : Op) {data : List UInt8} (placed : Placed (recordAt data)) :
    Placed (recordAt (op.effect data).2) := by
  cases op with
  | add s =>
    by_cases empty : (Student.ofBytes (slot studentRecordSize data s.id.toInt.toNat)).id = 0
    · obtain ⟨_, _, kept⟩ := placed_add s placed (by simp only [Op.effect, if_pos empty])
      exact kept
    · simpa only [Op.effect, if_neg empty] using placed
  | del id =>
    unfold Op.effect
    dsimp only
    split
    · exact placed
    · split
      · exact placed
      · rw [recordAt_writeAt]
        exact placed_erase placed _
  | get id stack =>
    unfold Op.effect
    dsimp only
    split <;> exact placed
  | count stack => exact placed
  | zero =>
    have gone : recordAt [] = fun _ => emptyStudentRecord :=
      funext fun i => recordAt_past_end (Nat.zero_le _)
    simpa only [Op.effect, gone] using placed_empty

/-- The database as the operations find it. -/
structure Ready (k : Kernel) : Prop where
  full : k.script = []
  whole : studentRecordSize ∣ k.db.data.length
  placed : Placed (recordAt k.db.data)

theorem ready_step (op : Op) {k : Kernel} (ready : Ready k) : Ready (op.exec k).2 := by
  obtain ⟨_, file, script, whole⟩ := exec_full op ready.full ready.whole
  refine ⟨script, ?_, ?_⟩
  · rwa [file]
  · rw [file]
    exact placed_step op ready.placed

theorem padded_eq (n : Nat) {name : List UInt8} (free : NulFree name) : strncpy n name = padded n name := by
  rw [strncpy, cString_of_nulFree free, padded]

/-- The student an accepted add stores is the one a lookup of its id finds. -/
theorem added_readable (s : NewStudent) (stack : Student) {k : Kernel} (ready : Ready k)
    (accepted : ((Op.add s).exec k).1.code = noError) :
    ((Op.get s.id stack).exec ((Op.add s).exec k).2).1 =
      ⟨noError, some (newRecord s.id s.fname s.lname s.gpa)⟩ := by
  obtain ⟨answer, file, _, _⟩ := exec_full (.add s) ready.full ready.whole
  rw [answer] at accepted
  obtain ⟨i, stored, _⟩ := placed_add s ready.placed accepted
  have after := ready_step (.add s) ready
  have here : recordAt ((Op.add s).exec k).2.db.data i = newRecord s.id s.fname s.lname s.gpa := by
    rw [file, stored, recordAt_writeAt, Function.update_self]
  have present : (recordAt ((Op.add s).exec k).2.db.data i).id ≠ 0 := by
    rw [here]
    exact (id_nonzero s).1
  have found := find_placed after.whole after.placed present
  rw [here] at found
  have sameId : (newRecord s.id s.fname s.lname s.gpa).id = s.id := rfl
  rw [sameId] at found
  rw [(exec_full (.get s.id stack) after.full after.whole).1]
  simp only [Op.effect, found]

/-- From an empty file, after any operations in any order: every id is stored
at most once, and a student whose add is accepted is read back as added, with
the names cut to their fields. -/
theorem ids_stored_once (ops : List Op) (k : Kernel) (full : k.script = []) (empty : k.db.data = []) :
    IdsUnique (Machine.run Op.exec ops k).2.db.data ∧
    ∀ (s : NewStudent) (stack : Student), NulFree s.fname → NulFree s.lname →
      ((Op.add s).exec (Machine.run Op.exec ops k).2).1.code = noError →
      ∃ record, ((Op.get s.id stack).exec ((Op.add s).exec (Machine.run Op.exec ops k).2).2).1 =
          ⟨noError, some record⟩ ∧
        record.id = s.id ∧ record.gpa = s.gpa ∧ record.fname.1 = padded 24 s.fname ∧
          record.lname.1 = padded 32 s.lname := by
  have start : Ready k := by
    have gone : recordAt [] = fun _ => emptyStudentRecord :=
      funext fun i => recordAt_past_end (Nat.zero_le _)
    exact ⟨full, by simp [empty], by rw [empty, gone]; exact placed_empty⟩
  have ready := Machine.run_invariant Ready ops (fun op _ ready => ready_step op ready) k start
  refine ⟨idsUnique_of_placed ready.placed, ?_⟩
  intro s stack fname lname accepted
  exact ⟨_, added_readable s stack ready accepted, rfl, rfl, padded_eq 24 fname, padded_eq 32 lname⟩

def newFile : Kernel := ⟨⟨[], 0⟩, ⟨[], 0⟩, [], []⟩

def lovelace : NewStudent := ⟨3, text "ada", text "lovelace", 400, by decide⟩
def hopper : NewStudent := ⟨2, text "grace", text "hopper", 390, by decide⟩

/-- Student 2 is stored behind its slot, over student 3, and read back. -/
theorem misplaced_student_readable :
    ∃ record, ((Op.get 2 emptyStudentRecord).exec ((Op.add hopper).exec
        (Machine.run Op.exec [.add lovelace, .add lovelace, .del 7] newFile).2).2).1 = ⟨noError, some record⟩ ∧
      record.id = 2 ∧ record.gpa = 390 ∧ record.fname.1 = padded 24 (text "grace") ∧
        record.lname.1 = padded 32 (text "hopper") :=
  (ids_stored_once [.add lovelace, .add lovelace, .del 7] newFile rfl rfl).2 hopper emptyStudentRecord
    (by decide) (by decide) (by decide +kernel)

end SysProg.StudentIds
