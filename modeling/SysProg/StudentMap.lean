import Mathlib.Data.Finmap
import Mathlib.Data.Int.Interval
import SysProg.StudentDbOps

/-! The student database as a finite map. The file refines a map from ids to
entries when slot `i` holds exactly the entry of id `i`, and every operation
keeps this as long as `add_student` never has to fill a hole: it does not seek
back after its read, so inside the file it writes one slot too far. -/
namespace SysProg.StudentMap
open CString SparseFile StudentRecord StudentDb Machine

/-! ### The abstract database -/

/-- What the database knows about a student besides the id. -/
structure Entry where
  fname : List UInt8
  lname : List UInt8
  gpa : Int32
  fnameFits : NulFree fname ∧ fname.length ≤ 24
  lnameFits : NulFree lname ∧ lname.length ≤ 32
  deriving DecidableEq

private theorem cut_fits (n : Nat) (name : List UInt8) :
    NulFree ((cString name).take n) ∧ ((cString name).take n).length ≤ n :=
  ⟨(nulFree_cString name).take, by simp⟩

/-- The entry a new student gets: the names cut to their fields. -/
def entryOf (s : NewStudent) : Entry where
  fname := (cString s.fname).take 24
  lname := (cString s.lname).take 32
  gpa := s.gpa
  fnameFits := cut_fits 24 s.fname
  lnameFits := cut_fits 32 s.lname

abbrev Database := Finmap (fun _ : Int => Entry)

/-- The record that stores an entry under an id. -/
def Entry.record (e : Entry) (id : Int) : Student :=
  newRecord (Int32.ofInt id) e.fname e.lname e.gpa

/-- What each operation is for. -/
def spec (op : Op) (m : Database) : Answer × Database :=
  match op with
  | .add s =>
    if s.id.toInt ∈ m then (⟨errDbOp, none⟩, m)
    else (⟨noError, none⟩, m.insert s.id.toInt (entryOf s))
  | .del id =>
    if id.toInt ∈ m then (⟨noError, none⟩, m.erase id.toInt) else (⟨errDbOp, none⟩, m)
  | .get id _ =>
    match m.lookup id.toInt with
    | some e => (⟨noError, some (e.record id.toInt)⟩, m)
    | none => (⟨srchNotFound, none⟩, m)
  | .count _ => (⟨m.keys.card, none⟩, m)
  | .zero => (⟨noError, none⟩, ∅)

/-- The id whose slot an operation may change. -/
def target : Op → Option Int
  | .add s => some s.id.toInt
  | .del id => some id.toInt
  | .get _ _ | .count _ | .zero => none

def ReadOnly : Op → Prop
  | .get _ _ | .count _ => True
  | _ => False

/-- Deletions stay among the ids that can be added. -/
def InRange : Op → Prop
  | .del id => minStdId ≤ id.toInt ∧ id.toInt ≤ maxStdId
  | _ => True

instance : DecidablePred InRange := fun op => by
  cases op <;> unfold InRange <;> infer_instance

/-! ### The representation invariant -/

/-- What slot `i` of a file that stores `m` holds. -/
def slotOf (m : Database) (i : Nat) : Student :=
  match m.lookup (i : Int) with
  | some e => e.record i
  | none => emptyStudentRecord

structure Refines (data : List UInt8) (m : Database) : Prop where
  whole : studentRecordSize ∣ data.length
  inRange : ∀ id ∈ m, minStdId ≤ id ∧ id ≤ maxStdId
  slots : ∀ i, Student.ofBytes (slot studentRecordSize data i) = slotOf m i

@[simp] theorem id_record (e : Entry) (id : Int) : (e.record id).id = Int32.ofInt id := rfl

theorem entry_record (s : NewStudent) :
    (entryOf s).record s.id.toInt = newRecord s.id s.fname s.lname s.gpa := by
  simp [Entry.record, entryOf, newRecord, strncpy_cut]

theorem toInt_ofInt {id : Int} (lower : minStdId ≤ id) (upper : id ≤ maxStdId) :
    (Int32.ofInt id).toInt = id := by
  simp only [minStdId, maxStdId] at lower upper
  rw [Int32.toInt_ofInt, Int.bmod_eq_of_le] <;> simp [Int32.size] <;> omega

/-- A stored record is never taken for an empty slot. -/
theorem occupied_record {id : Int} (e : Entry) (lower : minStdId ≤ id) (upper : id ≤ maxStdId) :
    (e.record id).id ≠ 0 ∧ occupied (e.record id) = true := by
  have nonzero : (e.record id).id ≠ 0 := by
    intro zero
    have := toInt_ofInt lower upper
    rw [← id_record e id, zero] at this
    simp only [minStdId] at lower
    simp at this
    omega
  refine ⟨nonzero, ?_⟩
  simp only [occupied, ne_eq, decide_not, Bool.not_eq_eq_eq_not, Bool.not_true, decide_eq_false_iff_not]
  intro empty
  exact nonzero (by rw [empty]; rfl)

theorem refines_empty : Refines [] (∅ : Database) where
  whole := by simp
  inRange := fun _ member => absurd member Finmap.notMem_empty
  slots := by
    intro i
    rw [slot_past_end (by simp), ofBytes_zeros]
    simp [slotOf]

section Represented
variable {data : List UInt8} {m : Database}

/-- Whether an id is in the map shows in the id field of its slot. -/
theorem slot_id_iff (ready : Refines data m) (id : Int32) (lower : minStdId ≤ id.toInt) :
    (Student.ofBytes (slot studentRecordSize data id.toInt.toNat)).id = 0 ↔ id.toInt ∉ m := by
  have key : ((id.toInt.toNat : Nat) : Int) = id.toInt := by simp only [minStdId] at lower; omega
  rw [ready.slots, slotOf, key]
  cases found : m.lookup id.toInt with
  | none => simpa [emptyStudentRecord] using Finmap.lookup_eq_none.mp found
  | some e =>
    have member := Finmap.mem_of_lookup_eq_some found
    obtain ⟨lower, upper⟩ := ready.inRange _ member
    simpa [member] using (occupied_record e lower upper).1

/-- Every non-empty slot holds the entry of its own id. -/
theorem occupied_slot (ready : Refines data m)
    (full : occupied (Student.ofBytes (slot studentRecordSize data i)) = true) :
    ∃ e, m.lookup (i : Int) = some e ∧ Student.ofBytes (slot studentRecordSize data i) = e.record i := by
  rw [ready.slots, slotOf] at full ⊢
  cases found : m.lookup (i : Int) with
  | none => simp [found, occupied] at full
  | some e => exact ⟨e, rfl, rfl⟩

/-- The offset law: a non-empty record of id `x` sits at byte `64 * x`. -/
theorem id_of_occupied_slot (ready : Refines data m)
    (full : occupied (Student.ofBytes (slot studentRecordSize data i)) = true) :
    (Student.ofBytes (slot studentRecordSize data i)).id.toInt = i := by
  obtain ⟨e, found, same⟩ := occupied_slot ready full
  obtain ⟨lower, upper⟩ := ready.inRange _ (Finmap.mem_of_lookup_eq_some found)
  rw [same, id_record, toInt_ofInt lower upper]

/-- A stored entry lies inside the file. -/
theorem slot_inside_of_mem {i : Nat} (ready : Refines data m) (member : (i : Int) ∈ m) :
    studentRecordSize * i < data.length := by
  by_contra past
  obtain ⟨e, found⟩ := Finmap.mem_iff.mp member
  obtain ⟨lower, upper⟩ := ready.inRange _ member
  have slots := ready.slots i
  rw [slot_past_end (by omega), ofBytes_zeros, slotOf, found] at slots
  have stored := (occupied_record e lower upper).2
  simp only [← slots] at stored
  simp [occupied] at stored

/-- Writing a record into a slot refines the map that differs from the old
one at that id only. -/
theorem refines_write {m' : Database} (ready : Refines data m) (record : Student)
    (range : ∀ id ∈ m', minStdId ≤ id ∧ id ≤ maxStdId) (here : slotOf m' i = record)
    (there : ∀ j, j ≠ i → slotOf m' j = slotOf m j) :
    Refines (writeAt data (studentRecordSize * i) record.toBytes) m' where
  whole := whole_writeAt ready.whole (length_toBytes record) studentRecordSize_pos
  inRange := range
  slots := by
    intro j
    by_cases same : j = i
    · subst j
      rw [slot_writeAt_same _ _ (length_toBytes record), ofBytes_toBytes, here]
    · rw [slot_writeAt_other _ (length_toBytes record) (Ne.symm same), ready.slots, there j same]

theorem slotOf_insert_other {j : Nat} {key : Int} (e : Entry) (different : (j : Int) ≠ key) :
    slotOf (m.insert key e) j = slotOf m j := by
  rw [slotOf, slotOf, Finmap.lookup_insert_of_ne m different]

theorem slotOf_erase_other {j : Nat} {key : Int} (different : (j : Int) ≠ key) :
    slotOf (m.erase key) j = slotOf m j := by
  rw [slotOf, slotOf, Finmap.lookup_erase_ne different]

theorem refines_insert (ready : Refines data m) (s : NewStudent) :
    Refines (writeAt data (studentRecordSize * s.id.toInt.toNat)
      (newRecord s.id s.fname s.lname s.gpa).toBytes) (m.insert s.id.toInt (entryOf s)) := by
  have valid := valid_range s
  have key : ((s.id.toInt.toNat : Nat) : Int) = s.id.toInt := by simp only [minStdId] at valid; omega
  rw [← entry_record]
  apply refines_write ready
  · intro other member
    rcases Finmap.mem_insert.mp member with rfl | old
    · exact valid
    · exact ready.inRange other old
  · rw [slotOf, key, Finmap.lookup_insert]
  · intro j different
    exact slotOf_insert_other _ (by omega)

theorem refines_erase (ready : Refines data m) {id : Int32} (lower : minStdId ≤ id.toInt) :
    Refines (writeAt data (studentRecordSize * id.toInt.toNat) emptyStudentRecord.toBytes)
      (m.erase id.toInt) := by
  have key : ((id.toInt.toNat : Nat) : Int) = id.toInt := by simp only [minStdId] at lower; omega
  apply refines_write ready
  · exact fun other member => ready.inRange other (Finmap.mem_erase.mp member).2
  · rw [slotOf, key, Finmap.lookup_erase]
  · intro j different
    exact slotOf_erase_other (by omega)

/-- What a scan for an id finds is the entry of that id. -/
theorem find_record (ready : Refines data m) (id : Int32) :
    (records data).find? (fun record => occupied record && record.id = id) =
      (m.lookup id.toInt).map fun e => e.record id.toInt := by
  have meaning : ∀ record ∈ records data, (occupied record && record.id = id) = true →
      ∃ e, m.lookup id.toInt = some e ∧ record = e.record id.toInt := by
    intro record member matched
    simp only [Bool.and_eq_true, decide_eq_true_eq] at matched
    simp only [records, slots, List.map_map, List.mem_map, List.mem_range, Function.comp_apply] at member
    obtain ⟨i, _, rfl⟩ := member
    have sameId := id_of_occupied_slot ready matched.1
    obtain ⟨e, found, same⟩ := occupied_slot ready matched.1
    rw [matched.2] at sameId
    rw [sameId]
    exact ⟨e, found, same⟩
  cases found : m.lookup id.toInt with
  | none =>
    rw [Option.map_none, List.find?_eq_none]
    intro record member matched
    obtain ⟨e, there, _⟩ := meaning record member matched
    rw [found] at there
    cases there
  | some e =>
    have member := Finmap.mem_of_lookup_eq_some found
    obtain ⟨lower, upper⟩ := ready.inRange _ member
    have key : ((id.toInt.toNat : Nat) : Int) = id.toInt := by simp only [minStdId] at lower; omega
    have stored : e.record id.toInt ∈ records data := by
      have inside := slot_inside_of_mem (i := id.toInt.toNat) ready (by rwa [key])
      have slots := ready.slots id.toInt.toNat
      rw [slotOf, key, found] at slots
      simp only [records, SparseFile.slots, List.map_map, List.mem_map, List.mem_range, Function.comp_apply]
      refine ⟨id.toInt.toNat, ?_, slots⟩
      have := slot_inside ready.whole inside
      simp only [studentRecordSize] at this ⊢
      omega
    have matched : (occupied (e.record id.toInt) && (e.record id.toInt).id = id) = true := by
      simp [(occupied_record e lower upper).2]
    let wanted (record : Student) : Bool := occupied record && record.id = id
    obtain ⟨record, first⟩ := Option.isSome_iff_exists.mp
      (List.find?_isSome (p := wanted) |>.mpr ⟨_, stored, matched⟩)
    obtain ⟨e', there, same⟩ := meaning record (List.mem_of_find?_eq_some first)
      (List.find?_some (p := wanted) first)
    rw [found] at there
    cases there
    rw [first, same, Option.map_some]

/-- The occupied slots are the ids of the map. -/
theorem countP_occupied (ready : Refines data m) : (records data).countP occupied = m.keys.card := by
  have inside : ∀ key ∈ m.keys, 0 ≤ key := by
    intro key member
    have := (ready.inRange key (Finmap.mem_keys.mp member)).1
    simp only [minStdId] at this
    omega
  have keys : m.keys = (((List.range (data.length / studentRecordSize)).filter
      fun i => occupied (Student.ofBytes (slot studentRecordSize data i))).toFinset).map
        ⟨Int.ofNat, fun _ _ => Int.ofNat.inj⟩ := by
    ext key
    simp only [Finmap.mem_keys, Finset.mem_map, List.mem_toFinset, List.mem_filter, List.mem_range]
    constructor
    · intro member
      obtain ⟨i, rfl⟩ : ∃ i : Nat, key = i := ⟨key.toNat, by
        have := inside key (Finmap.mem_keys.mpr member); omega⟩
      refine ⟨i, ⟨?_, ?_⟩, rfl⟩
      · have := slot_inside ready.whole (slot_inside_of_mem ready member)
        simp only [studentRecordSize] at this ⊢
        omega
      · obtain ⟨e, found⟩ := Finmap.mem_iff.mp member
        obtain ⟨lower, upper⟩ := ready.inRange _ member
        rw [ready.slots, slotOf, found]
        exact (occupied_record e lower upper).2
    · rintro ⟨i, ⟨_, full⟩, rfl⟩
      obtain ⟨e, found, _⟩ := occupied_slot ready full
      exact Finmap.mem_of_lookup_eq_some found
  rw [keys, Finset.card_map, List.toFinset_card_of_nodup (List.nodup_range.filter _), records, slots,
    List.map_map, List.countP_map, List.countP_eq_length_filter]
  rfl

theorem card_keys_le (ready : Refines data m) : (m.keys.card : Int) ≤ maxStdId := by
  have subset : m.keys ⊆ Finset.Icc minStdId maxStdId := by
    intro key member
    exact Finset.mem_Icc.mpr (ready.inRange key (Finmap.mem_keys.mp member))
  have card := Finset.card_le_card subset
  simp only [minStdId, maxStdId, Int.card_Icc] at card ⊢
  omega

end Represented

/-! ### One operation -/

/-- An operation does what it is for: it answers like the map, leaves a file
that stores the new map, and touches no other slot. -/
structure Faithful (op : Op) (k : Kernel) (m : Database) : Prop where
  answer : (op.exec k).1 = (spec op m).1
  refines : Refines (op.exec k).2.db.data (spec op m).2
  offsets : ∀ i, occupied (Student.ofBytes (slot studentRecordSize (op.exec k).2.db.data i)) = true →
    (Student.ofBytes (slot studentRecordSize (op.exec k).2.db.data i)).id.toInt = i
  unchanged : ReadOnly op ∨ (spec op m).1.code = errDbOp → (op.exec k).2.db.data = k.db.data
  others : op ≠ .zero → ∀ i : Nat, target op ≠ some (i : Int) →
    slot studentRecordSize (op.exec k).2.db.data i = slot studentRecordSize k.db.data i

/-- An add of an id that is not in the file writes at or past its end. -/
def AddsPastEnd (op : Op) (k : Kernel) : Prop :=
  match op with
  | .add s => (Student.ofBytes (slot studentRecordSize k.db.data s.id.toInt.toNat)).id ≠ 0 ∨
      k.db.data.length ≤ studentRecordSize * s.id.toInt.toNat
  | _ => True

instance (op : Op) (k : Kernel) : Decidable (AddsPastEnd op k) := by
  cases op <;> unfold AddsPastEnd <;> infer_instance

section OneOperation
variable {k : Kernel} {m : Database}

/-- An operation that leaves the file and the map alone only has to answer
like the map. -/
private theorem faithful_of_same {op : Op} (ready : Refines k.db.data m)
    (answer : (op.exec k).1 = (spec op m).1) (file : (op.exec k).2.db.data = k.db.data)
    (map : (spec op m).2 = m) : Faithful op k m where
  answer := answer
  refines := by rwa [file, map]
  offsets := by rw [file]; exact fun i => id_of_occupied_slot ready
  unchanged := fun _ => file
  others := fun _ _ _ => by rw [file]

/-- An operation that rewrites the slot of its target. -/
private theorem faithful_of_write {op : Op} {i : Nat} {record : Student} (targets : target op = some (i : Int))
    (writer : ¬ ReadOnly op) (answer : (op.exec k).1 = (spec op m).1) (accepted : (spec op m).1.code = noError)
    (file : (op.exec k).2.db.data = writeAt k.db.data (studentRecordSize * i) record.toBytes)
    (refines : Refines (writeAt k.db.data (studentRecordSize * i) record.toBytes) (spec op m).2) :
    Faithful op k m where
  answer := answer
  refines := by rwa [file]
  offsets := by rw [file]; exact fun j => id_of_occupied_slot refines
  unchanged := by
    rintro (reads | refused)
    · exact absurd reads writer
    · rw [accepted] at refused
      cases refused
  others := by
    intro _ j different
    rw [file, slot_writeAt_other _ (length_toBytes record)]
    rintro rfl
    exact different targets

theorem faithful_add_iff (s : NewStudent) (full : k.script = []) (ready : Refines k.db.data m) :
    Faithful (.add s) k m ↔ AddsPastEnd (.add s) k := by
  have valid := valid_range s
  have key : ((s.id.toInt.toNat : Nat) : Int) = s.id.toInt := by simp only [minStdId] at valid; omega
  obtain ⟨answer, file, _, _⟩ := exec_full (.add s) full ready.whole
  have stored := slot_id_iff ready s.id valid.1
  simp only [Op.effect] at answer file
  by_cases empty : (Student.ofBytes (slot studentRecordSize k.db.data s.id.toInt.toNat)).id = 0
  · have absent := stored.mp empty
    rw [if_pos empty] at answer file
    simp only [AddsPastEnd, empty, ne_eq, not_true_eq_false, false_or]
    constructor
    · intro faithful
      -- inside the file the record lands in the next slot, so the slot of its id stays empty
      by_contra inside
      have here := faithful.refines.slots s.id.toInt.toNat
      rw [file, if_pos (not_le.mp inside), slot_writeAt_other _ (length_toBytes _) (by omega)] at here
      simp only [spec, absent, if_false] at here
      rw [slotOf, key, Finmap.lookup_insert] at here
      rw [here] at empty
      exact (occupied_record (entryOf s) valid.1 valid.2).1 empty
    · intro past
      rw [if_neg (not_lt.mpr past)] at file
      apply faithful_of_write (i := s.id.toInt.toNat) (by rw [key]; rfl) (by simp [ReadOnly])
      · simp only [answer, spec, absent, if_false]
      · simp only [spec, absent, if_false]
      · exact file
      · simp only [spec, absent, if_false]
        exact refines_insert ready s
  · have present : s.id.toInt ∈ m := by
      by_contra absent
      exact empty (stored.mpr absent)
    rw [if_neg empty] at answer file
    simp only [AddsPastEnd, empty, ne_eq, not_false_eq_true, true_or, iff_true]
    apply faithful_of_same ready
    · simp only [answer, spec, present, if_true]
    · exact file
    · simp only [spec, present, if_true]

theorem faithful_del {id : Int32} (full : k.script = []) (ready : Refines k.db.data m)
    (inRange : InRange (.del id)) : Faithful (.del id) k m := by
  obtain ⟨lower, upper⟩ := inRange
  have key : ((id.toInt.toNat : Nat) : Int) = id.toInt := by simp only [minStdId] at lower; omega
  obtain ⟨answer, file, _, _⟩ := exec_full (.del id) full ready.whole
  have stored := slot_id_iff ready id lower
  rw [effect_del _ lower upper] at answer file
  by_cases empty : (Student.ofBytes (slot studentRecordSize k.db.data id.toInt.toNat)).id = 0
  · rw [if_pos empty] at answer file
    have absent := stored.mp empty
    apply faithful_of_same ready
    · simp only [answer, spec, absent, if_false]
    · exact file
    · simp only [spec, absent, if_false]
  · rw [if_neg empty] at answer file
    have present : id.toInt ∈ m := by
      by_contra absent
      exact empty (stored.mpr absent)
    apply faithful_of_write (i := id.toInt.toNat) (by rw [key]; rfl) (by simp [ReadOnly])
    · simp only [answer, spec, present, if_true]
    · simp only [spec, present, if_true]
    · exact file
    · simp only [spec, present, if_true]
      exact refines_erase ready lower

theorem faithful_get (id : Int32) (stack : Student) (full : k.script = []) (ready : Refines k.db.data m) :
    Faithful (.get id stack) k m := by
  obtain ⟨answer, file, _, _⟩ := exec_full (.get id stack) full ready.whole
  simp only [Op.effect, find_record ready id] at answer file
  cases found : m.lookup id.toInt with
  | none =>
    simp only [found, Option.map_none] at answer file
    exact faithful_of_same ready (by simp only [answer, spec, found]) file (by simp only [spec, found])
  | some e =>
    simp only [found, Option.map_some] at answer file
    exact faithful_of_same ready (by simp only [answer, spec, found]) file (by simp only [spec, found])

theorem faithful_count (stack : Student) (full : k.script = []) (ready : Refines k.db.data m) :
    Faithful (.count stack) k m := by
  obtain ⟨answer, file, _, _⟩ := exec_full (.count stack) full ready.whole
  have bound := card_keys_le ready
  simp only [maxStdId] at bound
  have noWrap : (Int32.ofNat m.keys.card).toInt = m.keys.card := Int32.toInt_ofNat_of_lt (by omega)
  simp only [Op.effect, countP_occupied ready, noWrap] at answer file
  exact faithful_of_same ready answer file rfl

theorem faithful_zero (full : k.script = []) (ready : Refines k.db.data m) : Faithful .zero k m := by
  obtain ⟨answer, file, _, _⟩ := exec_full .zero full ready.whole
  have refines : Refines (Op.zero.exec k).2.db.data ∅ := by rw [file]; exact refines_empty
  exact {
    answer := answer
    refines := refines
    offsets := fun i => id_of_occupied_slot refines
    unchanged := by
      rintro (reads | refused)
      · exact absurd reads (by simp [ReadOnly])
      · cases refused
    others := fun notZero => absurd rfl notZero }

/-- One operation on a file that stores a map: the code does what the
operation is for exactly when an add does not have to fill a hole. -/
theorem faithful_iff (op : Op) (full : k.script = []) (ready : Refines k.db.data m) (inRange : InRange op) :
    Faithful op k m ↔ AddsPastEnd op k := by
  cases op with
  | add s => exact faithful_add_iff s full ready
  | del id => exact iff_of_true (faithful_del full ready inRange) trivial
  | get id stack => exact iff_of_true (faithful_get id stack full ready) trivial
  | count stack => exact iff_of_true (faithful_count stack full ready) trivial
  | zero => exact iff_of_true (faithful_zero full ready) trivial

end OneOperation

/-! ### Runs of any length -/

/-- Database and map side by side. -/
def both (op : Op) (s : Kernel × Database) : Kernel × Database := ((op.exec s.1).2, (spec op s.2).2)

/-- Every operation of the run is faithful to the map the earlier ones built. -/
def RefinesAlong (ops : List Op) (k : Kernel) : Prop :=
  Along both (fun op s => Faithful op s.1 s.2) ops (k, ∅)

/-- No add of the run has to fill a hole inside the file. -/
def AddsPastEndAlong (ops : List Op) (k : Kernel) : Prop :=
  Along (fun op k => (op.exec k).2) AddsPastEnd ops k

instance (ops : List Op) (k : Kernel) : Decidable (AddsPastEndAlong ops k) :=
  decidableAlong _ _ ops k

/-- A run from an empty file refines the map exactly when every add of an
absent id writes at or past the end of the file. -/
theorem database_refines_map_iff (ops : List Op) (k : Kernel) (full : k.script = [])
    (empty : k.db.data = []) (inRange : ∀ op ∈ ops, InRange op) :
    RefinesAlong ops k ↔ AddsPastEndAlong ops k := by
  let Stored (s : Kernel × Database) : Prop := s.1.script = [] ∧ Refines s.1.db.data s.2
  have start : Stored (k, ∅) := ⟨full, by rw [empty]; exact refines_empty⟩
  have lifted : RefinesAlong ops k ↔ Along both (fun op s => AddsPastEnd op s.1) ops (k, ∅) :=
    along_iff_of_invariant Stored ops
      (fun op member s stored => faithful_iff op stored.1 stored.2 (inRange op member))
      (fun op member s stored faithful =>
        ⟨(exec_full op stored.1 stored.2.whole).2.2.1, faithful.refines⟩)
      (k, ∅) start
  exact lifted.trans (along_fst (fun op k => (op.exec k).2) (fun op m => (spec op m).2) _ ops (k, ∅))

def emptyKernel : Kernel := ⟨⟨[], 0⟩, ⟨[], 0⟩, [], []⟩

def john : NewStudent := ⟨1, text "john", text "doe", 345, by decide⟩
def jane : NewStudent := ⟨3, text "jane", text "doe", 390, by decide⟩
def jill : NewStudent := ⟨2, text "jill", text "roe", 300, by decide⟩

theorem increasing_adds_refine :
    RefinesAlong [.add john, .add jane, .add john, .get 3 emptyStudentRecord, .del 1, .get 1 emptyStudentRecord,
      .count emptyStudentRecord] emptyKernel :=
  (database_refines_map_iff _ _ rfl rfl (by decide +kernel)).mpr (by decide +kernel)

/-- Adding student 2 below student 3 overwrites student 3. -/
theorem add_into_hole_overwrites :
    ¬ RefinesAlong [.add jane, .add jill, .get 3 emptyStudentRecord] emptyKernel := by
  rintro ⟨_, _, lost, _⟩
  have answers := congrArg Answer.code lost.answer
  exact absurd answers (by decide +kernel)

end SysProg.StudentMap
