import SysProg.RshServer

/-! How far the copies of `build_cmd_buff` reach. The only length check of the
remote path is the one on the 64K network buffer, so each segment between two
pipe characters decides for itself whether its copy stays inside the command
buffer it is made into. -/
namespace SysProg.CopyBounds
open CString WhileLoop Dshlib RshServer

/-! ### One copy -/

/-- What `build_cmd_buff` copies of its argument. -/
def copied (cmdLine : List UInt8) : List UInt8 := (cString cmdLine).dropWhile isspace

theorem buildCmdBuff_blank {cmdLine : List UInt8} (blank : copied cmdLine = []) (cmd : CmdBuff) (heap : Heap) :
    buildCmdBuff cmdLine cmd heap = some (warnNoCmds, cmd, heap) := by
  rw [copied] at blank
  simp only [buildCmdBuff, blank, if_true]

theorem buildCmdBuff_overrun {cmdLine : List UInt8} {cmd : CmdBuff} (nonblank : copied cmdLine ≠ [])
    (long : cmd.buffer.length ≤ (copied cmdLine).length) (heap : Heap) :
    buildCmdBuff cmdLine cmd heap = none := by
  rw [copied] at nonblank long
  have tooLong : ¬ ((cString cmdLine).dropWhile isspace).length + 1 ≤ cmd.buffer.length := by omega
  simp only [buildCmdBuff, nonblank, if_false, strcpy, tooLong]

/-- The scanner allocates strings only. -/
theorem heap_step (P : Heap → Prop) (keeps : ∀ heap string, P heap → P (heap.strdup string).2) {s : Scan}
    (held : P s.heap) : P s.step.heap := by
  unfold Scan.step Scan.branch
  dsimp only
  split
  · split <;> exact held
  split
  · split <;> exact held
  split
  · exact keeps _ _ held
  split
  · exact keeps _ _ held
  · exact held

theorem blocks_step (s : Scan) : s.step.heap.blocks = s.heap.blocks := by
  apply heap_step fun heap => heap.blocks = s.heap.blocks
  · intro heap string same
    rw [Heap.strdup]
    split <;> exact same
  · rfl

/-- What copies of strings keep, a parse keeps; the buffer is neither moved
nor resized. -/
theorem buildCmdBuff_keeps (P : Heap → Prop) (keeps : ∀ heap string, P heap → P (heap.strdup string).2)
    (parsed : buildCmdBuff cmdLine cmd heap = some (rc, built, after)) (held : P heap) :
    P after ∧ built.buffer.length = cmd.buffer.length := by
  simp only [buildCmdBuff] at parsed
  split at parsed
  · cases parsed
    exact ⟨held, rfl⟩
  simp only [strcpy] at parsed
  split at parsed
  · cases parsed
  rename_i buffer copied
  have size : buffer.length = cmd.buffer.length := by
    split at copied
    · cases copied
      simp
      omega
    · cases copied
  cases parsed
  have run := (run_keeps scanLoop (fun s => P s.heap ∧ s.cmd.buffer.length = cmd.buffer.length)
    (fun s _ kept => ⟨heap_step P keeps kept.1, (length_branch s).trans kept.2⟩)
    (s := ⟨0, 0, false, { cmd with buffer := buffer, argc := 0 }, heap⟩) ⟨held, size⟩).1
  refine ⟨run.1, ?_⟩
  rw [Scan.finish]
  split <;> exact run.2

theorem buildCmdBuff_fits {cmdLine : List UInt8} {cmd : CmdBuff} (nonblank : copied cmdLine ≠ [])
    (short : (copied cmdLine).length < cmd.buffer.length) (heap : Heap) :
    ∃ built after, buildCmdBuff cmdLine cmd heap = some (ok, built, after) ∧ after.blocks = heap.blocks := by
  rw [copied] at nonblank short
  have fits : ((cString cmdLine).dropWhile isspace).length + 1 ≤ cmd.buffer.length := by omega
  simp only [buildCmdBuff, nonblank, if_false, strcpy, if_pos fits]
  refine ⟨_, _, rfl, ?_⟩
  exact (run_keeps scanLoop (fun s => s.heap.blocks = heap.blocks)
    (fun s _ same => (blocks_step s).trans same) rfl).1

/-! ### All copies of one message -/

/-- Some copy of the remaining tokens overruns its buffer: it is reached before
eight commands are built and before an allocation fails. -/
def overlong : Nat → List (List UInt8) → List (Option (List UInt8)) → Bool
  | _, [], _ => false
  | built, token :: rest, blocks =>
    if cmdMax ≤ built then false
    else if blocks.headD (some []) = none then false
    else if copied token = [] then overlong built rest blocks.tail
    else if shCmdMax ≤ (copied token).length then true
    else overlong (built + 1) rest blocks.tail

theorem blocks_freeCmdBuff (cmd : CmdBuff) (heap : Heap) : (freeCmdBuff cmd heap).2.blocks = heap.blocks := by
  simp only [freeCmdBuff]
  split <;> split <;> split <;> rfl

theorem allocCmdBuff_refused (cmd : CmdBuff) {heap : Heap} (refused : heap.blocks.headD (some []) = none) :
    (allocCmdBuff cmd heap).1 = errMemory := by
  simp only [allocCmdBuff, Heap.malloc, refused]

/-- A command buffer has `SH_CMD_MAX` bytes. -/
theorem allocCmdBuff_granted (cmd : CmdBuff) {heap : Heap} (granted : heap.blocks.headD (some []) ≠ none) :
    ∃ fresh after, allocCmdBuff cmd heap = (ok, fresh, after) ∧ fresh.buffer.length = shCmdMax ∧
      after.blocks = heap.blocks.tail := by
  obtain ⟨contents, block⟩ := Option.ne_none_iff_exists'.mp granted
  simp only [allocCmdBuff, Heap.malloc, block]
  exact ⟨_, _, rfl, by simp, rfl⟩

theorem buildCmds_overrun_iff (tokens : List (List UInt8)) (clist : List CmdBuff) (heap : Heap) :
    buildCmds tokens clist heap = none ↔ overlong clist.length tokens heap.blocks = true := by
  induction tokens generalizing clist heap with
  | nil =>
    simp only [buildCmds, overlong]
    split <;> simp
  | cons token rest ih =>
    simp only [buildCmds, overlong]
    split
    · simp
    by_cases refused : heap.blocks.headD (some []) = none
    · have failed := allocCmdBuff_refused vacant refused
      generalize allocCmdBuff vacant heap = result at failed
      obtain ⟨rc, cmd, after⟩ := result
      have notOk : rc ≠ ok := by
        rw [show rc = errMemory from failed]
        decide
      simp only [ne_eq, notOk, not_false_eq_true, if_true, if_pos refused, reduceCtorEq, Bool.false_eq_true]
    obtain ⟨cmd, granted, allocated, size, blocks⟩ := allocCmdBuff_granted vacant refused
    rw [allocated, if_neg refused]
    simp only [ne_eq, not_true_eq_false, if_false]
    by_cases blank : copied token = []
    · simp only [buildCmdBuff_blank blank, if_true, if_pos blank, ih, blocks_freeCmdBuff, blocks]
    rw [if_neg blank]
    by_cases long : shCmdMax ≤ (copied token).length
    · rw [buildCmdBuff_overrun blank (size ▸ long), if_pos long]
      simp
    · obtain ⟨built, after, parsed, same⟩ :=
        buildCmdBuff_fits blank (size ▸ not_le.mp long) granted
      rw [parsed, if_neg long]
      simp only [ok_ne_warnNoCmds, if_false, if_true, ih, List.length_append, List.length_singleton, same, blocks]

theorem cString_cString (memory : List UInt8) : cString (cString memory) = cString memory :=
  cString_of_nulFree (nulFree_cString memory)

theorem buildCmdList_overrun_iff (message : List UInt8) (clist : List CmdBuff) (heap : Heap) :
    buildCmdList (cString message) clist heap = none ↔
      heap.strings.headD true = true ∧ overlong 0 (pipeTokens message) heap.blocks = true := by
  by_cases granted : heap.strings.headD true = true
  · simp only [buildCmdList, Heap.strdup, granted, if_true, buildCmds_overrun_iff, pipeTokens, cString_cString,
      true_and, List.length_nil]
  · simp only [buildCmdList, Heap.strdup, granted, if_false, false_and, reduceCtorEq, Bool.false_eq_true]

/-- What an accepted message makes the turn do hangs on its parse. -/
theorem overrun_of_parse {e : Turn} {message : List UInt8} (received : e.recv = some message)
    (nonempty : 1 ≤ message.length) (accepted : message.length ≤ rdshCommBuffSz - 2) :
    (clientRequest e).next = .overrun ↔ buildCmdList (cString message) [] e.heap = none := by
  obtain ⟨byte, rest, rfl⟩ := List.exists_cons_of_length_pos nonempty
  have short : ¬ rdshCommBuffSz - 1 ≤ (byte :: rest).length := by
    simp only [rdshCommBuffSz] at accepted ⊢
    omega
  simp only [clientRequest, received, if_neg short]
  cases buildCmdList (cString (byte :: rest)) [] e.heap with
  | none => simp
  | some parsed =>
    obtain ⟨rc, clist, heap⟩ := parsed
    dsimp only
    split
    · simp
    split
    · simp
    split
    · simp
    split
    · simp
    split <;> simp

/-- The copies made for an accepted message stay inside their command buffers
exactly when every segment that is reached is shorter than a buffer once its
leading whitespace is skipped. -/
theorem remote_copies_fit_iff (e : Turn) (message : List UInt8) (received : e.recv = some message)
    (nonempty : 1 ≤ message.length) (accepted : message.length ≤ rdshCommBuffSz - 2) :
    (clientRequest e).next ≠ .overrun ↔
      ¬ (e.heap.strings.headD true = true ∧ overlong 0 (pipeTokens message) e.heap.blocks = true) := by
  rw [ne_eq, overrun_of_parse received nonempty accepted, buildCmdList_overrun_iff]

theorem short_message_fits : (clientRequest (quietTurn (text "ls -l\n") (by decide))).next ≠ .overrun :=
  (remote_copies_fit_iff _ (text "ls -l\n") rfl (by decide) (by decide)).mpr (by decide +kernel)

/-- A message of 320 letters without a pipe passes the length check and is
copied, terminator included, into 320 bytes. -/
theorem long_message_overruns :
    (clientRequest (quietTurn (List.replicate 320 97) (by rw [List.length_replicate]; decide))).next = .overrun := by
  decide +kernel

end SysProg.CopyBounds
