import SysProg.CopyBounds
import SysProg.Lib.Tokens

/-! `build_cmd_list` as a splitter. Blank segments are dropped while the list
is filled, but the test for a ninth command only asks whether any segment is
left, so a blank segment behind eight commands is refused like a command. -/
namespace SysProg.PipeSplitting
open CString WhileLoop Dshlib CopyBounds Tokens

/-- A segment with a character that is not whitespace. -/
def nonBlank (segment : List UInt8) : Bool := segment.any fun c => !isspace c

/-- The commands of a line: its segments between pipes, the blank ones left out. -/
def commandSegments (line : List UInt8) : List (List UInt8) :=
  ((cString line).splitOn pipeChar).filter nonBlank

/-- Every allocation that is still to come succeeds. -/
structure Granting (heap : Heap) : Prop where
  blocks : ∀ block ∈ heap.blocks, block ≠ none
  strings : ∀ granted ∈ heap.strings, granted = true

/-- What `build_cmd_buff` makes of a segment in a buffer that was just allocated. -/
def Produced (segment : List UInt8) (cmd : CmdBuff) : Prop :=
  ∃ stale heap fresh granted after, allocCmdBuff stale heap = (ok, fresh, granted) ∧
    buildCmdBuff segment fresh granted = some (ok, cmd, after) ∧ Granting granted

/-- The line is split into exactly its non-blank segments, and a refused line
leaves nothing allocated. -/
structure SplitsExactly (line : List UInt8) (clist : List CmdBuff) (heap : Heap) (rc : Int) (built : List CmdBuff)
    (after : Heap) : Prop where
  returns : buildCmdList line clist heap = some (rc, built, after)
  noCommands : rc = warnNoCmds ↔ commandSegments line = []
  tooMany : rc = errTooManyCommands ↔ cmdMax < (commandSegments line).length
  commands : commandSegments line ≠ [] → (commandSegments line).length ≤ cmdMax →
    rc = ok ∧ List.Forall₂ Produced (commandSegments line) built
  released : rc = warnNoCmds ∨ rc = errTooManyCommands → built = [] ∧ after.liveBlocks = heap.liveBlocks

/-! ### Segments -/

theorem pipeTokens_eq (line : List UInt8) : pipeTokens line = tokens (· == pipeChar) (cString line) := by
  rw [pipeTokens, tokens, List.splitOn_eq_splitOnP]
  apply List.filter_congr
  intro segment _
  cases segment <;> simp

/-- Leaving out the blank segments leaves out the empty ones. -/
theorem filter_pipeTokens (line : List UInt8) : (pipeTokens line).filter nonBlank = commandSegments line := by
  rw [pipeTokens, commandSegments, List.filter_filter]
  apply List.filter_congr
  intro segment _
  cases segment with
  | nil => simp [nonBlank]
  | cons c rest => simp

theorem nulFree_token {line token : List UInt8} (member : token ∈ pipeTokens line) : NulFree token := by
  rw [pipeTokens_eq] at member
  exact fun c inside => nulFree_cString line c ((sublist_of_mem_tokens member).mem inside)

theorem length_token_le {line token : List UInt8} (member : token ∈ pipeTokens line) :
    token.length ≤ (cString line).length := by
  rw [pipeTokens_eq] at member
  exact (sublist_of_mem_tokens member).length_le

/-- A segment is copied up to its last character, so it is blank exactly when
nothing of it is copied. -/
theorem copied_eq_nil_iff {segment : List UInt8} (free : NulFree segment) :
    copied segment = [] ↔ nonBlank segment = false := by
  rw [copied, cString_of_nulFree free, List.dropWhile_eq_nil_iff, nonBlank]
  simp

theorem length_copied_le (segment : List UInt8) : (copied segment).length ≤ segment.length :=
  (List.dropWhile_sublist isspace).length_le.trans (length_cString_le segment)

/-! ### The heap -/

theorem granting_strdup {heap : Heap} (granting : Granting heap) (string : List UInt8) :
    Granting (heap.strdup string).2 := by
  have tail : ∀ granted ∈ heap.strings.tail, granted = true :=
    fun granted member => granting.strings granted (List.mem_of_mem_tail member)
  rw [Heap.strdup]
  split <;> exact ⟨granting.blocks, tail⟩

theorem live_strdup (heap : Heap) (string : List UInt8) :
    (heap.strdup string).2.liveBlocks = heap.liveBlocks := by
  rw [Heap.strdup]
  split <;> rfl

/-- A granted allocation hands out one more block. -/
theorem alloc_granting {heap : Heap} (granting : Granting heap) (stale : CmdBuff) :
    ∃ fresh granted, allocCmdBuff stale heap = (ok, fresh, granted) ∧ fresh.buffer.length = shCmdMax ∧
      Granting granted ∧ granted.liveBlocks = heap.liveBlocks + 1 := by
  have present : heap.blocks.headD (some []) ≠ none := by
    cases blocks : heap.blocks with
    | nil => simp
    | cons block rest => exact granting.blocks block (by simp [blocks])
  obtain ⟨contents, block⟩ := Option.ne_none_iff_exists'.mp present
  simp only [allocCmdBuff, Heap.malloc, block]
  refine ⟨_, _, rfl, by simp, ⟨?_, granting.strings⟩, rfl⟩
  exact fun block member => granting.blocks block (List.mem_of_mem_tail member)

theorem free_granting {heap : Heap} (granting : Granting heap) (cmd : CmdBuff) :
    Granting (freeCmdBuff cmd heap).2 := by
  simp only [freeCmdBuff]
  split <;> split <;> split <;> exact ⟨granting.blocks, granting.strings⟩

/-- Freeing a command buffer gives its block back. -/
theorem live_free {cmd : CmdBuff} (held : cmd.buffer ≠ []) (heap : Heap) :
    (freeCmdBuff cmd heap).2.liveBlocks = heap.liveBlocks - 1 := by
  simp only [freeCmdBuff, if_pos held]
  split <;> split <;> rfl

theorem live_freeCmdList {clist : List CmdBuff} (held : ∀ cmd ∈ clist, cmd.buffer ≠ []) (heap : Heap) :
    (freeCmdList clist heap).2.liveBlocks = heap.liveBlocks - clist.length := by
  rw [freeCmdList]
  induction clist generalizing heap with
  | nil => simp
  | cons cmd rest ih =>
    have first : (freeCmdBuff cmd heap).2.liveBlocks = heap.liveBlocks - 1 := live_free (held cmd (by simp)) heap
    have others := ih (fun other member => held other (List.mem_cons_of_mem _ member)) (freeCmdBuff cmd heap).2
    simp only [List.foldl_cons] at others ⊢
    rw [others, first, List.length_cons]
    omega

/-! ### The loop over the tokens -/

theorem codes_differ : warnNoCmds ≠ errTooManyCommands ∧ ok ≠ errTooManyCommands := by decide
theorem failed_ne_ok : errMemory ≠ ok := by decide

/-- Some token is left once the list is full. -/
def overfull : Nat → List (List UInt8) → Bool
  | _, [] => false
  | built, token :: rest =>
    if cmdMax ≤ built then true else overfull (if nonBlank token then built + 1 else built) rest

/-- The list overflows when there are too many commands, or when it is just
full and the last token is blank. -/
theorem overfull_iff (tokens : List (List UInt8)) (built : Nat) (room : built ≤ cmdMax) :
    overfull built tokens = true ↔ cmdMax < built + (tokens.filter nonBlank).length ∨
      built + (tokens.filter nonBlank).length = cmdMax ∧ ∃ last ∈ tokens.getLast?, nonBlank last = false := by
  induction tokens generalizing built with
  | nil => simp [overfull, room]
  | cons token rest ih =>
    rw [overfull]
    split
    · have full : built = cmdMax := by omega
      subst full
      simp only [true_iff]
      by_cases more : ((token :: rest).filter nonBlank).length = 0
      · refine .inr ⟨by omega, (token :: rest).getLast (by simp), List.getLast?_eq_some_getLast _, ?_⟩
        have none := List.filter_eq_nil_iff.mp (List.length_eq_zero_iff.mp more) _
          (List.getLast_mem (List.cons_ne_nil token rest))
        simpa using none
      · exact .inl (by omega)
    · cases blank : nonBlank token with
      | false =>
        rw [if_neg (by simp), ih built room, List.filter_cons_of_neg (by simp [blank])]
        cases rest with
        | nil =>
          have short : built ≠ cmdMax := by omega
          simp [short]
        | cons second rest => rw [List.getLast?_cons_cons]
      | true =>
        rw [if_pos rfl, ih (built + 1) (by omega), List.filter_cons_of_pos blank, List.length_cons]
        have count : built + 1 + (rest.filter nonBlank).length = built + ((rest.filter nonBlank).length + 1) := by
          omega
        rw [count]
        cases rest with
        | nil =>
          simp [blank]
        | cons second rest => rw [List.getLast?_cons_cons]

/-- One token that is not refused: a blank one leaves no trace, any other one
becomes a command. -/
theorem build_token {token : List UInt8} (free : NulFree token) (short : token.length < shCmdMax)
    {heap : Heap} (granting : Granting heap) :
    ∃ fresh granted, allocCmdBuff vacant heap = (ok, fresh, granted) ∧
      if nonBlank token then
        ∃ cmd after, buildCmdBuff token fresh granted = some (ok, cmd, after) ∧ Produced token cmd ∧
          cmd.buffer ≠ [] ∧ Granting after ∧ after.liveBlocks = heap.liveBlocks + 1
      else buildCmdBuff token fresh granted = some (warnNoCmds, fresh, granted) ∧
        Granting (freeCmdBuff fresh granted).2 ∧
          (freeCmdBuff fresh granted).2.liveBlocks = heap.liveBlocks := by
  obtain ⟨fresh, granted, allocated, size, granting', live⟩ := alloc_granting granting vacant
  have held : fresh.buffer ≠ [] := by
    intro empty
    rw [empty] at size
    cases size
  refine ⟨fresh, granted, allocated, ?_⟩
  cases blank : nonBlank token with
  | false =>
    rw [if_neg (by simp)]
    refine ⟨buildCmdBuff_blank ((copied_eq_nil_iff free).mpr blank) fresh granted, free_granting granting' fresh, ?_⟩
    rw [live_free held, live, Nat.add_sub_cancel]
  | true =>
    rw [if_pos rfl]
    have nonblank : copied token ≠ [] := by
      intro empty
      rw [copied_eq_nil_iff free, blank] at empty
      cases empty
    have fits : (copied token).length < fresh.buffer.length := by
      have := length_copied_le token
      omega
    obtain ⟨cmd, after, parsed, _⟩ := buildCmdBuff_fits nonblank fits granted
    have kept := buildCmdBuff_keeps (fun heap => Granting heap ∧ heap.liveBlocks = granted.liveBlocks)
      (fun heap string kept => ⟨granting_strdup kept.1 string, (live_strdup heap string).trans kept.2⟩)
      parsed ⟨granting', rfl⟩
    refine ⟨cmd, after, parsed, ⟨vacant, heap, fresh, granted, after, allocated, parsed, granting'⟩, ?_,
      kept.1.1, kept.1.2.trans live⟩
    intro empty
    rw [empty, size] at kept
    cases kept.2

/-- The loop from a list that is not too long yet. -/
theorem buildCmds_granted (tokens : List (List UInt8)) (free : ∀ token ∈ tokens, NulFree token)
    (short : ∀ token ∈ tokens, token.length < shCmdMax) {clist : List CmdBuff} {heap : Heap}
    (granting : Granting heap) (held : ∀ cmd ∈ clist, cmd.buffer ≠ [])
    (live : heap.liveBlocks = base + clist.length) :
    ∃ rc built after, buildCmds tokens clist heap = some (rc, built, after) ∧
      after.liveBlocks = base + built.length ∧
      if overfull clist.length tokens then rc = errTooManyCommands ∧ built = []
      else rc = (if built.length = 0 then warnNoCmds else ok) ∧
        ∃ added, built = clist ++ added ∧ List.Forall₂ Produced (tokens.filter nonBlank) added := by
  induction tokens generalizing clist heap with
  | nil =>
    refine ⟨if clist.length = 0 then warnNoCmds else ok, clist, heap.freeString, ?_, live, ?_⟩
    · simp only [buildCmds]
      split <;> rfl
    · exact ⟨rfl, [], (List.append_nil clist).symm, .nil⟩
  | cons token rest ih =>
    have freeRest : ∀ other ∈ rest, NulFree other := fun other member => free other (List.mem_cons_of_mem _ member)
    have shortRest : ∀ other ∈ rest, other.length < shCmdMax :=
      fun other member => short other (List.mem_cons_of_mem _ member)
    simp only [buildCmds, overfull]
    split
    · refine ⟨errTooManyCommands, [], _, rfl, ?_, rfl, rfl⟩
      rw [live_freeCmdList held, Heap.freeString, live]
      simp
    · obtain ⟨fresh, granted, allocated, token⟩ := build_token (free token (by simp)) (short token (by simp)) granting
      simp only [allocated, ne_eq, not_true_eq_false, if_false]
      split at token
      · rename_i nonblank
        obtain ⟨cmd, after, parsed, produced, buffer, granting', live'⟩ := token
        have held' : ∀ other ∈ clist ++ [cmd], other.buffer ≠ [] := by
          intro other member
          rcases List.mem_append.mp member with old | new
          · exact held other old
          · rwa [List.mem_singleton.mp new]
        obtain ⟨rc, built, final, returns, count, outcome⟩ := ih freeRest shortRest granting' held'
          (by rw [live', live, List.length_append, List.length_singleton, Nat.add_assoc])
        rw [List.length_append, List.length_singleton] at outcome
        refine ⟨rc, built, final, ?_, count, ?_⟩
        · simpa only [parsed, ok_ne_warnNoCmds, if_false, if_true] using returns
        · rw [if_pos nonblank, List.filter_cons_of_pos nonblank]
          split at outcome
          · rename_i exceeded
            rwa [if_pos exceeded]
          · rename_i room
            rw [if_neg room]
            obtain ⟨code, added, same, each⟩ := outcome
            exact ⟨code, cmd :: added, by rw [same, List.append_assoc, List.singleton_append], .cons produced each⟩
      · rename_i blank
        obtain ⟨parsed, granting', live'⟩ := token
        obtain ⟨rc, built, final, returns, count, outcome⟩ := ih freeRest shortRest granting' held
          (live'.trans live)
        refine ⟨rc, built, final, ?_, count, ?_⟩
        · simpa only [parsed, if_true] using returns
        · rwa [if_neg blank, List.filter_cons_of_neg blank]

/-- Whatever the allocations do, an accepted line has one command for each
non-blank token. -/
theorem length_of_ok (tokens : List (List UInt8)) (free : ∀ token ∈ tokens, NulFree token) {clist : List CmdBuff}
    {heap : Heap} (returns : buildCmds tokens clist heap = some (ok, built, after)) :
    built.length = clist.length + (tokens.filter nonBlank).length := by
  induction tokens generalizing clist heap with
  | nil =>
    simp only [buildCmds] at returns
    split at returns <;> cases returns
    rfl
  | cons token rest ih =>
    obtain ⟨first, others⟩ := List.forall_mem_cons.mp free
    have blank := copied_eq_nil_iff first
    simp only [buildCmds] at returns
    split at returns
    · exact absurd (congrArg Prod.fst (Option.some.inj returns)) codes_differ.2.symm
    split at returns
    · rename_i refused
      exact absurd (congrArg Prod.fst (Option.some.inj returns)) refused
    by_cases empty : copied token = []
    · rw [buildCmdBuff_blank empty] at returns
      simp only [if_true] at returns
      rw [ih others returns, List.filter_cons_of_neg (by simp [blank.mp empty])]
    · split at returns
      · cases returns
      rename_i rc cmd heap parsed
      have code : rc = ok := by
        rw [copied] at empty
        simp only [buildCmdBuff, if_neg empty] at parsed
        split at parsed <;> cases parsed
        rfl
      simp only [code, ok_ne_warnNoCmds, if_false, if_true] at returns
      have some : nonBlank token = true := by
        rw [← Bool.not_eq_false, ← not_congr blank]
        exact empty
      rw [ih others returns, List.filter_cons_of_pos some, List.length_append, List.length_singleton, List.length_cons]
      omega

theorem pipeTokens_cString (line : List UInt8) : pipeTokens (cString line) = pipeTokens line := by
  rw [pipeTokens, pipeTokens, cString_cString]

theorem length_of_accepted {line : List UInt8} (returns : buildCmdList line clist heap = some (ok, built, after)) :
    built.length = (commandSegments line).length := by
  by_cases granted : heap.strings.headD true = true
  · simp only [buildCmdList, Heap.strdup, if_pos granted, pipeTokens_cString] at returns
    rw [length_of_ok (pipeTokens line) (fun token => nulFree_token) returns, filter_pipeTokens, List.length_nil,
      Nat.zero_add]
  · simp only [buildCmdList, Heap.strdup, if_neg granted] at returns
    exact absurd (congrArg Prod.fst (Option.some.inj returns)) failed_ne_ok

/-- A blank segment stands behind the last of exactly `CMD_MAX` commands. -/
def BlankBehindFullList (line : List UInt8) : Prop :=
  (commandSegments line).length = cmdMax ∧ ∃ last ∈ (pipeTokens line).getLast?, nonBlank last = false

instance (line : List UInt8) : Decidable (BlankBehindFullList line) := by
  unfold BlankBehindFullList; infer_instance

/-- What `build_cmd_list` does with a line when every allocation succeeds. -/
theorem buildCmdList_granted (line : List UInt8) (clist : List CmdBuff) {heap : Heap} (granting : Granting heap)
    (short : (cString line).length < shCmdMax) :
    ∃ rc built after, buildCmdList line clist heap = some (rc, built, after) ∧
      after.liveBlocks = heap.liveBlocks + built.length ∧
      if cmdMax < (commandSegments line).length ∨ BlankBehindFullList line then
        rc = errTooManyCommands ∧ built = []
      else rc = (if built.length = 0 then warnNoCmds else ok) ∧
        List.Forall₂ Produced (commandSegments line) built := by
  have copied : heap.strdup (cString line) = (some (cString line),
      { heap with strings := heap.strings.tail, liveStrings := heap.liveStrings + 1 }) := by
    have granted : heap.strings.headD true = true := by
      cases strings : heap.strings with
      | nil => rfl
      | cons granted rest => exact granting.strings granted (by simp [strings])
    rw [Heap.strdup, if_pos granted]
  have overflow : overfull 0 (pipeTokens line) = true ↔
      cmdMax < (commandSegments line).length ∨ BlankBehindFullList line := by
    have counted := overfull_iff (pipeTokens line) 0 (Nat.zero_le _)
    rwa [filter_pipeTokens, Nat.zero_add] at counted
  obtain ⟨rc, built, after, returns, live, outcome⟩ := buildCmds_granted (pipeTokens line)
    (fun token => nulFree_token) (fun token member => (length_token_le member).trans_lt short)
    (granting_strdup granting (cString line)) (List.forall_mem_nil _) (live_strdup heap _)
  refine ⟨rc, built, after, ?_, live, ?_⟩
  · rw [copied] at returns
    simpa only [buildCmdList, copied, pipeTokens_cString] using returns
  · rw [List.length_nil] at outcome
    by_cases exceeded : overfull 0 (pipeTokens line) = true
    · rw [if_pos exceeded] at outcome
      rw [if_pos (overflow.mp exceeded)]
      exact outcome
    · rw [if_neg exceeded] at outcome
      rw [if_neg (fun more => exceeded (overflow.mpr more))]
      obtain ⟨code, added, rfl, each⟩ := outcome
      rw [filter_pipeTokens] at each
      exact ⟨code, each⟩

/-- `build_cmd_list` splits a line into exactly its commands unless a blank
segment stands behind the last of eight. -/
theorem splits_exactly_iff (line : List UInt8) (clist : List CmdBuff) (heap : Heap) (granting : Granting heap)
    (short : (cString line).length < shCmdMax) :
    (∃ rc built after, SplitsExactly line clist heap rc built after) ↔ ¬ BlankBehindFullList line := by
  obtain ⟨rc, built, after, returns, live, outcome⟩ := buildCmdList_granted line clist granting short
  constructor
  · rintro ⟨rc', built', after', exact⟩ blank
    rw [if_pos (.inr blank)] at outcome
    have same := returns.symm.trans exact.returns
    cases same
    have exceeded := exact.tooMany.mp outcome.1
    rw [blank.1] at exceeded
    exact Nat.lt_irrefl _ exceeded
  · intro fits
    simp only [fits, or_false] at outcome
    split at outcome
    · rename_i exceeded
      obtain ⟨rfl, rfl⟩ := outcome
      have some : commandSegments line ≠ [] := List.ne_nil_of_length_pos (Nat.zero_lt_of_lt exceeded)
      exact ⟨_, _, _, returns, iff_of_false codes_differ.1.symm some, iff_of_true rfl exceeded,
        fun _ room => absurd exceeded (not_lt.mpr room), fun _ => ⟨rfl, live⟩⟩
    rename_i room
    obtain ⟨rfl, each⟩ := outcome
    by_cases none : built.length = 0
    · rw [if_pos none] at returns
      have nothing : commandSegments line = [] := List.length_eq_zero_iff.mp (each.length_eq.trans none)
      exact ⟨_, _, _, returns, iff_of_true rfl nothing, iff_of_false codes_differ.1 room,
        fun some => absurd nothing some, fun _ => ⟨List.length_eq_zero_iff.mp none, by rw [live, none, Nat.add_zero]⟩⟩
    · rw [if_neg none] at returns
      have some : commandSegments line ≠ [] := by
        intro nothing
        rw [← each.length_eq, nothing] at none
        exact none rfl
      refine ⟨_, _, _, returns, iff_of_false ok_ne_warnNoCmds some, iff_of_false codes_differ.2 room,
        fun _ _ => ⟨rfl, each⟩, ?_⟩
      rintro (wrong | wrong)
      · exact absurd wrong ok_ne_warnNoCmds
      · exact absurd wrong codes_differ.2

def eightCommands : List UInt8 := text "a|b|c|d|e|f|g|h"

def freshHeap : Heap := ⟨[], [], 0, 0⟩

theorem freshHeap_granting : Granting freshHeap := ⟨by simp [freshHeap], by simp [freshHeap]⟩

theorem eight_commands_split :
    ∃ rc built after, SplitsExactly eightCommands [] freshHeap rc built after :=
  (splits_exactly_iff eightCommands [] freshHeap freshHeap_granting (by decide +kernel)).mpr (by decide +kernel)

/-- A blank behind the eighth pipe turns eight commands into too many. -/
theorem trailing_blank_refused : (commandSegments (eightCommands ++ text "| ")).length = cmdMax ∧
    ¬ ∃ rc built after, SplitsExactly (eightCommands ++ text "| ") [] freshHeap rc built after := by
  refine ⟨by decide +kernel, ?_⟩
  rintro ⟨rc, built, after, exact⟩
  have returned : (buildCmdList (eightCommands ++ text "| ") [] freshHeap).map Prod.fst =
      some errTooManyCommands := by decide +kernel
  rw [exact.returns] at returned
  exact absurd (exact.tooMany.mp (Option.some.inj returned)) (by decide +kernel)

end SysProg.PipeSplitting
