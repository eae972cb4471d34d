import SysProg.Lib.Segmentation
import SysProg.RshServer

/-! Request framing over TCP. The client sends each line it reads and the
server takes each result of `recv` for one command, so the commands it sees
are the lines that were typed only when the network keeps their boundaries. -/
namespace SysProg.RequestFraming
open CString Segmentation Dshlib RshServer

/-! ### The client's side of the stream -/

/-- A command line as it is typed: text of any length, its newline included.
Nothing below needs the newline to come last and only there, so that is not
asked for. -/
structure Line where
  bytes : List UInt8
  nonempty : bytes ≠ []
  nulFree : NulFree bytes

/-- The results of `fgets(cmd_buff, RDSH_COMM_BUFF_SZ, stdin)` for one line;
every piece has at least one byte, so `fuel` need not exceed the length. -/
def pieces : Nat → List UInt8 → List (List UInt8)
  | 0, _ => []
  | fuel + 1, line =>
    if line = [] then []
    else line.take (rdshCommBuffSz - 1) :: pieces fuel (line.drop (rdshCommBuffSz - 1))

/-- What `exec_remote_cmd_loop` sends: `strlen(cmd_buff)` bytes of each piece. -/
def sent (typed : List Line) : List (List UInt8) :=
  typed.flatMap fun line => (pieces line.bytes.length line.bytes).map cString

theorem flatten_pieces {line : List UInt8} (enough : line.length ≤ fuel) : (pieces fuel line).flatten = line := by
  induction fuel generalizing line with
  | zero => simpa [pieces] using (List.eq_nil_of_length_eq_zero (Nat.le_zero.mp enough)).symm
  | succ fuel ih =>
    simp only [pieces]
    split
    · rename_i empty
      simp [empty]
    · have less : (line.drop (rdshCommBuffSz - 1)).length ≤ fuel := by
        simp only [List.length_drop, rdshCommBuffSz]
        omega
      rw [List.flatten_cons, ih less, List.take_append_drop]

theorem pieces_nulFree {line : List UInt8} (free : NulFree line) : ∀ piece ∈ pieces fuel line, NulFree piece := by
  induction fuel generalizing line with
  | zero => simp [pieces]
  | succ fuel ih =>
    simp only [pieces]
    split
    · simp
    · intro piece member
      rcases List.mem_cons.mp member with rfl | later
      · exact free.take
      · exact ih free.drop piece later

/-- The client loses no byte of what is typed. -/
theorem flatten_sent (typed : List Line) : (sent typed).flatten = (typed.map Line.bytes).flatten := by
  induction typed with
  | nil => rfl
  | cons line typed ih =>
    have whole : (pieces line.bytes.length line.bytes).map cString = pieces line.bytes.length line.bytes :=
      (List.map_congr_left fun piece member => cString_of_nulFree (pieces_nulFree line.nulFree piece member)).trans
        (List.map_id _)
    rw [sent, List.flatMap_cons, List.flatten_append, whole, flatten_pieces (Nat.le_refl _), List.map_cons,
      List.flatten_cons]
    exact congrArg _ ih

/-! ### The server's side -/

/-- The bytes a turn receives, none for an error and a closed connection. -/
def received (e : Turn) : List UInt8 := e.recv.getD []

/-- The results of `recv` that the session gets to, as long as they are data. -/
def chunks : List Turn → List (List UInt8)
  | [] => []
  | e :: rest =>
    if received e = [] then []
    else received e :: if (clientRequest e).next = .again then chunks rest else []

/-- The command strings the session takes, parsed or rejected as too long. -/
def commands (turns : List Turn) : List (List UInt8) := (session turns).replies.filterMap Reply.taken

theorem taken_eq {e : Turn} (free : NulFree (received e)) :
    (clientRequest e).taken = if received e = [] then none else some (received e) := by
  cases recv : e.recv with
  | none => simp only [clientRequest, received, recv, Option.getD_none, if_true]
  | some message =>
    simp only [received, recv, Option.getD_some] at free
    cases message with
    | nil => simp only [clientRequest, received, recv, Option.getD_some, if_true]
    | cons byte rest =>
      rw [taken_of_data recv, cString_of_nulFree free, ite_self]
      simp only [received, recv, Option.getD_some, reduceCtorEq, if_false]

/-- Every turn with data takes all of it for one command. -/
theorem commands_eq_chunks (turns : List Turn) (free : ∀ e ∈ turns, NulFree (received e)) :
    commands turns = chunks turns := by
  induction turns with
  | nil => rfl
  | cons e rest ih =>
    have later := ih fun other member => free other (List.mem_cons_of_mem _ member)
    have taken := taken_eq (free e (by simp))
    simp only [commands, session, chunks] at later ⊢
    by_cases empty : received e = []
    · have stops : (clientRequest e).next ≠ .again := by
        cases recv : e.recv with
        | none => simp [clientRequest, recv]
        | some message =>
          have none_left : message = [] := by simpa [received, recv] using empty
          simp [clientRequest, recv, none_left]
      rw [if_pos empty] at taken
      simp [stops, taken, empty]
    · rw [if_neg empty] at taken
      split
      · simp [taken, later]
      · simp [taken]

/-- The server takes the lines that were typed, in order and each of them
whole, and all of them once it has all of the stream. -/
def FramesRequests (typed : List Line) (turns : List Turn) : Prop :=
  commands turns <+: typed.map Line.bytes ∧
    ((chunks turns).flatten = (sent typed).flatten → commands turns = typed.map Line.bytes)

/-- The server takes the lines for its commands exactly when each `recv` of the
session returns as many bytes as the corresponding line has. -/
theorem frames_requests_iff (typed : List Line) (turns : List Turn)
    (delivered : (turns.map received).flatten <+: (sent typed).flatten) :
    FramesRequests typed turns ↔
      (chunks turns).map List.length <+: typed.map fun line => line.bytes.length := by
  rw [FramesRequests, flatten_sent]
  rw [flatten_sent] at delivered
  have free : ∀ e ∈ turns, NulFree (received e) := by
    intro e member byte inside
    have inStream : byte ∈ (typed.map Line.bytes).flatten :=
      delivered.subset (List.mem_flatten.mpr ⟨_, List.mem_map_of_mem member, inside⟩)
    obtain ⟨_, inTyped, inLine⟩ := List.mem_flatten.mp inStream
    obtain ⟨line, _, rfl⟩ := List.mem_map.mp inTyped
    exact line.nulFree byte inLine
  have first : (chunks turns).flatten <+: (turns.map received).flatten := by
    clear delivered free
    induction turns with
    | nil => exact List.nil_prefix
    | cons e rest ih =>
      simp only [chunks, List.map_cons, List.flatten_cons]
      split
      · exact List.nil_prefix
      · rw [List.flatten_cons]
        refine (List.prefix_append_right_inj _).mpr ?_
        split
        · exact ih
        · exact List.nil_prefix
  have aligned := segments_prefix_iff (first.trans delivered)
  rw [List.map_map] at aligned
  rw [commands_eq_chunks turns free]
  constructor
  · exact fun framed => aligned.mp framed.1
  · intro lengths
    have lines : chunks turns <+: typed.map Line.bytes := aligned.mpr lengths
    exact ⟨lines, segments_complete (by simp [Line.nonempty]) lines⟩

def listing : Line := ⟨text "ls -l\n", by decide, by decide⟩
def leaving : Line := ⟨text "exit\n", by decide, by decide⟩

theorem aligned_requests_framed : FramesRequests [listing, leaving]
    [quietTurn (text "ls -l\n") (by decide), quietTurn (text "exit\n") (by decide)] :=
  (frames_requests_iff [listing, leaving] _ (by decide +kernel)).mpr (by decide +kernel)

/-- One line that arrives in two pieces is run as the commands `ls` and `-l`. -/
theorem split_line_runs_fragments :
    ([quietTurn (text "ls") (by decide), quietTurn (text " -l\n") (by decide)].map received).flatten =
        (sent [listing]).flatten ∧
      commands [quietTurn (text "ls") (by decide), quietTurn (text " -l\n") (by decide)] =
        [text "ls", text " -l\n"] ∧
      ¬ FramesRequests [listing] [quietTurn (text "ls") (by decide), quietTurn (text " -l\n") (by decide)] := by
  refine ⟨by decide +kernel, by decide +kernel, fun framed => ?_⟩
  exact absurd framed.1 (by decide +kernel)

end SysProg.RequestFraming
