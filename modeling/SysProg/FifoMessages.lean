import SysProg.Lib.Transition
import SysProg.LineReading

/-! `pipe-writer.c` and `pipe-reader.c`: writers that send lines through a FIFO,
each with a NUL behind it, and a reader that echoes what it finds there. A write
is taken whole or not at all, since it has no more than `PIPE_BUF` bytes, but a
read stops after 256 bytes wherever that is, and the reader makes the last of
them a NUL. The FIFO keeps its bytes as long as the reader or a writer has it
open, and the last one to close it discards them. -/
namespace SysProg.FifoMessages
open CString Transition
open LocalLoop (newline)
open LineReading (fgets)

/-! ### The programs -/

/-- `sizeof(input)` in the writer and `sizeof(buffer)` in the reader. -/
def bufferSize : Nat := 256

/-- The string in `input` once the newline is cut off. -/
def message (line : List UInt8) : List UInt8 := cString (line.takeWhile (· ≠ newline))

/-- A message as it is written, with its NUL. -/
def frame (msg : List UInt8) : List UInt8 := msg ++ [0]

/-- The loop of `echo_received_msg`, of which every turn takes a byte at least;
`left` is `len - echo_amt`. -/
def echoLoop : Nat → List UInt8 → Nat → List (List UInt8)
  | 0, _, _ => []
  | fuel + 1, msg, left =>
    if left = 0 then []
    else
      let msgLen := (cString msg).length + 1
      cString msg :: echoLoop fuel (msg.drop msgLen) (left - msgLen)

/-- The messages that `echo_received_msg` prints. -/
def echoReceivedMsg (msg : List UInt8) (len : Nat) : List (List UInt8) := echoLoop len msg len

/-- A writer before it has opened the FIFO, in its loop, or gone. -/
inductive Phase where
  | unopened
  | writing
  | exited
  deriving DecidableEq

structure Writer where
  stdin : List UInt8
  phase : Phase

/-- `sent` are the messages the FIFO has taken and who wrote them, `shown` those
the reader has printed. -/
structure System where
  writers : Nat → Writer
  fifo : List UInt8
  buffer : List UInt8
  reading : Bool
  sent : List (Option Nat × List UInt8)
  shown : List (List UInt8)

namespace System

def messages (s : System) : List (List UInt8) := s.sent.map Prod.snd

/-- What one writer has sent. -/
def sentBy (s : System) (w : Nat) : List (List UInt8) := (s.sent.filter (·.1 = some w)).map Prod.snd

def setWriter (s : System) (w : Nat) (writer : Writer) : System :=
  { s with writers := Function.update s.writers w writer }

/-- Somebody has the FIFO open, the writers for reading too. -/
def Open (s : System) (num : Nat) : Prop := s.reading = true ∨ ∃ w < num, (s.writers w).phase = .writing

instance (s : System) (num : Nat) : Decidable (s.Open num) := inferInstanceAs (Decidable (_ ∨ _))

end System

/-- The reader has just connected to a FIFO in which the lines of somebody else
wait, and none of the writers has opened it yet. -/
def start (stdin : Nat → List UInt8) (buffer : List UInt8) (waiting : List (List UInt8)) : System where
  writers w := ⟨stdin w, .unopened⟩
  fifo := (waiting.map message).flatMap frame
  buffer := buffer
  reading := true
  sent := waiting.map fun line => (none, message line)
  shown := []

inductive Action where
  | connect (w : Nat)
  | send (w : Nat)
  -- the FIFO has no room: the line is dropped
  | refuse (w : Nat)
  | leave (w : Nat)
  | read
  deriving DecidableEq

def step (num : Nat) (s : System) : Action → Option System
  | .connect w =>
    if w < num ∧ (s.writers w).phase = .unopened then
      some (s.setWriter w ⟨(s.writers w).stdin, .writing⟩)
    else none
  | .send w =>
    if (s.writers w).phase = .writing ∧ (s.writers w).stdin ≠ [] then
      let (line, rest) := fgets bufferSize (s.writers w).stdin
      some { s.setWriter w ⟨rest, .writing⟩ with
        fifo := s.fifo ++ frame (message line)
        sent := s.sent ++ [(some w, message line)] }
    else none
  | .refuse w =>
    if (s.writers w).phase = .writing ∧ (s.writers w).stdin ≠ [] then
      some (s.setWriter w ⟨(fgets bufferSize (s.writers w).stdin).2, .writing⟩)
    else none
  | .leave w =>
    if (s.writers w).phase = .writing ∧ (s.writers w).stdin = [] then
      let s := s.setWriter w ⟨[], .exited⟩
      some (if s.Open num then s else { s with fifo := [] })
    else none
  | .read =>
    if s.reading then
      match s.fifo.take bufferSize with
      | [] =>
        if ∃ w < num, (s.writers w).phase = .writing then none else some { s with reading := false }
      | chunk =>
        let buffer := (memcpy s.buffer chunk).set (chunk.length - 1) 0
        some { s with
          fifo := s.fifo.drop bufferSize
          buffer := buffer
          shown := s.shown ++ echoReceivedMsg buffer chunk.length }
    else none

/-! ### Messages and bytes -/

theorem message_nulFree (line : List UInt8) : NulFree (message line) := nulFree_cString _

/-- A message is found again in front of whatever comes behind its NUL. -/
theorem frame_inj {msg other rest more : List UInt8} (free : NulFree msg) (otherFree : NulFree other)
    (same : frame msg ++ rest = frame other ++ more) : msg = other ∧ rest = more := by
  simp only [frame, List.append_assoc, List.singleton_append] at same
  have first : msg = other := by
    have strings := congrArg cString same
    rwa [cString_terminated free, cString_terminated otherFree] at strings
  subst first
  exact ⟨rfl, List.tail_eq_of_cons_eq (List.append_cancel_left same)⟩

/-- Messages in front of some bytes are those in front of all messages. -/
theorem frames_front {front all : List (List UInt8)} {rest : List UInt8} (frontFree : ∀ msg ∈ front, NulFree msg)
    (allFree : ∀ msg ∈ all, NulFree msg) (same : all.flatMap frame = front.flatMap frame ++ rest) :
    ∃ behind, all = front ++ behind ∧ rest = behind.flatMap frame := by
  induction front generalizing all with
  | nil => exact ⟨all, rfl, by simpa using same.symm⟩
  | cons msg front ih =>
    cases all with
    | nil => simp [frame] at same
    | cons other all =>
      rw [List.flatMap_cons, List.flatMap_cons, List.append_assoc] at same
      obtain ⟨rfl, later⟩ := frame_inj (allFree other (by simp)) (frontFree msg (by simp)) same
      obtain ⟨behind, rfl, left⟩ := ih (fun msg member => frontFree msg (by simp [member]))
        (fun msg member => allFree msg (by simp [member])) later
      exact ⟨behind, rfl, left⟩

/-- Bytes with a NUL at the end are messages. -/
theorem exists_frames (bytes : List UInt8) : ∃ strings : List (List UInt8),
    (∀ msg ∈ strings, NulFree msg) ∧ bytes ++ [0] = strings.flatMap frame := by
  induction bytes with
  | nil => exact ⟨[[]], by simp, rfl⟩
  | cons byte bytes ih =>
    obtain ⟨strings, free, same⟩ := ih
    by_cases nul : byte = 0
    · exact ⟨[] :: strings, by simpa using free, by rw [nul, List.cons_append, same]; rfl⟩
    · cases strings with
      | nil => simp at same
      | cons first others =>
        refine ⟨(byte :: first) :: others, ?_, by rw [List.cons_append, same]; rfl⟩
        intro msg member
        rcases List.mem_cons.mp member with rfl | later
        · exact nulFree_cons.mpr ⟨nul, free first (by simp)⟩
        · exact free msg (by simp [later])

/-- The loop stops at the end of the messages, whatever lies behind them. -/
theorem echoLoop_frames {strings : List (List UInt8)} (free : ∀ msg ∈ strings, NulFree msg) (rest : List UInt8)
    {fuel : Nat} (enough : (strings.flatMap frame).length ≤ fuel) :
    echoLoop fuel (strings.flatMap frame ++ rest) (strings.flatMap frame).length = strings := by
  induction strings generalizing fuel with
  | nil => cases fuel <;> rfl
  | cons msg strings ih =>
    have length : ((msg :: strings).flatMap frame).length = msg.length + 1 + (strings.flatMap frame).length := by
      rw [List.flatMap_cons, List.length_append, frame, List.length_append, List.length_singleton]
    rw [length] at enough ⊢
    cases fuel with
    | zero => omega
    | succ fuel =>
      have first : cString ((msg :: strings).flatMap frame ++ rest) = msg := by
        have ended : cString (msg ++ 0 :: (strings.flatMap frame ++ rest)) = msg :=
          cString_terminated (free msg (by simp))
        simpa [frame] using ended
      have next : ((msg :: strings).flatMap frame ++ rest).drop (msg.length + 1) = strings.flatMap frame ++ rest := by
        rw [List.flatMap_cons, List.append_assoc]
        exact List.drop_left' (by simp [frame])
      rw [echoLoop, if_neg (by omega)]
      simp only [first, next]
      rw [show msg.length + 1 + (strings.flatMap frame).length - (msg.length + 1) = (strings.flatMap frame).length by
        omega, ih (fun msg member => free msg (by simp [member])) (by omega)]

/-- The reader's buffer behind a read: the last byte it got is a NUL. -/
theorem buffer_read (buffer front : List UInt8) (last : UInt8) :
    (memcpy buffer (front ++ [last])).set ((front ++ [last]).length - 1) 0 =
      (front ++ [0]) ++ buffer.drop (front ++ [last]).length := by
  rw [memcpy, List.length_append, List.length_singleton, Nat.add_sub_cancel, List.append_assoc,
    List.set_append_right _ _ (Nat.le_refl _), Nat.sub_self, List.append_assoc]
  rfl

/-- What is echoed of a chunk are the messages in it, as if it ended with a
NUL. -/
theorem echo_chunk (buffer front : List UInt8) (last : UInt8) : ∃ strings : List (List UInt8),
    (∀ msg ∈ strings, NulFree msg) ∧ front ++ [0] = strings.flatMap frame ∧
      echoReceivedMsg ((memcpy buffer (front ++ [last])).set ((front ++ [last]).length - 1) 0)
        (front ++ [last]).length = strings := by
  obtain ⟨strings, free, same⟩ := exists_frames front
  refine ⟨strings, free, same, ?_⟩
  have length : (front ++ [last]).length = (strings.flatMap frame).length := by
    rw [← same, List.length_append, List.length_append]
    rfl
  rw [buffer_read, same, echoReceivedMsg, length]
  exact echoLoop_frames free _ (Nat.le_refl _)

/-! ### What the reader shows -/

/-- A read takes whole messages. -/
def Aligned (s : System) (action : Action) : Prop :=
  action = .read → ∀ last, (s.fifo.take bufferSize).getLast? = some last → last = 0

instance (s : System) (action : Action) : Decidable (Aligned s action) :=
  match last : (s.fifo.take bufferSize).getLast? with
  | none => .isTrue fun _ other same => by rw [last] at same; cases same
  | some byte => decidable_of_iff (action = .read → byte = 0)
      ⟨fun met isRead other same => by rw [last] at same; cases same; exact met isRead,
        fun met isRead => met isRead byte last⟩

/-- What was sent has been shown or waits in the FIFO, or was discarded after
the reader had gone. -/
def Faithful (s : System) : Prop :=
  ∃ gone waiting : List (List UInt8), (∀ msg ∈ waiting, NulFree msg) ∧ s.messages = s.shown ++ gone ++ waiting ∧
    s.fifo = waiting.flatMap frame ∧ (s.reading = true → gone = [])

/-- The reader has shown something that was not sent at its place. -/
def Garbled (s : System) : Prop := ¬ s.shown <+: s.messages ∧ ¬ s.messages <+: s.shown

section Reading
variable {num : Nat} {s next : System} {action : Action}

/-- The bytes and messages of a step: a writer adds a message, nobody changes
anything, the last writer discards what is left, or the reader takes a chunk. -/
inductive Passes (s : System) : Action → System → Prop where
  | send {w later} (line : List UInt8) (fifo : later.fifo = s.fifo ++ frame (message line))
      (sent : later.sent = s.sent ++ [(some w, message line)]) (shown : later.shown = s.shown)
      (reading : later.reading = s.reading) : Passes s (.send w) later
  | quiet {action later} (idle : action = .read → s.fifo = []) (fifo : later.fifo = s.fifo)
      (sent : later.sent = s.sent) (shown : later.shown = s.shown)
      (reading : later.reading = true → s.reading = true) : Passes s action later
  | discard {w later} (fifo : later.fifo = []) (sent : later.sent = s.sent) (shown : later.shown = s.shown)
      (reading : later.reading = false) : Passes s (.leave w) later
  | read {later} (front : List UInt8) (last : UInt8) (strings : List (List UInt8))
      (chunk : s.fifo.take bufferSize = front ++ [last]) (free : ∀ msg ∈ strings, NulFree msg)
      (same : front ++ [0] = strings.flatMap frame) (fifo : later.fifo = s.fifo.drop bufferSize)
      (sent : later.sent = s.sent) (shown : later.shown = s.shown ++ strings) (reading : s.reading = true) :
      Passes s .read later

theorem step_passes (taken : step num s action = some next) : Passes s action next := by
  cases action with
  | connect w =>
    simp only [step, Option.ite_none_right_eq_some, Option.some.injEq] at taken
    obtain ⟨-, rfl⟩ := taken
    exact .quiet (by simp) rfl rfl rfl id
  | send w =>
    simp only [step, Option.ite_none_right_eq_some, Option.some.injEq] at taken
    obtain ⟨-, rfl⟩ := taken
    exact .send (fgets bufferSize (s.writers w).stdin).1 rfl rfl rfl rfl
  | refuse w =>
    simp only [step, Option.ite_none_right_eq_some, Option.some.injEq] at taken
    obtain ⟨-, rfl⟩ := taken
    exact .quiet (by simp) rfl rfl rfl id
  | leave w =>
    simp only [step, Option.ite_none_right_eq_some, Option.some.injEq] at taken
    obtain ⟨-, rfl⟩ := taken
    by_cases stays : (s.setWriter w ⟨[], .exited⟩).Open num
    · rw [if_pos stays]
      exact .quiet (by simp) rfl rfl rfl id
    · rw [if_neg stays]
      exact .discard rfl rfl rfl (Bool.not_eq_true _ ▸ fun reading => stays (.inl reading))
  | read =>
    simp only [step, Option.ite_none_right_eq_some] at taken
    obtain ⟨reading, taken⟩ := taken
    split at taken
    next empty =>
      have nothing : s.fifo = [] := by
        cases filled : s.fifo with
        | nil => rfl
        | cons byte rest => simp [filled, bufferSize] at empty
      simp only [Option.ite_none_left_eq_some, Option.some.injEq] at taken
      obtain ⟨-, rfl⟩ := taken
      exact .quiet (fun _ => nothing) rfl rfl rfl fun _ => reading
    next chunk some =>
      rcases List.eq_nil_or_concat (s.fifo.take bufferSize) with none | ⟨front, last, split⟩
      · exact absurd none some
      · rw [List.concat_eq_append] at split
        obtain ⟨strings, free, same, echoed⟩ := echo_chunk s.buffer front last
        rw [split, Option.some.injEq] at taken
        subst taken
        exact .read front last strings split free same rfl rfl (congrArg (s.shown ++ ·) echoed) reading

theorem messages_append {w : Option Nat} {msg : List UInt8} (sent : next.sent = s.sent ++ [(w, msg)]) :
    next.messages = s.messages ++ [msg] := by
  simp [System.messages, sent]

theorem messages_same (sent : next.sent = s.sent) : next.messages = s.messages := by
  rw [System.messages, System.messages, sent]

theorem faithful_step (faithful : Faithful s) (aligned : Aligned s action) (taken : step num s action = some next) :
    Faithful next := by
  obtain ⟨gone, waiting, free, all, bytes, kept⟩ := faithful
  cases step_passes taken with
  | send line fifo sent shown reading =>
    refine ⟨gone, waiting ++ [message line], ?_, ?_, ?_, fun there => kept (reading ▸ there)⟩
    · intro msg member
      rcases List.mem_append.mp member with before | new
      · exact free msg before
      · rw [List.mem_singleton.mp new]
        exact message_nulFree line
    · rw [messages_append sent, all, shown, List.append_assoc]
    · rw [fifo, bytes, List.flatMap_append, List.flatMap_singleton]
  | quiet idle fifo sent shown reading =>
    refine ⟨gone, waiting, free, ?_, fifo.trans bytes, fun there => kept (reading there)⟩
    rw [messages_same sent, shown]
    exact all
  | discard fifo sent shown reading =>
    refine ⟨gone ++ waiting, [], by simp, ?_, fifo, fun there => ?_⟩
    · rw [messages_same sent, shown, all, List.append_nil, List.append_assoc]
    · rw [reading] at there
      cases there
  | read front last strings chunk stringsFree same fifo sent shown reading =>
    have nul : last = 0 := aligned rfl last (by rw [chunk, List.getLast?_concat])
    have split : waiting.flatMap frame = strings.flatMap frame ++ s.fifo.drop bufferSize := by
      rw [← bytes, ← same, ← nul, ← chunk, List.take_append_drop]
    obtain ⟨behind, rfl, left⟩ := frames_front stringsFree free split
    refine ⟨[], behind, fun msg member => free msg (by simp [member]), ?_, fifo.trans left, fun _ => rfl⟩
    rw [messages_same sent, all, kept reading, shown, List.append_nil, List.append_nil, List.append_assoc]

/-- A read that stops inside a message shows a piece of it. -/
theorem garbled_step (faithful : Faithful s) (misaligned : ¬ Aligned s action)
    (taken : step num s action = some next) : Garbled next := by
  obtain ⟨gone, waiting, free, all, bytes, kept⟩ := faithful
  simp only [Aligned, not_forall] at misaligned
  obtain ⟨rfl, last, isLast, nonzero⟩ := misaligned
  cases step_passes taken with
  | quiet idle =>
    rw [idle rfl] at isLast
    cases isLast
  | read front other strings chunk stringsFree same fifo sent shown reading =>
    rw [chunk, List.getLast?_concat, Option.some.injEq] at isLast
    subst isLast
    have messages : next.messages = s.shown ++ waiting := by
      rw [messages_same sent, all, kept reading, List.append_nil]
    have read : front ++ [other] <+: waiting.flatMap frame := bytes ▸ chunk ▸ List.take_prefix ..
    have differs : ¬ front ++ [0] <+: waiting.flatMap frame := by
      intro whole
      have shorter := List.prefix_of_prefix_length_le read whole (by simp)
      exact nonzero (by simpa using shorter.eq_of_length (by simp))
    rw [Garbled, messages, shown, List.prefix_append_right_inj, List.prefix_append_right_inj]
    refine ⟨?_, ?_⟩
    · rintro ⟨rest, rfl⟩
      exact differs (same ▸ ⟨rest.flatMap frame, by rw [List.flatMap_append]⟩)
    · rintro ⟨rest, rfl⟩
      have short : waiting.flatMap frame <+: front ++ [0] :=
        ⟨rest.flatMap frame, by rw [same, List.flatMap_append]⟩
      have all := short.eq_of_length_le (by simpa using read.length_le)
      exact differs (all ▸ List.prefix_rfl)

/-- Nothing that comes later makes up for it. -/
theorem garbled_stays (garbled : Garbled s) (taken : step num s action = some next) : Garbled next := by
  have more : ∃ messages shown, next.messages = s.messages ++ messages ∧ next.shown = s.shown ++ shown := by
    cases step_passes taken with
    | send line fifo sent shown => exact ⟨[message line], [], messages_append sent, by rw [shown, List.append_nil]⟩
    | quiet idle fifo sent shown | discard fifo sent shown =>
      exact ⟨[], [], by rw [messages_same sent, List.append_nil], by rw [shown, List.append_nil]⟩
    | read front last strings chunk free same fifo sent shown =>
      exact ⟨[], strings, by rw [messages_same sent, List.append_nil], shown⟩
  obtain ⟨messages, shown, sent, seen⟩ := more
  have comparable : ¬ (s.shown <+: s.messages ∨ s.messages <+: s.shown) := not_or.mpr garbled
  refine ⟨fun before => comparable ?_, fun before => comparable ?_⟩
  · rw [sent, seen] at before
    exact List.prefix_or_prefix_of_prefix ((List.prefix_append ..).trans before) (List.prefix_append ..)
  · rw [sent, seen] at before
    exact List.prefix_or_prefix_of_prefix (List.prefix_append ..) ((List.prefix_append ..).trans before)

end Reading

/-! ### What a writer sends -/

/-- The lines that a writer gets out of its input. -/
def lines (stdin : List UInt8) : List (List UInt8) :=
  if stdin = [] then [] else (fgets bufferSize stdin).1 :: lines (fgets bufferSize stdin).2
termination_by stdin.length
decreasing_by
  rename_i more
  have some := List.length_pos_iff.mpr more
  simp only [fgets, bufferSize, List.length_drop]
  omega

theorem lines_some {stdin : List UInt8} (more : stdin ≠ []) :
    lines stdin = (fgets bufferSize stdin).1 :: lines (fgets bufferSize stdin).2 := by
  rw [lines, if_neg more]

/-- What becomes of a line that writer `w` tries to send. -/
def outcome (w : Nat) : Action → Option Bool
  | .send v => if v = w then some true else none
  | .refuse v => if v = w then some false else none
  | .connect _ | .leave _ | .read => none

def outcomes (w : Nat) (actions : List Action) : List Bool := actions.filterMap (outcome w)

/-- The lines that were not refused. -/
def notRefused (tried : List (List UInt8)) (outcomes : List Bool) : List (List UInt8) :=
  ((tried.zip outcomes).filter Prod.snd).map Prod.fst

/-- The writer has tried its lines in order, and sent those of them that were
not refused. -/
def SendsInOrder (stdin : Nat → List UInt8) (actions : List Action) (s : System) (w : Nat) : Prop :=
  ∃ tried, lines (stdin w) = tried ++ lines (s.writers w).stdin ∧ tried.length = (outcomes w actions).length ∧
    s.sentBy w = (notRefused tried (outcomes w actions)).map message

section Writing
variable {num : Nat} {stdin : Nat → List UInt8} {s next : System} {history : List Action} {action : Action} {w : Nat}

theorem notRefused_concat {tried : List (List UInt8)} {outcomes : List Bool} (count : tried.length = outcomes.length)
    (line : List UInt8) (taken : Bool) :
    notRefused (tried ++ [line]) (outcomes ++ [taken]) =
      notRefused tried outcomes ++ if taken then [line] else [] := by
  rw [notRefused, notRefused, List.zip_append count, List.filter_append, List.map_append]
  cases taken <;> rfl

theorem outcomes_concat (w : Nat) (history : List Action) (action : Action) :
    outcomes w (history ++ [action]) = outcomes w history ++ (outcome w action).toList := by
  rw [outcomes, List.filterMap_append, outcomes]
  cases acted : outcome w action <;> simp [acted]

/-- The step does nothing to the lines of the writer. -/
theorem inOrder_same (order : SendsInOrder stdin history s w) (none : outcome w action = none)
    (input : (next.writers w).stdin = (s.writers w).stdin) (sent : next.sentBy w = s.sentBy w) :
    SendsInOrder stdin (history ++ [action]) next w := by
  rw [SendsInOrder, outcomes_concat, none, Option.toList_none, List.append_nil, input, sent]
  exact order

/-- The writer tries its next line. -/
theorem inOrder_try {taken : Bool} (order : SendsInOrder stdin history s w) (tries : outcome w action = some taken)
    (more : (s.writers w).stdin ≠ []) (input : (next.writers w).stdin = (fgets bufferSize (s.writers w).stdin).2)
    (sent : next.sentBy w =
      s.sentBy w ++ if taken then [message (fgets bufferSize (s.writers w).stdin).1] else []) :
    SendsInOrder stdin (history ++ [action]) next w := by
  obtain ⟨tried, all, count, sentBefore⟩ := order
  refine ⟨tried ++ [(fgets bufferSize (s.writers w).stdin).1], ?_, ?_, ?_⟩
  · rw [all, lines_some more, input, List.append_assoc, List.singleton_append]
  · rw [outcomes_concat, tries, Option.toList_some, List.length_append, List.length_append, count]
    rfl
  · rw [outcomes_concat, tries, sent, sentBefore, Option.toList_some, notRefused_concat count, List.map_append]
    cases taken <;> rfl

theorem inOrder_step (order : SendsInOrder stdin history s w) (taken : step num s action = some next) :
    SendsInOrder stdin (history ++ [action]) next w := by
  cases action with
  | connect u =>
    simp only [step, Option.ite_none_right_eq_some, Option.some.injEq] at taken
    obtain ⟨-, rfl⟩ := taken
    refine inOrder_same order rfl ?_ rfl
    by_cases same : w = u
    · simp [System.setWriter, same]
    · simp [System.setWriter, same]
  | send u =>
    simp only [step, Option.ite_none_right_eq_some, Option.some.injEq] at taken
    obtain ⟨⟨-, more⟩, rfl⟩ := taken
    by_cases same : u = w
    · subst same
      exact inOrder_try order (if_pos rfl) more (by simp [System.setWriter]) (by simp [System.sentBy])
    · exact inOrder_same order (if_neg same) (by simp [System.setWriter, Ne.symm same])
        (by simp [System.sentBy, same])
  | refuse u =>
    simp only [step, Option.ite_none_right_eq_some, Option.some.injEq] at taken
    obtain ⟨⟨-, more⟩, rfl⟩ := taken
    by_cases same : u = w
    · subst same
      exact inOrder_try order (if_pos rfl) more (by simp [System.setWriter]) (List.append_nil _).symm
    · exact inOrder_same order (if_neg same) (by simp [System.setWriter, Ne.symm same]) rfl
  | leave u =>
    simp only [step, Option.ite_none_right_eq_some, Option.some.injEq] at taken
    obtain ⟨⟨-, empty⟩, rfl⟩ := taken
    refine inOrder_same order rfl ?_ (by split <;> rfl)
    have gone : ((s.setWriter u ⟨[], .exited⟩).writers w).stdin = (s.writers w).stdin := by
      by_cases same : w = u
      · simp [System.setWriter, same, empty]
      · simp [System.setWriter, same]
    split <;> exact gone
  | read =>
    have kept : next.sent = s.sent ∧ next.writers = s.writers := by
      simp only [step, Option.ite_none_right_eq_some] at taken
      obtain ⟨-, taken⟩ := taken
      split at taken
      · simp only [Option.ite_none_left_eq_some, Option.some.injEq] at taken
        obtain ⟨-, rfl⟩ := taken
        exact ⟨rfl, rfl⟩
      · cases taken
        exact ⟨rfl, rfl⟩
    exact inOrder_same order rfl (by rw [kept.2]) (by rw [System.sentBy, System.sentBy, kept.1])

end Writing

/-- Two lines of 200 characters, with one between them that is refused. -/
def threeLines : List UInt8 :=
  List.replicate 200 97 ++ [newline] ++ [99, newline] ++ List.replicate 200 98 ++ [newline]

def lateReader : List Action := [.connect 0, .send 0, .refuse 0, .send 0, .read, .read]

end SysProg.FifoMessages
