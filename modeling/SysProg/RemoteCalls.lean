import SysProg.RemoteShell

/-! The remote shell as calls: a line is sent, executed once and answered before
the next one is sent, as long as lines arrive in one piece and what is started
for them is executed. -/
namespace SysProg.RemoteCalls
open CString Transition Dshlib LineReading RshServer AnswerSync RemoteShell

/-- The server receives each line in one piece and executes what it starts for
it, which reads nothing of the socket, and no line begins with a NUL. -/
def InOnePiece (s : Connection) : Action → Prop
  | .type => s.stdin.head? ≠ some 0
  | .request count e reads => count = s.requests.length ∧ reads = 0 ∧ Delivers e ∧ ServesWhole e
  | _ => True

theorem InOnePiece.readsNothing {s : Connection} {action : Action} (ok : InOnePiece s action) :
    ReadsNothing s action := by
  cases action with
  | request => exact ok.2.1
  | _ => trivial

/-- Where the line is that the client typed last: nowhere, on its way to the
server, or answered with the rest of the reply on its way back. -/
def Placed (s : Connection) : Prop :=
  match s.client with
  | .prompting => s.typed = s.taken ∧ s.requests = [] ∧ s.answers ++ s.server.unsent = []
  | .waiting sent =>
    s.typed = s.taken ++ [sent] ∧ sent ≠ [] ∧ s.requests = sent ∧ s.answers ++ s.server.unsent = [] ∨
      s.typed = s.taken ∧ s.requests = [] ∧ Framed (s.answers ++ s.server.unsent)
  | .returned _ => s.typed = s.taken ∧ s.requests = [] ∨
      (∃ sent, s.typed = s.taken ++ [sent]) ∧ s.server = .closed

structure Synced (s : Connection) : Prop where
  conserved : Conserved s
  alive : s.server ≠ .overrun
  quiet : s.server.reads = 0
  replies : ∀ reply ∈ s.replies, Framed reply
  placed : Placed s

section InStep
variable {s next : Connection} {action : Action}

theorem not_framed_nil : ¬ Framed [] := by
  rintro ⟨body, split, -⟩
  simp at split

/-- Of a framed stream the part that has come ends with the mark exactly when
all of it has come. -/
theorem framed_part {answers unsent : List UInt8} (framed : Framed (answers ++ unsent)) (count : Nat) :
    if isEof (answers.take count) = true then answers.drop count ++ unsent = []
    else Framed (answers.drop count ++ unsent) := by
  have split : answers ++ unsent = answers.take count ++ (answers.drop count ++ unsent) := by
    rw [← List.append_assoc, List.take_append_drop]
  rw [split] at framed
  generalize answers.drop count ++ unsent = later at framed
  rw [framed_iff_count, List.count_append] at framed
  obtain ⟨once, last⟩ := framed
  by_cases none : later = []
  · rw [none, List.append_nil] at last
    simp only [last, if_true, none]
  · rw [isEof_append none] at last
    have mark : 0 < later.count rdshEofChar :=
      List.count_pos_iff.mpr (List.mem_of_getLast? (by simpa [isEof] using last))
    have early : rdshEofChar ∉ answers.take count := by
      refine List.count_eq_zero.mp ?_
      omega
    simp only [isEof_of_notMem early, Bool.false_eq_true, if_false, framed_iff_count]
    refine ⟨?_, last⟩
    omega

theorem head_cString {stdin : List UInt8} (more : stdin ≠ []) (speaks : stdin.head? ≠ some 0) :
    cString (fgets rdshCommBuffSz stdin).1 ≠ [] := by
  obtain ⟨byte, rest, rfl⟩ := List.exists_cons_of_ne_nil more
  have nonzero : byte ≠ 0 := by simpa using speaks
  have some := fgets_some more
  simp only [fgets] at some ⊢
  generalize min (rdshCommBuffSz - 1) _ = count at some ⊢
  cases count with
  | zero => exact absurd rfl some
  | succ count => simp [cString, nonzero]

/-- The reply to a line that arrived whole. -/
theorem synced_request {e : Turn} {reads : Nat} (synced : Synced s) (ok : InOnePiece s (.request count e reads))
    (taken : step s (.request count e reads) = some next) : Synced next := by
  have quiet := reads_step synced.quiet ok.readsNothing taken
  obtain ⟨rfl, -, delivers, served⟩ := ok
  have conserved := conserved_step synced.conserved taken
  cases step_taken taken with
  | request receiving fits recv =>
    have command := taken_request synced.conserved fits recv
    rw [List.take_length] at command
    have framed : Framed (clientRequest e).sent := (framed_iff delivers (by rw [command]; rfl)).mpr served
    have within : (clientRequest e).next ≠ .overrun := by
      intro overrun
      rw [overrun_sends_nothing overrun] at framed
      exact not_framed_nil framed
    refine ⟨conserved, ?_, quiet, ?_, ?_⟩
    · intro overrun
      simp only [answered] at overrun
      split at overrun
      · exact within ‹_›
      · cases overrun
      · cases overrun
    · intro reply member
      rcases List.mem_append.mp member with old | new
      · exact synced.replies reply old
      · rwa [List.mem_singleton.mp new]
    · have placed := synced.placed
      have requested : s.requests ≠ [] := List.ne_nil_of_length_pos fits.1
      cases client : s.client with
      | prompting =>
        simp only [Placed, client] at placed
        exact absurd placed.2.1 requested
      | returned rc =>
        simp only [Placed, client] at placed
        rcases placed with ⟨-, none⟩ | ⟨-, closed⟩
        · exact absurd none requested
        · rw [receiving] at closed
          cases closed
      | waiting sent =>
        simp only [Placed, client] at placed
        rcases placed with ⟨typed, -, pending, silent⟩ | ⟨-, none, -⟩
        swap
        · exact absurd none requested
        rw [receiving, Server.unsent, List.append_nil] at silent
        simp only [Placed]
        refine .inr ⟨?_, List.drop_length, ?_⟩
        · rw [typed, command, pending]
          rfl
        · rwa [silent, unsent_answered, List.nil_append]

theorem synced_step (synced : Synced s) (ok : InOnePiece s action) (taken : step s action = some next) :
    Synced next := by
  have conserved := conserved_step synced.conserved taken
  have alive := synced.alive
  have quiet := reads_step synced.quiet ok.readsNothing taken
  have placed := synced.placed
  cases step_taken taken with
  | eof prompting =>
    simp only [Placed, prompting] at placed
    exact ⟨conserved, alive, quiet, synced.replies, .inl ⟨placed.1, placed.2.1⟩⟩
  | type prompting more =>
    simp only [Placed, prompting] at placed
    obtain ⟨typed, none, silent⟩ := placed
    refine ⟨conserved, alive, quiet, synced.replies, .inl ⟨?_, head_cString more ok, ?_, silent⟩⟩
    · simp only [typed]
    · simp only [none, List.nil_append]
  | sendFails prompting =>
    simp only [Placed, prompting] at placed
    exact ⟨conserved, alive, quiet, synced.replies, .inl ⟨placed.1, placed.2.1⟩⟩
  | disconnected waiting _ gone | recvFails waiting gone =>
    simp only [Placed, waiting] at placed
    refine ⟨conserved, alive, quiet, synced.replies, ?_⟩
    rcases placed with ⟨typed, -⟩ | ⟨typed, none, -⟩
    · exact .inr ⟨⟨_, typed⟩, gone⟩
    · exact .inl ⟨typed, none⟩
  | @recv sent count waiting fits =>
    simp only [Placed, waiting] at placed
    refine ⟨conserved, alive, quiet, synced.replies, ?_⟩
    rcases placed with ⟨-, -, -, silent⟩ | ⟨typed, none, framed⟩
    · have nothing := (List.append_eq_nil_iff.mp silent).1
      simp [Fits, nothing] at fits
      omega
    · have part := framed_part framed count
      by_cases ended : isEof (s.answers.take count) = true
      · simp only [ended, if_true] at part
        simp only [Placed, ended, if_true]
        exact ⟨typed, none, part⟩
      · simp only [ended, Bool.false_eq_true, if_false] at part
        simp only [Placed, ended, Bool.false_eq_true, if_false]
        exact .inr ⟨typed, none, part⟩
  | request => exact synced_request synced ok taken
  | stageReads answering | inputEnds _ answering =>
    have none := synced.quiet
    rw [answering, Server.reads] at none
    cases none
  | @answer unsent reads held then_ count answering =>
    have same : s.answers ++ unsent.take count ++ (Server.answering (unsent.drop count) reads held then_).unsent =
        s.answers ++ s.server.unsent := by
      rw [answering, Server.unsent, Server.unsent, List.append_assoc, List.take_append_drop]
    refine ⟨conserved, by simp, quiet, synced.replies, ?_⟩
    simp only [Placed, same]
    cases client : s.client with
    | returned rc =>
      simp only [Placed, client] at placed
      rcases placed with idle | ⟨-, closed⟩
      · exact .inl idle
      · rw [answering] at closed
        cases closed
    | _ => simpa only [Placed, client] using placed
  | @next held then_ answered =>
    have same : s.server.unsent = (if then_ = .again then Server.receiving else .closed).unsent := by
      rw [answered]
      split <;> rfl
    refine ⟨conserved, by split <;> simp, quiet, synced.replies, ?_⟩
    simp only [Placed, ← same]
    cases client : s.client with
    | returned rc =>
      simp only [Placed, client] at placed
      rcases placed with idle | ⟨-, closed⟩
      · exact .inl idle
      · rw [answered] at closed
        cases closed
    | _ => simpa only [Placed, client] using placed
  | clientGone gone receiving =>
    refine ⟨conserved, by simp, quiet, synced.replies, ?_⟩
    simp only [Placed, gone] at placed ⊢
    rcases placed with idle | ⟨-, closed⟩
    · exact .inl idle
    · rw [receiving] at closed
      cases closed

end InStep

theorem typed_of_placed {s : Connection} (placed : Placed s) :
    s.typed = s.taken ∨ ∃ sent, s.typed = s.taken ++ [sent] := by
  simp only [Placed] at placed
  split at placed
  · exact .inl placed.1
  · exact placed.elim (fun pending => .inr ⟨_, pending.1⟩) fun answered => .inl answered.1
  · exact placed.elim (fun idle => .inl idle.1) fun lost => .inr lost.1

end SysProg.RemoteCalls
