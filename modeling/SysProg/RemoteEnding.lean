import Mathlib.Data.Prod.Lex
import SysProg.RemoteShell

/-! Remote sessions end. A client that has sent something is owed an end mark or
the end of the connection, so neither side waits for the other one unless a
command waits for input from the client, and each step leaves less to do. -/
namespace SysProg.RemoteEnding
open CString Transition Dshlib LineReading RshServer AnswerSync RemoteShell

/-! ### The client is not left waiting -/

/-- The server's sends go through. -/
def Delivered (_ : Connection) : Action → Prop
  | .request _ e _ => Delivers e
  | _ => True

/-- A client that has sent something gets an end mark for it or sees the server
close: the request is on its way, or the server is about to close, or the last
byte on its way back is the mark. -/
def Owed (s : Connection) : Prop :=
  ∀ sent, s.client = .waiting sent → sent ≠ [] →
    s.requests ≠ [] ∨ s.server = .closed ∨ s.server = .overrun ∨
      (∃ unsent reads held rc, s.server = .answering unsent reads held (.leave rc)) ∨
      isEof (s.answers ++ s.server.unsent) = true

/-- As long as a stage reads, the mark behind its output is held back. -/
def HoldsMark (s : Connection) : Prop :=
  ∀ unsent reads held then_, s.server = .answering unsent (reads + 1) held then_ →
    (∃ rc, then_ = .leave rc) ∨ 0 < held ∧ isEof unsent = true

theorem owed_of_returned {s : Connection} (returned : s.client = .returned rc) : Owed s := by
  intro sent waiting
  rw [returned] at waiting
  cases waiting

section Waiting
variable {s next : Connection} {action : Action}

theorem ne_nil_of_isEof {bytes : List UInt8} (mark : isEof bytes = true) : bytes ≠ [] := by
  rintro rfl
  simp [isEof] at mark

/-- A mark that is still to be sent will be the last byte. -/
theorem isEof_pending {unsent : List UInt8} (mark : isEof unsent = true) (answers : List UInt8) :
    isEof (answers ++ unsent) = true := by
  rwa [isEof_append (ne_nil_of_isEof mark)]

theorem holdsMark_step (holds : HoldsMark s) (delivered : Delivered s action) (taken : step s action = some next) :
    HoldsMark next := by
  cases step_taken taken with
  | eof | type | sendFails | recv | disconnected | recvFails => exact holds
  | @request count e reads receiving fits recv stage =>
    intro unsent more held then_ server
    cases ends : (clientRequest e).next with
    | overrun => simp [answered, ends] at server
    | leave rc =>
      simp only [answered, ends, Server.answering.injEq] at server
      exact .inl ⟨rc, server.2.2.2.symm⟩
    | again =>
      simp only [answered, ends, Server.answering.injEq] at server
      obtain ⟨rfl, rfl, rfl, -⟩ := server
      obtain ⟨held, runs⟩ := Option.ne_none_iff_exists'.mp (stage.resolve_left (Nat.succ_ne_zero more))
      rw [runs]
      exact .inr ⟨behindStage_again delivered ends runs, again_isEof delivered ends⟩
  | stageReads answering | inputEnds _ answering =>
    intro unsent more held then_ server
    cases server
    exact holds _ _ _ _ answering
  | @answer unsent reads held then_ count answering some inside before =>
    intro later more held' then_' server
    cases server
    rcases holds _ _ _ _ answering with leaving | ⟨positive, mark⟩
    · exact .inl leaving
    have left : unsent.drop count ≠ [] := by
      rw [ne_eq, List.drop_eq_nil_iff]
      omega
    rw [← List.take_append_drop count unsent, isEof_append left] at mark
    exact .inr ⟨positive, mark⟩
  | next =>
    intro unsent more held then_ server
    split at server <;> cases server
  | clientGone =>
    intro unsent more held then_ server
    cases server

theorem owed_step (owed : Owed s) (holds : HoldsMark s) (delivered : Delivered s action)
    (taken : step s action = some next) : Owed next := by
  cases step_taken taken with
  | eof | sendFails | disconnected | recvFails => exact owed_of_returned rfl
  | type =>
    intro sent waiting nonempty
    cases waiting
    exact .inl fun none => nonempty (List.append_eq_nil_iff.mp none).2
  | @recv sent count waiting fits =>
    intro sent' still nonempty
    by_cases ended : isEof (s.answers.take count) = true
    · simp only [ended, if_true, reduceCtorEq] at still
    simp only [ended, Bool.false_eq_true, if_false, Client.waiting.injEq] at still
    rcases owed sent waiting (still ▸ nonempty) with more | gone | overrun | leaving | mark
    · exact .inl more
    · exact .inr (.inl gone)
    · exact .inr (.inr (.inl overrun))
    · exact .inr (.inr (.inr (.inl leaving)))
    · -- what was received did not end with the mark, so the mark is still to come
      have split : s.answers ++ s.server.unsent =
          s.answers.take count ++ (s.answers.drop count ++ s.server.unsent) := by
        rw [← List.append_assoc, List.take_append_drop]
      have later : s.answers.drop count ++ s.server.unsent ≠ [] := by
        intro none
        rw [split, none, List.append_nil] at mark
        exact ended mark
      rw [split, isEof_append later] at mark
      exact .inr (.inr (.inr (.inr mark)))
  | @request count e reads receiving fits recv =>
    intro sent waiting nonempty
    cases ends : (clientRequest e).next with
    | overrun => exact .inr (.inr (.inl (by simp [answered, ends])))
    | leave rc => exact .inr (.inr (.inr (.inl ⟨_, _, _, rc, by rw [answered, ends]⟩)))
    | again =>
      refine .inr (.inr (.inr (.inr ?_)))
      simpa only [unsent_answered] using isEof_pending (again_isEof delivered ends) s.answers
  | @stageReads unsent reads held then_ count answering =>
    intro sent waiting nonempty
    rcases holds _ _ _ _ answering with ⟨rc, rfl⟩ | ⟨-, mark⟩
    · exact .inr (.inr (.inr (.inl ⟨_, _, _, rc, rfl⟩)))
    · exact .inr (.inr (.inr (.inr (isEof_pending mark _))))
  | inputEnds gone => exact owed_of_returned gone
  | answer answering =>
    intro sent waiting nonempty
    rcases owed sent waiting nonempty with more | gone | overrun | ⟨unsent, reads, held, rc, leaving⟩ | mark
    · exact .inl more
    · rw [answering] at gone
      cases gone
    · rw [answering] at overrun
      cases overrun
    · rw [answering] at leaving
      cases leaving
      exact .inr (.inr (.inr (.inl ⟨_, _, _, rc, rfl⟩)))
    · rw [answering, Server.unsent] at mark
      refine .inr (.inr (.inr (.inr ?_)))
      simpa only [Server.unsent, List.append_assoc, List.take_append_drop] using mark
  | @next held then_ answered =>
    intro sent waiting nonempty
    by_cases again : then_ = .again
    · rcases owed sent waiting nonempty with more | gone | overrun | ⟨unsent, reads, held, rc, leaving⟩ | mark
      · exact .inl more
      · rw [answered] at gone
        cases gone
      · rw [answered] at overrun
        cases overrun
      · rw [answered, again] at leaving
        cases leaving
      · rw [answered, Server.unsent] at mark
        refine .inr (.inr (.inr (.inr ?_)))
        simpa only [again, if_true, Server.unsent] using mark
    · exact .inr (.inl (if_neg again))
  | clientGone gone => exact owed_of_returned gone

/-- Both sides wait for the other one: the line began with a NUL, so that the
client has sent none of it. -/
structure WaitsForNothing (s : Connection) : Prop where
  client : s.client = .waiting []
  server : s.server = .receiving
  requests : s.requests = []
  answers : s.answers = []

/-- The client waits for the answer to a line, and the first stage that was
started for it waits for more to read. -/
structure WaitsForInput (s : Connection) : Prop where
  client : ∃ sent, s.client = .waiting sent
  server : ∃ unsent reads held then_, s.server = .answering unsent (reads + 1) held then_ ∧ unsent.length ≤ held
  requests : s.requests = []
  answers : s.answers = []

/-- The client has returned and the server is done with it. -/
def Over (s : Connection) : Prop := (∃ rc, s.client = .returned rc) ∧ s.server = .closed

theorem fits_one {byte : UInt8} {rest : List UInt8} : Fits 1 (byte :: rest) := by
  simp [Fits, rdshCommBuffSz]

theorem server_moves (alive : s.server ≠ .overrun) (stuck : Stuck step s) :
    s.server = .closed ∨ (s.requests = [] ∧ ∀ rc, s.client ≠ .returned rc) ∧ (s.server = .receiving ∨
      ∃ unsent reads held then_, s.server = .answering unsent (reads + 1) held then_ ∧ unsent.length ≤ held) := by
  cases server : s.server with
  | closed => exact .inl rfl
  | overrun => exact absurd server alive
  | answering unsent reads held then_ =>
    cases reads with
    | zero =>
      cases unsent with
      | nil => exact absurd (stuck .next) (by simp [step, server])
      | cons byte rest => exact absurd (stuck (.answer 1)) (by simp [step, server])
    | succ reads =>
      have back : unsent.length ≤ held := by
        by_contra sendable
        exact absurd (stuck (.answer 1)) (by simp [step, server]; omega)
      refine .inr ⟨⟨?_, fun rc gone => ?_⟩, .inr ⟨_, _, _, _, rfl, back⟩⟩
      · cases requests : s.requests with
        | nil => rfl
        | cons byte rest => exact absurd (stuck (.stageReads 1)) (by simp [step, server, requests])
      · exact absurd (stuck .inputEnds) (by simp [step, gone, server])
  | receiving =>
    refine .inr ⟨⟨?_, fun rc gone => ?_⟩, .inl rfl⟩
    · cases requests : s.requests with
      | nil => rfl
      | cons byte rest =>
        have short : [byte].length ≤ rdshCommBuffSz - 1 := by simp [rdshCommBuffSz]
        have some := stuck (.request 1 (quietTurn [byte] short) 0)
        simp [step, server, requests, fits_one, quietTurn] at some
    · exact absurd (stuck .clientGone) (by simp [step, gone, server])

theorem stuck_iff (owed : Owed s) (alive : s.server ≠ .overrun) :
    Stuck step s ↔ Over s ∨ WaitsForNothing s ∨ WaitsForInput s := by
  constructor
  · intro stuck
    have moves := server_moves alive stuck
    cases client : s.client with
    | prompting =>
      by_cases ended : s.stdin = []
      · exact absurd (stuck .type) (by simp [step, client, ended])
      · exact absurd (stuck .type) (by simp [step, client, ended])
    | returned rc =>
      rcases moves with closed | ⟨⟨-, alone⟩, -⟩
      · exact .inl ⟨⟨rc, client⟩, closed⟩
      · exact absurd client (alone rc)
    | waiting sent =>
      rcases moves with closed | ⟨⟨noRequests, -⟩, stands⟩
      · exact absurd (stuck .recvFails) (by simp [step, client, closed])
      have noAnswers : s.answers = [] := by
        cases answers : s.answers with
        | nil => rfl
        | cons byte rest => exact absurd (stuck (.recv 1)) (by simp [step, client, answers, fits_one])
      rcases stands with receiving | reading
      · have nothing : sent = [] := by
          by_contra some
          have pending := owed sent client some
          simp [receiving, noRequests, noAnswers, Server.unsent, isEof] at pending
        exact .inr (.inl ⟨nothing ▸ client, receiving, noRequests, noAnswers⟩)
      · exact .inr (.inr ⟨⟨sent, client⟩, reading, noRequests, noAnswers⟩)
  · rintro (⟨⟨rc, returned⟩, closed⟩ | ⟨waiting, receiving, noRequests, noAnswers⟩ |
      ⟨⟨sent, waiting⟩, ⟨unsent, reads, held, then_, reading, back⟩, noRequests, noAnswers⟩) action
    · cases action <;> simp [step, returned, closed]
    · cases action <;> simp [step, waiting, receiving, noRequests, noAnswers, Fits]
      all_goals omega
    · cases action <;> simp [step, waiting, reading, noRequests, noAnswers, Fits]
      all_goals omega

end Waiting

/-! ### Every session ends -/

/-- How far the server is from having closed the socket, without the bytes. -/
def rank : Server → Nat
  | .answering .. => 2
  | .receiving => 1
  | .closed | .overrun => 0

def live : Client → Nat
  | .returned _ => 0
  | .prompting | .waiting _ => 1

/-- What is left to do, most important first. A line moves from standard input
into the requests, a request becomes reads of a stage and an answer, and an
answer is received. -/
def work (s : Connection) : ℕ ×ₗ ℕ ×ₗ ℕ ×ₗ ℕ ×ₗ ℕ ×ₗ ℕ :=
  toLex (live s.client, toLex (s.stdin.length, toLex (s.requests.length,
    toLex (rank s.server, toLex (s.server.reads + s.server.unsent.length, s.answers.length)))))

section Ending
variable {s next : Connection} {action : Action}

theorem drop_shorter {bytes : List UInt8} (some : 0 < count) (inside : count ≤ bytes.length) :
    (bytes.drop count).length < bytes.length := by
  rw [List.length_drop]
  omega

theorem fgets_shorter {stdin : List UInt8} (more : stdin ≠ []) :
    (fgets rdshCommBuffSz stdin).2.length < stdin.length := by
  have some := List.length_pos_iff.mpr more
  simp only [fgets, List.length_drop, rdshCommBuffSz]
  omega

theorem work_decreases (taken : step s action = some next) : work next < work s := by
  simp only [work, Prod.Lex.toLex_lt_toLex]
  cases step_taken taken with
  | eof prompting => simp [prompting, live]
  | disconnected waiting | recvFails waiting => simp [waiting, live]
  | sendFails prompting => simp [prompting, live]
  | type prompting more =>
    have shorter := fgets_shorter more
    simp [prompting, live, shorter]
  | @recv sent count waiting fits =>
    have fewer : (s.answers.drop count).length < s.answers.length := drop_shorter fits.1 fits.2.1
    have live : live (if isEof (s.answers.take count) = true then .prompting else .waiting sent) =
        live s.client := by
      rw [waiting]
      split <;> rfl
    exact .inr ⟨live, .inr ⟨rfl, .inr ⟨rfl, .inr ⟨rfl, .inr ⟨rfl, fewer⟩⟩⟩⟩⟩
  | request receiving fits =>
    exact .inr ⟨rfl, .inr ⟨rfl, .inl (drop_shorter fits.1 fits.2.1)⟩⟩
  | @stageReads unsent reads held then_ count answering some inside =>
    exact .inr ⟨rfl, .inr ⟨rfl, .inl (drop_shorter some inside)⟩⟩
  | @inputEnds rc unsent reads held then_ gone answering =>
    have fewer : reads + unsent.length < s.server.reads + s.server.unsent.length := by
      rw [answering, Server.reads, Server.unsent]
      omega
    have rank : rank (.answering unsent reads held then_) = rank s.server := by rw [answering]; rfl
    exact .inr ⟨rfl, .inr ⟨rfl, .inr ⟨rfl, .inr ⟨rank, .inl fewer⟩⟩⟩⟩
  | @answer unsent reads held then_ count answering some inside =>
    have fewer : reads + (unsent.drop count).length < s.server.reads + s.server.unsent.length := by
      rw [answering]
      exact Nat.add_lt_add_left (drop_shorter some inside) _
    have rank : rank (.answering (unsent.drop count) reads held then_) = rank s.server := by rw [answering]; rfl
    exact .inr ⟨rfl, .inr ⟨rfl, .inr ⟨rfl, .inr ⟨rank, .inl fewer⟩⟩⟩⟩
  | @next held then_ answered =>
    have lower : rank (if then_ = .again then .receiving else .closed) < rank s.server := by
      rw [answered]
      split <;> simp [rank]
    exact .inr ⟨rfl, .inr ⟨rfl, .inr ⟨rfl, .inl lower⟩⟩⟩
  | clientGone gone receiving =>
    have lower : rank .closed < rank s.server := by
      rw [receiving]
      exact Nat.zero_lt_one
    exact .inr ⟨rfl, .inr ⟨rfl, .inr ⟨rfl, .inl lower⟩⟩⟩

end Ending

/-- Nothing that is typed or sent begins with a NUL. -/
structure Speaks (s : Connection) : Prop where
  stdin : NulFree s.stdin
  sent : s.client ≠ .waiting []

theorem cString_fgets {stdin : List UInt8} (free : NulFree stdin) :
    cString (fgets rdshCommBuffSz stdin).1 = (fgets rdshCommBuffSz stdin).1 :=
  cString_of_nulFree free.take

theorem speaks_step {s next : Connection} {action : Action} (speaks : Speaks s)
    (taken : step s action = some next) : Speaks next := by
  cases step_taken taken with
  | eof | disconnected | recvFails => exact ⟨speaks.stdin, by simp⟩
  | sendFails => exact ⟨speaks.stdin.drop, by simp⟩
  | type prompting more =>
    refine ⟨speaks.stdin.drop, fun silent => ?_⟩
    rw [cString_fgets speaks.stdin] at silent
    exact fgets_some more (Client.waiting.inj silent)
  | @recv sent count waiting fits =>
    refine ⟨speaks.stdin, fun silent => ?_⟩
    split at silent
    · cases silent
    · exact speaks.sent (waiting.trans silent)
  | request | stageReads | inputEnds | answer | next | clientGone => exact ⟨speaks.stdin, speaks.sent⟩

theorem listingSession_delivered (s : Connection) : Along step Delivered s listingSession := by
  have delivers : Delivers knownCommand := by simp [Delivers, knownCommand, quietTurn]
  simp [listingSession, Along, Delivered, delivers]

/-- `cat` reads what the client sends next, and the client sends nothing until
it has the answer. -/
def catSession : List Action := [.type, .request 4 (quietTurn (text "cat\n") (by decide)) 1]

theorem catSession_delivered (s : Connection) : Along step Delivered s catSession := by
  have delivers : Delivers (quietTurn (text "cat\n") (by decide)) := by simp [Delivers, quietTurn]
  simp [catSession, Along, Delivered, delivers]

end SysProg.RemoteEnding
