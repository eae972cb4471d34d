import Mathlib.Algebra.Group.Nat.Even
import SysProg.ParserExtension

/-! What `build_cmd_buff` keeps of a line. White space and a closing quote cut
the open word before they move `start`, an opening quote moves it without; and
the scan ends when eight arguments are cut, wherever it stands. -/
namespace SysProg.ArgumentText
open CString WhileLoop Dshlib Scanner
open LineGrammar (Reads reads_more reads_concat reads_last finish_cut finish_open)
open ParserExtension (Undirected sealed undirected_dropWhile undirected_kinds)

/-! ### The text of a line -/

/-- The text without its double quotes and the white space outside them. -/
def kept : (inQuotes : Bool) → List UInt8 → List UInt8
  | _, [] => []
  | inQuotes, c :: rest =>
    if c = quoteChar then kept (!inQuotes) rest
    else if ¬ inQuotes ∧ isspace c then kept inQuotes rest
    else c :: kept inQuotes rest

/-- The words that begin in the text: one at each quote that opens, and one at
each character outside quotes that is no white space and does not go on with a
word. `inWord` is set behind a character of a word outside quotes. -/
def wordCount : (inQuotes inWord : Bool) → List UInt8 → Nat
  | _, _, [] => 0
  | inQuotes, inWord, c :: rest =>
    if c = quoteChar then wordCount (!inQuotes) false rest + if inQuotes then 0 else 1
    else if inQuotes then wordCount true false rest
    else if isspace c then wordCount false false rest
    else wordCount false true rest + if inWord then 0 else 1

/-- No quote opens right behind a character of a word outside quotes. -/
def apart : (inQuotes inWord : Bool) → List UInt8 → Bool
  | _, _, [] => true
  | inQuotes, inWord, c :: rest =>
    if c = quoteChar then !inWord && apart (!inQuotes) false rest
    else apart inQuotes (!inQuotes && !isspace c) rest

/-- The characters of `argv[0]` to `argv[argc - 1]`. -/
def gathered (cmd : CmdBuff) : List UInt8 := (cmd.argv.take cmd.argc).flatMap fun arg => (arg.map cmd.string).getD []

/-- The arguments of a parsed line hold all its text, and a line with more
words than the vector has room for in front of its NULL is refused. -/
def TextKept (line : List UInt8) (cmd : CmdBuff) (heap : Heap) : Prop :=
  ∃ rc built after, buildCmdBuff line cmd heap = some (rc, built, after) ∧
    (rc = ok → gathered built = kept false (cString line)) ∧
      (cmdMax < wordCount false false (cString line) → rc ≠ ok ∧ rc ≠ warnNoCmds)

section Texts
variable {text : List UInt8}

theorem kept_dropWhile (text : List UInt8) : kept false (text.dropWhile isspace) = kept false text :=
  skip_spaces (fun c rest space => by simp [kept, space_active space, space]) text

theorem wordCount_dropWhile (text : List UInt8) :
    wordCount false false (text.dropWhile isspace) = wordCount false false text :=
  skip_spaces (fun c rest space => by simp [wordCount, space_active space, space]) text

theorem apart_dropWhile (text : List UInt8) : apart false false (text.dropWhile isspace) = apart false false text :=
  skip_spaces (fun c rest space => by simp [apart, space_active space, space]) text

theorem count_dropWhile (text : List UInt8) : (text.dropWhile isspace).count quoteChar = text.count quoteChar :=
  skip_spaces (fun _ _ space => List.count_cons_of_ne (space_active space).2) text

/-- A text without words is white space. -/
theorem wordless (none : wordCount false false text = 0) : kept false text = [] ∧ apart false false text = true := by
  induction text with
  | nil => exact ⟨rfl, rfl⟩
  | cons c rest ih =>
    by_cases quote : c = quoteChar
    · simp [wordCount, quote] at none
    · by_cases space : isspace c = true
      · simp only [wordCount, quote, space, if_false, if_true, Bool.false_eq_true] at none
        simpa [kept, apart, quote, space] using ih none
      · simp [wordCount, quote, space] at none

end Texts

/-! ### The scan -/

/-- The scan ends with arguments that hold no more than this text, and hold it
all exactly when it is `intact`. -/
def Keeps (cmd : CmdBuff) (whole : List UInt8) (intact : Bool) (s : Scan) : Prop :=
  ∃ args block, (scanLoop.run s).finish = sealed cmd args block ∧
    (args.flatMap fun p => cString (block.drop p)).length ≤ whole.length ∧
      ((args.flatMap fun p => cString (block.drop p)) = whole ↔ intact = true)

section Scans
variable {cmd : CmdBuff} {heap : Heap} {args : List Nat} {texts : List (List UInt8)} {whole : List UInt8}

theorem Keeps.turn {s next : Scan} (turn : scanLoop.run s = scanLoop.run next) (same : whole = whole')
    (intact_eq : intact = intact') (keeps : Keeps cmd whole' intact' next) : Keeps cmd whole intact s := by
  unfold Keeps
  rw [turn, same, intact_eq]
  exact keeps

/-- A word that is dropped does not come back. -/
theorem Keeps.lose {s next : Scan} (turn : scanLoop.run s = scanLoop.run next) (less : whole'.length < whole.length)
    (keeps : Keeps cmd whole' intact next) : Keeps cmd whole false s := by
  obtain ⟨args, block, finished, bound, -⟩ := keeps
  refine ⟨args, block, turn ▸ finished, by omega, ?_⟩
  simp only [Bool.false_eq_true, iff_false]
  intro all
  rw [all] at bound
  omega

theorem reads_flatMap {done : List UInt8} (reads : List.Forall₂ (Reads done) args texts) (rest : List UInt8) :
    (args.flatMap fun p => cString ((done ++ rest).drop p)) = texts.flatten := by
  induction reads with
  | nil => rfl
  | cons read _ ih => rw [List.flatMap_cons, read.string, ih, List.flatten_cons]

/-- The scanner has cut these texts from `front`, and behind it a word is open. -/
structure Cut (front word : List UInt8) (inQuotes inWord : Bool) (args : List Nat) (texts : List (List UInt8)) :
    Prop where
  reads : List.Forall₂ (Reads front) args texts
  free : NulFree word
  bare : inWord = true ↔ inQuotes = false ∧ word ≠ []

variable {front word ahead rest junk : List UInt8} {inQuotes inWord : Bool} {c : UInt8}

/-- A word begins behind the character just passed. -/
theorem behind_character (args : List Nat) (done : List UInt8) (c : UInt8) (rest : List UInt8) (inQuotes : Bool) :
    scanning cmd args (done ++ [c]) rest (done.length + 1) inQuotes heap =
      scanning cmd args (done ++ [c] ++ []) rest (done ++ [c]).length inQuotes heap := by
  simp

theorem Cut.fresh (reads : List.Forall₂ (Reads front) args texts) (inQuotes : Bool) :
    Cut front [] inQuotes false args texts := ⟨reads, nulFree_nil, by simp⟩

/-- The open word is cut. -/
theorem Cut.more (cut : Cut front word inQuotes inWord args texts) :
    Cut (front ++ word ++ [0]) [] false false (args ++ [front.length]) (texts ++ [word]) :=
  .fresh (reads_concat (reads_more (reads_more cut.reads word) [0]) (reads_last cut.free front)) false

/-- A character of a word is passed. -/
theorem Cut.letter (cut : Cut front word inQuotes inWord args texts) (passive : Passive inQuotes c) :
    Cut front (word ++ [c]) inQuotes (!inQuotes && !isspace c) args texts := by
  obtain ⟨nonzero, -, solid⟩ := passive
  refine ⟨cut.reads, by simp [cut.free, nonzero], ?_⟩
  cases inQuotes with
  | true => simp
  | false => simp [solid rfl]

/-- The scan keeps the text ahead when its words find room. -/
theorem keeps_end (wide : cmd.argv.length = cmdArgvMax) (cut : Cut front word false inWord args texts)
    (few : args.length + (if inWord then 1 else 0) ≤ cmdMax) :
    Keeps cmd (texts.flatten ++ word) true (scanning cmd args (front ++ word) (0 :: junk) front.length false heap) := by
  unfold Keeps
  rw [run_terminator]
  have texts_eq : (args.flatMap fun p => cString ((front ++ word ++ 0 :: junk).drop p)) = texts.flatten := by
    rw [List.append_assoc]
    exact reads_flatMap cut.reads _
  cases word with
  | nil =>
    refine ⟨args, front ++ [] ++ 0 :: junk, finish_cut (.inl (by simp)), ?_⟩
    rw [texts_eq]
    simp
  | cons c more =>
    have started : inWord = true := cut.bare.mpr ⟨rfl, by simp⟩
    have room : args.length < cmdArgvMax - 1 := by
      rw [started] at few
      exact few
    have nonzero : (holding cmd args (front ++ c :: more ++ 0 :: junk)).byte front.length ≠ 0 := by
      have here : (holding cmd args (front ++ c :: (more ++ 0 :: junk))).byte front.length = c := byte_ahead
      rw [List.append_assoc, List.cons_append, here]
      exact cut.free c (by simp)
    have last : cString ((front ++ c :: more ++ 0 :: junk).drop front.length) = c :: more := by
      rw [List.append_assoc, List.drop_left, cString_terminated cut.free]
    refine ⟨args ++ [front.length], front ++ c :: more ++ 0 :: junk, finish_open wide (by simp) nonzero room, ?_⟩
    rw [List.flatMap_append, texts_eq, List.flatMap_singleton, last]
    simp

/-- From here on the scan keeps what it has cut, the open word and the text
ahead, as far as the words ahead stand apart. -/
def KeepsOn (cmd : CmdBuff) (heap : Heap) (junk : List UInt8) (args : List Nat) (texts : List (List UInt8))
    (front word : List UInt8) (inQuotes inWord : Bool) (ahead : List UInt8) : Prop :=
  Keeps cmd (texts.flatten ++ (word ++ kept inQuotes ahead)) (apart inQuotes inWord ahead)
    (scanning cmd args (front ++ word) (ahead ++ 0 :: junk) front.length inQuotes heap)

/-- A full vector ends the scan where no word begins any more. -/
theorem keeps_full (full : cmdArgvMax - 1 ≤ args.length) (cut : Cut front word inQuotes inWord args texts)
    (few : args.length + (if inQuotes || inWord then 1 else 0) + wordCount inQuotes inWord ahead ≤ cmdMax) :
    KeepsOn cmd heap junk args texts front word inQuotes inWord ahead := by
  have eight : cmdMax ≤ args.length := full
  cases inQuotes with
  | true =>
    simp only [Bool.true_or, if_true] at few
    omega
  | false =>
    cases inWord with
    | true =>
      simp only [Bool.or_true, if_true] at few
      omega
    | false =>
      obtain rfl : word = [] := by simpa using cut.bare
      have none : wordCount false false ahead = 0 := by omega
      obtain ⟨nothing, separate⟩ := wordless none
      refine ⟨args, front ++ [] ++ (ahead ++ 0 :: junk), ?_, ?_⟩
      · rw [run_full full, finish_cut (.inr full)]
        rfl
      · rw [nothing, separate, List.append_assoc, reads_flatMap cut.reads]
        simp

theorem keeps_close (wide : cmd.argv.length = cmdArgvMax) (room : args.length < cmdArgvMax - 1)
    (cut : Cut front word true inWord args texts)
    (next : KeepsOn cmd heap junk (args ++ [front.length]) (texts ++ [word]) (front ++ word ++ [0]) [] false false
      rest) :
    KeepsOn cmd heap junk args texts front word true inWord (quoteChar :: rest) := by
  have turn : scanLoop.run (scanning cmd args (front ++ word) (quoteChar :: (rest ++ 0 :: junk)) front.length true
      heap) = _ := turn_close wide room
  rw [behind_character] at turn
  have outside : inWord = false := by simpa using cut.bare
  refine .turn turn ?_ ?_ next
  · simp [kept]
  · simp [apart, outside]

/-- An opening quote drops the open word, if there is one. -/
theorem keeps_open (room : args.length < cmdArgvMax - 1) (cut : Cut front word false inWord args texts)
    (next : KeepsOn cmd heap junk args texts (front ++ word ++ [quoteChar]) [] true false rest) :
    KeepsOn cmd heap junk args texts front word false inWord (quoteChar :: rest) := by
  have turn : scanLoop.run (scanning cmd args (front ++ word) (quoteChar :: (rest ++ 0 :: junk)) front.length false
      heap) = _ := turn_open room
  rw [behind_character] at turn
  cases word with
  | nil =>
    have outside : inWord = false := by simpa using cut.bare
    refine .turn turn ?_ ?_ next
    · simp [kept]
    · simp [apart, outside]
  | cons d more =>
    have inside : inWord = true := cut.bare.mpr ⟨rfl, by simp⟩
    have lost : apart false inWord (quoteChar :: rest) = false := by simp [apart, inside]
    have same : kept false (quoteChar :: rest) = kept true rest := if_pos rfl
    unfold KeepsOn
    rw [lost, same]
    refine .lose turn ?_ next
    simp only [List.length_append, List.length_cons, List.length_nil]
    omega

/-- White space between words. -/
theorem keeps_gap (space : isspace c = true) (room : args.length < cmdArgvMax - 1)
    (next : KeepsOn cmd heap junk args texts (front ++ [c]) [] false false rest) :
    KeepsOn cmd heap junk args texts front [] false inWord (c :: rest) := by
  have turn : scanLoop.run (scanning cmd args (front ++ []) (c :: (rest ++ 0 :: junk)) (front ++ []).length false
      heap) = _ := turn_gap space room
  rw [behind_character, List.append_nil] at turn
  have other := (space_active space).2
  unfold KeepsOn
  rw [List.append_nil front]
  refine .turn turn ?_ ?_ next
  · simp [kept, other, space]
  · simp [apart, other, space]

/-- White space behind a word. -/
theorem keeps_space (space : isspace c = true) (nonempty : word ≠ []) (wide : cmd.argv.length = cmdArgvMax)
    (room : args.length < cmdArgvMax - 1)
    (next : KeepsOn cmd heap junk (args ++ [front.length]) (texts ++ [word]) (front ++ word ++ [0]) [] false false
      rest) :
    KeepsOn cmd heap junk args texts front word false inWord (c :: rest) := by
  have moved : front.length ≠ (front ++ word).length := by
    have := List.length_pos_iff.mpr nonempty
    rw [List.length_append]
    omega
  have turn : scanLoop.run (scanning cmd args (front ++ word) (c :: (rest ++ 0 :: junk)) front.length false heap) = _ :=
    turn_space space moved wide room
  rw [behind_character] at turn
  have other := (space_active space).2
  refine .turn turn ?_ ?_ next
  · simp [kept, other, space]
  · simp [apart, other, space]

theorem keeps_letter (passive : Passive inQuotes c) (room : args.length < cmdArgvMax - 1)
    (next : KeepsOn cmd heap junk args texts front (word ++ [c]) inQuotes (!inQuotes && !isspace c) rest) :
    KeepsOn cmd heap junk args texts front word inQuotes inWord (c :: rest) := by
  have turn : scanLoop.run (scanning cmd args (front ++ word) (c :: (rest ++ 0 :: junk)) front.length inQuotes
      heap) = _ := turn_passive passive room
  rw [List.append_assoc] at turn
  obtain ⟨-, other, solid⟩ := passive
  have letter : ¬ (¬ inQuotes = true ∧ isspace c = true) := by
    rintro ⟨outside, space⟩
    simp [solid (by simpa using outside)] at space
  refine .turn turn ?_ ?_ next
  · rw [kept, if_neg other, if_neg letter, List.append_assoc, List.singleton_append]
  · rw [apart, if_neg other]

/-- The scan keeps the text of a line whose words all find room. -/
theorem keeps_text (heap : Heap) (junk : List UInt8) (wide : cmd.argv.length = cmdArgvMax) (ahead : List UInt8)
    (free : NulFree ahead) (undirected : Undirected inQuotes ahead)
    (balanced : Even (ahead.count quoteChar) ↔ inQuotes = false) (cut : Cut front word inQuotes inWord args texts)
    (few : args.length + (if inQuotes || inWord then 1 else 0) + wordCount inQuotes inWord ahead ≤ cmdMax) :
    KeepsOn cmd heap junk args texts front word inQuotes inWord ahead := by
  induction ahead generalizing args texts front word inQuotes inWord with
  | nil =>
    obtain rfl : inQuotes = false := balanced.mp (by simp)
    simpa [KeepsOn, kept, apart] using keeps_end wide cut (by simpa [wordCount] using few)
  | cons c rest ih =>
    obtain ⟨nonzero, restFree⟩ := nulFree_cons.mp free
    rcases Nat.lt_or_ge args.length (cmdArgvMax - 1) with room | full
    swap
    · exact keeps_full full cut few
    rcases undirected_kinds nonzero undirected with ⟨rfl, undirected⟩ | ⟨passive, undirected⟩ |
      ⟨rfl, space, undirected⟩
    · rw [List.count_cons_self, Nat.even_add_one] at balanced
      cases inQuotes with
      | true =>
        refine keeps_close wide room cut (ih restFree undirected (by simpa using balanced) cut.more ?_)
        simp [wordCount] at few ⊢
        omega
      | false =>
        refine keeps_open room cut (ih restFree undirected (by simpa using balanced)
          (.fresh (reads_more (reads_more cut.reads word) [quoteChar]) true) ?_)
        simp [wordCount] at few ⊢
        omega
    · obtain ⟨-, other, solid⟩ := id passive
      rw [List.count_cons_of_ne other] at balanced
      refine keeps_letter passive room (ih restFree undirected balanced (cut.letter passive) ?_)
      cases inQuotes with
      | true => simpa [wordCount, other] using few
      | false =>
        have bare : isspace c = false := (solid rfl).1
        cases inWord <;> simp [wordCount, other, bare] at few ⊢ <;> omega
    · have other := (space_active space).2
      rw [List.count_cons_of_ne other] at balanced
      by_cases nonempty : word = []
      · subst nonempty
        refine keeps_gap space room (ih restFree undirected balanced (.fresh (reads_more cut.reads [c]) false) ?_)
        simp [wordCount, other, space] at few ⊢
        omega
      · have inside : inWord = true := cut.bare.mpr ⟨rfl, nonempty⟩
        refine keeps_space space nonempty wide room (ih restFree undirected balanced cut.more ?_)
        simpa [wordCount, other, space, inside] using few

end Scans

/-! ### The whole line -/

theorem gathered_sealed (cmd : CmdBuff) (args : List Nat) (block : List UInt8) :
    gathered (sealed cmd args block) = args.flatMap fun p => cString (block.drop p) := by
  have arguments : (sealed cmd args block).argv.take args.length = args.map some := by
    rw [sealed, holding, List.take_set_of_le (Nat.le_refl _), List.take_left' (List.length_map _)]
  rw [gathered, show (sealed cmd args block).argc = args.length from rfl, arguments, List.flatMap_map]
  rfl

section Lines
variable {line : List UInt8} {cmd : CmdBuff}

/-- A line with something in it is parsed, and keeps its text as far as its
words stand apart when the vector has room for all of them. -/
theorem build_keeps (short : (cString line).length < shCmdMax) (balanced : Even ((cString line).count quoteChar))
    (undirected : Undirected false (cString line)) (ready : LocalLoop.Ready cmd) (heap : Heap)
    (nonblank : CopyBounds.copied line ≠ []) : ∃ built after, buildCmdBuff line cmd heap = some (ok, built, after) ∧
      (wordCount false false (cString line) ≤ cmdMax →
        (gathered built = kept false (cString line) ↔ apart false false (cString line) = true)) := by
  have fits : (CopyBounds.copied line).length < cmd.buffer.length := by
    rw [ready.size]
    exact Nat.lt_of_le_of_lt (List.dropWhile_sublist isspace).length_le short
  refine ⟨_, _, buildCmdBuff_scans rfl nonblank fits heap, fun few => ?_⟩
  have quotes : (CopyBounds.copied line).count quoteChar = (cString line).count quoteChar := count_dropWhile _
  have fresh : Cut [] [] false false [] [] := .fresh .nil false
  have keeps := keeps_text heap (cmd.buffer.drop ((CopyBounds.copied line).length + 1)) ready.wide
    (CopyBounds.copied line) (LocalLoop.copied_nulFree line) (undirected_dropWhile undirected)
    (by simpa [quotes] using balanced) fresh (by simpa [CopyBounds.copied, wordCount_dropWhile] using few)
  obtain ⟨args, block, finished, -, all⟩ := keeps
  have texts : kept false (CopyBounds.copied line) = kept false (cString line) := kept_dropWhile _
  have separate : apart false false (CopyBounds.copied line) = apart false false (cString line) := apart_dropWhile _
  simp only [List.flatten_nil, List.nil_append, texts, separate] at all
  have built : (scanLoop.run (scanning cmd [] [] (CopyBounds.copied line ++
      0 :: cmd.buffer.drop ((CopyBounds.copied line).length + 1)) 0 false heap)).finish = sealed cmd args block :=
    finished
  rw [← CopyBounds.copied, built, gathered_sealed]
  exact all

/-- The arguments keep the text of a line, and their room is enough, exactly
when no quote opens inside a word and the line has at most eight words. -/
theorem text_kept_iff (short : (cString line).length < shCmdMax) (balanced : Even ((cString line).count quoteChar))
    (undirected : Undirected false (cString line)) (ready : LocalLoop.Ready cmd) (heap : Heap) :
    TextKept line cmd heap ↔
      apart false false (cString line) = true ∧ wordCount false false (cString line) ≤ cmdMax := by
  by_cases blank : CopyBounds.copied line = []
  · have words : wordCount false false (cString line) = 0 := by
      rw [← wordCount_dropWhile, ← CopyBounds.copied, blank]
      rfl
    obtain ⟨-, separate⟩ := wordless words
    refine iff_of_true ⟨warnNoCmds, cmd, heap, CopyBounds.buildCmdBuff_blank blank cmd heap, ?_, ?_⟩ ⟨separate, ?_⟩
    · intro returned
      exact absurd returned (by decide)
    · rw [words]
      exact fun many => absurd many (Nat.not_lt_zero _)
    · rw [words]
      exact Nat.zero_le _
  · obtain ⟨built, after, builds, keeps⟩ := build_keeps short balanced undirected ready heap blank
    constructor
    · rintro ⟨rc, built', after', builds', gathers, refused⟩
      rw [builds] at builds'
      cases builds'
      have few : wordCount false false (cString line) ≤ cmdMax := Nat.not_lt.mp fun many => (refused many).1 rfl
      exact ⟨(keeps few).mp (gathers rfl), few⟩
    · rintro ⟨separate, few⟩
      exact ⟨ok, built, after, builds, fun _ => (keeps few).mpr separate, fun many => absurd many (Nat.not_lt.mpr few)⟩

end Lines

theorem quoted_text_kept : TextKept (text "echo \"a  b\"c \"\"") LocalLoop.prompt.cmd LocalLoop.prompt.heap :=
  (text_kept_iff (by decide) (by decide) (by decide) ⟨List.length_replicate, rfl⟩ _).mpr (by decide)

def gluedQuote : List UInt8 := text "ab\"cd\""

def nineWords : List UInt8 := text "a b c d e f g h i"

/-- A word in front of a quote is lost, and so is the ninth word. -/
theorem text_dropped : ¬ TextKept gluedQuote LocalLoop.prompt.cmd LocalLoop.prompt.heap ∧
    ¬ TextKept nineWords LocalLoop.prompt.cmd LocalLoop.prompt.heap := by
  have ready : LocalLoop.Ready LocalLoop.prompt.cmd := ⟨List.length_replicate, rfl⟩
  constructor
  · rintro ⟨rc, built, after, builds, gathers, -⟩
    obtain ⟨built', after', builds', keeps⟩ := @build_keeps gluedQuote _ (by decide) (by decide) (by decide) ready
      LocalLoop.prompt.heap (by decide)
    rw [builds'] at builds
    cases builds
    exact absurd ((keeps (by decide)).mp (gathers rfl)) (by decide)
  · rintro ⟨rc, built, after, builds, -, refused⟩
    obtain ⟨built', after', builds', -⟩ := @build_keeps nineWords _ (by decide) (by decide) (by decide) ready
      LocalLoop.prompt.heap (by decide)
    rw [builds'] at builds
    cases builds
    exact (refused (by decide)).1 rfl

end SysProg.ArgumentText
