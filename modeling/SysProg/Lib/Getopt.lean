import SysProg.Lib.CString

/-! `getopt` over an option string of letters, with a colon behind each letter
that takes an argument: options alone or in clusters, arguments behind their
letter or in the next element, operands in between. -/
namespace SysProg.Getopt
open CString

def dash : UInt8 := 45
def colon : UInt8 := 58
def semicolon : UInt8 := 59

/-- What one call returns. An option that takes an argument comes with
`optarg`; the last two are both returned as `?`. -/
inductive Found where
  | flag (letter : UInt8)
  | valued (letter : UInt8) (optarg : List UInt8)
  | invalid (letter : UInt8)
  | missing (letter : UInt8)
  deriving DecidableEq

/-- The message on the error output that goes with a `?`. -/
def Found.complaint (progname : List UInt8) : Found → List UInt8
  | .flag _ | .valued _ _ => []
  | .invalid letter => progname ++ text ": invalid option -- '" ++ [letter] ++ text "'\n"
  | .missing letter => progname ++ text ": option requires an argument -- '" ++ [letter] ++ text "'\n"

inductive Kind where
  | unknown
  | plain
  | withArgument
  deriving DecidableEq

/-- The letter in the option string, by `strchr`. -/
def kind (optstring : List UInt8) (letter : UInt8) : Kind :=
  match optstring.dropWhile (· ≠ letter) with
  | [] => .unknown
  | _ :: rest =>
    if letter = colon ∨ letter = semicolon then .unknown
    else if rest.head? = some colon then .withArgument else .plain

theorem mem_of_kind {optstring : List UInt8} {letter : UInt8} (known : kind optstring letter ≠ .unknown) :
    letter ∈ optstring := by
  by_contra absent
  have passed : optstring.dropWhile (· ≠ letter) = [] := by
    apply List.dropWhile_eq_nil_iff.mpr
    intro other member
    exact decide_eq_true fun same => absent (same ▸ member)
  exact known (by rw [kind, passed])

/-- The letters behind the dash of one element: what they are found to be, and
the letter that is to have the next element as its argument. -/
def cluster (optstring : List UInt8) : List UInt8 → List Found × Option UInt8
  | [] => ([], none)
  | letter :: rest =>
    match kind optstring letter with
    | .unknown => (.invalid letter :: (cluster optstring rest).1, (cluster optstring rest).2)
    | .plain => (.flag letter :: (cluster optstring rest).1, (cluster optstring rest).2)
    | .withArgument => if rest = [] then ([], some letter) else ([.valued letter rest], none)

/-- A dash with something behind it; the dash alone is an operand. -/
def isOption (arg : List UInt8) : Bool := arg.head? == some dash && !arg.tail.isEmpty

theorem isOption_iff {arg : List UInt8} : isOption arg = true ↔ ∃ element, element ≠ [] ∧ arg = dash :: element := by
  cases arg with
  | nil => simp [isOption]
  | cons first element => simp [isOption, and_comm]

/-- All calls up to the -1, and the operands that are left then. `waiting` is
the letter that takes the next element as its argument. Where the environment
asks for it, the first operand ends the options. -/
def getopt (optstring : List UInt8) (posixlyCorrect : Bool) :
    Option UInt8 → List (List UInt8) → List Found × List (List UInt8)
  | some letter, [] => ([.missing letter], [])
  | some letter, optarg :: args =>
    let (found, operands) := getopt optstring posixlyCorrect none args
    (.valued letter optarg :: found, operands)
  | none, [] => ([], [])
  | none, arg :: args =>
    if arg = [dash, dash] then ([], args)
    else if isOption arg then
      let (first, waiting) := cluster optstring arg.tail
      let (found, operands) := getopt optstring posixlyCorrect waiting args
      (first ++ found, operands)
    else if posixlyCorrect then ([], arg :: args)
    else
      let (found, operands) := getopt optstring posixlyCorrect none args
      (found, arg :: operands)

/-! ### Command lines as they are written -/

/-- One thing on a command line. `letters` are plain options in a cluster,
before an option whose argument is joined to it or is the next element. -/
inductive Part where
  | operand (word : List UInt8)
  | flags (letters : List UInt8)
  | joined (letters : List UInt8) (letter : UInt8) (optarg : List UInt8)
  | spaced (letters : List UInt8) (letter : UInt8) (optarg : List UInt8)

def Part.written : Part → List (List UInt8)
  | .operand word => [word]
  | .flags letters => [dash :: letters]
  | .joined letters letter optarg => [dash :: (letters ++ letter :: optarg)]
  | .spaced letters letter optarg => [dash :: (letters ++ [letter]), optarg]

def Part.options : Part → List Found
  | .operand _ => []
  | .flags letters => letters.map .flag
  | .joined letters letter optarg | .spaced letters letter optarg =>
    letters.map .flag ++ [.valued letter optarg]

def Part.operands : Part → List (List UInt8)
  | .operand word => [word]
  | _ => []

/-- The part is no other part by mistake: not `--`, not an option that looks
like an operand, not an argument that is joined and empty. -/
def Part.Proper (optstring : List UInt8) (posixlyCorrect : Bool) : Part → Prop
  | .operand word => isOption word = false ∧ posixlyCorrect = false
  | .flags letters => letters ≠ [] ∧ letters ≠ [dash] ∧ ∀ l ∈ letters, kind optstring l = .plain
  | .joined letters letter optarg =>
    optarg ≠ [] ∧ kind optstring letter = .withArgument ∧ ∀ l ∈ letters, kind optstring l = .plain
  | .spaced letters letter _ =>
    letters ++ [letter] ≠ [dash] ∧ kind optstring letter = .withArgument ∧ ∀ l ∈ letters, kind optstring l = .plain

/-- What no option is looked for in: nothing, what `--` begins, and the operands
of an environment where the first of them ends the options. -/
inductive Rest (posixlyCorrect : Bool) : List (List UInt8) → List (List UInt8) → Prop where
  | none : Rest posixlyCorrect [] []
  | dashes (operands) : Rest posixlyCorrect ([dash, dash] :: operands) operands
  | stop (word operands) : isOption word = false → posixlyCorrect = true →
      Rest posixlyCorrect (word :: operands) (word :: operands)

/-- `args` is the parts one behind the other, and `after` are the operands of
what is no longer looked at. -/
def Written (optstring : List UInt8) (posixlyCorrect : Bool) (parts : List Part) (after args : List (List UInt8)) :
    Prop :=
  (∀ part ∈ parts, part.Proper optstring posixlyCorrect) ∧
    ∃ rest, Rest posixlyCorrect rest after ∧ args = parts.flatMap Part.written ++ rest

section Reading
variable {optstring : List UInt8} {posixlyCorrect : Bool}

theorem cluster_flags {letters : List UInt8} (rest : List UInt8) (plain : ∀ l ∈ letters, kind optstring l = .plain) :
    cluster optstring (letters ++ rest) =
      (letters.map .flag ++ (cluster optstring rest).1, (cluster optstring rest).2) := by
  induction letters with
  | nil => rfl
  | cons letter letters ih =>
    obtain ⟨first, more⟩ := List.forall_mem_cons.mp plain
    simp [cluster, first, ih more]

/-- A part reads as its options and leaves the reader where it was before. -/
theorem getopt_part {part : Part} (proper : part.Proper optstring posixlyCorrect) (args : List (List UInt8)) :
    getopt optstring posixlyCorrect none (part.written ++ args) =
      (part.options ++ (getopt optstring posixlyCorrect none args).1,
        part.operands ++ (getopt optstring posixlyCorrect none args).2) := by
  cases part with
  | operand word =>
    obtain ⟨noOption, anywhere⟩ := proper
    have notDashes : word ≠ [dash, dash] := by
      rintro rfl
      exact absurd noOption (by decide)
    simp [Part.written, Part.options, Part.operands, getopt, noOption, anywhere, notDashes]
  | flags letters =>
    obtain ⟨some, notDash, plain⟩ := proper
    have read := cluster_flags [] plain
    simp only [List.append_nil] at read
    simp [Part.written, Part.options, Part.operands, getopt, isOption, some, notDash, read, cluster]
  | joined letters letter optarg =>
    obtain ⟨some, takes, plain⟩ := proper
    have notDashes : letters ++ letter :: optarg ≠ [dash] := by
      intro same
      have := congrArg List.length same
      have := List.length_pos_iff.mpr some
      simp at *
      omega
    simp [Part.written, Part.options, Part.operands, getopt, isOption, notDashes, cluster_flags _ plain, cluster, takes,
      some]
  | spaced letters letter optarg =>
    obtain ⟨notDash, takes, plain⟩ := proper
    simp [Part.written, Part.options, Part.operands, getopt, isOption, notDash, cluster_flags _ plain, cluster, takes]

theorem getopt_rest {args operands : List (List UInt8)} (rest : Rest posixlyCorrect args operands) :
    getopt optstring posixlyCorrect none args = ([], operands) := by
  cases rest with
  | none => rfl
  | dashes => simp [getopt]
  | stop word operands noOption posixly =>
    have notDashes : word ≠ [dash, dash] := by
      rintro rfl
      exact absurd noOption (by decide)
    simp [getopt, noOption, posixly, notDashes]

/-- What is written is read: the layout changes nothing about the options. -/
theorem getopt_written {parts : List Part} {after args : List (List UInt8)}
    (written : Written optstring posixlyCorrect parts after args) :
    getopt optstring posixlyCorrect none args = (parts.flatMap Part.options, parts.flatMap Part.operands ++ after) := by
  obtain ⟨proper, rest, resting, rfl⟩ := written
  induction parts with
  | nil => simpa using getopt_rest resting
  | cons part parts ih =>
    obtain ⟨first, more⟩ := List.forall_mem_cons.mp proper
    rw [List.flatMap_cons, List.append_assoc, getopt_part first, ih more]
    simp

/-! ### What is read has been written -/

def Found.Clean : Found → Prop
  | .flag _ | .valued _ _ => True
  | .invalid _ | .missing _ => False

instance : (found : Found) → Decidable found.Clean
  | .flag _ | .valued _ _ => inferInstanceAs (Decidable True)
  | .invalid _ | .missing _ => inferInstanceAs (Decidable False)

/-- A cluster without an unknown letter: plain options, and at its end perhaps
one with an argument. -/
theorem cluster_clean (element : List UInt8) (clean : ∀ found ∈ (cluster optstring element).1, found.Clean) :
    (∃ letters : List UInt8, element = letters ∧ cluster optstring element = (letters.map .flag, none) ∧
      ∀ l ∈ letters, kind optstring l = .plain) ∨
    (∃ letters letter optarg, element = letters ++ letter :: optarg ∧ optarg ≠ [] ∧
      cluster optstring element = (letters.map .flag ++ [.valued letter optarg], none) ∧
      kind optstring letter = .withArgument ∧ ∀ l ∈ letters, kind optstring l = .plain) ∨
    (∃ letters letter, element = letters ++ [letter] ∧ cluster optstring element = (letters.map .flag, some letter) ∧
      kind optstring letter = .withArgument ∧ ∀ l ∈ letters, kind optstring l = .plain) := by
  induction element with
  | nil => exact .inl ⟨[], rfl, rfl, by simp⟩
  | cons letter rest ih =>
    cases known : kind optstring letter with
    | unknown =>
      have := clean (.invalid letter) (by simp [cluster, known])
      cases this
    | withArgument =>
      by_cases alone : rest = []
      · exact .inr (.inr ⟨[], letter, by simp [alone], by simp [cluster, known, alone], known, by simp⟩)
      · exact .inr (.inl ⟨[], letter, rest, rfl, alone, by simp [cluster, known, alone], known, by simp⟩)
    | plain =>
      have unfolded : cluster optstring (letter :: rest) =
          (.flag letter :: (cluster optstring rest).1, (cluster optstring rest).2) := by simp [cluster, known]
      rw [unfolded] at clean
      obtain ⟨letters, same, read, plain⟩ | ⟨letters, last, optarg, same, some, read, takes, plain⟩ |
        ⟨letters, last, same, read, takes, plain⟩ := ih fun found member => clean found (List.mem_cons_of_mem _ member)
      · exact .inl ⟨letter :: letters, by rw [same], by rw [unfolded, read]; rfl,
          List.forall_mem_cons.mpr ⟨known, plain⟩⟩
      · exact .inr (.inl ⟨letter :: letters, last, optarg, by rw [same]; rfl, some, by rw [unfolded, read]; rfl, takes,
          List.forall_mem_cons.mpr ⟨known, plain⟩⟩)
      · exact .inr (.inr ⟨letter :: letters, last, by rw [same]; rfl, by rw [unfolded, read]; rfl, takes,
          List.forall_mem_cons.mpr ⟨known, plain⟩⟩)

/-- A command line that reads without a `?` is the writing of some parts, and
of something behind them that is not looked at. -/
theorem written_of_getopt (args : List (List UInt8))
    (clean : ∀ found ∈ (getopt optstring posixlyCorrect none args).1, found.Clean) :
    ∃ parts after, Written optstring posixlyCorrect parts after args := by
  -- An option may use up two elements, so the induction is on the length.
  induction length : args.length using Nat.strong_induction_on generalizing args with
  | _ n ih =>
  subst length
  cases args with
  | nil => exact ⟨[], [], List.forall_mem_nil _, [], .none, rfl⟩
  | cons arg args =>
    have step (part : Part) (left : List (List UInt8)) (proper : part.Proper optstring posixlyCorrect)
        (same : arg :: args = part.written ++ left) (shorter : left.length < (arg :: args).length) :
        ∃ parts after, Written optstring posixlyCorrect parts after (arg :: args) := by
      rw [same, getopt_part proper] at clean
      obtain ⟨parts, after, allProper, rest, resting, written⟩ :=
        ih left.length shorter left (fun found member => clean found (List.mem_append_right _ member)) rfl
      exact ⟨part :: parts, after, List.forall_mem_cons.mpr ⟨proper, allProper⟩, rest, resting,
        by rw [same, written, List.flatMap_cons, List.append_assoc]⟩
    by_cases dashes : arg = [dash, dash]
    · exact ⟨[], args, List.forall_mem_nil _, _, dashes ▸ .dashes args, rfl⟩
    · cases looks : isOption arg with
      | false =>
        cases posixly : posixlyCorrect with
        | true => exact ⟨[], _, List.forall_mem_nil _, _, .stop arg args looks rfl, rfl⟩
        | false =>
          subst posixly
          exact step (.operand arg) args ⟨looks, rfl⟩ rfl (by simp)
      | true =>
        obtain ⟨element, some, rfl⟩ := isOption_iff.mp looks
        have notDash : element ≠ [dash] := fun same => dashes (by rw [same])
        have found : getopt optstring posixlyCorrect none ((dash :: element) :: args) =
            ((cluster optstring element).1 ++ (getopt optstring posixlyCorrect (cluster optstring element).2 args).1,
              (getopt optstring posixlyCorrect (cluster optstring element).2 args).2) := by
          simp [getopt, notDash, looks]
        obtain ⟨letters, rfl, read, plain⟩ | ⟨letters, last, optarg, rfl, behind, read, takes, plain⟩ |
          ⟨letters, last, rfl, read, takes, plain⟩ :=
            cluster_clean element fun found' member => clean found' (by rw [found]; exact List.mem_append_left _ member)
        · exact step (.flags element) args ⟨some, notDash, plain⟩ rfl (by simp)
        · exact step (.joined letters last optarg) args ⟨behind, takes, plain⟩ rfl (by simp)
        · cases args with
          | nil =>
            have := clean (.missing last) (by rw [found, read]; simp [getopt])
            cases this
          | cons optarg args =>
            exact step (.spaced letters last optarg) args ⟨notDash, takes, plain⟩ rfl
              (by simp only [List.length_cons]; omega)

/-- What is returned is of the kind that the option string gives its letter. -/
def Found.Known (optstring : List UInt8) : Found → Prop
  | .flag letter => kind optstring letter = .plain
  | .valued letter _ | .missing letter => kind optstring letter = .withArgument
  | .invalid letter => kind optstring letter = .unknown

theorem known_cluster (element : List UInt8) :
    (∀ found ∈ (cluster optstring element).1, found.Known optstring) ∧
      ∀ letter, (cluster optstring element).2 = some letter → kind optstring letter = .withArgument := by
  induction element with
  | nil => simp [cluster]
  | cons letter rest ih =>
    cases known : kind optstring letter with
    | unknown => simpa [cluster, known, Found.Known] using ih
    | plain => simpa [cluster, known, Found.Known] using ih
    | withArgument => by_cases alone : rest = [] <;> simp [cluster, known, alone, Found.Known]

theorem known_getopt (waiting : Option UInt8) (args : List (List UInt8))
    (takes : ∀ letter, waiting = some letter → kind optstring letter = .withArgument) :
    ∀ found ∈ (getopt optstring posixlyCorrect waiting args).1, found.Known optstring := by
  induction args generalizing waiting with
  | nil =>
    cases waiting with
    | none => simp [getopt]
    | some letter => simpa [getopt, Found.Known] using takes letter rfl
  | cons arg args ih =>
    have others := ih none (by simp)
    cases waiting with
    | some letter => simpa [getopt, Found.Known] using ⟨takes letter rfl, others⟩
    | none =>
      obtain ⟨inside, next⟩ := @known_cluster optstring arg.tail
      by_cases dashes : arg = [dash, dash]
      · simp [getopt, dashes]
      cases looks : isOption arg with
      | true => simpa [getopt, dashes, looks, or_imp, forall_and] using ⟨inside, ih _ next⟩
      | false =>
        cases posixlyCorrect with
        | true => simp [getopt, dashes, looks]
        | false => simpa [getopt, dashes, looks] using others

end Reading

end SysProg.Getopt
