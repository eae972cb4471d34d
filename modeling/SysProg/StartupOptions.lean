import SysProg.Lib.Atoi
import SysProg.Lib.Getopt

/-! `dsh_cli.c` of the remote shell: what the options of the command line make
of the program. -/
namespace SysProg.StartupOptions
open CString Atoi Getopt

def rdshDefPort : Int32 := 1234
def rdshDefSvrIntface : List UInt8 := text "0.0.0.0"
def rdshDefCliConnect : List UInt8 := text "127.0.0.1"

def modeLcli : Int32 := 0
def modeScli : Int32 := 1
def modeSsvr : Int32 := 2

/-- `sizeof(cargs->ip)`. -/
def ipSz : Nat := 16

structure CmdArgs where
  mode : Int32
  ip : List UInt8
  port : Int32
  threadedServer : Int32
  deriving DecidableEq

/-- The end of the program: its exit status and its two outputs. -/
structure Stop where
  status : Nat
  stdout : List UInt8
  stderr : List UInt8
  deriving DecidableEq

/-- A message and `exit(EXIT_FAILURE)`. -/
def refuse (message : String) : Stop := ⟨1, [], text message⟩

/-- `print_usage`, behind what `getopt` has complained about. -/
def printUsage (progname complaint : List UInt8) : Stop :=
  { status := 0
    stdout :=
      text "Usage: " ++ progname ++ text " [-c | -s] [-i IP] [-p PORT] [-x] [-h]\n" ++
      text "  Default is to run " ++ progname ++ text " in local mode\n" ++
      text "  -c            Run as client\n" ++
      text "  -s            Run as server\n" ++
      text "  -i IP         Set IP/Interface address (only valid with -c or -s)\n" ++
      text "  -p PORT       Set port number (only valid with -c or -s)\n" ++
      text "  -x            Enable threaded mode (only valid with -s)\n" ++
      text "  -h            Show this help message\n"
    stderr := complaint }

def optstring : List UInt8 := text "csi:p:xh"

def defaults : CmdArgs := ⟨modeLcli, List.replicate ipSz 0, rdshDefPort, 0⟩

/-- `strncpy(cargs->ip, src, sizeof(cargs->ip) - 1)`. -/
def copyIp (ip src : List UInt8) : List UInt8 := memcpy ip (strncpy (ipSz - 1) src)

/-- The body of the loop around `getopt`. -/
def parseOpt (progname : List UInt8) (cargs : CmdArgs) (found : Found) : Except Stop CmdArgs :=
  match found with
  | .flag opt =>
    if opt = 'c'.toUInt8 then
      if cargs.mode ≠ modeLcli then .error (refuse "Error: Cannot use both -c and -s\n")
      else .ok { cargs with mode := modeScli, ip := copyIp cargs.ip rdshDefCliConnect }
    else if opt = 's'.toUInt8 then
      if cargs.mode ≠ modeLcli then .error (refuse "Error: Cannot use both -c and -s\n")
      else .ok { cargs with mode := modeSsvr, ip := copyIp cargs.ip rdshDefSvrIntface }
    else if opt = 'x'.toUInt8 then
      if cargs.mode ≠ modeSsvr then .error (refuse "Error: -x can only be used with -s\n")
      else .ok { cargs with threadedServer := 1 }
    else .error (printUsage progname [])
  | .valued opt optarg =>
    if opt = 'i'.toUInt8 then
      if cargs.mode = modeLcli then .error (refuse "Error: -i can only be used with -c or -s\n")
      else .ok { cargs with ip := (copyIp cargs.ip optarg).set (ipSz - 1) 0 }
    else if opt = 'p'.toUInt8 then
      if cargs.mode = modeLcli then .error (refuse "Error: -p can only be used with -c or -s\n")
      else if atoi optarg ≤ 0 then .error (refuse "Error: Invalid port number\n")
      else .ok { cargs with port := atoi optarg }
    else .error (printUsage progname [])
  | .invalid _ | .missing _ => .error (printUsage progname (found.complaint progname))

def parseArgs (progname : List UInt8) (posixlyCorrect : Bool) (args : List (List UInt8)) : Except Stop CmdArgs :=
  match (getopt optstring posixlyCorrect none args).1.foldlM (parseOpt progname) defaults with
  | .error stop => .error stop
  | .ok cargs =>
    if cargs.threadedServer ≠ 0 ∧ cargs.mode ≠ modeSsvr then .error (refuse "Error: -x can only be used with -s\n")
    else .ok cargs

/-- The three things the program can be: what each prints, and what it returns. -/
structure Calls where
  execLocalCmdLoop : List UInt8 × Int32
  execRemoteCmdLoop : List UInt8 → Int32 → List UInt8 × Int32
  startServer : List UInt8 → Int32 → Int32 → List UInt8 × Int32

/-- `main`, which returns 0 by running off its end. -/
def main (calls : Calls) (progname : List UInt8) (posixlyCorrect : Bool) (args : List (List UInt8)) : Stop :=
  match parseArgs progname posixlyCorrect args with
  | .error stop => stop
  | .ok cargs =>
    let address := text "addr:" ++ cString cargs.ip ++ text ":" ++ text (toString cargs.port.toInt) ++ text "\n"
    let returned (rc : Int32) := text "cmd loop returned " ++ text (toString rc.toInt) ++ text "\n"
    if cargs.mode = modeLcli then
      let (printed, rc) := calls.execLocalCmdLoop
      ⟨0, text "local mode\n" ++ printed ++ returned rc, []⟩
    else if cargs.mode = modeScli then
      let (printed, rc) := calls.execRemoteCmdLoop cargs.ip cargs.port
      ⟨0, text "socket client mode:  " ++ address ++ printed ++ returned rc, []⟩
    else if cargs.mode = modeSsvr then
      let (printed, rc) := calls.startServer cargs.ip cargs.port cargs.threadedServer
      ⟨0, text "socket server mode:  " ++ address ++
        (if cargs.threadedServer ≠ 0 then text "-> Multi-Threaded Mode\n" else text "-> Single-Threaded Mode\n") ++
        printed ++ returned rc, []⟩
    else ⟨1, text "error unknown mode\n", []⟩

/-! ### What options go together -/

/-- The interface or the address that goes with a mode. -/
def defaultIp (mode : Int32) : List UInt8 := if mode = modeScli then rdshDefCliConnect else rdshDefSvrIntface

/-- The mode that an option chooses. -/
def chosen : Found → Option Int32
  | .flag opt => if opt = 'c'.toUInt8 then some modeScli else if opt = 's'.toUInt8 then some modeSsvr else none
  | _ => none

/-- An option that can follow the one for the mode. -/
def Fits (mode : Int32) : Found → Prop
  | .flag opt => opt = 'x'.toUInt8 ∧ mode = modeSsvr
  | .valued opt optarg => opt = 'i'.toUInt8 ∨ opt = 'p'.toUInt8 ∧ 0 < atoi optarg
  | .invalid _ | .missing _ => False

instance (mode : Int32) : (found : Found) → Decidable (Fits mode found)
  | .flag opt => inferInstanceAs (Decidable (opt = 'x'.toUInt8 ∧ mode = modeSsvr))
  | .valued opt optarg => inferInstanceAs (Decidable (opt = 'i'.toUInt8 ∨ opt = 'p'.toUInt8 ∧ 0 < atoi optarg))
  | .invalid _ | .missing _ => inferInstanceAs (Decidable False)

/-- No options, or one for the mode and behind it what that mode can take. -/
def Allowed : List Found → Prop
  | [] => True
  | first :: rest => ∃ mode, chosen first = some mode ∧ ∀ found ∈ rest, Fits mode found

def argumentOf (letter : UInt8) : Found → Option (List UInt8)
  | .valued opt optarg => if opt = letter then some optarg else none
  | _ => none

/-- The argument of the last option with the letter. -/
def lastOf (letter : UInt8) (options : List Found) : Option (List UInt8) :=
  (options.filterMap (argumentOf letter)).getLast?

/-- The buffer for the address with its first 15 bytes in it. -/
def ipField (address : List UInt8) : List UInt8 := strncpy (ipSz - 1) address ++ [0]

/-- What a mode and the options behind it say together. -/
def settings (mode : Int32) (options : List Found) : CmdArgs where
  mode := mode
  ip := ipField ((lastOf 'i'.toUInt8 options).getD (defaultIp mode))
  port := ((lastOf 'p'.toUInt8 options).map atoi).getD rdshDefPort
  threadedServer := if .flag 'x'.toUInt8 ∈ options then 1 else 0

def configured : List Found → CmdArgs
  | [] => defaults
  | first :: rest => settings ((chosen first).getD modeLcli) rest

/-- The answer to an option that does not go with those `before` it. -/
def objection (progname : List UInt8) (before : List Found) : Found → Stop
  | .flag opt =>
    if opt = 'c'.toUInt8 ∨ opt = 's'.toUInt8 then refuse "Error: Cannot use both -c and -s\n"
    else if opt = 'x'.toUInt8 then refuse "Error: -x can only be used with -s\n"
    else printUsage progname []
  | .valued opt _ =>
    if opt = 'i'.toUInt8 then refuse "Error: -i can only be used with -c or -s\n"
    else if opt = 'p'.toUInt8 then
      refuse (if before = [] then "Error: -p can only be used with -c or -s\n" else "Error: Invalid port number\n")
    else printUsage progname []
  | .invalid letter => printUsage progname ((Found.invalid letter).complaint progname)
  | .missing letter => printUsage progname ((Found.missing letter).complaint progname)

theorem allowed_append {before after : List Found} (allowed : Allowed (before ++ after)) : Allowed before := by
  cases before with
  | nil => trivial
  | cons first rest =>
    obtain ⟨mode, chooses, fit⟩ := allowed
    exact ⟨mode, chooses, fun found member => fit found (List.mem_append_left _ member)⟩

/-- The last byte of the buffer stays the NUL it is at the beginning. -/
theorem copyIp_ipField (old address : List UInt8) : copyIp (ipField old) address = ipField address := by
  simp [copyIp, ipField, memcpy, ipSz]

theorem copyIp_zeros (address : List UInt8) : copyIp (List.replicate ipSz 0) address = ipField address := by
  simp [copyIp, ipField, memcpy, ipSz]

theorem set_ipField (address : List UInt8) : (ipField address).set (ipSz - 1) 0 = ipField address := by
  simp [ipField, ipSz]

/-! ### One option -/

theorem lastOf_valued (letter : UInt8) (options : List Found) (opt : UInt8) (optarg : List UInt8) :
    lastOf letter (options ++ [.valued opt optarg]) = if opt = letter then some optarg else lastOf letter options := by
  by_cases same : opt = letter <;> simp [lastOf, argumentOf, List.filterMap_append, same]

theorem lastOf_flag (letter : UInt8) (options : List Found) (opt : UInt8) :
    lastOf letter (options ++ [.flag opt]) = lastOf letter options := by
  simp [lastOf, argumentOf, List.filterMap_append]

theorem settings_nil (mode : Int32) : settings mode [] = ⟨mode, ipField (defaultIp mode), rdshDefPort, 0⟩ := rfl

theorem settings_i (mode : Int32) (options : List Found) (optarg : List UInt8) :
    settings mode (options ++ [.valued 'i'.toUInt8 optarg]) = { settings mode options with ip := ipField optarg } := by
  simp [settings, lastOf_valued, Char.toUInt8]

theorem settings_p (mode : Int32) (options : List Found) (optarg : List UInt8) :
    settings mode (options ++ [.valued 'p'.toUInt8 optarg]) = { settings mode options with port := atoi optarg } := by
  simp [settings, lastOf_valued, Char.toUInt8]

theorem settings_x (mode : Int32) (options : List Found) :
    settings mode (options ++ [.flag 'x'.toUInt8]) = { settings mode options with threadedServer := 1 } := by
  simp [settings, lastOf_flag]

/-- Behind the option for the mode, an option that fits is taken, and one that
does not ends the program. -/
theorem parseOpt_settings (progname : List UInt8) {mode : Int32} (remote : mode ≠ modeLcli) (options : List Found)
    (found first : Found) :
    parseOpt progname (settings mode options) found =
      if Fits mode found then .ok (settings mode (options ++ [found]))
      else .error (objection progname (first :: options) found) := by
  have ip : (settings mode options).ip = ipField ((lastOf 'i'.toUInt8 options).getD (defaultIp mode)) := rfl
  have same : (settings mode options).mode = mode := rfl
  cases found with
  | flag opt =>
    by_cases c : opt = 'c'.toUInt8
    · subst c
      simp [parseOpt, Fits, objection, same, remote, Char.toUInt8]
    by_cases s : opt = 's'.toUInt8
    · subst s
      simp [parseOpt, Fits, objection, same, remote, Char.toUInt8]
    by_cases x : opt = 'x'.toUInt8
    · subst x
      by_cases server : mode = modeSsvr
      · subst server
        simp [parseOpt, Fits, same, c, s, settings_x]
      · simp [parseOpt, Fits, objection, same, server, c, s]
    · simp [parseOpt, Fits, objection, c, s, x]
  | valued opt optarg =>
    by_cases i : opt = 'i'.toUInt8
    · subst i
      simp [parseOpt, Fits, same, remote, ip, copyIp_ipField, set_ipField, settings_i]
    by_cases p : opt = 'p'.toUInt8
    · subst p
      by_cases positive : 0 < atoi optarg
      · simp [parseOpt, Fits, same, remote, positive, i, settings_p]
      · simp [parseOpt, Fits, objection, same, remote, positive, i]
    · simp [parseOpt, Fits, objection, i, p]
  | invalid letter => simp [parseOpt, Fits, objection]
  | missing letter => simp [parseOpt, Fits, objection]

/-- The first option has to choose the mode. -/
theorem parseOpt_defaults (progname : List UInt8) (found : Found) :
    (∀ mode, chosen found = some mode → parseOpt progname defaults found = .ok (settings mode [])) ∧
      (chosen found = none → parseOpt progname defaults found = .error (objection progname [] found)) := by
  cases found with
  | flag opt =>
    by_cases c : opt = 'c'.toUInt8
    · subst c
      simp [parseOpt, chosen, defaults, copyIp_zeros, settings_nil, defaultIp]
    by_cases s : opt = 's'.toUInt8
    · subst s
      have server : modeSsvr ≠ modeScli := by decide
      simp [parseOpt, chosen, defaults, copyIp_zeros, settings_nil, defaultIp, c, server]
    by_cases x : opt = 'x'.toUInt8
    · subst x
      have server : modeLcli ≠ modeSsvr := by decide
      simp [parseOpt, chosen, objection, defaults, server, c, s]
    · simp [parseOpt, chosen, objection, c, s, x]
  | valued opt optarg =>
    by_cases i : opt = 'i'.toUInt8
    · subst i
      simp [parseOpt, chosen, objection, defaults, Char.toUInt8]
    by_cases p : opt = 'p'.toUInt8
    · subst p
      simp [parseOpt, chosen, objection, defaults, Char.toUInt8]
    · simp [parseOpt, chosen, objection, i, p]
  | invalid letter => simp [parseOpt, chosen, objection]
  | missing letter => simp [parseOpt, chosen, objection]

/-! ### All options -/

theorem chosen_remote {found : Found} (chooses : chosen found = some mode) : mode = modeScli ∨ mode = modeSsvr := by
  cases found with
  | flag opt =>
    simp only [chosen] at chooses
    split at chooses
    · exact .inl (Option.some.inj chooses).symm
    · split at chooses
      · exact .inr (Option.some.inj chooses).symm
      · cases chooses
  | _ => cases chooses

theorem ne_lcli (remote : mode = modeScli ∨ mode = modeSsvr) : mode ≠ modeLcli := by
  rcases remote with rfl | rfl <;> decide

/-- One call of `getopt` more: the option is allowed behind those before it, or
is the one that is objected to. -/
theorem parseOpt_configured (progname : List UInt8) {before : List Found} (allowed : Allowed before) (found : Found) :
    (Allowed (before ++ [found]) ∧ parseOpt progname (configured before) found = .ok (configured (before ++ [found]))) ∨
    (¬ Allowed (before ++ [found]) ∧
      parseOpt progname (configured before) found = .error (objection progname before found)) := by
  cases before with
  | nil =>
    have read := parseOpt_defaults progname found
    cases choice : chosen found with
    | none =>
      refine .inr ⟨?_, read.2 choice⟩
      rintro ⟨mode, chooses, -⟩
      simp [choice] at chooses
    | some mode =>
      exact .inl ⟨⟨mode, choice, List.forall_mem_nil _⟩, by simpa [configured, choice] using read.1 mode choice⟩
  | cons first rest =>
    obtain ⟨mode, chooses, fit⟩ := allowed
    have read := parseOpt_settings progname (ne_lcli (chosen_remote chooses)) rest found first
    have before : configured (first :: rest) = settings mode rest := by simp [configured, chooses]
    have more : configured (first :: rest ++ [found]) = settings mode (rest ++ [found]) := by simp [configured, chooses]
    rw [before, more]
    by_cases fits : Fits mode found
    · rw [if_pos fits] at read
      exact .inl ⟨⟨mode, chooses, by simpa [or_imp, forall_and] using ⟨fit, fits⟩⟩, read⟩
    · rw [if_neg fits] at read
      refine .inr ⟨?_, read⟩
      rintro ⟨mode', chooses', fit'⟩
      cases chooses.symm.trans chooses'
      exact fits (fit' found (by simp))

theorem loop_allowed (progname : List UInt8) {options : List Found} (allowed : Allowed options) :
    options.foldlM (parseOpt progname) defaults = .ok (configured options) := by
  induction options using List.reverseRecOn with
  | nil => rfl
  | append_singleton options last ih =>
    have before := allowed_append allowed
    rw [List.foldlM_append, ih before]
    rcases parseOpt_configured progname before last with ⟨_, step⟩ | ⟨stops, _⟩
    · show [last].foldlM (parseOpt progname) (configured options) = _
      rw [List.foldlM_cons, step]
      rfl
    · exact absurd allowed stops

/-- The first option that is not allowed is the last one that is read. -/
theorem loop_stops (progname : List UInt8) {before : List Found} (allowed : Allowed before) {found : Found}
    (stops : ¬ Allowed (before ++ [found])) (after : List Found) :
    (before ++ found :: after).foldlM (parseOpt progname) defaults = .error (objection progname before found) := by
  rw [List.foldlM_append, loop_allowed progname allowed]
  rcases parseOpt_configured progname allowed found with ⟨goesOn, _⟩ | ⟨_, step⟩
  · exact absurd goesOn stops
  · show (found :: after).foldlM (parseOpt progname) (configured before) = _
    rw [List.foldlM_cons, step]
    rfl

theorem first_misfit {options : List Found} (refused : ¬ Allowed options) :
    ∃ before found after, options = before ++ found :: after ∧ Allowed before ∧ ¬ Allowed (before ++ [found]) := by
  induction options using List.reverseRecOn with
  | nil => exact absurd trivial refused
  | append_singleton options last ih =>
    by_cases allowed : Allowed options
    · exact ⟨options, last, [], rfl, allowed, refused⟩
    · obtain ⟨before, found, after, rfl, fine, stops⟩ := ih allowed
      exact ⟨before, found, after ++ [last], by simp, fine, stops⟩

/-- The options of a command line, as `parse_args` gets them. -/
def optionsOf (posixlyCorrect : Bool) (args : List (List UInt8)) : List Found :=
  (getopt optstring posixlyCorrect none args).1

theorem threaded_server {options : List Found} (allowed : Allowed options)
    (threaded : (configured options).threadedServer ≠ 0) : (configured options).mode = modeSsvr := by
  cases options with
  | nil => exact absurd rfl threaded
  | cons first rest =>
    obtain ⟨mode, chooses, fit⟩ := allowed
    simp only [configured, chooses, Option.getD_some, settings] at threaded ⊢
    by_cases asked : Found.flag 'x'.toUInt8 ∈ rest
    · exact (fit _ asked).2
    · simp [asked] at threaded

/-- The check behind the loop has nothing left to find. -/
theorem parseArgs_allowed (progname : List UInt8) {posixlyCorrect : Bool} {args : List (List UInt8)}
    (allowed : Allowed (optionsOf posixlyCorrect args)) :
    parseArgs progname posixlyCorrect args = .ok (configured (optionsOf posixlyCorrect args)) := by
  have read := loop_allowed progname allowed
  rw [optionsOf] at read
  rw [parseArgs, read]
  exact if_neg fun unserved => unserved.2 (threaded_server allowed unserved.1)

theorem parseArgs_stops (progname : List UInt8) {posixlyCorrect : Bool} {args : List (List UInt8)}
    {before after : List Found} {found : Found} (read : optionsOf posixlyCorrect args = before ++ found :: after)
    (allowed : Allowed before) (stops : ¬ Allowed (before ++ [found])) :
    parseArgs progname posixlyCorrect args = .error (objection progname before found) := by
  rw [optionsOf] at read
  rw [parseArgs, read, loop_stops progname allowed stops]

theorem parseArgs_ok_iff (progname : List UInt8) (posixlyCorrect : Bool) (args : List (List UInt8)) (cargs : CmdArgs) :
    parseArgs progname posixlyCorrect args = .ok cargs ↔
      Allowed (optionsOf posixlyCorrect args) ∧ cargs = configured (optionsOf posixlyCorrect args) := by
  constructor
  · intro starts
    by_cases allowed : Allowed (optionsOf posixlyCorrect args)
    · exact ⟨allowed, Except.ok.inj (starts.symm.trans (parseArgs_allowed progname allowed))⟩
    · obtain ⟨before, found, after, read, fine, stops⟩ := first_misfit allowed
      cases starts.symm.trans (parseArgs_stops progname read fine stops)
  · rintro ⟨allowed, rfl⟩
    exact parseArgs_allowed progname allowed

theorem optionsOf_written {posixlyCorrect : Bool} {parts : List Part} {after args : List (List UInt8)}
    (written : Written optstring posixlyCorrect parts after args) :
    optionsOf posixlyCorrect args = parts.flatMap Part.options := by
  rw [optionsOf, getopt_written written]

theorem clean_of_allowed {options : List Found} (allowed : Allowed options) : ∀ found ∈ options, found.Clean := by
  cases options with
  | nil => simp
  | cons first rest =>
    obtain ⟨mode, chooses, fit⟩ := allowed
    refine List.forall_mem_cons.mpr ⟨?_, ?_⟩
    · cases first <;> trivial
    · intro found member
      have fits := fit found member
      cases found <;> trivial

/-- The program gets to run with a configuration exactly when its command line
is written from parts, in clusters or not and with operands between them, whose
options are none or one of -c and -s before all others: with either, any -i and
any -p above 0, and -x with -s only. Of -i and of -p the last one counts. -/
theorem starts_iff (progname : List UInt8) (posixlyCorrect : Bool) (args : List (List UInt8)) (cargs : CmdArgs) :
    parseArgs progname posixlyCorrect args = .ok cargs ↔
      ∃ parts after, Written optstring posixlyCorrect parts after args ∧ Allowed (parts.flatMap Part.options) ∧
        cargs = configured (parts.flatMap Part.options) := by
  rw [parseArgs_ok_iff]
  constructor
  · rintro ⟨allowed, configures⟩
    obtain ⟨parts, after, written⟩ := written_of_getopt args (clean_of_allowed allowed)
    rw [optionsOf_written written] at allowed configures
    exact ⟨parts, after, written, allowed, configures⟩
  · rintro ⟨parts, after, written, allowed, configures⟩
    rw [optionsOf_written written]
    exact ⟨allowed, configures⟩

/-- In a cluster, behind an operand; -x before -s is refused. -/
example : parseArgs (text "dsh") false [text "file", text "-sxp80"] = .ok ⟨modeSsvr, ipField (text "0.0.0.0"), 80, 1⟩ ∧
    parseArgs (text "dsh") false [text "-xs"] = .error (refuse "Error: -x can only be used with -s\n") := by
  decide +kernel

/-! ### The exit status -/

theorem plain_letters {letter : UInt8} (plain : kind optstring letter = .plain) :
    letter = 'c'.toUInt8 ∨ letter = 's'.toUInt8 ∨ letter = 'x'.toUInt8 ∨ letter = 'h'.toUInt8 := by
  have all : ∀ l ∈ optstring, kind optstring l = .plain →
      l = 'c'.toUInt8 ∨ l = 's'.toUInt8 ∨ l = 'x'.toUInt8 ∨ l = 'h'.toUInt8 := by decide +kernel
  exact all letter (mem_of_kind (by simp [plain])) plain

theorem argument_letters {letter : UInt8} (takes : kind optstring letter = .withArgument) :
    letter = 'i'.toUInt8 ∨ letter = 'p'.toUInt8 := by
  have all : ∀ l ∈ optstring, kind optstring l = .withArgument → l = 'i'.toUInt8 ∨ l = 'p'.toUInt8 := by decide +kernel
  exact all letter (mem_of_kind (by simp [takes])) takes

/-- An option that the program knows, and is not asked for its usage with. -/
def Misused (found : Found) : Prop := found.Clean ∧ found ≠ .flag 'h'.toUInt8

theorem status_objection (progname : List UInt8) (before : List Found) {found : Found} (known : found.Known optstring) :
    (Misused found → (objection progname before found).status = 1) ∧
      (¬ Misused found → (objection progname before found).status = 0) := by
  cases found with
  | flag opt =>
    rcases plain_letters known with rfl | rfl | rfl | rfl <;>
      simp [objection, refuse, printUsage, Misused, Found.Clean, Char.toUInt8]
  | valued opt optarg =>
    rcases argument_letters known with rfl | rfl <;>
      simp [objection, refuse, Misused, Found.Clean, Char.toUInt8]
  | invalid letter => simp [objection, printUsage, Misused, Found.Clean]
  | missing letter => simp [objection, printUsage, Misused, Found.Clean]

theorem mode_configured {options : List Found} (allowed : Allowed options) :
    (configured options).mode = modeLcli ∨ (configured options).mode = modeScli ∨
      (configured options).mode = modeSsvr := by
  cases options with
  | nil => exact .inl rfl
  | cons first rest =>
    obtain ⟨mode, chooses, -⟩ := allowed
    simpa [configured, chooses, settings] using .inr (chosen_remote chooses)

/-- The first option that does not go with those before it is misused. -/
def StopsAtMisuse (options : List Found) : Prop :=
  ∃ before found after, options = before ++ found :: after ∧ Allowed before ∧ ¬ Allowed (before ++ [found]) ∧
    Misused found

theorem status_started (calls : Calls) (progname : List UInt8) {posixlyCorrect : Bool} {args : List (List UInt8)}
    (allowed : Allowed (optionsOf posixlyCorrect args)) : (main calls progname posixlyCorrect args).status = 0 := by
  rw [main, parseArgs_allowed progname allowed]
  rcases mode_configured allowed with mode | mode | mode <;> simp [mode, modeLcli, modeScli, modeSsvr]

/-- The first option that does not go with those before it is the only one. -/
theorem misuse_first {before rest other later : List Found} {found misused : Found} (fine : Allowed before)
    (stops : ¬ Allowed (before ++ [found])) (allowed : Allowed other) (refused : ¬ Allowed (other ++ [misused]))
    (same : before ++ found :: rest = other ++ misused :: later) : found = misused := by
  rcases List.append_eq_append_iff.mp same with ⟨middle, rfl, tail⟩ | ⟨middle, rfl, tail⟩
  · cases middle with
    | nil => exact (List.cons.inj tail).1
    | cons head middle =>
      obtain ⟨rfl, -⟩ := List.cons.inj tail
      have whole : before ++ found :: middle = before ++ [found] ++ middle := by simp
      exact absurd (allowed_append (whole ▸ allowed)) stops
  · cases middle with
    | nil => exact (List.cons.inj tail).1.symm
    | cons head middle =>
      obtain ⟨rfl, -⟩ := List.cons.inj tail
      have whole : other ++ misused :: middle = other ++ [misused] ++ middle := by simp
      exact absurd (allowed_append (whole ▸ fine)) refused

/-- The program exits with 1 exactly when the first option that does not go with
those before it is one that it knows. Its usage, wrong options, and every loop
and server that it runs, however these return, end with 0. -/
theorem exit_status_iff (calls : Calls) (progname : List UInt8) (posixlyCorrect : Bool) (args : List (List UInt8)) :
    ((main calls progname posixlyCorrect args).status = 1 ↔ StopsAtMisuse (optionsOf posixlyCorrect args)) ∧
      ((main calls progname posixlyCorrect args).status = 0 ↔ ¬ StopsAtMisuse (optionsOf posixlyCorrect args)) := by
  have known : ∀ found ∈ optionsOf posixlyCorrect args, found.Known optstring := known_getopt none args (by simp)
  have decided :
      (StopsAtMisuse (optionsOf posixlyCorrect args) ∧ (main calls progname posixlyCorrect args).status = 1) ∨
      (¬ StopsAtMisuse (optionsOf posixlyCorrect args) ∧ (main calls progname posixlyCorrect args).status = 0) := by
    by_cases allowed : Allowed (optionsOf posixlyCorrect args)
    · refine .inr ⟨?_, status_started calls progname allowed⟩
      rintro ⟨before, found, after, read, -, stops, -⟩
      rw [read, ← List.singleton_append, ← List.append_assoc] at allowed
      exact absurd (allowed_append allowed) stops
    · obtain ⟨before, found, after, read, fine, stops⟩ := first_misfit allowed
      have status := status_objection progname before (known found (by rw [read]; simp))
      rw [main, parseArgs_stops progname read fine stops]
      by_cases misused : Misused found
      · exact .inl ⟨⟨before, found, after, read, fine, stops, misused⟩, status.1 misused⟩
      · refine .inr ⟨?_, status.2 misused⟩
        rintro ⟨other, culprit, later, again, accepted, refused, blamed⟩
        rw [misuse_first fine stops accepted refused (read.symm.trans again)] at misused
        exact misused blamed
  rcases decided with ⟨stops, status⟩ | ⟨usual, status⟩
  · simp [stops, status]
  · simp [usual, status]

/-! ### Configurations -/

/-- Everything that the program can be told to be. -/
def Startable (cargs : CmdArgs) : Prop :=
  cargs = defaults ∨
    (cargs.mode = modeScli ∨ cargs.mode = modeSsvr) ∧ cargs.ip = ipField (cString cargs.ip) ∧ 0 < cargs.port ∧
      (cargs.threadedServer = 0 ∨ cargs.threadedServer = 1 ∧ cargs.mode = modeSsvr)

instance (cargs : CmdArgs) : Decidable (Startable cargs) := by unfold Startable; infer_instance

/-- A command line for a configuration. -/
def commandLine (cargs : CmdArgs) : List Part :=
  if cargs.mode = modeLcli then []
  else [
    .flags [if cargs.mode = modeScli then 'c'.toUInt8 else 's'.toUInt8],
    .spaced (if cargs.threadedServer = 0 then [] else ['x'.toUInt8]) 'i'.toUInt8 (cString cargs.ip),
    .spaced [] 'p'.toUInt8 (text (toString cargs.port.toInt.toNat))]

theorem cString_ipField (address : List UInt8) : cString (ipField address) = (cString address).take (ipSz - 1) := by
  have free : NulFree ((cString address).take (ipSz - 1)) := (nulFree_cString address).take
  rw [ipField, strncpy, List.append_assoc, ← List.replicate_succ', List.replicate_succ]
  exact cString_terminated free

theorem ipField_cString (address : List UInt8) : ipField (cString (ipField address)) = ipField address := by
  have free : NulFree ((cString address).take (ipSz - 1)) := (nulFree_cString address).take
  rw [cString_ipField, ipField, ipField, strncpy, strncpy, cString_of_nulFree free, List.take_take, min_self]

theorem mem_of_lastOf {letter : UInt8} {options : List Found} {optarg : List UInt8}
    (last : lastOf letter options = some optarg) : .valued letter optarg ∈ options := by
  obtain ⟨found, member, argument⟩ := List.mem_filterMap.mp (List.mem_of_getLast? last)
  cases found with
  | valued opt arg =>
    simp only [argumentOf, Option.ite_none_right_eq_some, Option.some.injEq] at argument
    obtain ⟨rfl, rfl⟩ := argument
    exact member
  | _ => cases argument

theorem atoi_port {port : Int32} (positive : 0 < port) : atoi (text (toString port.toInt.toNat)) = port := by
  have signed : 0 < port.toInt := Int32.lt_iff_toInt_lt.mp positive
  have small := port.toInt_lt
  apply Int32.toInt_inj.mp
  rw [atoi_text (by omega), Int.toNat_of_nonneg signed.le]

theorem startable_settings {mode : Int32} (remote : mode = modeScli ∨ mode = modeSsvr) {options : List Found}
    (fit : ∀ found ∈ options, Fits mode found) : Startable (settings mode options) := by
  refine .inr ⟨remote, (ipField_cString _).symm, ?_, ?_⟩
  · show 0 < ((lastOf 'p'.toUInt8 options).map atoi).getD rdshDefPort
    cases last : lastOf 'p'.toUInt8 options with
    | none => decide
    | some optarg =>
      rcases fit _ (mem_of_lastOf last) with other | ⟨_, positive⟩
      · exact absurd other (by decide)
      · exact positive
  · by_cases asked : Found.flag 'x'.toUInt8 ∈ options
    · exact .inr ⟨if_pos asked, (fit _ asked).2⟩
    · exact .inl (if_neg asked)

theorem settings_written (mode : Int32) (threads : List UInt8) (address digits : List UInt8) :
    settings mode (threads.map .flag ++ [.valued 'i'.toUInt8 address, .valued 'p'.toUInt8 digits]) =
      ⟨mode, ipField address, atoi digits, if 'x'.toUInt8 ∈ threads then 1 else 0⟩ := by
  have before : settings mode (threads.map .flag ++ [.valued 'i'.toUInt8 address, .valued 'p'.toUInt8 digits]) =
      settings mode ((threads.map .flag ++ [.valued 'i'.toUInt8 address]) ++ [.valued 'p'.toUInt8 digits]) := by simp
  rw [before, settings_p, settings_i]
  simp [settings]

theorem line_proper (posixlyCorrect : Bool) {letter : UInt8} (plain : kind optstring letter = .plain)
    (notDash : letter ≠ dash) {threads : List UInt8} (flags : ∀ l ∈ threads, kind optstring l = .plain)
    (address digits : List UInt8) :
    ∀ part ∈ [Part.flags [letter], .spaced threads 'i'.toUInt8 address, .spaced [] 'p'.toUInt8 digits],
      part.Proper optstring posixlyCorrect := by
  have i : kind optstring 'i'.toUInt8 = .withArgument := by decide +kernel
  have p : kind optstring 'p'.toUInt8 = .withArgument := by decide +kernel
  have end_i : threads ++ ['i'.toUInt8] ≠ [dash] := by
    intro same
    have := (List.append_eq_singleton_iff.mp same)
    simp [dash, Char.toUInt8] at this
  have end_p : 'p'.toUInt8 ≠ dash := by decide
  simpa [Part.Proper, plain, notDash, i, p, end_i, end_p] using flags

theorem line_reads (progname : List UInt8) (posixlyCorrect : Bool) {letter : UInt8} {mode : Int32}
    (chooses : chosen (.flag letter) = some mode) {threads : List UInt8}
    (served : ∀ l ∈ threads, l = 'x'.toUInt8 ∧ mode = modeSsvr) (address : List UInt8) {digits : List UInt8}
    (positive : 0 < atoi digits) :
    parseArgs progname posixlyCorrect
      ([Part.flags [letter], .spaced threads 'i'.toUInt8 address, .spaced [] 'p'.toUInt8 digits].flatMap Part.written) =
      .ok ⟨mode, ipField address, atoi digits, if 'x'.toUInt8 ∈ threads then 1 else 0⟩ := by
  have plain : kind optstring letter = .plain ∧ letter ≠ dash := by
    by_cases c : letter = 'c'.toUInt8
    · subst c
      decide +kernel
    · by_cases s : letter = 's'.toUInt8
      · subst s
        decide +kernel
      · simp [chosen, c, s] at chooses
  have flags : ∀ l ∈ threads, kind optstring l = .plain := by
    intro l member
    rw [(served l member).1]
    decide +kernel
  have written : Written optstring posixlyCorrect
      [Part.flags [letter], .spaced threads 'i'.toUInt8 address, .spaced [] 'p'.toUInt8 digits] [] _ :=
    ⟨line_proper posixlyCorrect plain.1 plain.2 flags address digits, [], .none, (List.append_nil _).symm⟩
  have options :
      [Part.flags [letter], .spaced threads 'i'.toUInt8 address, .spaced [] 'p'.toUInt8 digits].flatMap Part.options =
        .flag letter :: (threads.map .flag ++ [.valued 'i'.toUInt8 address, .valued 'p'.toUInt8 digits]) := by
    simp [Part.options]
  rw [parseArgs_ok_iff, optionsOf_written written, options]
  constructor
  · refine ⟨mode, chooses, List.forall_mem_append.mpr ⟨List.forall_mem_map.mpr served, ?_⟩⟩
    exact List.forall_mem_cons.mpr ⟨.inl rfl, List.forall_mem_singleton.mpr (.inr ⟨rfl, positive⟩)⟩
  · rw [configured, chooses, Option.getD_some, settings_written]

/-- What a configuration is written as is read as that configuration. -/
theorem commandLine_reads (progname : List UInt8) (posixlyCorrect : Bool) {cargs : CmdArgs}
    (startable : Startable cargs) :
    parseArgs progname posixlyCorrect ((commandLine cargs).flatMap Part.written) = .ok cargs := by
  rcases startable with rfl | ⟨remote, ip, positive, threaded⟩
  · exact (parseArgs_ok_iff ..).mpr ⟨trivial, rfl⟩
  obtain ⟨mode, address, port, threadedServer⟩ := cargs
  simp only at remote ip positive threaded
  have number := atoi_port positive
  have line : 0 < atoi (text (toString port.toInt.toNat)) := by rwa [number]
  rcases remote with rfl | rfl
  · rcases threaded with rfl | ⟨-, server⟩
    · have read := @line_reads progname posixlyCorrect 'c'.toUInt8 modeScli (by decide) [] (by simp) (cString address) _
        line
      rw [← ip, number] at read
      exact read
    · exact absurd server (by decide)
  · have read (threads : List UInt8) (served : ∀ l ∈ threads, l = 'x'.toUInt8 ∧ modeSsvr = modeSsvr) :=
      @line_reads progname posixlyCorrect 's'.toUInt8 modeSsvr (by decide) threads served (cString address) _ line
    rw [← ip, number] at read
    rcases threaded with rfl | ⟨rfl, -⟩
    · exact read [] (by simp)
    · exact read ['x'.toUInt8] (by simp)

/-- The configurations that command lines lead to are those that can be written
as one, and each is what its own command line leads to. -/
theorem started_iff_startable (progname : List UInt8) (posixlyCorrect : Bool) (cargs : CmdArgs) :
    ((∃ args, parseArgs progname posixlyCorrect args = .ok cargs) ↔ Startable cargs) ∧
      (Startable cargs ↔ parseArgs progname posixlyCorrect ((commandLine cargs).flatMap Part.written) = .ok cargs) := by
  have led : (∃ args, parseArgs progname posixlyCorrect args = .ok cargs) → Startable cargs := by
    rintro ⟨args, starts⟩
    obtain ⟨allowed, rfl⟩ := (parseArgs_ok_iff ..).mp starts
    generalize optionsOf posixlyCorrect args = options at allowed
    cases options with
    | nil => exact .inl rfl
    | cons first rest =>
      obtain ⟨mode, chooses, fit⟩ := allowed
      rw [configured, chooses, Option.getD_some]
      exact startable_settings (chosen_remote chooses) fit
  have written := @commandLine_reads progname posixlyCorrect cargs
  exact ⟨⟨led, fun startable => ⟨_, written startable⟩⟩, written, fun starts => led ⟨_, starts⟩⟩

end SysProg.StartupOptions
