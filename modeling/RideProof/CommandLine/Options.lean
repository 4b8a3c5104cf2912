import RideProof.Settings

/-!
# Arguments of the program

* `commands` — the commands with their options.
* `Invocation.parse` — what arguments ask for.

An option takes its value after an equals sign, or as the next argument, unless that starts with a
dash; no option may be given twice. The flag for the test mode may stand before and after the name
of the command. Arguments are read one by one, and the first that asks for help, or is a mistake,
decides.
-/

namespace RideProof

/-! ## Commands and their options -/

/-- What follows the name of an option. -/
inductive OptionKind
  /-- Nothing. -/
  | flag
  /-- Any text. -/
  | text
  /-- A path, which is not empty. -/
  | path
  /-- A 32-bit word. -/
  | word
  deriving DecidableEq, Repr

/-- An option. -/
structure OptionSpec where
  /-- Its name, after two dashes. -/
  name : String
  /-- What follows it. -/
  kind : OptionKind
  /-- What it is for; an option may explain itself. -/
  about : String
  deriving DecidableEq, Repr

/-- A command. -/
structure CommandSpec where
  /-- Its name. -/
  name : String
  /-- What it does. -/
  about : String
  /-- Its options, in the order in which they are listed. -/
  options : List OptionSpec
  deriving DecidableEq, Repr

/-- The flag for the test mode, which all commands have. -/
def testModeFlag : OptionSpec :=
  ⟨"test-mode", .flag, "Use the flat test course instead of the standard rules"⟩

/-- The options of a search for a nonce. -/
def searchOptions : List OptionSpec :=
  [⟨"start-nonce", .word, ""⟩, ⟨"max-attempts", .word, ""⟩]

/-- The commands. -/
def commands : List CommandSpec :=
  [⟨"verify", "Verify `***WPoW:` lines (from --line, or one per line on stdin)",
      [⟨"line", .text, ""⟩, testModeFlag]⟩,
    ⟨"mine", "Search for a nonce that yields a playable course",
      testModeFlag ::
        ⟨"work", .text, "`***Work:` or `***GetWork:` line; zero work when absent"⟩ ::
        searchOptions⟩,
    ⟨"demo", "Play a scripted run (idle when no script is given) and print the result",
      testModeFlag :: ⟨"work", .text, ""⟩ :: ⟨"script", .path, "JSON demo script"⟩ ::
        searchOptions⟩,
    ⟨"constants", "Re-derive the physics constants and compare them with the built-in ones",
      [testModeFlag]⟩]

/-- The command with a name. -/
def commandNamed (name : String) : Option CommandSpec := commands.find? fun c => c.name == name

/-! ## What arguments ask for -/

/-- A command with the values of its options. -/
inductive Command
  /-- Verify the ride of one line, or of each line of the input. -/
  | verify (line : Option String)
  /-- Search for a playable course. -/
  | mine (work : Option String) (startNonce maxAttempts : Option UInt32)
  /-- Play a script. -/
  | demo (work script : Option String) (startNonce maxAttempts : Option UInt32)
  /-- Derive the constants. -/
  | constants
  deriving DecidableEq, Repr

/-- What the arguments ask for. -/
structure Invocation where
  /-- Whether they ask for the test mode. -/
  testMode : Bool
  /-- The command. -/
  command : Command
  deriving DecidableEq, Repr

/-- What help is about. -/
inductive Topic
  /-- The program. -/
  | program
  /-- One of its commands. -/
  | command (c : CommandSpec)
  /-- The command that prints help. -/
  | help
  deriving DecidableEq, Repr

/-- The topic with a name. -/
def Topic.named (name : String) : Option Topic :=
  if name == "help" then some .help else (commandNamed name).map .command

/-- Why the arguments ask for nothing that can be run. -/
inductive Usage
  /-- They ask for help. -/
  | help (topic : Topic)
  /-- They are not understood. -/
  | mistake
  deriving DecidableEq, Repr

/-! ## Reading arguments -/

/-- Read a word that may have a sign. -/
def readSigned (s : String) : Option UInt32 :=
  match s.toList with
  | '-' :: cs => (readDigits cs).filter fun n => n == 0
  | _ => readWord s

/-- Whether a value may be given to an option. -/
def OptionKind.accepts : OptionKind → String → Bool
  | .flag, _ => false
  | .text, _ => true
  | .path, value => !value.isEmpty
  | .word, value => (readSigned value).isSome

/-- Options that were given, with their values. -/
structure GivenOptions where
  /-- The options, by name; a flag has an empty value. -/
  values : List (String × String)

namespace GivenOptions

/-- No options. -/
def empty : GivenOptions := ⟨[]⟩

/-- The value of an option. -/
def text (g : GivenOptions) (name : String) : Option String := g.values.lookup name

/-- The value of an option as a word. -/
def word (g : GivenOptions) (name : String) : Option UInt32 := (g.text name).bind readSigned

/-- Whether an option was given. -/
def has (g : GivenOptions) (name : String) : Bool := (g.text name).isSome

/-- Take an option in. -/
def add (g : GivenOptions) (name value : String) : GivenOptions := ⟨(name, value) :: g.values⟩

/-- An option that was taken in has its value. -/
@[simp] theorem text_add (g : GivenOptions) (name value : String) :
    (g.add name value).text name = some value := by
  simp [text, add]

end GivenOptions

/-- Whether an argument asks for help. The short form may have anything behind it. -/
def asksForHelp (arg : String) : Bool :=
  arg == "--help" ||
    match arg.toList with
    | '-' :: 'h' :: _ => true
    | _ => false

/-- A long option: its name, and its value if it has one after an equals sign. -/
def splitOption (arg : String) : Option (String × Option String) :=
  match arg.toList with
  | '-' :: '-' :: cs =>
    let name := String.ofList (cs.takeWhile (· ≠ '='))
    match cs.dropWhile (· ≠ '=') with
    | [] => some (name, none)
    | _ :: value => some (name, some (String.ofList value))
  | _ => none

/-- Whether an argument cannot be the value of the option before it. -/
def startsOption (arg : String) : Bool :=
  match arg.toList with
  | '-' :: _ :: _ => true
  | _ => false

/-- The option that an argument gives, if the command has it and it was not given before, with the
value in the argument. -/
def CommandSpec.option (c : CommandSpec) (g : GivenOptions) (arg : String) :
    Option (OptionSpec × Option String) := do
  let (name, value) ← splitOption arg
  let o ← c.options.find? fun o => o.name == name
  if g.has name then none else some (o, value)

/-- Read the options of a command. -/
def CommandSpec.parseOptions (c : CommandSpec) :
    List String → GivenOptions → Except Usage GivenOptions
  | [], g => .ok g
  | ["--"], g => .ok g
  | arg :: rest, g =>
    if asksForHelp arg then .error (.help (.command c))
    else
      match c.option g arg, rest with
      | some (o, some value), rest =>
        if o.kind.accepts value then c.parseOptions rest (g.add o.name value) else .error .mistake
      | some (⟨name, .flag, _⟩, none), rest => c.parseOptions rest (g.add name "")
      | some (o, none), value :: rest =>
        if o.kind.accepts value && !startsOption value then
          c.parseOptions rest (g.add o.name value)
        else .error .mistake
      | _, _ => .error .mistake

/-- The command with a name and options. -/
def Command.ofOptions (g : GivenOptions) : String → Command
  | "verify" => .verify (g.text "line")
  | "mine" => .mine (g.text "work") (g.word "start-nonce") (g.word "max-attempts")
  | "demo" =>
    .demo (g.text "work") (g.text "script") (g.word "start-nonce") (g.word "max-attempts")
  | _ => .constants

/-- What the arguments ask for; `testMode` says whether the flag has been seen. -/
def Invocation.parseFrom (testMode : Bool) : List String → Except Usage Invocation
  | [] => .error .mistake
  | ["help"] => .error (.help .program)
  | ["help", name] =>
    match Topic.named name with
    | some topic => .error (.help topic)
    | none => .error .mistake
  | "--test-mode" :: rest =>
    if testMode then .error .mistake else Invocation.parseFrom true rest
  | arg :: rest =>
    if asksForHelp arg then .error (.help .program)
    else
      match commandNamed arg with
      | none => .error .mistake
      | some c =>
        match c.parseOptions rest .empty with
        | .error e => .error e
        | .ok g => .ok ⟨testMode || g.has testModeFlag.name, Command.ofOptions g c.name⟩

/-- What the arguments ask for. -/
def Invocation.parse (args : List String) : Except Usage Invocation := parseFrom false args

end RideProof
