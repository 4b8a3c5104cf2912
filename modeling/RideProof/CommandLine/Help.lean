import RideProof.CommandLine.Options
import RideProof.Text.Column

/-!
# Help

A page of help says what its topic is for and how it is called, and lists in two columns what may
follow: commands, arguments and options.

* `Topic.page` — the page of a topic.
-/

namespace RideProof

/-- How the program is called. -/
def programName : String := "motoplay"

/-- What the value of an option is called: its name in capitals, with low lines for dashes. -/
def OptionSpec.valueName (o : OptionSpec) : String :=
  o.name.map fun c => if c = '-' then '_' else c.toUpper

/-- An option as it is written. It leaves room for a short form in front. -/
def OptionSpec.usage (o : OptionSpec) : String :=
  "    --" ++ o.name ++
    match o.kind with
    | .flag => ""
    | _ => " <" ++ o.valueName ++ ">"

/-- The rows of a list of options, of which help is the last. -/
def optionRows (options : List OptionSpec) : List (String × String) :=
  options.map (fun o => (o.usage, o.about)) ++ [("-h, --help", "Print help")]

/-- What the command that prints help does. -/
def helpAbout : String := "Print this message or the help of the given subcommand(s)"

/-- The rows of the list of commands, of which help is the last. -/
def commandRows : List (String × String) :=
  commands.map (fun c => (c.name, c.about)) ++ [("help", helpAbout)]

/-- A page of help, with lists under their titles. -/
def helpPage (about usage : String) (lists : List (String × List (String × String))) : String :=
  about ++ "\n\nUsage: " ++ programName ++ " " ++ usage ++ "\n" ++
    String.join (lists.map fun l => "\n" ++ l.1 ++ ":\n" ++ Text.twoColumns l.2)

/-- How the program is called with a command. -/
def programUsage : String := "[OPTIONS] <COMMAND>"

/-- The page of a topic. -/
def Topic.page : Topic → String
  | .program =>
    helpPage "Generate, play and verify Motocoin proof-of-play courses" programUsage
      [("Commands", commandRows), ("Options", optionRows [testModeFlag])]
  | .command c => helpPage c.about (c.name ++ " [OPTIONS]") [("Options", optionRows c.options)]
  | .help =>
    helpPage helpAbout "help [COMMAND]..."
      [("Arguments", [("[COMMAND]...", "Print help for the subcommand(s)")])]

/-- What is said to arguments that are not understood. -/
def mistakeText : String :=
  "error: the arguments are not understood\n\nUsage: " ++ programName ++ " " ++ programUsage ++ "\n"

end RideProof
