import Lisplet.CommandLine.Files
import Lisplet.CommandLine.Options
import Lisplet.Settings
import Lisplet.Value.Written

/-!
# The program

The program reads a file that holds the forms of a program and evaluates them, or only prints them
as they were read.  It prints the value, and writes the log and an error to the other channel.

The exit code is 0 if all went well, 1 if the text cannot be read as a program or the program breaks
a rule of the language, and 2 if the command line is wrong or the file cannot be loaded.  Any other
failure is none of the program's business and breaks it off; so does a value that takes more stack
levels to print than there are.

A limit beyond the room of the machine promises levels that are not there.  A run that is cut short
by the room and not by the limit has overrun the stack of the machine, and crashes.
-/

namespace Lisplet.CommandLine

inductive Ending where
  | exit (code : Nat)
  /-- broken off by a failure that it does not handle -/
  | broken (f : Failure)
  /-- by overrunning the stack of the machine -/
  | crashed

structure Report where
  ending : Ending
  output : String
  errors : String

def usage : String := "usage: minilisp [-h] [--parse-only] [-v] [--log-level LOG_LEVEL] file\n"

def helpText : String :=
  usage ++ "\nEvaluate a minilisp program.\n\n"
    ++ "positional arguments:\n"
    ++ "  file                  source file holding one compilation unit\n\n"
    ++ "options:\n"
    ++ "  -h, --help            show this help message and exit\n"
    ++ "  --parse-only          print the parsed forms instead of evaluating\n"
    ++ "  -v, --verbose         log at DEBUG level\n"
    ++ "  --log-level LOG_LEVEL\n"
    ++ "                        logging level name (overrides MINILISP_LOG_LEVEL)\n"

/-- the level of the log: what the options say, and otherwise what the variable says -/
def Options.level (o : Options) (given : Option String) : Level :=
  if o.verbose then .debug
  else match o.logLevel with
    | none => Settings.level given
    | some name => (Settings.levelOf? name).getD (Settings.level given)

/-- what happens to a text that has been loaded: its forms, or the value of the program -/
def Options.execute (o : Options) (s : Session) (text : String) : Except Failure Value × Session :=
  if o.parseOnly then
    let (r, s) := s.parse text
    (r.map .list, s)
  else s.runText o.file text

/-- what a failure does to the program: how it ends, and the line about it -/
def endingOf : Failure → Ending × String
  | .parse e => (.exit 1, "parse failed: " ++ e.text ++ "\n")
  | .eval e => (.exit 1, "error: " ++ e.message ++ "\n")
  | f => (.broken f, "")

def cutShort : Failure → Bool
  | .parse e => e.cause = .nestedTooDeeply
  | .eval .tooDeep => true
  | .exhausted _ => true
  | _ => false

/-- runs the program with options in a session; events from `level` on go to the log, and `crashes`
says whether the stack of the machine ends with the levels of the session -/
def Options.runIn (o : Options) (session : Session) (crashes : Bool) (level : Level)
    (read : Path → Except FileFault (List UInt8)) : Report :=
  let path := Path.ofText o.file
  let log (s : Session) : String := logText level.number s.world.trace.toList
  if path.hasNull then ⟨.broken (.fault .nullInName), "", log session⟩
  else match load (read path) with
    | .error f =>
      ⟨.exit 2, "", log session ++ "cannot read " ++ o.file ++ ": " ++ f.message path ++ "\n"⟩
    | .ok text =>
      let (r, s) := o.execute session text
      let output := printedText s.world.trace.toList
      match r.bind fun v => v.printed s.levels with
      | .ok shown => ⟨.exit 0, output ++ shown ++ "\n", log s⟩
      | .error e =>
        if crashes && cutShort e then ⟨.crashed, "", ""⟩
        else ⟨(endingOf e).1, output, log s ++ (endingOf e).2⟩

def Options.run (o : Options) (m : Machine) (vars : String → Option String)
    (read : Path → Except FileFault (List UInt8)) : Report :=
  match Settings.levels m (vars Settings.limitVariable) with
  | .error f => ⟨.broken f, "", ""⟩
  | .ok levels =>
    o.runIn (Session.new true (min levels m.room)) (decide (m.room < levels))
      (o.level (vars Settings.levelVariable)) read

def run (m : Machine) (args : List String) (vars : String → Option String)
    (read : Path → Except FileFault (List UInt8)) : Report :=
  match parse args with
  | .error e => ⟨.exit 2, "", usage ++ "minilisp: error: " ++ e.message ++ "\n"⟩
  | .ok .help => ⟨.exit 0, helpText, ""⟩
  | .ok (.run o) => o.run m vars read

end Lisplet.CommandLine
