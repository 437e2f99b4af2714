import Lisplet.Text.Decimal
import Lisplet.Text.Quoted

/-!
# Options of the command line

The command line has one file and four options.  An argument is an option if it starts with a dash,
unless it is a dash alone, looks like a negative number, or is unknown and has a blank in it; after
an argument `--` nothing is an option.  A long option may be cut short as long as it stays the only
one that starts that way, and may have its value after an equals sign.  Short options may share one
dash.

Arguments are taken in order.  The first that is no option is the file, the others are left over, as
are unknown options; what is left over is an error, reported after all others.  The argument `--`
goes with the file if it stands right before or after it.
-/

namespace Lisplet.CommandLine

inductive Opt where
  | help
  | parseOnly
  | verbose
  | logLevel
  deriving DecidableEq, Repr

namespace Opt

def spellings : List (String × Opt) :=
  [("-h", .help), ("--help", .help), ("--parse-only", .parseOnly), ("-v", .verbose),
   ("--verbose", .verbose), ("--log-level", .logLevel)]

def ofSpelling? (s : String) : Option Opt := spellings.lookup s

def label : Opt → String
  | .help => "-h/--help"
  | .parseOnly => "--parse-only"
  | .verbose => "-v/--verbose"
  | .logLevel => "--log-level"

end Opt

inductive UsageError where
  | noFile
  | leftOver (args : List String)
  | valueMissing (o : Opt)
  | valueIgnored (o : Opt) (value : String)
  | ambiguous (arg : String) (candidates : List String)
  deriving DecidableEq, Repr

def UsageError.message : UsageError → String
  | .noFile => "the following arguments are required: file"
  | .leftOver args => "unrecognized arguments: " ++ String.intercalate " " args
  | .valueMissing o => "argument " ++ o.label ++ ": expected one argument"
  | .valueIgnored o v => "argument " ++ o.label ++ ": ignored explicit argument " ++ Text.quoted v
  | .ambiguous arg cs =>
    "ambiguous option: " ++ arg ++ " could match " ++ String.intercalate ", " cs

structure Options where
  file : String
  parseOnly : Bool
  verbose : Bool
  logLevel : Option String
  deriving DecidableEq, Repr

/-! ## kinds of arguments -/

inductive Argument where
  | plain (s : String)
  /-- an option, whether it is short, and the value joined to it -/
  | opt (o : Opt) (short : Bool) (value : Option String)
  /-- it looks like an option, but there is none like it -/
  | unknown (s : String)
  deriving DecidableEq, Repr

/-- all characters are decimal digits, and there is at least one -/
def allDigits (cs : List Char) : Bool := !cs.isEmpty && cs.all Text.isDecimal

/-- a minus sign and digits, with a point among them or not; a line feed may end it -/
def isNegativeNumber (s : String) : Bool :=
  match s.toList with
  | '-' :: cs =>
    let cs := if cs.getLast? = some '\n' then cs.dropLast else cs
    allDigits cs || match cs.dropWhile Text.isDecimal with
      | '.' :: rest => allDigits rest
      | _ => false
  | _ => false

def cutAtEquals (cs : List Char) : Option (String × String) :=
  match cs.dropWhile (· ≠ '=') with
  | _ :: rest => some (String.ofList (cs.takeWhile (· ≠ '=')), String.ofList rest)
  | [] => none

/-- a spelling is short if it has one dash -/
def isShort (spelling : String) : Bool := (spelling.toList.drop 1).head? ≠ some '-'

/-- the options an argument may be a shortened form of, or, with one dash, may start with -/
def candidates (arg : String) : List (String × Opt × Option String) :=
  let cs := arg.toList
  if isShort arg then
    Opt.spellings.filterMap fun (s, o) =>
      if s = String.ofList (cs.take 2) then some (s, o, some (String.ofList (cs.drop 2)))
      else if cs.isPrefixOf s.toList then some (s, o, none)
      else none
  else
    let (start, value) := match cutAtEquals cs with
      | some (start, value) => (start.toList, some value)
      | none => (cs, none)
    Opt.spellings.filterMap fun (s, o) =>
      if start.isPrefixOf s.toList then some (s, o, value) else none

def dashed (arg : String) : Except UsageError Argument :=
  let exact := (cutAtEquals arg.toList).bind fun (start, value) =>
    (Opt.ofSpelling? start).map fun o => Argument.opt o (isShort start) (some value)
  match exact with
  | some a => .ok a
  | none =>
    match candidates arg with
    | [] =>
      if isNegativeNumber arg || arg.toList.contains ' ' then .ok (.plain arg)
      else .ok (.unknown arg)
    | [(s, o, value)] => .ok (.opt o (isShort s) value)
    | cs => .error (.ambiguous arg (cs.map Prod.fst))

def classify (arg : String) : Except UsageError Argument :=
  match arg.toList with
  | '-' :: rest =>
    match Opt.ofSpelling? arg with
    | some o => .ok (.opt o (isShort arg) none)
    | none => if rest.isEmpty then .ok (.plain arg) else dashed arg
  | _ => .ok (.plain arg)

/-- a command line cut at its first `--` -/
structure Line where
  front : List Argument
  /-- what stands after it, if it is there -/
  back : Option (List String)
  deriving DecidableEq, Repr

def Line.ofArgs (args : List String) : Except UsageError Line := do
  let front ← (args.takeWhile (· ≠ "--")).mapM classify
  match args.dropWhile (· ≠ "--") with
  | [] => return ⟨front, none⟩
  | _ :: back => return ⟨front, some back⟩

/-! ## taking the arguments -/

structure Taken where
  file : Option String
  parseOnly : Bool
  verbose : Bool
  logLevel : Option String
  /-- arguments left over, last first -/
  extra : List String
  deriving DecidableEq, Repr

namespace Taken

def none : Taken := ⟨.none, false, false, .none, []⟩

def leave (t : Taken) (arg : String) : Taken := { t with extra := arg :: t.extra }

def flag (t : Taken) : Opt → Taken
  | .parseOnly => { t with parseOnly := true }
  | .verbose => { t with verbose := true }
  | _ => t

/-- the value of the log level; the value `--` counts as none -/
def setLevel (t : Taken) (value : String) : Taken :=
  { t with logLevel := if value = "--" then .none else some value }

end Taken

/-- the flags in the letters after a short flag; the letter of no option makes all letters from it
on an ignored value -/
def cluster (o : Opt) : List Char → Except UsageError (List Opt)
  | [] => .ok [o]
  | c :: cs =>
    match Opt.ofSpelling? (String.ofList ['-', c]) with
    | some p => (cluster p cs).map (o :: ·)
    | none => .error (.valueIgnored o (String.ofList (c :: cs)))

/-- the flags of an option that has no value of its own -/
def flags (o : Opt) (short : Bool) : Option String → Except UsageError (List Opt)
  | none => .ok [o]
  | some v => if short && !v.isEmpty then cluster o v.toList else .error (.valueIgnored o v)

def plains (args : List Argument) : List String :=
  args.filterMap fun
    | .plain s => some s
    | _ => none

/-- there is still an option, known or not -/
def hasOption (args : List Argument) : Bool :=
  args.any fun
    | .plain _ => false
    | _ => true

/-- how the command line ends: help was asked for, or arguments were taken -/
inductive Request where
  | help
  | run (o : Options)
  deriving DecidableEq, Repr

namespace Taken

def leaveAll (t : Taken) (args : List String) : Taken := args.foldl leave t

/-- what follows the last option, when the file is known -/
def rest (t : Taken) (args : List String) (back : Option (List String)) : Taken :=
  match back with
  | .none => t.leaveAll args
  | some more => t.leaveAll (args ++ "--" :: more)

/-- what follows the last option: the file may be among it, and takes a `--` right beside it
along -/
def last (t : Taken) (args : List String) (back : Option (List String)) : Taken :=
  match t.file, args, back with
  | .none, [s], some more => Taken.leaveAll { t with file := some s } more
  | .none, s :: args, back => Taken.rest { t with file := some s } args back
  | .none, [], some (s :: more) => Taken.leaveAll { t with file := some s } more
  | _, args, back => t.rest args back

/-- what was taken, if a file is among it and nothing is left over -/
def request (t : Taken) : Except UsageError Request :=
  match t.file with
  | .none => .error .noFile
  | some file =>
    if t.extra.isEmpty then .ok (.run ⟨file, t.parseOnly, t.verbose, t.logLevel⟩)
    else .error (.leftOver t.extra.reverse)

end Taken

def takeAll (back : Option (List String)) (t : Taken) : List Argument → Except UsageError Request
  | [] => (t.last [] back).request
  | .opt .logLevel _ (some v) :: rest => takeAll back (t.setLevel v) rest
  | .opt .logLevel _ .none :: .plain v :: rest => takeAll back (t.setLevel v) rest
  | .opt .logLevel _ .none :: _ => .error (.valueMissing .logLevel)
  | .opt o short value :: rest => do
    let os ← flags o short value
    if os.contains .help then return .help
    else takeAll back (os.foldl Taken.flag t) rest
  | .unknown s :: rest => takeAll back (t.leave s) rest
  | .plain s :: rest =>
    if hasOption rest then
      if t.file.isNone then takeAll back { t with file := some s } rest
      else takeAll back (t.leave s) rest
    else (t.last (s :: plains rest) back).request

def parse (args : List String) : Except UsageError Request := do
  let line ← Line.ofArgs args
  takeAll line.back Taken.none line.front

end Lisplet.CommandLine
