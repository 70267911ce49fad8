-- SUMMARY: The options of the command line.
import ConsoleScript.Duration
import ConsoleScript.Text.Quoted
import ConsoleScript.Text.Search

/-!
# Options

The command line is `[-nksvq] [-f[<file>]] [-m<monitor>] [-t<timeout>]
[-b<line>]... [-D<NAME=value>]... <script>`. Options of one letter may share a
dash. The value of an option is the rest of its argument, or the next argument.
-/

namespace ConsoleScript

/-- Which configuration file to use. -/
inductive ConfigChoice where
  /-- The user's own, if there is one. -/
  | search
  /-- None. -/
  | skip
  | file (path : String)
  deriving DecidableEq, Repr

/-- What the command line says. -/
structure Options where
  script : String
  config : ConfigChoice
  monitor : Option String
  timeout : Option Duration
  /-- Tell what would be done, and do nothing. -/
  dryRun : Bool
  /-- Only check the script. -/
  check : Bool
  /-- Stop at every line. -/
  step : Bool
  /-- Lines to stop at. -/
  breakpoints : List Nat
  /-- Variables of the script. -/
  defines : List (String × String)
  /-- How often more was asked to be told. -/
  verbose : Nat
  quiet : Bool
  deriving DecidableEq, Repr

/-- What is wrong with a command line. -/
inductive UsageError where
  | noScript
  | tooMany (count : Nat)
  | unknownOption (letter : Char)
  | missingValue (letter : Char)
  | timeout (given : String)
  | breakpoint (given : String)
  | define (given : String)
  deriving DecidableEq, Repr

/-- The wording of an error. -/
def UsageError.message : UsageError → String
  | .noScript => "no script given"
  | .tooMany count => "too many arguments (" ++ toString count ++ ")"
  | .unknownOption letter => "unknown option: -" ++ String.ofList [letter]
  | .missingValue letter => "-" ++ String.ofList [letter] ++ " requires an argument"
  | .timeout given => "invalid timeout: " ++ given
  | .breakpoint given => "invalid breakpoint line: " ++ given
  | .define given => "-D expects NAME=value, got " ++ Text.quoted given

namespace Options

/-- The form of the command line. -/
def usage : String :=
  "Usage: vmscript [-nksvq] [-f[<file>]] [-m<monitor>] [-t<timeout>] " ++
    "[-b<line>]... [-D<NAME=value>]... <script>"

/-- The options when nothing is said. -/
def standard : Options :=
  ⟨"", .search, none, none, false, false, false, [], [], 0, false⟩

instance : Inhabited Options := ⟨standard⟩

/-- Whether a debugger is needed. -/
def debugging (o : Options) : Bool := o.step || !o.breakpoints.isEmpty

/-- How often `-v` counts. -/
def maxVerbose : Nat := 255

/-- The options with a flag set, if the letter is that of a flag. -/
def setFlag? (o : Options) : Char → Option Options
  | 'n' => some { o with dryRun := true }
  | 'k' => some { o with check := true }
  | 's' => some { o with step := true }
  | 'v' => some { o with verbose := min maxVerbose (o.verbose + 1) }
  | 'q' => some { o with quiet := true }
  | _ => none

/-- Whether an option takes a value. -/
def takesValue (letter : Char) : Bool :=
  letter == 'm' || letter == 't' || letter == 'b' || letter == 'D'

/-- The options with the value of one. -/
def setValue (o : Options) (letter : Char) (value : String) : Except UsageError Options :=
  match letter with
  | 'm' => .ok { o with monitor := some value }
  | 't' =>
    match Duration.read? value with
    | some d => .ok { o with timeout := some d }
    | none => .error (.timeout value)
  | 'b' =>
    match Text.readNat? Text.maxWord value with
    | some n => .ok { o with breakpoints := o.breakpoints ++ [n] }
    | none => .error (.breakpoint value)
  | _ =>
    match Text.splitFirst? '=' value.toList with
    | some (c :: name, rest) =>
      .ok { o with defines := o.defines ++ [(String.ofList (c :: name), String.ofList rest)] }
    | _ => .error (.define value)

/-- What comes of the letters of one argument: the options, and whether the next
    argument was the value of one of them. -/
structure Cluster where
  options : Options
  usedNext : Bool

/-- Reads the letters of one argument. `following` are the arguments after it:
    `-f` takes the next one only if it is no option and not the last. -/
def readCluster (following : List String) (o : Options) : List Char → Except UsageError Cluster
  | [] => .ok ⟨o, false⟩
  | letter :: rest =>
    match o.setFlag? letter with
    | some o => readCluster following o rest
    | none =>
      if letter = 'f' then
        if !rest.isEmpty then .ok ⟨{ o with config := .file (String.ofList rest) }, false⟩
        else
          match following with
          | next :: _ :: _ =>
            if Text.beginsWith next "-" then .ok ⟨{ o with config := .skip }, false⟩
            else .ok ⟨{ o with config := .file next }, true⟩
          | _ => .ok ⟨{ o with config := .skip }, false⟩
      else if takesValue letter then
        if !rest.isEmpty then
          (o.setValue letter (String.ofList rest)).map (⟨·, false⟩)
        else
          match following with
          | next :: _ => (o.setValue letter next).map (⟨·, true⟩)
          | [] => .error (.missingValue letter)
      else .error (.unknownOption letter)

/-- Reads arguments from the left: the options and the arguments that are none.
    `skip` tells that the first argument has been used as a value. -/
def readArguments (o : Options) (plain : List String) (skip : Bool) :
    List String → Except UsageError (Options × List String)
  | [] => .ok (o, plain)
  | arg :: rest =>
    if skip then readArguments o plain false rest
    else if arg = "--" then .ok (o, plain ++ rest)
    else if !Text.beginsWith arg "-" || arg = "-" then
      readArguments o (plain ++ [arg]) false rest
    else
      match readCluster rest o arg.toList.tail with
      | .error e => .error e
      | .ok ⟨o, usedNext⟩ => readArguments o plain usedNext rest

/-- Reads the command line. -/
def read (args : List String) : Except UsageError Options :=
  match readArguments standard [] false args with
  | .error e => .error e
  | .ok (o, [script]) => .ok { o with script }
  | .ok (_, []) => .error .noScript
  | .ok (_, plain) => .error (.tooMany plain.length)

end Options

end ConsoleScript
