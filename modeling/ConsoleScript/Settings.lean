-- SUMMARY: The times that scripts leave open, and configuration files.
import ConsoleScript.Directive.Arguments
import ConsoleScript.Duration
import ConsoleScript.Ocr
import ConsoleScript.Scope.Reference
import ConsoleScript.Text.Quoted
import ConsoleScript.Variables

/-!
# Settings

The settings of a run say how long things take when a script does not say it
itself. A configuration file gives them, one per line, together with the
monitor's address, the recognition of screens and variables of the script.

| Line                         | Meaning                               |
|------------------------------|---------------------------------------|
| `monitor = unix:/run/vm`     | the monitor's address                 |
| `tesseract = /usr/bin/...`   | the program that recognises screens   |
| `tessdata = /path`           | where it finds its data               |
| `lang = eng`                 | its language                          |
| `psm = 6`                    | how it divides an image               |
| `columns = 80`, `rows = 25`  | the size of the screen                |
| `key_delay = 20ms`           | the pause between typed characters    |
| `timeout = 30m`              | the time for the whole script         |
| `poll = 500ms`               | the time between two looks            |
| `retry_delay = 1s`           | the time between two attempts         |
| `watch_timeout = 30s`        | the time for a `<watch>`              |
| `switch_timeout = 30s`       | the time for a `<switch>`             |
| `set NAME=value`             | a variable                            |

Lines that start with `#` or `;` are comments. A line that cannot be read is
reported and has no effect.
-/

namespace ConsoleScript

/-- The times that scripts leave open. -/
structure Settings where
  /-- For the whole run. -/
  timeout : Option Duration
  /-- Between two looks at the screen. -/
  poll : Duration
  /-- Between two attempts. -/
  retryDelay : Duration
  /-- For a `<watch>` that gives no time. -/
  watchTimeout : Duration
  /-- For a `<switch>` that gives no time. -/
  switchTimeout : Duration
  deriving DecidableEq, Repr

/-- The settings when nothing is said. -/
def Settings.standard : Settings :=
  ⟨none, 500, .ofSeconds 1, .ofSeconds 30, .ofSeconds 30⟩

instance : Inhabited Settings := ⟨.standard⟩

/-- What a configuration file says. -/
structure Config where
  monitor : Option String
  ocr : Ocr
  keyDelay : Duration
  settings : Settings
  bindings : Variables
  deriving DecidableEq, Repr

/-- What is wrong with a line of a configuration file. -/
inductive ConfigFault where
  | noValue (line : String)
  | unknownSetting (name : String)
  | notANumber (name given : String)
  | notADuration (name given : String)
  | notABinding (given : String)
  deriving DecidableEq, Repr

/-- The wording of a fault. -/
def ConfigFault.message : ConfigFault → String
  | .noValue line => "expected 'name = value', found " ++ Text.quoted line
  | .unknownSetting name => "unknown setting '" ++ name ++ "'"
  | .notANumber name given => name ++ ": invalid number " ++ Text.quoted given
  | .notADuration name given => name ++ ": invalid duration " ++ Text.quoted given
  | .notABinding given => "set: expected NAME=value, found " ++ Text.quoted given

/-- A line of a configuration file that cannot be read. -/
structure ConfigError where
  line : Nat
  fault : ConfigFault
  deriving DecidableEq, Repr

/-- The wording of an error. -/
def ConfigError.message (e : ConfigError) : String :=
  "line " ++ toString e.line ++ ": " ++ e.fault.message

namespace Config

/-- The configuration when nothing is said. -/
def standard : Config := ⟨none, .standard, 0, .standard, .empty⟩

instance : Inhabited Config := ⟨standard⟩

/-- Whether a text is a word that does not start with a digit. -/
def isName (name : String) : Bool :=
  match Scope.splitWord? name.toList with
  | some (_, []) => true
  | _ => false

/-- The two sides of the first `=` of a text. -/
def splitAtEquals? (text : String) : Option (String × String) :=
  (Text.splitFirst? '=' text.toList).map fun (a, b) => (String.ofList a, String.ofList b)

/-- The variable of `NAME=value` or `NAME value`. -/
def readBinding (args : String) : Except ConfigFault (String × String) :=
  match Arguments.split args with
  | [single] =>
    match splitAtEquals? single with
    | some (name, value) =>
      if isName name then .ok (name, value) else .error (.notABinding single)
    | none => .error (.notABinding single)
  | [name, value] => if isName name then .ok (name, value) else .error (.notABinding args)
  | _ => .error (.notABinding args)

/-- The number of a setting, of at most `limit`. -/
def readNumber (limit : Nat) (name given : String) : Except ConfigFault Nat :=
  match Text.readNat? limit given with
  | some n => .ok n
  | none => .error (.notANumber name given)

/-- The duration of a setting. -/
def readDuration (name given : String) : Except ConfigFault Duration :=
  match Duration.read? given with
  | some d => .ok d
  | none => .error (.notADuration name given)

/-- A change of a configuration. One that stops at a fault leaves what it has changed
    by then. -/
abbrev Change := ExceptT ConfigFault (StateM Config) Unit

/-- Changes one setting. -/
def applySetting (name value : String) : Change :=
  match name with
  | "monitor" => modify fun c => { c with monitor := some value }
  | "tesseract" => modify fun c => { c with ocr.program := value }
  | "tessdata" => modify fun c => { c with ocr.dataDir := some value }
  | "lang" => modify fun c => { c with ocr.language := value }
  | "psm" => do
    let n ← readNumber 255 name value
    modify fun c => { c with ocr.segmentation := n }
  | "columns" => do
    let n ← readNumber Text.maxWord name value
    modify fun c => { c with ocr.columns := n }
  | "rows" => do
    let n ← readNumber Text.maxWord name value
    modify fun c => { c with ocr.rows := n }
  | "key_delay" => do
    let d ← readDuration name value
    modify fun c => { c with keyDelay := d }
  | "timeout" => do
    let d ← readDuration name value
    modify fun c => { c with settings.timeout := some d }
  | "poll" => do
    let d ← readDuration name value
    modify fun c => { c with settings.poll := d }
  | "retry_delay" => do
    let d ← readDuration name value
    modify fun c => { c with settings.retryDelay := d }
  | "watch_timeout" => do
    let d ← readDuration name value
    modify fun c => { c with settings.watchTimeout := d }
  | "switch_timeout" => do
    let d ← readDuration name value
    modify fun c => { c with settings.switchTimeout := d }
  | _ => throw (.unknownSetting name)

/-- Applies one line of a file, which has no blanks around it. -/
def applyLine (line : String) : Change :=
  match Text.dropStart? "set ".toList line.toList with
  | some rest => do
    let (name, value) ← readBinding (String.ofList (Text.trimChars rest))
    modify fun c => { c with bindings := c.bindings.set name value }
  | none =>
    match splitAtEquals? line with
    | none => throw (.noValue line)
    | some (name, value) => applySetting (Text.trim name) (Scope.stripQuotes (Text.trim value))

/-- Whether a line of a file says nothing. -/
def isSilent (line : String) : Bool :=
  line.isEmpty || Text.beginsWith line "#" || Text.beginsWith line ";"

/-- Applies the lines of a file from number `n` on. -/
def applyLines (c : Config) (n : Nat) : List String → Config × List ConfigError
  | [] => (c, [])
  | raw :: rest =>
    let line := Text.trim raw
    if isSilent line then applyLines c (n + 1) rest
    else
      match (applyLine line).run c with
      | (.ok (), c) => applyLines c (n + 1) rest
      | (.error fault, c) =>
        let (c, errors) := applyLines c (n + 1) rest
        (c, ⟨n, fault⟩ :: errors)

/-- The configuration of a file's text, and the lines that could not be read. -/
def read (text : String) : Config × List ConfigError :=
  applyLines standard 1 (Text.lines text)

end Config

end ConsoleScript
