-- SUMMARY: Reading a directive: one reader per form, tried in order.
import ConsoleScript.Directive
import ConsoleScript.Directive.Arguments
import ConsoleScript.Scope.Reference
import ConsoleScript.Text.Quoted

/-!
# Reading directives

| Form                                               | Directive           |
|----------------------------------------------------|---------------------|
| `enter`, `ctrl+c`, `ctrl-alt-del`                  | key                 |
| `watch "text" [dur]`                               | wait for a text     |
| `console N`                                        | virtual console     |
| `wait dur`                                         | pause               |
| `exit [N]`                                         | end of the script   |
| `if-found "text" [dur]`, `if-not-found ...`        | condition           |
| `retry N`, `repeat N`                              | counted loop        |
| `while-found "text" dur [poll dur]`, `while-not-found ...` | polling loop |
| `else`, `end-if`, `return`, `break`                | single words        |
| `switch [timeout=dur] [poll=dur]`                  | switch              |
| `case "text"`, `default`, `end-case`, `end-switch` | parts of a switch   |
| `include "path"`                                   | another script      |
| `screenshot "path" [ppm\|png]`                     | screenshot          |
| `function NAME`, `end-function`                    | function            |
| `call NAME [args ...]`                             | call                |
| `set NAME="value"`                                 | binding             |

Each form has a reader. A reader declines a text that does not have its form,
and otherwise gives the directive, or the reason why a value in it is refused.
-/

namespace ConsoleScript

/-- Why a directive is refused. -/
inductive DirectiveError where
  /-- No form fits. -/
  | unknown
  | consoleNumber (given : String)
  | exitCode (error : Text.NumeralError)
  | count (word given : String)
  | duration (given : String)
  | imageFormat (given : String)
  deriving DecidableEq, Repr

/-- What is wrong with a value, for a text that has one of the forms. -/
def DirectiveError.message : DirectiveError → String
  | .unknown => "unknown directive"
  | .consoleNumber given => "console number must be between 1 and 12, got " ++ given
  | .exitCode error => "exit code: " ++ error.message
  | .count word given => word ++ " count must be a positive integer, got " ++ given
  | .duration given => "invalid duration " ++ Text.quoted given
  | .imageFormat given =>
    "unsupported screenshot format " ++ Text.quoted given ++ " (expected ppm or png)"

namespace Directive

/-- What a reader finds: nothing, a directive, or a value to refuse. -/
abbrev Reading := Option (Except DirectiveError Directive)

-- ---------------------------------------------------------------------------
-- Parts of a form
-- ---------------------------------------------------------------------------

/-- What follows a word and the blanks after it. -/
def afterWord? (word : String) (cs : List Char) : Option (List Char) :=
  match Text.dropStart? word.toList cs with
  | some (c :: rest) => if Text.isBlank c then some (Text.trimStart rest) else none
  | _ => none

/-- What follows one or more blanks. -/
def afterBlanks? : List Char → Option (List Char)
  | c :: rest => if Text.isBlank c then some (Text.trimStart rest) else none
  | [] => none

/-- A text in double quotes, and what follows it. -/
def quotedText? : List Char → Option (String × List Char)
  | '"' :: cs => (Text.splitFirst? '"' cs).map fun (text, rest) => (String.ofList text, rest)
  | _ => none

/-- The characters up to the next blank, and the rest. -/
def splitAtBlank (cs : List Char) : List Char × List Char :=
  (cs.takeWhile (!Text.isBlank ·), cs.dropWhile (!Text.isBlank ·))

/-- One or more decimal digits. -/
def isNumeral (cs : List Char) : Bool :=
  !cs.isEmpty && cs.all Text.isDecimalDigit

/-- Decimal digits with an optional unit. -/
def isDurationWord (cs : List Char) : Bool :=
  isNumeral (cs.takeWhile Text.isDecimalDigit) &&
    (String.ofList (cs.dropWhile Text.isDecimalDigit)) ∈ ["", "ms", "s", "m"]

/-- The value of a duration that has the right form. -/
def durationOf (word : List Char) : Except DirectiveError Duration :=
  match Duration.read? (String.ofList word) with
  | some d => .ok d
  | none => .error (.duration (String.ofList word))

/-- An optional duration that ends a directive. -/
def finalDuration? (cs : List Char) : Option (Except DirectiveError (Option Duration)) :=
  if cs.isEmpty then some (.ok none)
  else
    match afterBlanks? cs with
    | none => none
    | some word => if isDurationWord word then some (some <$> durationOf word) else none

/-- A function's name and what follows it. -/
def splitFunctionName? : List Char → Option (List Char × List Char)
  | [] => none
  | c :: rest =>
    let inName := fun d => Scope.isWordChar d || d == '-'
    if Scope.isWordStart c then some (c :: rest.takeWhile inName, rest.dropWhile inName) else none

-- ---------------------------------------------------------------------------
-- Readers
-- ---------------------------------------------------------------------------

/-- Single words that have the form of a key and are none. -/
def reserved : List String :=
  ["else", "end-if", "return", "switch", "default", "end-case", "end-switch", "end-function",
    "break", "exit"]

/-- Groups of ASCII letters and digits, with one `+` or `-` between two of them. -/
def isKeyForm (afterLetter : Bool) : List Char → Bool
  | [] => afterLetter
  | c :: rest =>
    if c.isAlphanum then isKeyForm true rest
    else afterLetter && (c == '+' || c == '-') && isKeyForm false rest

def readKey (cs : List Char) : Reading :=
  let name := String.ofList cs
  if reserved.contains name then none
  else if isKeyForm false cs then some (.ok (.action (.key name)))
  else none

def readWatch (cs : List Char) : Reading := do
  let cs ← afterWord? "watch" cs
  let (text, cs) ← quotedText? cs
  let timeout ← finalDuration? cs
  return timeout.map fun timeout => .action (.watch text timeout)

def readConsole (cs : List Char) : Reading := do
  let cs ← afterWord? "console" cs
  if isNumeral cs then
    let given := String.ofList cs
    match Text.readNat? 255 given with
    | some n =>
      if 1 ≤ n ∧ n ≤ 12 then return .ok (.action (.console n))
      else return .error (.consoleNumber given)
    | none => return .error (.consoleNumber given)
  else none

def readWait (cs : List Char) : Reading := do
  let cs ← afterWord? "wait" cs
  if isDurationWord cs then
    return (durationOf cs).map fun d => .action (.wait d)
  else none

/-- The digits of a numeral that may have a minus sign. -/
def unsigned : List Char → List Char
  | '-' :: rest => rest
  | cs => cs

def readExit (cs : List Char) : Reading :=
  if String.ofList cs = "exit" then some (.ok (.action (.exit 0)))
  else do
    let cs ← afterWord? "exit" cs
    if isNumeral (unsigned cs) then
      match Text.readInt Text.maxSignedHalfWord (String.ofList cs) with
      | .ok code => return .ok (.action (.exit code))
      | .error e => return .error (.exitCode e)
    else none

/-- A condition with the given word. -/
def readConditionOf (word : String) (presence : Presence) (cs : List Char) : Reading := do
  let cs ← afterWord? word cs
  let (text, cs) ← quotedText? cs
  let timeout ← finalDuration? cs
  return timeout.map fun timeout =>
    .condition ⟨presence, text, timeout.getD Condition.defaultTimeout⟩

def readCondition (cs : List Char) : Reading :=
  readConditionOf "if-found" .found cs <|> readConditionOf "if-not-found" .notFound cs

/-- A counted loop with the given word. -/
def readCountedOf (word : String) (loop : Nat → Loop) (cs : List Char) : Reading := do
  let cs ← afterWord? word cs
  if isNumeral cs then
    let given := String.ofList cs
    match Text.readNat? Text.maxHalfWord given with
    | some n => if 0 < n then return .ok (.loop (loop n)) else return .error (.count word given)
    | none => return .error (.count word given)
  else none

def readCounted (cs : List Char) : Reading :=
  readCountedOf "retry" .retry cs <|> readCountedOf "repeat" .repeatTimes cs

/-- The poll interval that may end a polling loop: `poll dur`. -/
def finalPoll? (cs : List Char) : Option (Except DirectiveError (Option Duration)) :=
  if cs.isEmpty then some (.ok none)
  else do
    let cs ← afterBlanks? cs
    let word ← afterWord? "poll" cs
    if isDurationWord word then some (some <$> durationOf word) else none

/-- A polling loop with the given word. -/
def readWhileOf (word : String) (presence : Presence) (cs : List Char) : Reading := do
  let cs ← afterWord? word cs
  let (text, cs) ← quotedText? cs
  let cs ← afterBlanks? cs
  let (timeout, cs) := splitAtBlank cs
  if isDurationWord timeout then
    let poll ← finalPoll? cs
    return do
      let timeout ← durationOf timeout
      let poll ← poll
      return .loop (.whileScreen presence text timeout poll)
  else none

def readWhile (cs : List Char) : Reading :=
  readWhileOf "while-found" .found cs <|> readWhileOf "while-not-found" .notFound cs

def readWord (cs : List Char) : Reading :=
  match String.ofList cs with
  | "else" => some (.ok (.marker .otherwise))
  | "end-if" => some (.ok (.action .endIf))
  | "return" => some (.ok (.action .doReturn))
  | "default" => some (.ok (.marker .default))
  | "end-case" => some (.ok (.marker .endCase))
  | "end-switch" => some (.ok (.marker .endSwitch))
  | "end-function" => some (.ok (.marker .endFunction))
  | "break" => some (.ok (.action .doBreak))
  | _ => none

/-- An option of a switch: whether it is the timeout, and its duration's word. -/
def switchOption? (word : List Char) : Option (Bool × List Char) :=
  match Text.dropStart? "timeout=".toList word with
  | some value => if isDurationWord value then some (true, value) else none
  | none =>
    match Text.dropStart? "poll=".toList word with
    | some value => if isDurationWord value then some (false, value) else none
    | none => none

/-- The options of a switch from the left; a later one replaces an earlier one. -/
def switchOptions (options : SwitchOptions) :
    List (Bool × List Char) → Except DirectiveError SwitchOptions
  | [] => .ok options
  | (isTimeout, word) :: rest => do
    let d ← durationOf word
    switchOptions
      (if isTimeout then { options with timeout := some d } else { options with poll := some d })
      rest

def readSwitch (cs : List Char) : Reading := do
  match Text.wordChars cs with
  | [] => none
  | word :: rest =>
    if String.ofList word = "switch" then
      let options ← rest.mapM switchOption?
      return .switch <$> switchOptions ⟨none, none⟩ options
    else none

def readCase (cs : List Char) : Reading := do
  let cs ← afterWord? "case" cs
  match ← quotedText? cs with
  | (text, []) => return .ok (.marker (.case text))
  | _ => none

def readInclude (cs : List Char) : Reading := do
  let cs ← afterWord? "include" cs
  match ← quotedText? cs with
  | (path, []) => if path.isEmpty then none else return .ok (.action (.includeFile path))
  | _ => none

def readScreenshot (cs : List Char) : Reading := do
  let cs ← afterWord? "screenshot" cs
  let (path, cs) ← quotedText? cs
  if path.isEmpty then none
  else if cs.isEmpty then
    return .ok (.action (.screenshot path (ImageFormat.ofPath path)))
  else
    let word ← afterBlanks? cs
    if !word.isEmpty && word.all Char.isAlpha then
      let given := String.ofList word
      match ImageFormat.ofName? given with
      | some format => return .ok (.action (.screenshot path format))
      | none => return .error (.imageFormat given)
    else none

def readFunction (cs : List Char) : Reading := do
  let cs ← afterWord? "function" cs
  match ← splitFunctionName? cs with
  | (name, []) => return .ok (.marker (.function (String.ofList name)))
  | _ => none

def readCall (cs : List Char) : Reading := do
  let cs ← afterWord? "call" cs
  let (name, cs) ← splitFunctionName? cs
  if cs.isEmpty then return .ok (.action (.call (String.ofList name) []))
  else
    let args ← afterBlanks? cs
    if args.contains '\n' then none
    else return .ok (.action (.call (String.ofList name) (Arguments.split (String.ofList args))))

/-- The value of a binding: a text in quotes that ends there, or else a word
    without blanks. -/
def boundValue? (cs : List Char) : Option String :=
  match quotedText? cs with
  | some (text, []) => some text
  | _ => if cs.any Text.isBlank then none else some (String.ofList cs)

def readBinding (cs : List Char) : Reading := do
  let cs ← afterWord? "set" cs
  match ← Scope.splitWord? cs with
  | (name, '=' :: value) =>
    let value ← boundValue? value
    return .ok (.action (.bind (String.ofList name) value))
  | _ => none

-- ---------------------------------------------------------------------------
-- Reading
-- ---------------------------------------------------------------------------

/-- The readers in the order in which they are tried. -/
def readers : List (List Char → Reading) :=
  [readKey, readWatch, readConsole, readWait, readExit, readCondition, readCounted, readWhile,
    readWord, readSwitch, readCase, readInclude, readScreenshot, readFunction, readCall,
    readBinding]

/-- Reads the content of a directive, between any blanks. -/
def read (content : String) : Except DirectiveError Directive :=
  let cs := Text.trimChars content.toList
  match readers.findSome? fun reader => reader cs with
  | some result => result
  | none => .error .unknown

end Directive

end ConsoleScript
