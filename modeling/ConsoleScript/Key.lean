-- SUMMARY: Keys by name and by the character they type, and the codes a monitor knows them by.
import ConsoleScript.Text.Blank

/-!
# Keys

A key code is what a monitor presses: names joined by `-`, modifiers first, as
in `ctrl-alt-delete`, `shift-a` or `ret`. Scripts name keys in either case,
join them by `+` or `-`, and may use the common aliases. Text is typed by the
keys of its characters; a character that no key types is left out.
-/

namespace ConsoleScript

/-- A key or a combination of keys in the monitor's spelling. -/
structure KeyCode where
  code : String
  deriving DecidableEq, Repr

namespace KeyCode

-- ---------------------------------------------------------------------------
-- Keys by name
-- ---------------------------------------------------------------------------

/-- Keys with a name of their own in scripts. -/
def namedKeys : List (String × String) :=
  [("enter", "ret"), ("ret", "ret"), ("tab", "tab"), ("esc", "esc"), ("escape", "esc"),
    ("backspace", "backspace"), ("bs", "backspace"), ("delete", "delete"), ("del", "delete"),
    ("insert", "insert"), ("ins", "insert"), ("home", "home"), ("end", "end"), ("pgup", "pgup"),
    ("pageup", "pgup"), ("pgdn", "pgdn"), ("pagedown", "pgdn"), ("up", "up"), ("down", "down"),
    ("left", "left"), ("right", "right"), ("space", "spc"), ("spc", "spc"), ("minus", "minus"),
    ("equal", "equal"), ("comma", "comma"), ("dot", "dot"), ("slash", "slash"),
    ("sysrq", "sysrq"), ("print", "print"), ("pause", "pause")]

/-- Keys whose name is also their code: the function keys. -/
def functionKeys : List String :=
  ["f1", "f2", "f3", "f4", "f5", "f6", "f7", "f8", "f9", "f10", "f11", "f12"]

/-- Keys that are held while another one is pressed. -/
def modifiers : List (String × String) :=
  [("ctrl", "ctrl"), ("control", "ctrl"), ("alt", "alt"), ("shift", "shift"),
    ("meta", "meta_l"), ("super", "meta_l"), ("win", "meta_l")]

/-- The code of a single key by its name in lower case. -/
def ofKeyName? (name : String) : Option String :=
  match name.toList with
  | [c] => if c.isLower || c.isDigit then some name else namedKeys.lookup name
  | _ => if functionKeys.contains name then some name else namedKeys.lookup name

/-- The parts of a name between `+` and `-`. -/
def nameParts : List Char → List (List Char)
  | [] => [[]]
  | c :: rest =>
    if c == '+' || c == '-' then [] :: nameParts rest
    else
      match nameParts rest with
      | [] => [[c]]
      | part :: parts => (c :: part) :: parts

/-- The codes of the parts of a name: every part but the last is a modifier. -/
def ofParts? : List String → Option (List String)
  | [] => none
  | [last] => (ofKeyName? last).map ([·])
  | held :: rest => do
    let code ← modifiers.lookup held
    let codes ← ofParts? rest
    return code :: codes

/-- The code of a key that a script names. -/
def ofName? (name : String) : Option KeyCode :=
  let lower := (Text.trimChars name.toList).map Char.toLower
  (ofParts? ((nameParts lower).map String.ofList)).map fun codes => ⟨"-".intercalate codes⟩

/-- Whether a script may name the key. -/
def isKnown (name : String) : Bool := (ofName? name).isSome

/-- The combination that switches to a virtual console. -/
def ofConsole (number : Nat) : KeyCode := ⟨"ctrl-alt-f" ++ toString number⟩

-- ---------------------------------------------------------------------------
-- Keys by character
-- ---------------------------------------------------------------------------

/-- Characters with a key of their own, besides letters and digits. -/
def plainCharacters : List (Char × String) :=
  [(' ', "spc"), ('\n', "ret"), ('\t', "tab"), ('-', "minus"), ('=', "equal"),
    ('[', "bracket_left"), (']', "bracket_right"), ('\\', "backslash"), (';', "semicolon"),
    ('\'', "apostrophe"), ('\x60', "grave_accent"), (',', "comma"), ('.', "dot"), ('/', "slash")]

/-- Characters that are typed with the shift key, besides capitals. -/
def shiftedCharacters : List (Char × String) :=
  [('_', "minus"), ('+', "equal"), ('\x7b', "bracket_left"), ('\x7d', "bracket_right"),
    ('|', "backslash"), (':', "semicolon"), ('"', "apostrophe"), ('~', "grave_accent"),
    ('<', "comma"), ('>', "dot"), ('?', "slash"), ('!', "1"), ('@', "2"), ('#', "3"), ('$', "4"),
    ('%', "5"), ('^', "6"), ('&', "7"), ('*', "8"), ('(', "9"), (')', "0")]

/-- The code of the key that types a character. -/
def ofChar? (c : Char) : Option KeyCode :=
  if c.isLower || c.isDigit then some ⟨String.ofList [c]⟩
  else if c.isUpper then some ⟨"shift-" ++ String.ofList [c.toLower]⟩
  else
    match plainCharacters.lookup c with
    | some code => some ⟨code⟩
    | none => (shiftedCharacters.lookup c).map fun code => ⟨"shift-" ++ code⟩

/-- The codes of the keys that type a text. -/
def ofText (text : String) : List KeyCode :=
  text.toList.filterMap ofChar?

end KeyCode

end ConsoleScript
