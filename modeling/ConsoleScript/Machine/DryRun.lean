-- SUMMARY: A machine that does nothing and tells what it would do.
import ConsoleScript.Machine
import ConsoleScript.Text.Quoted

/-!
# Dry runs

In a dry run every operation succeeds and is only told. No time passes, and
the screen is empty.
-/

namespace ConsoleScript.DryRun

/-- What typing a text would do. -/
def describeText (text : String) : String :=
  match text.toList.getLast? with
  | some '\n' => "type " ++ Text.quoted (String.ofList text.toList.dropLast) ++ " + Enter"
  | _ => "type " ++ Text.quoted text

/-- The machine that records what it is told. -/
def machine {σ : Type} (record : String → σ → σ) (clock : Clock σ) : Machine σ where
  typeText text world := (.ok (), record (describeText text) world)
  pressKey key world := (.ok (), record ("press " ++ key.code) world)
  switchConsole number world :=
    (.ok (), record ("switch to console " ++ toString number) world)
  wait duration world := record ("wait " ++ duration.text) world
  screenshot path format world :=
    (.ok (), record ("screenshot " ++ path ++ " (" ++ format.name ++ ")") world)
  capture world := (.ok [], world)
  isDryRun := true
  narrate := record
  clock := clock

end ConsoleScript.DryRun
