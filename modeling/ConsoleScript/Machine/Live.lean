-- SUMMARY: A machine that is driven by keys, with screens that are recognised from images.
import ConsoleScript.Machine

/-!
# Live machines

A live machine is reached through a *transport*, which presses keys and writes
the screen to a file. Text is typed key by key, with an optional pause after
each, and the screen is read by recognising the text of its image.
-/

namespace ConsoleScript

/-- The way to a machine. -/
structure Transport (σ : Type) where
  pressKey : KeyCode → Operation σ Unit
  /-- Writes the screen to a file. -/
  screendump : String → ImageFormat → Operation σ Unit

namespace Live

variable {σ : Type}

/-- Pauses, unless for no time at all. -/
def pause (sleep : Duration → σ → σ) (delay : Duration) (world : σ) : σ :=
  if delay = 0 then world else sleep delay world

/-- Presses keys one after the other, with a pause after each, up to the first
    one that fails. -/
def pressAll (transport : Transport σ) (sleep : Duration → σ → σ) (delay : Duration) :
    List KeyCode → Operation σ Unit
  | [], world => (.ok (), world)
  | key :: rest, world =>
    match transport.pressKey key world with
    | (.error e, world) => (.error e, world)
    | (.ok (), world) => pressAll transport sleep delay rest (pause sleep delay world)

/-- Reads the screen: its image is written to a file and recognised. -/
def capture (transport : Transport σ) (recognise : String → Operation σ Screen)
    (imageFile : String) : Operation σ Screen := fun world =>
  match transport.screendump imageFile .ppm world with
  | (.error e, world) => (.error e, world)
  | (.ok (), world) => recognise imageFile world

/-- The machine behind a transport. `imageFile` is where the screen is written
    to be recognised. -/
def machine (transport : Transport σ) (recognise : String → Operation σ Screen)
    (imageFile : String) (sleep : Duration → σ → σ) (keyDelay : Duration) (clock : Clock σ) :
    Machine σ where
  typeText text := pressAll transport sleep keyDelay (KeyCode.ofText text)
  pressKey := transport.pressKey
  switchConsole number := transport.pressKey (.ofConsole number)
  wait := sleep
  screenshot := transport.screendump
  capture := capture transport recognise imageFile
  isDryRun := false
  narrate _ world := world
  clock := clock

end Live

end ConsoleScript
