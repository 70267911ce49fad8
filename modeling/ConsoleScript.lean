import ConsoleScript.Main
import ConsoleScript.Rehearsal
import ConsoleScript.Proofs.Scope.Passes
import ConsoleScript.Proofs.Scope.Positional
import ConsoleScript.Proofs.Scope.Pieces
import ConsoleScript.Proofs.Scope.Meaning
import ConsoleScript.Proofs.Scope.Recasting
import ConsoleScript.Proofs.Scope.Inertness
import ConsoleScript.Proofs.Script.Nodes
import ConsoleScript.Proofs.Script.Accounting
import ConsoleScript.Proofs.Script.Regrouping
import ConsoleScript.Proofs.Script.Acceptance
import ConsoleScript.Proofs.Script.WellFormed
import ConsoleScript.Proofs.Run.Agreement
import ConsoleScript.Proofs.Run.Keeping
import ConsoleScript.Proofs.Run.Nesting
import ConsoleScript.Proofs.Run.Reachable
import ConsoleScript.Proofs.Run.Stacks
import ConsoleScript.Proofs.Run.Scoping
import ConsoleScript.Proofs.Run.Failing
import ConsoleScript.Proofs.Run.Regimes
import ConsoleScript.Proofs.Run.Parsed
import ConsoleScript.Proofs.Script.Extent
import ConsoleScript.Proofs.Run.Timing
import ConsoleScript.Proofs.Run.Conduct
import ConsoleScript.Proofs.Run.Conduct.Steps
import ConsoleScript.Proofs.Run.Conduct.Statements
import ConsoleScript.Proofs.Run.Conduct.Points
import ConsoleScript.Proofs.Run.Files
import ConsoleScript.Proofs.Run.DryRuns
import ConsoleScript.Proofs.Run.Uncatchable
import ConsoleScript.Proofs.Run.Deadline
import ConsoleScript.Proofs.Run.LateLooks
import ConsoleScript.Proofs.Monitor.Framing
import ConsoleScript.Proofs.Text.Lines
import ConsoleScript.Proofs.Monitor.Residue
import ConsoleScript.Proofs.Run.Checked
import ConsoleScript.Proofs.Script.Findings
import ConsoleScript.Proofs.Script.MapLines
import ConsoleScript.Proofs.Script.ScopeFree
import ConsoleScript.Proofs.Run.Following
import ConsoleScript.Proofs.Run.Lockstep
import ConsoleScript.Proofs.Run.ParseScope
import ConsoleScript.Proofs.Run.Breaks
import ConsoleScript.Proofs.Run.Signals
import ConsoleScript.Proofs.Run.Entering
import ConsoleScript.Proofs.Run.Located
import ConsoleScript.Proofs.Run.Beside
import ConsoleScript.Proofs.Run.PassiveDebugger
import ConsoleScript.Proofs.Script.Flags
import ConsoleScript.Proofs.Run.IdleBreaks
import ConsoleScript.Proofs.Script.Setting
import ConsoleScript.Proofs.Script.Refusals
import ConsoleScript.Proofs.Script.Names
import ConsoleScript.Proofs.Script.Joining
import ConsoleScript.Proofs.Scope.Storing
import ConsoleScript.Proofs.Script.Defaults
import ConsoleScript.Proofs.Script.StraightLine
import ConsoleScript.Proofs.Run.Predicted
import ConsoleScript.Proofs.Screen.Alignment
import ConsoleScript.Proofs.Screen.Tracking
import ConsoleScript.Proofs.Screen.Scrolling
import ConsoleScript.Proofs.Screen.Choosing
import ConsoleScript.Proofs.Run.Looks
import ConsoleScript.Proofs.Run.Rehearsing
import ConsoleScript.Proofs.Run.Tours
import ConsoleScript.Proofs.Run.Succeeding
import ConsoleScript.Proofs.Run.DrySwitches
import ConsoleScript.Proofs.Run.Vigils
import ConsoleScript.Proofs.Run.Watching
import ConsoleScript.Proofs.Run.Selecting
import ConsoleScript.Proofs.Run.Turns
import ConsoleScript.Proofs.Run.Unrolling
import ConsoleScript.Proofs.Scope.Occurrences
import ConsoleScript.Proofs.Scope.Escaping
import ConsoleScript.Proofs.Scope.StoredText
import ConsoleScript.Proofs.Scope.Mentions
import ConsoleScript.Proofs.Scope.Dollarless
import ConsoleScript.Proofs.Text.Words
import ConsoleScript.Proofs.Text.Numerals
import ConsoleScript.Proofs.Directive.Arguments
import ConsoleScript.Proofs.Directive.Writable
import ConsoleScript.Proofs.Directive.Exclusive
import ConsoleScript.Proofs.Directive.Written
import ConsoleScript.Proofs.Script.Levels
import ConsoleScript.Proofs.Script.Ranges
import ConsoleScript.Proofs.Script.Ranging
import ConsoleScript.Proofs.Script.Laminar
import ConsoleScript.Proofs.Script.Peeking
import ConsoleScript.Proofs.Script.Descent
import ConsoleScript.Proofs.Script.TopDown
import ConsoleScript.Proofs.Monitor.Keystrokes
import ConsoleScript.Proofs.Monitor.Typing
import ConsoleScript.Proofs.Monitor.Noise
import ConsoleScript.Proofs.Config.Faults
import ConsoleScript.Proofs.Options.Spelling
import ConsoleScript.Proofs.Options.Taking
import ConsoleScript.Proofs.Options.Placement
import ConsoleScript.Proofs.Screen.Fitting
import ConsoleScript.Proofs.Directive.Mixed
import ConsoleScript.Proofs.Text.Durations
