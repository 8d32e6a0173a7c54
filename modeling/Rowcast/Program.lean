import Rowcast.CommandLine
import Rowcast.Conversion
import Rowcast.Storage.Folder

/-!
# The program

The program reads its settings, converts, and says how it went: what was saved on the first
terminal, or a failure and what may help on the second.  Of a crash it says nothing itself.
-/

namespace Rowcast.Program

variable {m : Type → Type} [Monad m] [Shell m]

def orFail {α : Type} : Except Failure α → ExceptT Failure m α
  | .ok value => pure value
  | .error failure => throw failure

def environmentOf (text : String) : ExceptT Failure m Environment := do
  let names := Environment.references text
  let values ← (names.mapM Shell.valueOf : m (List (Option String)))
  return fun name => ((names.zip values).lookup name).join

def fileSettings (path : String) : ExceptT Failure m FileSettings := do
  match Utf8.decode (← Conversion.storage (Shell.fetchSettings path)) with
  | .error _ => throw (.storage .notText)
  | .ok text => orFail (FileSettings.read (← environmentOf text) text)

def settings (arguments : Arguments) : ExceptT Failure m Settings := do
  let file ← match arguments.config with
    | some path => fileSettings path
    | none => pure FileSettings.empty
  orFail (Settings.resolve arguments file)

def announce : Outcome → m Unit
  | .written path records =>
    Host.print [Console.coloured .green "✅ Saved",
      Console.plain (" " ++ toString records ++ " records to " ++ path)]
  | .shown _ _ => pure ()

def complain (failure : Failure) : m Unit := do
  Shell.report [Console.coloured .red failure.explanation]
  Shell.report [Console.plain "💡 ", Console.coloured .yellow failure.suggestion]

def crashStatus : Nat := 101

/-- Converts as the arguments say and returns the exit status. -/
def run (arguments : Arguments) : m Nat := do
  let resolved : ExceptT Stop m Settings := ExceptT.adapt .failed (settings arguments)
  match ← (resolved >>= Conversion.run).run with
  | .ok outcome =>
    announce outcome
    return 0
  | .error (.failed failure) =>
    complain failure
    return failure.severity.exitStatus
  | .error .crashed => return crashStatus

end Rowcast.Program

namespace Rowcast.World

/-- Settings files are found from the home of the disk. -/
instance : Shell (StateM (World Folder)) where
  fetchSettings path := fun world => (world.storage.disk.fetch path, world)
  valueOf name := fun world => (world.environment name, world)
  report line := fun world => ((), { world with reported := world.reported ++ [line] })

end Rowcast.World
