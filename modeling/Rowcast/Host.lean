import Rowcast.Console
import Rowcast.Storage.Basic

/-!
# Surroundings of a conversion

A `Host` is what a conversion works in: a store, and a terminal to print lines on.  A `Shell` is
what the program works in: it also finds the settings file and the variables, and has a second
terminal for failures.  `World` is both as a value, so that a whole run is a function of it.
-/

namespace Rowcast

class Host (m : Type → Type) where
  isFile : String → m Bool
  fetch : String → m (Except Storage.Fault Bytes)
  save : String → Bytes → m (Except Storage.Fault Unit)
  print : Line → m Unit

class Shell (m : Type → Type) extends Host m where
  fetchSettings : String → m (Except Storage.Fault Bytes)
  valueOf : String → m (Option String)
  report : Line → m Unit

structure World (σ : Type) where
  storage : σ
  environment : Environment
  printed : List Line
  reported : List Line

namespace World

variable {σ : Type}

/-- A world in which nothing has been printed. -/
def ofStorage (storage : σ) (environment : Environment) : World σ := ⟨storage, environment, [], []⟩

instance [Store σ] : Host (StateM (World σ)) where
  isFile path := fun world => (Store.isFile world.storage path, world)
  fetch path := fun world => (Store.fetch world.storage path, world)
  save path data := fun world =>
    let (result, storage) := Store.save world.storage path data
    (result, { world with storage := storage })
  print line := fun world => ((), { world with printed := world.printed ++ [line] })

end World

end Rowcast
