import EntityScript.Import.Splice
import EntityScript.Settings.Text
import EntityScript.Simulation

/-! # Simulations from files -/

namespace EntityScript

def World.loadFile (t : Import.Files) (folder : Import.Path) (path : String) (budget : Nat)
    (host : Host) (settings : Settings) : Except ScriptFault World := do
  let source ← (Import.resolve t folder [] path).1
  match World.load { host := host, settings := settings } budget source with
  | (.ok _, w) => .ok w
  | (.error fault, _) => .error fault

def World.reloadFile (w : World) (t : Import.Files) (folder : Import.Path) (path : String)
    (budget : Nat) : Except ScriptFault ReloadReport × World :=
  match (Import.resolve t folder [] path).1 with
  | .ok source => w.reload budget source
  | .error fault => (.error fault, w)

def Settings.loadFile (t : Import.Files) (folder : Import.Path) (path : String) :
    Except ScriptFault Settings := do
  match (t.locate? folder path).bind t.read? with
  | none => .error .unreadable
  | some text => (Settings.read text).mapError ScriptFault.engine

end EntityScript
