import ScenePrune.Node
import ScenePrune.Toml.Document

/-!
# Configuration

The configuration is a TOML file with five keys. A key that is missing has a default, and is added
to the file with it.
-/

namespace ScenePrune

structure Config where
  logDir : String := "./logs"
  /-- The options of a run that is started without any. -/
  flags : String := ""
  /-- Types whose nodes are always kept. -/
  entrypointTypes : List TypeName := []
  /-- Where the report goes. -/
  reportPath : String := "gc_report.json"
  /-- Nodes without a parent are always kept. -/
  keepRoots : Bool := true
deriving DecidableEq, Repr

inductive ConfigError where
  | malformed
  | invalid
deriving DecidableEq, Repr

namespace Config

def defaultLines : List (String × String) :=
  [("log_dir", "log_dir = \"./logs\"\n"), ("gc_flags", "gc_flags = \"\"\n"),
   ("entrypoint_types", "entrypoint_types = []\n"),
   ("report_path", "report_path = \"gc_report.json\"\n"), ("keep_roots", "keep_roots = true\n")]

def complete (d : Toml.Document) : Toml.Document :=
  let names := d.rootEntries.map Prod.fst
  d.extendRoot ((defaultLines.filter fun (name, _) => name ∉ names).map Prod.snd)

def setting? {α : Type} (d : Toml.Document) (read : Toml.Value → Option α) (default : α)
    (name : String) : Option α :=
  match d.rootEntries.lookup name with
  | none => some default
  | some value? => value?.bind read

def string? : Toml.Value → Option String
  | .string text => some text
  | _ => none

def bool? : Toml.Value → Option Bool
  | .bool value => some value
  | _ => none

def strings? : Toml.Value → Option (List String)
  | .array items => items.mapM string?
  | _ => none

def ofDocument? (d : Toml.Document) : Option Config := do
  let default : Config := {}
  return {
    logDir := ← setting? d string? default.logDir "log_dir"
    flags := ← setting? d string? default.flags "gc_flags"
    entrypointTypes := ← setting? d strings? default.entrypointTypes "entrypoint_types"
    reportPath := ← setting? d string? default.reportPath "report_path"
    keepRoots := ← setting? d bool? default.keepRoots "keep_roots" }

/-- Reads a configuration, and says how its file reads afterwards. -/
def load (text : String) : Except ConfigError Config × String :=
  match Toml.Document.parse? text with
  | none => (.error .malformed, text)
  | some d =>
    ((match ofDocument? d with
      | some config => .ok config
      | none => .error .invalid), (complete d).render)

end Config

end ScenePrune
