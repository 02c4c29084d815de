import Brewery.Settings.Basic
import Brewery.Toml.Printer

/-!
The settings as a settings file. Every setting is written, also the standard ones, only a
root that is not set is left out. A number of milliseconds beyond the integers of the format
cannot be written.
-/

namespace Brewery.Settings

open Toml (line headline quoted arrayText)

def truth (value : Bool) : Text := if value then "true".toList else "false".toList

def command (argv : List Text) : Text := arrayText (argv.map quoted)

def render? (settings : Settings) : Option Text :=
  if Nat.pow 2 63 ≤ settings.debounce then none
  else some (
    line "version" (Text.ofNat settings.version) ++
    (match settings.root with
      | some root => line "root" (quoted root.text)
      | none => []) ++
    line "stores_dir" (quoted settings.stores.text) ++
    line "include_dirs" (command (settings.includeDirs.map Path.text)) ++
    line "symbols_file" (quoted settings.symbols.text) ++
    headline "formats" ++
    SourceKind.recognized.flatMap (fun kind =>
      line (String.ofList kind.key) (truth (settings.formats.contains kind))) ++
    headline "compilers" ++
    line "script" (command settings.commands.script) ++
    line "template" (command settings.commands.template) ++
    line "execute" (command settings.commands.execute) ++
    headline "watch" ++
    line "debounce_ms" (Text.ofNat settings.debounce) ++
    headline "logging" ++
    line "default" (quoted settings.logging.level) ++
    headline "logging.modules" ++
    settings.logging.modules.flatMap fun entry =>
      Toml.keyText entry.1 ++ " = ".toList ++ quoted entry.2 ++ ['\n'])

end Brewery.Settings
