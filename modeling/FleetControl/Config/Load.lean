import FleetControl.Config.Variable
import FleetControl.Record.Config
import FleetControl.Toml.Parser

/-!
# Loading a configuration

A configuration is loaded from a settings file, if there is one, under variables
that override it setting by setting. A section may also be a list of its settings
in order; what goes beyond its layout does not count.
-/
namespace FleetControl

namespace LockSettings

/-- The lock section decides by its backend, which may also be given as a natural
number, its place among the backends. A single character is no text here. -/
def plainMember (name : String) : Setting → Setting
  | .natural n =>
      if name = "backend" then ((["memory", "postgres"][n]?).map .text).getD (.natural n)
      else .natural n
  | .letter _ => .real
  | v => v

def plain : Setting → Setting
  | .group ms => .group (ms.map fun (name, v) => (name, plainMember name v))
  | .list (v :: vs) => .list (plainMember "backend" v :: vs.map (plainMember ""))
  | v => v

end LockSettings

namespace Config

/-- The sections of a configuration with the layouts of their settings. -/
def sections : List (String × Layout) :=
  [ ("database", DatabaseSettings.layout),
    ("lock", ("backend", true) :: LockSettings.postgresLayout),
    ("store", StoreSettings.layout),
    ("fleet", ProviderSettings.layout),
    ("notifications", NotificationSettings.layout),
    ("selector", SelectorSettings.layout),
    ("replacement", ReplacementSettings.layout),
    ("health_check", ImageCheckSettings.layout),
    ("promotion", PromotionSettings.layout),
    ("termination", DecommissionSettings.layout),
    ("tag_sync", TagSettings.layout)]

/-- The names of the variables that override sections and settings, in capital
letters. -/
def variableNames : List String :=
  let names := sections.flatMap fun (name, layout) =>
    name :: layout.map fun (key, _) => name ++ "__" ++ key
  names.map fun name => String.ofList (name.toList.map Char.toUpper)

/-- A section as its reader sees it. -/
def sectionJson (name : String) (v : Setting) : Json :=
  match name, v, sections.lookup name with
  | "lock", v, _ => (LockSettings.plain v).toJson
  | _, .list vs, some layout => .array (Setting.itemsToJson (vs.take layout.length))
  | _, v, _ => v.toJson

/-- Read a configuration from settings. -/
def ofSettings? : Setting → Option Config
  | .group ms => ofJson? (.object (ms.map fun (name, v) => (name, sectionJson name v)))
  | _ => none

/-- The configuration of a settings file under overriding variables; `none` if
the file is not of its form or a setting does not fit. The variables are read
even if the file is not of its form. -/
def load (file : Option String) (overrides : List (String × String)) : Outcome (Option Config) :=
  (Variable.settings overrides).map fun upper => do
    let members ← file.elim (some []) Toml.parse?
    ofSettings? ((Setting.group members).under upper)

end Config

end FleetControl
