import CursorContext.Settings.Value

/-!
# Settings

How long the cursor has to rest before context is loaded ahead, whether it is loaded ahead at all,
and how many characters of context are handed out when nothing else is asked for.  A host gives
them in a section of its settings; what it leaves out or gives in another form keeps its default.

## Main definitions

* `Settings`: the settings, with their defaults.
* `Settings.ofValue?`: the settings in the section of a host.
* `Settings.summary`: the lines that announce settings read from a host.
-/

namespace CursorContext

/-- The settings of a cache. -/
structure Settings where
  /-- How long the cursor has to rest, in milliseconds. -/
  debounce : Nat := 100
  /-- Whether context is loaded ahead. -/
  preloads : Bool := true
  /-- How many characters of context are handed out. -/
  budget : Nat := 4000
  deriving DecidableEq, Repr, Inhabited

namespace Settings

/-- The settings of a section. -/
def ofSection (v : Value) : Settings :=
  let d : Settings := {}
  { debounce := ((v.field? "preloadDebounceMs").bind Value.word?).getD d.debounce
    preloads := ((v.field? "preloadEnabled").bind Value.flag?).getD d.preloads
    budget := ((v.field? "maxChars").bind Value.word?).getD d.budget }

/-- The settings of a host, if it has the section. -/
def ofValue? (v : Value) : Option Settings := (v.field? "graphContext").map ofSection

/-- A truth value in words. -/
def truth (b : Bool) : String := if b then "true" else "false"

/-- The lines that announce settings read from a host. -/
def summary (s : Settings) : List String :=
  [ "Graph context configuration loaded from settings:",
    s!"  preload_debounce_ms: {s.debounce}",
    "  preload_enabled: " ++ truth s.preloads,
    s!"  default_max_chars: {s.budget}" ]

/-- The settings in full. -/
def debugText (s : Settings) : String :=
  "GraphContextConfig \x7b preload_debounce_ms: " ++ toString s.debounce
    ++ ", preload_enabled: " ++ truth s.preloads
    ++ ", default_max_chars: " ++ toString s.budget ++ " \x7d"

end Settings

end CursorContext
