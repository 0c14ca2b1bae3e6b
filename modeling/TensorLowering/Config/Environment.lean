import TensorLowering.Config.Basic
import TensorLowering.NameMap
import TensorLowering.Text.Characters

/-! # Settings from the environment

Three environment variables stand over the settings of a configuration. A variable that is blank, or
for paths empty, says nothing. -/

namespace TensorLowering

/-- The environment variables of a process. -/
abbrev Environment := NameMap String

namespace Environment

/-- The variable that switches profiling. -/
def profilingName : String := "OPLOWER_ENABLE_PROFILING"

/-- The variable that names the overlay document of the build. -/
def overlayName : String := "OPLOWER_CUSTOM_KERNELS"

/-- The variable that names the global overlay document. -/
def globalOverlayName : String := "OPLOWER_GLOBAL_CUSTOM_KERNELS"

/-- True for the words that switch something on, in any ASCII case and with white space around. -/
def isTruthy (value : String) : Bool :=
  ["1", "true", "yes", "on"].contains ((Text.trimBlanks value).map Char.toLower)

/-- The switch that a variable holds. -/
def switch? (env : Environment) (name : String) : Option Bool :=
  match env.get? name with
  | some value => if Text.trimBlanks value = "" then none else some (isTruthy value)
  | none => none

/-- The path that a variable holds. -/
def path? (env : Environment) (name : String) : Option String :=
  (env.get? name).filter (· ≠ "")

end Environment

/-- Puts the settings of the environment over a configuration. -/
def BuildConfig.withEnvironment (c : BuildConfig) (env : Environment) : BuildConfig :=
  { c with
    profiling := (env.switch? Environment.profilingName).getD c.profiling
    overlay := env.path? Environment.overlayName <|> c.overlay
    globalOverlay := env.path? Environment.globalOverlayName <|> c.globalOverlay }

end TensorLowering
