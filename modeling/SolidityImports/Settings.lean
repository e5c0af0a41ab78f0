import SolidityImports.Path.Basic

/-! # Settings

The library roots, the place of the installed compilers and the level of the log, as the environment
gives them. -/

namespace SolidityImports

/-- The environment: the values of the variables that are set. -/
abbrev Environment := Text → Option Text

/-- A level of the log. -/
inductive LogLevel where
  | critical
  | fatal
  | error
  | warn
  | warning
  | info
  | debug
  | notSet
deriving DecidableEq

namespace LogLevel

/-- All levels. -/
def all : List LogLevel := [.critical, .fatal, .error, .warn, .warning, .info, .debug, .notSet]

/-- The name of a level. -/
def name : LogLevel → Text
  | .critical => .of "CRITICAL"
  | .fatal => .of "FATAL"
  | .error => .of "ERROR"
  | .warn => .of "WARN"
  | .warning => .of "WARNING"
  | .info => .of "INFO"
  | .debug => .of "DEBUG"
  | .notSet => .of "NOTSET"

/-- How much a message has to matter to be logged. -/
def rank : LogLevel → Nat
  | .critical | .fatal => 50
  | .error => 40
  | .warn | .warning => 30
  | .info => 20
  | .debug => 10
  | .notSet => 0

/-- The capital of a letter, as far as it is an ASCII one: the dotless i and the long s have one
too. -/
def capital (c : Char) : Char := if c = 'ı' then 'I' else if c = 'ſ' then 'S' else c.toUpper

/-- The level with a name in any case. -/
def ofText? (s : Text) : Option LogLevel := all.find? (·.name = s.map capital)

end LogLevel

/-- The settings. -/
structure Settings where
  libraries : List Path
  compilers : Path
  logLevel : LogLevel
deriving DecidableEq

namespace Settings

/-- The library roots if none are given. -/
def defaultLibraries : List Path := [.ofText (.of "lib")]

/-- The library roots: paths with colons between them. Empty ones do not count. -/
def librariesOf (env : Environment) : List Path :=
  let given := (env (.of "SOLC_LIB_PATHS")).getD (.of "lib")
  match (given.pieces ':').filter (· ≠ []) with
  | [] => defaultLibraries
  | paths => paths.map .ofText

/-- The home directory, without slashes at its end; `none` if it cannot be told. -/
def home? (env : Environment) : Option Path :=
  let given := (env (.of "HOME")).getD []
  let trimmed := (given.reverse.dropWhile (· = '/')).reverse
  if trimmed.head? = some '~' then none
  else some (.ofText (if trimmed = [] then ['/'] else trimmed))

/-- The directory of the installed compilers: as it is given, or `.svm` in the home directory. -/
def compilersOf? (env : Environment) : Option Path :=
  match env (.of "SVM_HOME") with
  | some (c :: s) => some (.ofText (c :: s))
  | _ => (home? env).map (· / .ofText (.of ".svm"))

/-- The level of the log: warnings, if no level is given or there is none of that name. -/
def logLevelOf (env : Environment) : LogLevel :=
  ((env (.of "SOLRESOLVE_LOG_LEVEL")).bind LogLevel.ofText?).getD .warning

/-- The settings of an environment; `none` if it does not tell the home directory. -/
def ofEnvironment? (env : Environment) : Option Settings :=
  (compilersOf? env).map fun compilers ↦ ⟨librariesOf env, compilers, logLevelOf env⟩

/-- The level to log at: the one that is asked for if there is one, which has to exist. -/
def levelFor? (settings : Settings) : Option Text → Option LogLevel
  | none | some [] => some settings.logLevel
  | some asked => LogLevel.ofText? asked

end Settings

end SolidityImports
