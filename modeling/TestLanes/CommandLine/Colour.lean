import TestLanes.CommandLine.Invocation
import TestLanes.Log

/-!
# Colours

Whether output is coloured where that is not said: some variables demand it, some forbid it, and for
the rest it takes a terminal that can show colours.

The output and the log are asked about on their own, since each may go to a terminal or not.
Colours never change what is said, only what stands around it.
-/

namespace TestLanes.CommandLine

open Text (dropPrefix? dropSuffix?)

/-! ## 1. The choice

A variable that demands colours goes before one that forbids them; without either, what shows the
output must be a terminal and be known to have colours, by its name or as a build server.
-/

def beginsWith (start s : String) : Bool := (dropPrefix? start.toList s.toList).isSome

def endsWith (suffix s : String) : Bool := (dropSuffix? suffix.toList s.toList).isSome

def hasInside (part : List Char) : List Char → Bool
  | [] => part.isEmpty
  | c :: cs => (dropPrefix? part (c :: cs)).isSome || hasInside part cs

def isForced (env : Environment) : Bool :=
  match env.get? "FORCE_COLOR" with
  | some v =>
    if v = "true" || v = "" then true
    else if v = "false" then false
    else (Text.readNumeral? v).getD 1 ≠ 0
  | none => env.isOn "CLICOLOR_FORCE" "0"

def hasColours (term : String) : Bool :=
  ["screen", "xterm", "vt100", "vt220", "rxvt"].any (beginsWith · term)
    || ["color", "ansi", "cygwin", "linux"].any fun part => hasInside part.toList term.toList
    || ["direct", "truecolor", "256", "256color"].any (endsWith · term)

/-- The variables that decide about colours. -/
def colourVariables : List String :=
  ["FORCE_COLOR", "CLICOLOR_FORCE", "NO_COLOR", "TERM", "IGNORE_IS_TERMINAL", "COLORTERM",
    "TERM_PROGRAM", "CLICOLOR", "CI"]

def serverVariables : List String :=
  ["CI_NAME", "GITHUB_ACTION", "GITLAB_CI", "NETLIFY", "TRAVIS", "CODEBUILD_SRC_DIR",
    "BUILDER_OUTPUT", "GITLAB_DEPLOYMENT", "NOW_GITHUB_DEPLOYMENT", "NOW_BUILDER",
    "BITBUCKET_DEPLOYMENT", "GERRIT_PROJECT", "SYSTEM_TEAMFOUNDATIONCOLLECTIONURI", "BITRISE_IO",
    "BUDDY_WORKSPACE_ID", "BUILDKITE", "CIRRUS_CI", "APPVEYOR", "CIRCLECI", "SEMAPHORE", "DRONE",
    "DSARI", "TDDIUM", "STRIDER", "TASKCLUSTER_ROOT_URL", "JENKINS_URL", "bamboo.buildKey",
    "GO_PIPELINE_NAME", "HUDSON_URL", "WERCKER", "MAGNUM", "NEVERCODE", "RENDER", "SAIL_CI",
    "SHIPPABLE"]

/-- Whether a build server runs the program. -/
def isOnServer (env : Environment) : Bool :=
  ["true", "1", "woodpecker"].any (fun v => env.get? "CI" = some v)
    || serverVariables.any fun name => (env.get? name).isSome

/-- Whether what shows the output has colours. -/
def canShow (env : Environment) : Bool :=
  (env.get? "COLORTERM").isSome || ((env.get? "TERM").map hasColours).getD false
    || env.get? "TERM_PROGRAM" = some "iTerm.app" || env.get? "TERM_PROGRAM" = some "Apple_Terminal"
    || env.isOn "CLICOLOR" "0" || isOnServer env

/-- Whether colours are used where that is not said. -/
def coloursByEnvironment (env : Environment) (onTerminal : Bool) : Bool :=
  isForced env
    || (!env.isOn "NO_COLOR" "0" && env.get? "TERM" ≠ some "dumb"
      && (onTerminal || env.isOn "IGNORE_IS_TERMINAL" "0") && canShow env)

def isColoured (choice : ColourChoice) (env : Environment) (onTerminal : Bool) : Bool :=
  match choice with
  | .auto => coloursByEnvironment env onTerminal
  | .always => true
  | .never => false

/-! ## 2. Paints -/

open Plan (Paint)

def plain : String := "\x1b[0m"

def levelPaint : Level → Paint
  | .error => ⟨"\x1b[31;1m", plain⟩
  | .warning => ⟨"\x1b[33;1m", plain⟩
  | .info | .debug => ⟨"\x1b[1m", plain⟩

def pathPaint : Paint := ⟨"\x1b[1m", plain⟩

end TestLanes.CommandLine
