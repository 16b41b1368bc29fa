import Stencil.CommandLine.Arguments
import Stencil.CommandLine.Files
import Stencil.Config.Toml
import Stencil.Json.Reader
import Stencil.Render.Renderer
import Stencil.Report.RenderError

/-!
# The program

The program reads a configuration, a context, partials and a template, in that
order, and writes the rendered template. The first thing that fails ends it, with
one message and nothing written. Where files come from is left open: `run` works
in any monad that can read them.
-/

namespace Stencil.CommandLine

structure Outcome where
  code : Nat
  out : Text
  err : Text
deriving Repr, DecidableEq

abbrev Work (m : Type → Type) := ExceptT Text m

/-- Where the program reads. A failure to read is its wording. -/
structure Surroundings (m : Type → Type) where
  readFile : (path : Text) → Work m Text
  readInput : Work m Text

variable {m : Type → Type} [Monad m]

def complaint (what path reason : Text) : Text :=
  "Error ".toList ++ what ++ " '".toList ++ path ++ "': ".toList ++ reason ++ ['\n']

def readFile (s : Surroundings m) (path : Text) : Work m Text :=
  ExceptT.adapt (complaint "reading file".toList path) (s.readFile path)

def readConfig (s : Surroundings m) (args : Arguments) : Work m Config := do
  let config ←
    match args.config with
    | none => pure {}
    | some path => do
        let refuse (reason : Text) : Text := complaint "loading config".toList path reason
        let t ← ExceptT.adapt (fun reason => refuse ("Failed to read config file: ".toList ++ reason))
          (s.readFile path)
        match Config.read? t with
        | some config => pure config
        | none => throw (refuse "Failed to parse config TOML".toList)
  return if args.lenient then { config with strictness := .lenient } else config

def readContext (s : Surroundings m) (args : Arguments) : Work m Context := do
  match args.context with
  | none => return []
  | some path =>
      match Json.read (← readFile s path) with
      | .error e => throw (complaint "parsing context".toList path e.message.toList)
      | .ok v =>
          match Context.ofJson v with
          | .error e => throw (complaint "in context".toList path e.message.toList)
          | .ok c => return c

/-- The name of the partial in a file: the name of the file up to its first dot. -/
def partialName (path : Text) : Text :=
  (fileName path).takeWhile (· ≠ '.')

def readPartials (s : Surroundings m) (args : Arguments) : Work m Partial.Registry :=
  args.partials.foldlM (fun r path => do
    let body ← readFile s path
    match Partial.Registry.register r (partialName path) body with
    | .ok r => return r
    | .error e => throw (complaint "registering".toList path e.message)) []

/-- What the template is called that comes from standard input. -/
def inputName : Text := "<stdin>".toList

def inputComplaint (reason : Text) : Text :=
  "Error reading from stdin: ".toList ++ reason ++ ['\n']

def readTemplate (s : Surroundings m) (args : Arguments) : Work m (Text × Text) := do
  match args.template with
  | some path => return (← readFile s path, path)
  | none => return (← ExceptT.adapt inputComplaint s.readInput, inputName)

def failureText (e : Render.RenderError) (template name : Text) (partials : Partial.Registry) :
    Text :=
  let plain := "Error: ".toList ++ e.message ++ ['\n']
  match e.origin? with
  | some .template => e.report template name
  | some (.body partialName) =>
      match Bindings.get? partials partialName with
      | some body => e.report body ('_' :: partialName)
      | none => plain
  | none => plain

def work (s : Surroundings m) (args : Arguments) : Work m Text := do
  let config ← readConfig s args
  let context ← readContext s args
  let partials ← readPartials s args
  let (template, name) ← readTemplate s args
  match render template context partials config with
  | .ok t => return t
  | .error e => throw (failureText e template name partials)

def run (s : Surroundings m) (args : List Text) : m Outcome := do
  match Arguments.read args with
  | .error .help => return ⟨0, usage, []⟩
  | .error refusal => return ⟨2, [], refusal.message ++ usage⟩
  | .ok args =>
      match ← (work s args).run with
      | .ok out => return ⟨0, out, []⟩
      | .error err => return ⟨1, [], err⟩

/-- Runs the program on files in memory. -/
def runOn (files : Files) (input : Text) (args : List Text) : Outcome :=
  Id.run (run
    { readFile := fun path => ExceptT.mk (pure ((files.read path).mapError FileError.message))
      readInput := pure input } args)

end Stencil.CommandLine
