import Stencil.Text.Basic

/-!
# Arguments of the command line

    [TEMPLATE] [-c|--context FILE] [-p|--partial FILE]... [--config FILE]
    [--lenient] [-v|--verbose] [-h|--help]

The value of an option is the next argument, unless that starts with a hyphen, or
stands after `=`; for an option of one letter it may also follow the letter at
once. After `--` every argument is a file.
-/

namespace Stencil.CommandLine

structure Arguments where
  template : Option Text := none
  context : Option Text := none
  partials : List Text := []
  config : Option Text := none
  lenient : Bool := false
  verbose : Bool := false
deriving Repr, DecidableEq

inductive FileOption where
  | context
  | partialBody
  | config
deriving Repr, DecidableEq

inductive Flag where
  | lenient
  | verbose
  | help
deriving Repr, DecidableEq

inductive Switch where
  | file (o : FileOption)
  | flag (f : Flag)
deriving Repr, DecidableEq

inductive Refusal where
  | unexpected (argument : Text)
  | missingValue (option : Text)
  | repeated (option : Text)
  | help
deriving Repr, DecidableEq

def longOption? (name : Text) : Option Switch :=
  match String.ofList name with
  | "context" => some (.file .context)
  | "partial" => some (.file .partialBody)
  | "config" => some (.file .config)
  | "lenient" => some (.flag .lenient)
  | "verbose" => some (.flag .verbose)
  | "help" => some (.flag .help)
  | _ => none

def shortOption? : Char → Option Switch
  | 'c' => some (.file .context)
  | 'p' => some (.file .partialBody)
  | 'v' => some (.flag .verbose)
  | 'h' => some (.flag .help)
  | _ => none

namespace Arguments

def addTemplate (a : Arguments) (file : Text) : Except Refusal Arguments :=
  if file = [] then .error (.missingValue [])
  else if a.template.isSome then .error (.unexpected file)
  else .ok { a with template := some file }

def addFile (a : Arguments) (shown file : Text) (o : FileOption) : Except Refusal Arguments :=
  if file = [] then .error (.missingValue shown)
  else
    match o with
    | .partialBody => .ok { a with partials := a.partials ++ [file] }
    | .context =>
        if a.context.isSome then .error (.repeated shown) else .ok { a with context := some file }
    | .config =>
        if a.config.isSome then .error (.repeated shown) else .ok { a with config := some file }

def addFlag (a : Arguments) (shown : Text) (f : Flag) : Except Refusal Arguments :=
  match f with
  | .help => .error .help
  | .lenient => if a.lenient then .error (.repeated shown) else .ok { a with lenient := true }
  | .verbose => if a.verbose then .error (.repeated shown) else .ok { a with verbose := true }

end Arguments

/-- An option whose file is the next argument. -/
structure Waiting where
  shown : Text
  option : FileOption
deriving Repr, DecidableEq

/-- The letters of one argument: what they say, and the option among them that
waits for its file. -/
def addLetters (a : Arguments) : Text → Except Refusal (Arguments × Option Waiting)
  | [] => .ok (a, none)
  | c :: rest =>
      let shown := ['-', c]
      match shortOption? c with
      | none => .error (.unexpected shown)
      | some (.flag f) => do addLetters (← a.addFlag shown f) rest
      | some (.file o) =>
          match rest with
          | [] => .ok (a, some ⟨shown, o⟩)
          | '=' :: file => do return (← a.addFile shown file o, none)
          | file => do return (← a.addFile shown file o, none)

/-- A long option with what may follow it after `=`. -/
def addLong (a : Arguments) (t : Text) : Except Refusal (Arguments × Option Waiting) :=
  let name := t.takeWhile (· ≠ '=')
  let value := t.dropWhile (· ≠ '=')
  let shown := '-' :: '-' :: name
  match longOption? name, value with
  | none, _ => .error (.unexpected shown)
  | some (.flag f), [] => do return (← a.addFlag shown f, none)
  | some (.flag _), _ :: _ => .error (.unexpected shown)
  | some (.file o), [] => .ok (a, some ⟨shown, o⟩)
  | some (.file o), _ :: file => do return (← a.addFile shown file o, none)

/-- Reads the arguments that are left. `only` tells whether all of them are
files. -/
def readArguments : (only : Bool) → Option Waiting → Arguments → List Text →
    Except Refusal Arguments
  | _, some w, _, [] => .error (.missingValue w.shown)
  | _, none, a, [] => .ok a
  | only, some w, a, t :: rest =>
      match t with
      | '-' :: _ :: _ => .error (.missingValue w.shown)
      | t => do readArguments only none (← a.addFile w.shown t w.option) rest
  | true, none, a, t :: rest => do readArguments true none (← a.addTemplate t) rest
  | false, none, a, t :: rest =>
      match t with
      | ['-', '-'] => readArguments true none a rest
      | '-' :: '-' :: long => do
          let (a, waiting) ← addLong a long
          readArguments false waiting a rest
      | '-' :: c :: letters => do
          let (a, waiting) ← addLetters a (c :: letters)
          readArguments false waiting a rest
      | t => do readArguments false none (← a.addTemplate t) rest

def Arguments.read (args : List Text) : Except Refusal Arguments :=
  readArguments false none {} args

def usage : Text :=
  "Usage: [OPTIONS] [TEMPLATE]\n".toList

def Refusal.message : Refusal → Text
  | unexpected argument => "error: unexpected argument '".toList ++ argument ++ "' found\n".toList
  | missingValue option => "error: a value is required for '".toList ++ option ++ "'\n".toList
  | repeated option =>
      "error: the argument '".toList ++ option ++ "' cannot be used multiple times\n".toList
  | help => []

end Stencil.CommandLine
