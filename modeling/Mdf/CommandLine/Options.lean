/-!
# Options

A command has options, each with a long name and perhaps a short one.  Arguments are read from left
to right, and the first one that breaks a rule, or asks for help, decides:

- `--name value`, `--name=value`, `-n value`, `-nvalue` and `-n=value` give an option its value; a
  value that starts with a minus sign must be joined;
- no option is given twice, and there are no other arguments; `--` may stand at the end.
-/

namespace Mdf.CommandLine

/-- Why arguments give no command. -/
inductive Stop where
  | help
  /-- The arguments break a rule. -/
  | misuse
deriving DecidableEq, Repr

/-- What an option takes. -/
inductive Arity where
  | flag
  | one
  /-- A value that may be left out, and then is the given one. -/
  | optional (default : String)
deriving DecidableEq, Repr

/-- An option of a command whose settings are an `α`. -/
structure OptionSpec (α : Type) where
  /-- The name behind two minus signs. -/
  name : String
  /-- The letter behind one minus sign. -/
  short : Option Char
  arity : Arity
  /-- The settings with a value, if the option accepts it. -/
  set : String → α → Option α

/-- An argument by its form. -/
inductive Argument where
  | stop
  /-- A long option, perhaps with a joined value. -/
  | long (name : String) (joined : Option String)
  /-- A short option, perhaps with a joined value. -/
  | short (letter : Char) (joined : Option String)
  | plain
deriving DecidableEq, Repr

/-- A text divided at its first equals sign. -/
def splitEquals (s : List Char) : String × Option String :=
  match s.dropWhile (· ≠ '=') with
  | _ :: v => (String.ofList (s.takeWhile (· ≠ '=')), some (String.ofList v))
  | [] => (String.ofList s, none)

/-- The form of an argument. -/
def Argument.ofString (s : String) : Argument :=
  match s.toList with
  | ['-', '-'] => .stop
  | '-' :: '-' :: r => .long (splitEquals r).1 (splitEquals r).2
  | ['-', c] => .short c none
  | '-' :: c :: '=' :: v => .short c (some (String.ofList v))
  | '-' :: c :: v => .short c (some (String.ofList v))
  | _ => .plain

/-- Whether an argument can be the value of the option before it. -/
def isValue (s : String) : Bool := Argument.ofString s == .plain

/-! ### Reading arguments -/

/-- The value of an option, joined or taken from the arguments behind it, and the arguments behind
that. -/
def Arity.value (arity : Arity) (joined : Option String) (rest : List String) :
    Except Stop (String × List String) :=
  match arity, joined, rest with
  | .flag, none, rest => .ok ("", rest)
  | .flag, some _, _ => .error .misuse
  | _, some v, rest => .ok (v, rest)
  | .one, none, v :: rest => if isValue v then .ok (v, rest) else .error .misuse
  | .one, none, [] => .error .misuse
  | .optional default, none, v :: rest =>
    if isValue v then .ok (v, rest) else .ok (default, v :: rest)
  | .optional default, none, [] => .ok (default, [])

theorem Arity.length_value {arity : Arity} {joined : Option String} {rest r : List String}
    {v : String} (h : arity.value joined rest = .ok (v, r)) : r.length ≤ rest.length := by
  cases arity <;> cases joined <;> cases rest <;> grind [Arity.value]

/-- The option that an argument names, if it names one; a request for help stops. -/
def findOption {α : Type} (options : List (OptionSpec α)) :
    Argument → Except Stop (Option String × OptionSpec α)
  | .long "help" none => .error .help
  | .short 'h' _ => .error .help
  | .long name joined => named joined (options.find? fun o => o.name == name)
  | .short letter joined => named joined (options.find? fun o => o.short == some letter)
  | _ => .error .misuse
where
  /-- The option, if there is one of the name. -/
  named (joined : Option String) :
      Option (OptionSpec α) → Except Stop (Option String × OptionSpec α)
    | some o => .ok (joined, o)
    | none => .error .misuse

/-- The settings after an option with a value, which must be new and must accept the value. -/
def applyOption {α : Type} (o : OptionSpec α) (seen : List String) (value : String)
    (settings : α) : Except Stop α :=
  if o.name ∈ seen then .error .misuse
  else
    match o.set value settings with
    | some a => .ok a
    | none => .error .misuse

/-- Reads the arguments of a command, given the options seen before and the settings so far. -/
def scan {α : Type} (options : List (OptionSpec α)) (seen : List String) (settings : α) :
    List String → Except Stop α
  | [] => .ok settings
  | arg :: rest =>
    if Argument.ofString arg = .stop then
      if rest = [] then .ok settings else .error .misuse
    else
      match findOption options (Argument.ofString arg) with
      | .error e => .error e
      | .ok (joined, o) =>
        match _h : o.arity.value joined rest with
        | .error e => .error e
        | .ok (value, r) =>
          match applyOption o seen value settings with
          | .error e => .error e
          | .ok settings => scan options (o.name :: seen) settings r
termination_by args => args.length
decreasing_by
  have := Arity.length_value _h
  simp only [List.length_cons]
  omega

/-- Reads the arguments of a command. -/
def readOptions {α : Type} (options : List (OptionSpec α)) (settings : α) (args : List String) :
    Except Stop α :=
  scan options [] settings args

end Mdf.CommandLine
