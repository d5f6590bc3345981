import Calculator.Evaluation
/-!
# Console.Arguments — what the command line asks for

Arguments are read from left to right.  A request for help or for the version is answered where it stands; whatever is
wrong with an argument before it refuses the whole command line, and whatever comes after it is not looked at.  That two
arguments exclude each other shows only at the end.
-/
namespace Calculator
namespace Console

/-- Where the expressions come from. -/
inductive Source where
  /-- One expression, given as an argument. -/
  | argument (expression : String)
  /-- The lines of a file. -/
  | script (path : String)
  /-- Standard input: one line, or as many as there are. -/
  | console (interactive : Bool)
  deriving DecidableEq, Repr

structure Options where
  source : Source
  limit : Nat
  showVariables : Bool
  deriving DecidableEq, Repr

/-- What a command line comes to. -/
inductive Command where
  | refused
  | help
  | version
  | calculate (options : Options)
  deriving DecidableEq, Repr

namespace Arguments

/-- The switches, which stand for themselves. -/
inductive Switch where
  | interactive
  | showVariables
  /-- Asks for more on standard error; nothing that is computed or written depends on it. -/
  | verbose
  | help
  | version
  deriving DecidableEq, Repr

/-- The settings, each of which takes a value. -/
inductive Setting where
  | file
  | limit
  deriving DecidableEq, Repr

inductive Name where
  | switch (which : Switch)
  | setting (which : Setting)
  deriving DecidableEq, Repr

def Name.ofLetter? : Char → Option Name
  | 'f' => some (.setting .file)
  | 'h' => some (.switch .help)
  | 'i' => some (.switch .interactive)
  | 'v' => some (.switch .verbose)
  | 'V' => some (.switch .version)
  | _ => none

def Name.ofWord? : String → Option Name
  | "file" => some (.setting .file)
  | "max-depth" => some (.setting .limit)
  | "help" => some (.switch .help)
  | "interactive" => some (.switch .interactive)
  | "show-vars" => some (.switch .showVariables)
  | "verbose" => some (.switch .verbose)
  | "version" => some (.switch .version)
  | _ => none

/-- What has been read so far. -/
structure Draft where
  expression : Option String := none
  file : Option String := none
  limit : Option Nat := none
  interactive : Bool := false
  showVariables : Bool := false
  verbose : Bool := false
  deriving DecidableEq, Repr

/-- Reading goes on with a draft, or the command is settled. -/
abbrev Result := Except Command

/-- A limit is written with ASCII digits, possibly after a plus sign, and fits into 64 bits. -/
def readLimit? (text : String) : Option Nat :=
  let digits :=
    match text.toList with
    | '+' :: rest => rest
    | rest => rest
  let limit := Nat.ofDigitChars 10 digits 0
  if digits ≠ [] ∧ digits.all Char.isDigit ∧ limit < Nat.pow 2 64 then some limit else none

namespace Draft

/-- A switch may be given once; help and the version end the reading. -/
def turnOn (d : Draft) : Switch → Result Draft
  | .interactive => if d.interactive then .error .refused else .ok { d with interactive := true }
  | .showVariables => if d.showVariables then .error .refused else .ok { d with showVariables := true }
  | .verbose => if d.verbose then .error .refused else .ok { d with verbose := true }
  | .help => .error .help
  | .version => .error .version

/-- A setting may be given once, and its value has to make sense. -/
def assign (d : Draft) (setting : Setting) (value : String) : Result Draft :=
  match setting with
  | .file => if d.file.isSome ∨ value = "" then .error .refused else .ok { d with file := some value }
  | .limit =>
    match d.limit, readLimit? value with
    | none, some limit => .ok { d with limit := some limit }
    | _, _ => .error .refused

/-- There is at most one expression. -/
def place (d : Draft) (expression : String) : Result Draft :=
  if d.expression.isSome then .error .refused else .ok { d with expression := some expression }

/-- The letters after a single dash.  A setting takes the rest of them as its value, less one equals sign; with no
rest, it waits for the next argument. -/
def letters (d : Draft) : List Char → Result (Draft × Option Setting)
  | [] => .ok (d, none)
  | letter :: rest =>
    match Name.ofLetter? letter with
    | none => .error .refused
    | some (.switch which) => do letters (← d.turnOn which) rest
    | some (.setting which) =>
      match rest with
      | [] => .ok (d, some which)
      | '=' :: value => return (← d.assign which (String.ofList value), none)
      | value => return (← d.assign which (String.ofList value), none)

/-- The word after two dashes, with its value if an equals sign follows it. -/
def word (d : Draft) (text : List Char) : Result (Draft × Option Setting) :=
  let name := text.takeWhile (· != '=')
  let value? :=
    match text.dropWhile (· != '=') with
    | [] => none
    | _ :: value => some (String.ofList value)
  match Name.ofWord? (String.ofList name), value? with
  | some (.switch which), none => return (← d.turnOn which, none)
  | some (.setting which), none => .ok (d, some which)
  | some (.setting which), some value => return (← d.assign which value, none)
  | _, _ => .error .refused

/-- Which of the sources is meant; two of them exclude each other. -/
def finish (d : Draft) : Command :=
  let source? : Option Source :=
    match d.expression, d.file, d.interactive with
    | some expression, none, false => some (.argument expression)
    | none, some path, false => some (.script path)
    | none, none, interactive => some (.console interactive)
    | _, _, _ => none
  match source? with
  | none => .refused
  | some source => .calculate ⟨source, d.limit.getD defaultLimit, d.showVariables⟩

/-- The arguments after a lone double dash. -/
def placeAll (d : Draft) : List String → Result Draft
  | [] => .ok d
  | expression :: rest => do placeAll (← d.place expression) rest

end Draft

/-- The arguments from some point on.  A setting that waits for its value takes the next argument, unless that one
starts with a dash and is more than the dash. -/
def readFrom (d : Draft) (waiting : Option Setting) : List String → Result Draft
  | [] => if waiting.isSome then .error .refused else .ok d
  | argument :: rest =>
    match argument.toList, waiting with
    | '-' :: _ :: _, some _ => .error .refused
    | _, some setting => do readFrom (← d.assign setting argument) none rest
    | ['-', '-'], none => d.placeAll rest
    | '-' :: '-' :: text, none => do
      let (d, waiting) ← d.word text
      readFrom d waiting rest
    | '-' :: letter :: letters, none => do
      let (d, waiting) ← d.letters (letter :: letters)
      readFrom d waiting rest
    | _, none => do readFrom (← d.place argument) none rest

/-- **What a command line asks for.** -/
def read (arguments : List String) : Command :=
  match readFrom {} none arguments with
  | .ok draft => draft.finish
  | .error command => command

end Arguments
end Console
end Calculator
