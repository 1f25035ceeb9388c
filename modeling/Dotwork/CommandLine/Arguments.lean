/-!
# Arguments

The arguments of the command, read from left to right. An option waits for its value until another argument is
recognised, and only then is it settled whether it has one and whether it was given before; an argument that is
not recognised stops the reading before that.
-/

namespace Dotwork.CommandLine

/-- What the command is asked to do. -/
structure Arguments where
  input : String := "-"
  output : Option String := none
  config : Option String := none
  canonical : Bool := false
  logLevel : String := "info"
deriving DecidableEq, Inhabited

namespace Arguments

/-- Why the command does no work: a mistake in its arguments, or a question about itself. -/
inductive Stop
  | unknownArgument
  | valueMissing
  | valueUnneeded
  | repeated
  | help
  | version
deriving DecidableEq

/-- The switches of the command: those that take a value, and those that take none. -/
inductive Switch
  | output
  | config
  | logLevel
  | canonical
  | help
  | version
deriving DecidableEq

namespace Switch

def takesValue : Switch → Bool
  | .output | .config | .logLevel => true
  | .canonical | .help | .version => false

def ofName? (name : String) : Option Switch :=
  if name = "output" then some .output
  else if name = "config" then some .config
  else if name = "log-level" then some .logLevel
  else if name = "canonical" then some .canonical
  else if name = "help" then some .help
  else if name = "version" then some .version
  else none

def ofLetter? : Char → Option Switch
  | 'o' => some .output
  | 'c' => some .config
  | 'h' => some .help
  | 'V' => some .version
  | _ => none

end Switch

/-- What is read of the arguments: the input and the values given, the switch that waits to be settled with its
    value, if it has one, and whether nothing but inputs may follow. -/
structure State where
  input : Option String := none
  values : List (Switch × String) := []
  waiting : Option (Switch × Option String) := none
  isOver : Bool := false

/-- Gives a switch its value, unless it has one. -/
def assign (switch : Switch) (value : String) (s : State) : Except Stop State :=
  if s.values.any (·.1 == switch) then .error .repeated
  else .ok { s with values := (switch, value) :: s.values }

def settle (s : State) : Except Stop State :=
  match s.waiting with
  | none => .ok s
  | some (_, none) => .error .valueMissing
  | some (switch, some value) => assign switch value { s with waiting := none }

/-- Takes a switch without a value that is attached to it. -/
def takeSwitch (switch : Switch) (s : State) : Except Stop State := do
  let s ← settle s
  match switch with
  | .output | .config | .logLevel => return { s with waiting := some (switch, none) }
  | .canonical => assign .canonical "" s
  | .help => throw .help
  | .version => throw .version

/-- Takes a switch with the value that is attached to it. -/
def takeAttached (switch : Switch) (value : String) (s : State) : Except Stop State := do
  assign switch value (← settle s)

/-- Takes a long switch, behind its two dashes. A sign of equality attaches a value. -/
def takeLong (name : List Char) (s : State) : Except Stop State :=
  let value := name.dropWhile (· != '=')
  match Switch.ofName? (String.ofList (name.takeWhile (· != '='))) with
  | none => .error .unknownArgument
  | some switch =>
    if value.isEmpty then takeSwitch switch s
    else if switch.takesValue then takeAttached switch (String.ofList (value.drop 1)) s
    else .error .valueUnneeded

/-- Takes a short switch, behind its dash. What follows the letter is its value, with or without a sign of
    equality. -/
def takeShort (letter : Char) (value : List Char) (s : State) : Except Stop State :=
  match Switch.ofLetter? letter with
  | none => .error .unknownArgument
  | some switch =>
    if switch.takesValue ∧ ¬ value.isEmpty then
      takeAttached switch (String.ofList (if value.head? = some '=' then value.drop 1 else value)) s
    else takeSwitch switch s

/-- Takes an input, of which there is at most one. -/
def takeInput (input : String) (s : State) : Except Stop State := do
  if s.input.isSome then throw .unknownArgument
  return { ← settle s with input := some input }

def take (s : State) (argument : String) : Except Stop State :=
  if s.isOver then takeInput argument s
  else
    match argument.toList with
    | ['-', '-'] => .ok { s with isOver := true }
    | '-' :: '-' :: name => takeLong name s
    | '-' :: letter :: value => takeShort letter value s
    | _ =>
      match s.waiting with
      | some (switch, none) => .ok { s with waiting := some (switch, some argument) }
      | _ => takeInput argument s

def State.value? (s : State) (switch : Switch) : Option String :=
  (s.values.find? (·.1 == switch)).map (·.2)

def ofList (arguments : List String) : Except Stop Arguments := do
  let s ← settle (← arguments.foldlM take {})
  return {
    input := s.input.getD "-"
    output := s.value? .output
    config := s.value? .config
    canonical := (s.value? .canonical).isSome
    logLevel := (s.value? .logLevel).getD "info" }

end Arguments

end Dotwork.CommandLine
