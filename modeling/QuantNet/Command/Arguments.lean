import QuantNet.Binary64.Reader

/-!
# Command-line arguments

Options and operands of a command line.

## The model

An option has a long name and possibly a letter, and it is a flag or takes a value. The value
follows the name after an equals sign or as the next argument, and the letter directly, after an
equals sign or as the next argument; flags written with letters may stand together. A value that is
an argument of its own must not look like an option, unless the option takes any value. Everything
after two dashes is an operand. Every value and operand is of a declared kind. Reading stops at the
first defect, or at an option that asks for a text about the program, whichever comes first.
-/

namespace QuantNet.Arguments

/-- What a value or an operand stands for. -/
inductive Kind where
  /-- Itself. -/
  | text
  /-- A signed 64-bit word. -/
  | integer
  /-- A number. -/
  | number
  /-- Numbers with commas between them. -/
  | numbers
  /-- One of the given choices. -/
  | choice (names : List String)
deriving DecidableEq

/-- Whether an argument can be read as a value of the kind. -/
def Kind.accepts : Kind → String → Bool
  | text, _ => true
  | integer, argument => (Text.word? argument.toList).isSome
  | number, argument => (Binary64.parse? argument).isSome
  | numbers, argument => (Text.fields ',' argument).all fun field => (Binary64.parse? field).isSome
  | choice names, argument => names.contains argument

/-- What an option asks for. -/
inductive Role where
  /-- It is set or not. -/
  | flag
  /-- It takes a value. -/
  | value (kind : Kind)
  /-- It asks for the version of the program. -/
  | version
  /-- It asks how the program is used. -/
  | help
deriving DecidableEq

/-- A declared option. -/
structure Declaration where
  /-- The name after two dashes. -/
  name : String
  /-- The letter after one dash. -/
  letter : Option Char := none
  /-- What it asks for. -/
  role : Role := .value .text
  /-- Whether its value may look like an option. -/
  anyValue : Bool := false
  /-- Whether it may be given more than once. -/
  repeats : Bool := false
deriving DecidableEq

/-- Which operands are taken. -/
inductive Operands where
  /-- None. -/
  | none
  /-- One at most. -/
  | one
  /-- Any number of them, negative numbers among them or not. -/
  | many (kind : Kind) (negatives : Bool)
deriving DecidableEq

/-- What may be given. -/
structure Rules where
  /-- The options. -/
  options : List Declaration
  /-- The operands. -/
  operands : Operands := .none

/-- What was given. -/
structure Given where
  /-- The names of the options with their values, in order; the value of a flag is empty. -/
  options : List (String × String) := []
  /-- The operands, in order. -/
  operands : List String := []

/-- Why reading stops. -/
inductive Stop where
  /-- The arguments do not follow the rules. -/
  | misuse
  /-- The version was asked for. -/
  | version
  /-- It was asked how the program is used. -/
  | help
deriving DecidableEq

/-! ### Negative numbers -/

/-- Whether characters are digits with at most one point and one exponent mark, neither of them
first, the mark not last, and the point before the mark. -/
def isNumberFrom : (first point mark : Bool) → List Char → Bool
  | _, _, _, [] => true
  | first, point, mark, c :: cs =>
    if c.isDigit then isNumberFrom false point mark cs
    else if c = '.' then !first && !point && !mark && isNumberFrom false true mark cs
    else if c = 'e' || c = 'E' then !first && !mark && !cs.isEmpty && isNumberFrom false point true cs
    else false

/-- Whether an argument is a negative number. -/
def isNegative (argument : String) : Bool :=
  match argument.toList with
  | '-' :: c :: cs => isNumberFrom true false false (c :: cs)
  | _ => false

/-- Whether negative numbers are taken as operands. -/
def Rules.takesNegatives (rules : Rules) : Bool :=
  match rules.operands with
  | .many _ negatives => negatives
  | _ => false

/-! ### Adding -/

/-- Whether an option can have the value. -/
def Role.accepts : Role → String → Bool
  | value kind, argument => kind.accepts argument
  | _, _ => true

/-- What was given, with an option added. -/
def addOption (declaration : Declaration) (value : String) (given : Given) : Except Stop Given :=
  match declaration.role with
  | .version => .error .version
  | .help => .error .help
  | role =>
    if !role.accepts value then .error .misuse
    else if !declaration.repeats && given.options.any (fun o => o.1 = declaration.name) then .error .misuse
    else .ok { given with options := given.options ++ [(declaration.name, value)] }

/-- What was given, with an operand added. -/
def addOperand (rules : Rules) (given : Given) (operand : String) : Except Stop Given :=
  match rules.operands with
  | .none => .error .misuse
  | .one => if given.operands.isEmpty then .ok { given with operands := [operand] } else .error .misuse
  | .many kind _ =>
    if kind.accepts operand then .ok { given with operands := given.operands ++ [operand] }
    else .error .misuse

/-! ### Reading -/

/-- What was given after options written with letters, and the option that waits for its value. -/
def readLetters (rules : Rules) : Given → List Char → Except Stop (Given × Option Declaration)
  | given, [] => .ok (given, none)
  | given, c :: cs =>
    match rules.options.find? fun d => d.letter = some c with
    | none => .error .misuse
    | some d =>
      match d.role with
      | .value _ =>
        match cs with
        | [] => .ok (given, some d)
        | '=' :: value => (addOption d (String.ofList value) given).map fun given => (given, none)
        | value => (addOption d (String.ofList value) given).map fun given => (given, none)
      | _ => do readLetters rules (← addOption d "" given) cs

/-- What was given after an option written with its name, and the option that waits for its value. -/
def readName (rules : Rules) (given : Given) (body : List Char) :
    Except Stop (Given × Option Declaration) :=
  let name := String.ofList (body.takeWhile (· ≠ '='))
  match rules.options.find? fun d => d.name = name with
  | none => .error .misuse
  | some d =>
    match d.role, body.dropWhile (· ≠ '=') with
    | .value _, [] => .ok (given, some d)
    | .value _, _ :: value => (addOption d (String.ofList value) given).map fun given => (given, none)
    | _, [] => (addOption d "" given).map fun given => (given, none)
    | _, _ :: _ => .error .misuse

/-- What was given after an argument, and the option that waits for its value. -/
def readArgument (rules : Rules) (given : Given) (argument : String) :
    Except Stop (Given × Option Declaration) :=
  match argument.toList with
  | '-' :: '-' :: body => readName rules given body
  | '-' :: c :: cs =>
    if rules.takesNegatives && isNegative argument then
      (addOperand rules given argument).map fun given => (given, none)
    else readLetters rules given (c :: cs)
  | _ => (addOperand rules given argument).map fun given => (given, none)

/-- Whether an argument can be the value of the option in front of it. -/
def takesValue (rules : Rules) (declaration : Declaration) (argument : String) : Bool :=
  declaration.anyValue || argument = "-" || argument.toList.head? ≠ some '-' ||
    (rules.takesNegatives && isNegative argument)

/-- What was given after arguments in order. -/
def read (rules : Rules) : Given → List String → Except Stop Given
  | given, [] => .ok given
  | given, argument :: rest =>
    if argument = "--" then rest.foldlM (addOperand rules) given
    else do
      match ← readArgument rules given argument with
      | (given, none) => read rules given rest
      | (given, some d) =>
        match rest with
        | [] => .error .misuse
        | value :: rest =>
          if takesValue rules d value then read rules (← addOption d value given) rest
          else .error .misuse

namespace Given

/-- Whether an option was given. -/
def has (given : Given) (name : String) : Bool := given.options.any fun o => o.1 = name

/-- The value of an option. -/
def value? (given : Given) (name : String) : Option String := given.options.lookup name

/-- The values of an option that may be given more than once. -/
def values (given : Given) (name : String) : List String :=
  (given.options.filter fun o => o.1 = name).map (·.2)

end Given

end QuantNet.Arguments
