/-! Arguments of commands: switches, options with values, and what is neither. -/

namespace Conform

structure Parameter where
  name : String
  short : Option Char := none
  takesValue : Bool := false
  /-- Whether it may be given more than once. -/
  repeats : Bool := false
  /-- Whether nothing after it counts. -/
  stops : Bool := false

structure Arguments where
  given : List (String × String) := []
  operands : List String := []

namespace Arguments

def give (p : Parameter) (value : String) (rest : Arguments) : Arguments :=
  { rest with given := (p.name, value) :: rest.given }

def addOperand (text : String) (rest : Arguments) : Arguments :=
  { rest with operands := text :: rest.operands }

inductive Shape where
  | operand
  /-- Two dashes: only operands follow. -/
  | separator
  /-- Two dashes and a name, and what follows an equals sign. -/
  | long (name : List Char) (value : Option (List Char))
  /-- A dash and letters. -/
  | short (letters : List Char)

def shape (text : String) : Shape :=
  -- A dash alone is an operand.
  match text.toList with
  | ['-', '-'] => .separator
  | '-' :: '-' :: rest =>
    match rest.dropWhile (· != '=') with
    | _ :: value => .long (rest.takeWhile (· != '=')) (some value)
    | [] => .long rest none
  | '-' :: c :: rest => .short (c :: rest)
  | _ => .operand

/-- What letters behind a dash say: parameters without values, and perhaps one with a value, which
is the rest of the letters, or the next argument. -/
inductive Letters where
  | switches (given : List Parameter)
  | value (given : List Parameter) (p : Parameter) (value : String)
  | needsValue (given : List Parameter) (p : Parameter)

def readLetters (parameters : List Parameter) : List Char → Option Letters
  | [] => some (.switches [])
  | c :: rest => do
    let p ← parameters.find? (·.short == some c)
    if p.takesValue then
      match rest with
      | [] => some (.needsValue [] p)
      | '=' :: value => some (.value [] p (String.ofList value))
      | value => some (.value [] p (String.ofList value))
    else if p.stops then some (.switches [p])
    else
      match ← readLetters parameters rest with
      | .switches given => some (.switches (p :: given))
      | .value given q value => some (.value (p :: given) q value)
      | .needsValue given q => some (.needsValue (p :: given) q)

def giveAll (given : List Parameter) (rest : Arguments) : Arguments :=
  given.foldr (give · "") rest

/-- Reads arguments; nothing where one is not understood, or a value is missing. With `single` set
the first operand ends the parameters, and all arguments from there on are operands. A value may
not look like a parameter. -/
def read? (parameters : List Parameter) (single : Bool) : List String → Option Arguments
  | [] => some {}
  | text :: rest =>
    match shape text with
    | .operand =>
      if single then some { operands := text :: rest }
      else (read? parameters single rest).map (addOperand text)
    | .separator => if single then none else some { operands := rest }
    | .long name value => do
      let p ← parameters.find? (·.name == String.ofList name)
      match p.takesValue, value with
      | true, some value =>
        (read? parameters single rest).map (give p (String.ofList value))
      | true, none =>
        match rest with
        | next :: rest =>
          match shape next with
          | .operand => (read? parameters single rest).map (give p next)
          | _ => none
        | [] => none
      | false, some _ => none
      | false, none =>
        if p.stops then some (give p "" {})
        else (read? parameters single rest).map (give p "")
    | .short letters => do
      match ← readLetters parameters letters with
      | .switches given =>
        if given.any Parameter.stops then some (giveAll given {})
        else (read? parameters single rest).map (giveAll given)
      | .value given p value =>
        (read? parameters single rest).map fun a => giveAll given (give p value a)
      | .needsValue given p =>
        match rest with
        | next :: rest =>
          match shape next with
          | .operand =>
            (read? parameters single rest).map fun a => giveAll given (give p next a)
          | _ => none
        | [] => none

def value? (a : Arguments) (name : String) : Option String := a.given.lookup name

def has (a : Arguments) (name : String) : Bool := (a.value? name).isSome

def isProper (parameters : List Parameter) (a : Arguments) : Bool :=
  parameters.all fun p =>
    p.repeats || decide ((a.given.filter (·.1 == p.name)).length ≤ 1)

end Arguments

end Conform
