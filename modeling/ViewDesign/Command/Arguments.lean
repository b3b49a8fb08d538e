import ViewDesign.View.Language

/-!
# Command line arguments

* `Command`            the four commands with their operands;
* `Invocation`         what the arguments ask for;
* `Invocation.parse`   reads the arguments.

An option takes its value from the rest of its word, with or without an equals sign after a single
letter, or from the next word, which then may not begin with a hyphen.  After two hyphens every word
is an operand.
-/

namespace ViewDesign

/-- A command with its operands. -/
inductive Command where
  /-- print the map functions of the views in definition files -/
  | map (language : Option Language) (patterns : List String)
  /-- print the query parameters of the views in definition files -/
  | query (patterns : List String)
  /-- run views over documents and print their results -/
  | run (definition docs : String) (view : Option String)
  /-- extract the results of a view from stored rows -/
  | process (definition rows : String) (view : String)
deriving Repr, DecidableEq, Inhabited

/-- What the arguments ask for. -/
inductive Invocation where
  | command (verbose : Bool) (c : Command)
  | version
  | help
  /-- the arguments make no sense -/
  | misuse
deriving Repr, DecidableEq, Inhabited

/-! ## Words -/

/-- An option of a command that takes a value. -/
structure Opt where
  letter : Char
  long : String

/-- The operands of a command and the value of its option, or why there are none. -/
inductive Words where
  | read (operands : List String) (value : Option String)
  | help
  | misuse

/-- A word that starts with a hyphen and is more than that. -/
def isOption (word : String) : Bool :=
  match word.toList with
  | '-' :: _ :: _ => true
  | _ => false

/-- The value of an option in the rest of its word. -/
def attached : List Char → String
  | '=' :: rest => String.ofList rest
  | rest => String.ofList rest

/-- Reads the words after the name of a command. `operands` are those met so far, the last one
first, and `value` is that of the option, which may be given once. -/
def readWords (opt : Option Opt) : List String → List String → Option String → Words
  | [], operands, value => .read operands.reverse value
  | word :: rest, operands, value =>
    match word.toList with
    | ['-', '-'] => .read (operands.reverse ++ rest) value
    | '-' :: '-' :: long =>
      let name := String.ofList (long.takeWhile (· ≠ '='))
      if long = "help".toList then .help
      else if opt.any (·.long = name) && value.isNone then
        match long.dropWhile (· ≠ '=') with
        | _ :: after => readWords opt rest operands (some (String.ofList after))
        | [] =>
          match rest with
          | next :: rest =>
            if isOption next then .misuse else readWords opt rest operands (some next)
          | [] => .misuse
      else .misuse
    | '-' :: letter :: after =>
      if letter = 'h' then .help
      else if opt.any (·.letter = letter) && value.isNone then
        match after with
        | _ :: _ => readWords opt rest operands (some (attached after))
        | [] =>
          match rest with
          | next :: rest =>
            if isOption next then .misuse else readWords opt rest operands (some next)
          | [] => .misuse
      else .misuse
    | _ => readWords opt rest (word :: operands) value

/-! ## Commands -/

namespace Invocation

/-- What a command makes of its words. -/
def ofWords (verbose : Bool) (words : Words)
    (make : List String → Option String → Option Command) : Invocation :=
  match words with
  | .help => .help
  | .misuse => .misuse
  | .read operands value =>
    match make operands value with
    | some c => .command verbose c
    | none => .misuse

/-- The option that names a language. -/
def languageOpt : Opt := ⟨'l', "language"⟩

/-- The option that names a view. -/
def viewOpt : Opt := ⟨'n', "view"⟩

/-- Reads a command by its name. -/
def ofCommand (verbose : Bool) (name : String) (rest : List String) : Invocation :=
  if name = "map" then
    ofWords verbose (readWords (some languageOpt) rest [] none) fun operands value =>
      match value with
      | none => some (.map none operands)
      | some text => (Language.ofName? text).map fun l => .map (some l) operands
  else if name = "query" then
    ofWords verbose (readWords none rest [] none) fun operands _ => some (.query operands)
  else if name = "run" then
    ofWords verbose (readWords (some viewOpt) rest [] none) fun operands value =>
      match operands with
      | [definition, docs] => some (.run definition docs value)
      | _ => none
  else if name = "process" then
    ofWords verbose (readWords (some viewOpt) rest [] none) fun operands value =>
      match operands, value with
      | [definition, rows], some view => some (.process definition rows view)
      | _, _ => none
  else if name = "help" then .help
  else .misuse

/-- What the letters of one word before the command say. -/
inductive Letters where
  | go (verbose : Bool)
  | stop (i : Invocation)

/-- Reads the letters of a word before the command. -/
def readLetters : Bool → List Char → Letters
  | verbose, [] => .go verbose
  | verbose, c :: rest =>
    if c = 'v' then if verbose then .stop .misuse else readLetters true rest
    else if c = 'V' then .stop .version
    else if c = 'h' then .stop .help
    else .stop .misuse

/-- Reads arguments; `verbose` when the flag has been met. -/
def parseFrom (verbose : Bool) : List String → Invocation
  | [] => .misuse
  | word :: rest =>
    match word.toList with
    | '-' :: '-' :: long =>
      if long = "version".toList then .version
      else if long = "help".toList then .help
      else if long = "verbose".toList && !verbose then parseFrom true rest
      else .misuse
    | '-' :: letter :: letters =>
      match readLetters verbose (letter :: letters) with
      | .go verbose => parseFrom verbose rest
      | .stop i => i
    | _ => ofCommand verbose word rest

/-- What the arguments ask for. -/
def parse (arguments : List String) : Invocation := parseFrom false arguments

end Invocation

end ViewDesign
