import ClassCensus.Files.Path

/-!
# Arguments of the command line

Arguments are read from left to right.  Options that take a value take the text behind `=` or the
argument that follows, switches take none, and all else are inputs; behind `--` there are inputs
only.  The first fault counts, and a request for help or for the version is granted as soon as it
is met.
-/

namespace ClassCensus.CommandLine

/-- The options that take a value. -/
inductive ValueOption where
  | output
  | specification
  | versions
  deriving Repr, DecidableEq

/-- The options that take no value. -/
inductive Switch where
  | constantPool
  | verbose
  | help
  | version
  deriving Repr, DecidableEq

def ValueOption.ofName? (name : String) : Option ValueOption :=
  if name = "output" then some .output
  else if name = "specification" then some .specification
  else if name = "versions" then some .versions
  else none

def Switch.ofName? (name : String) : Option Switch :=
  if name = "constant-pool" then some .constantPool
  else if name = "verbose" then some .verbose
  else if name = "help" then some .help
  else if name = "version" then some .version
  else none

def Switch.ofLetter? (letter : Char) : Option Switch :=
  if letter = 'h' then some .help
  else if letter = 'V' then some .version
  else none

/-- What an inspection is asked to do.  The documents replace the tables that are built in. -/
structure Settings where
  inputs : List String
  output : Option String
  specification : Option String
  versions : Option String
  withPool : Bool
  isVerbose : Bool
  deriving Repr, DecidableEq

namespace Settings

/-- The settings that nothing was asked of. -/
def default : Settings := ⟨[], none, none, none, false, false⟩

def value (settings : Settings) : ValueOption → Option String
  | .output => settings.output
  | .specification => settings.specification
  | .versions => settings.versions

def setValue (settings : Settings) (text : String) : ValueOption → Settings
  | .output => { settings with output := some text }
  | .specification => { settings with specification := some text }
  | .versions => { settings with versions := some text }

/-- The file that the report is written to; none if it is printed, which a single hyphen asks
for. -/
def outputFile? (settings : Settings) : Option String :=
  settings.output.filter fun path => !Path.sameComponents path "-"

end Settings

/-- What arguments ask for. -/
inductive Request where
  | help
  | version
  | inspect (settings : Settings)
  deriving Repr, DecidableEq

/-- Why arguments cannot be followed. -/
inductive UsageFault where
  | unknownOption (argument : String)
  | missingValue (argument : String)
  | needlessValue (argument : String)
  | repeated (argument : String)
  | emptyInput
  | missingInput
  deriving Repr, DecidableEq

namespace UsageFault

def message : UsageFault → String
  | unknownOption argument => "unexpected argument '" ++ argument ++ "' found"
  | missingValue argument => "a value is required for '" ++ argument ++ "' but none was supplied"
  | needlessValue argument => "unexpected value in '" ++ argument ++ "' found"
  | repeated argument => "the argument '" ++ argument ++ "' cannot be used multiple times"
  | emptyInput => "a value is required for '<INPUT>...' but none was supplied"
  | missingInput => "the required argument '<INPUT>...' was not provided"

end UsageFault

/-- What an argument is by its form: the end of all options, an option by its name with the text
behind `=`, an option by its letter, or a text. -/
inductive Word where
  | endOfOptions
  | named (name : String) (value : Option String)
  | lettered (letter : Char)
  | text
  deriving Repr, DecidableEq

/-- The form of an argument.  A single hyphen is a text. -/
def Word.ofArgument (argument : String) : Word :=
  match argument.toList with
  | ['-', '-'] => endOfOptions
  | '-' :: '-' :: rest =>
    let isNoEquals := fun (c : Char) => c != '='
    let value :=
      match rest.dropWhile isNoEquals with
      | [] => none
      | _ :: value => some (String.ofList value)
    named (String.ofList (rest.takeWhile isNoEquals)) value
  | '-' :: letter :: _ => lettered letter
  | _ => text

namespace Settings

def addInput (settings : Settings) (path : String) : Except UsageFault Settings :=
  if path = "" then .error .emptyInput
  else .ok { settings with inputs := settings.inputs ++ [path] }

def addInputs (settings : Settings) (paths : List String) : Except UsageFault Settings :=
  paths.foldlM addInput settings

/-- The settings with a value for an option that has none yet. -/
def giveValue (settings : Settings) (argument : String) (option : ValueOption) (text : String) :
    Except UsageFault Settings :=
  if text = "" then .error (.missingValue argument)
  else if (settings.value option).isSome then .error (.repeated argument)
  else .ok (settings.setValue text option)

/-- The inspection that settings ask for. -/
def request (settings : Settings) : Except UsageFault Request :=
  if settings.inputs = [] then .error .missingInput else .ok (.inspect settings)

end Settings

/-- The settings with a switch turned on, or the request that the switch makes. -/
def Switch.turnOn (settings : Settings) (argument : String) :
    Switch → Except UsageFault (Settings ⊕ Request)
  | constantPool =>
    if settings.withPool then .error (.repeated argument)
    else .ok (.inl { settings with withPool := true })
  | verbose =>
    if settings.isVerbose then .error (.repeated argument)
    else .ok (.inl { settings with isVerbose := true })
  | help => .ok (.inr .help)
  | version => .ok (.inr .version)

/-- Reads arguments behind those that gave the settings. -/
def Request.readFrom (settings : Settings) : List String → Except UsageFault Request
  | [] => settings.request
  | argument :: arguments =>
    let turnOn := fun (found : Option Switch) =>
      match found with
      | none => .error (.unknownOption argument)
      | some switch => switch.turnOn settings argument
    match Word.ofArgument argument with
    | .endOfOptions => do (← settings.addInputs arguments).request
    | .text => do readFrom (← settings.addInput argument) arguments
    | .lettered letter => do
      match ← turnOn (Switch.ofLetter? letter) with
      | .inl settings => readFrom settings arguments
      | .inr request => return request
    | .named name value =>
      match ValueOption.ofName? name, value with
      | some option, some value => do
        readFrom (← settings.giveValue argument option value) arguments
      | some option, none =>
        match arguments with
        | [] => .error (.missingValue argument)
        | value :: arguments =>
          if Word.ofArgument value = .text then do
            readFrom (← settings.giveValue argument option value) arguments
          else .error (.missingValue argument)
      | none, some _ =>
        if (Switch.ofName? name).isSome then .error (.needlessValue argument)
        else .error (.unknownOption argument)
      | none, none => do
        match ← turnOn (Switch.ofName? name) with
        | .inl settings => readFrom settings arguments
        | .inr request => return request

/-- Reads the arguments of the command line. -/
def Request.read (arguments : List String) : Except UsageFault Request :=
  readFrom .default arguments

end ClassCensus.CommandLine
