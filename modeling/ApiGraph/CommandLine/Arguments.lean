/-!
# ApiGraph.CommandLine.Arguments

What the arguments of the command ask for. Options before the name of a task hold for the whole
run, options after it for the task; the configuration file may be given in both places, and then
the later one counts. An option is given once in its place. Short options may be run together, and
a value may follow its option directly, after an equals sign or as the next argument.

* `Request` — a task to run, or a request for help.
* `Request.ofArguments` — reads the arguments.
-/

namespace ApiGraph

/-- The options of the command. -/
inductive CommandOption
  | verbose
  | debug
  | config
  | input
  | output
  | help
deriving DecidableEq, Inhabited, Repr

namespace CommandOption

/-- The name after two dashes. -/
def long : CommandOption → String
  | .verbose => "verbose"
  | .debug => "debug"
  | .config => "config"
  | .input => "input"
  | .output => "output"
  | .help => "help"

/-- The letter after one dash. -/
def short : CommandOption → Char
  | .verbose => 'v'
  | .debug => 'd'
  | .config => 'c'
  | .input => 'i'
  | .output => 'o'
  | .help => 'h'

/-- Whether a value follows. -/
def takesValue : CommandOption → Bool
  | .config | .input | .output => true
  | _ => false

end CommandOption

/-- The names of tasks. -/
inductive TaskName
  | render
  | check
  | reencode
deriving DecidableEq, Inhabited, Repr

namespace TaskName

/-- Every task. -/
def all : List TaskName := [.render, .check, .reencode]

/-- The name of a task on the command line. -/
def text : TaskName → String
  | .render => "render"
  | .check => "check"
  | .reencode => "reencode"

/-- The task with the given name. -/
def ofText? (name : String) : Option TaskName :=
  all.find? (·.text == name)

/-- The options that may follow a task; all but configuration and help must. -/
def options : TaskName → List CommandOption
  | .render | .check => [.input, .config, .help]
  | .reencode => [.input, .output, .config, .help]

end TaskName

/-- The options that may stand before a task. -/
def commonOptions : List CommandOption := [.verbose, .debug, .config, .help]

/-- A task with its files. -/
inductive Task
  | render (input : String)
  | check (input : String)
  | reencode (input output : String)
deriving DecidableEq, Inhabited, Repr

/-- The file that a task reads. -/
def Task.input : Task → String
  | .render input => input
  | .check input => input
  | .reencode input _ => input

/-- A run of the command. -/
structure Invocation where
  verbose : Bool := false
  config : Option String := none
  task : Task
deriving DecidableEq, Inhabited, Repr

/-- What is wrong with the arguments. -/
inductive UsageError
  | unexpected (argument : String)
  | missingValue (option : CommandOption)
  | repeated (option : CommandOption)
  | missingOption (option : CommandOption)
  | missingTask
  | unknownTask (name : String)
deriving DecidableEq, Inhabited, Repr

/-- The wording of a usage error. -/
def UsageError.message : UsageError → String
  | .unexpected argument => "error: unexpected argument '" ++ argument ++ "' found"
  | .missingValue option => "error: a value is required for '--" ++ option.long ++ "'"
  | .repeated option =>
    "error: the argument '--" ++ option.long ++ "' cannot be used multiple times"
  | .missingOption option => "error: the argument '--" ++ option.long ++ "' was not provided"
  | .missingTask => "error: a subcommand is required"
  | .unknownTask name => "error: unrecognized subcommand '" ++ name ++ "'"

/-- What help is about. -/
inductive HelpTopic
  | command
  | task (name : TaskName)
  /-- Asking for help, which is written like a task. -/
  | help
deriving DecidableEq, Inhabited, Repr

namespace HelpTopic

/-- The word that asks for help where a task could stand. -/
def word : String := "help"

end HelpTopic

/-- What the arguments ask for. -/
inductive Request
  | run (invocation : Invocation)
  | help (topic : HelpTopic)
deriving DecidableEq, Inhabited, Repr

namespace CommandLine

/-- The options read so far in one place, with their values. -/
abbrev Found := List (CommandOption × String)

/-- What reading options in one place comes to. -/
inductive Scan
  /-- The options, and the arguments from the first one that is no option. -/
  | options (found : Found) (rest : List String)
  | help
deriving DecidableEq, Inhabited, Repr

/-- Adds an option that must not have been given yet. -/
def record (found : Found) (option : CommandOption) (value : String) : Except UsageError Found :=
  if (found.lookup option).isSome then .error (.repeated option)
  else if option.takesValue && value.isEmpty then .error (.missingValue option)
  else .ok (found ++ [(option, value)])

/-- Whether an argument can be the value of the option before it. -/
def isValue (argument : String) : Bool :=
  argument == "-" || argument.toList.head? != some '-'

/-- A letter of a cluster of short options, read one by one. -/
inductive Cluster
  /-- Every letter is read. -/
  | done (found : Found)
  /-- The last letter takes the next argument as its value. -/
  | pending (found : Found) (option : CommandOption)
  | help
deriving DecidableEq, Inhabited, Repr

/-- Reads short options that are run together. -/
def cluster (allowed : List CommandOption) (argument : String) :
    List Char → Found → Except UsageError Cluster
  | [], found => .ok (.done found)
  | c :: rest, found =>
    match allowed.find? (·.short == c) with
    | none => .error (.unexpected argument)
    | some .help => .ok .help
    | some option =>
      if option.takesValue then
        match rest with
        | [] => .ok (.pending found option)
        | '=' :: value => (record found option (String.ofList value)).map .done
        | value => (record found option (String.ofList value)).map .done
      else do
        cluster allowed argument rest (← record found option "")

/-- An argument that starts with two dashes: the name, and the value after an equals sign. -/
def splitLong (name : List Char) : String × Option String :=
  (String.ofList (name.takeWhile (· != '=')),
    match name.dropWhile (· != '=') with
    | [] => none
    | _ :: value => some (String.ofList value))

/-- Reads options up to the first argument that is none. Two dashes alone end the options: what
follows them is neither an option nor a task. -/
def scan (allowed : List CommandOption) : List String → Found → Except UsageError Scan
  | [], found => .ok (.options found [])
  | argument :: rest, found =>
    match argument.toList with
    | ['-', '-'] =>
      match rest with
      | [] => .ok (.options found [])
      | next :: _ => .error (.unexpected next)
    | '-' :: '-' :: name =>
      let (name, value) := splitLong name
      match allowed.find? (·.long == name) with
      | none => .error (.unexpected argument)
      | some option =>
        if option.takesValue then
          match value, rest with
          | some value, rest => do scan allowed rest (← record found option value)
          | none, next :: rest =>
            if isValue next then do scan allowed rest (← record found option next)
            else .error (.missingValue option)
          | none, [] => .error (.missingValue option)
        else if value.isSome then .error (.unexpected argument)
        else if option = .help then .ok .help
        else do scan allowed rest (← record found option "")
    | '-' :: c :: letters => do
      match ← cluster allowed argument (c :: letters) found with
      | .help => return .help
      | .done found => scan allowed rest found
      | .pending found option =>
        match rest with
        | next :: rest =>
          if isValue next then do scan allowed rest (← record found option next)
          else throw (.missingValue option)
        | [] => throw (.missingValue option)
    | _ => .ok (.options found (argument :: rest))

/-- The value of an option that must be there. -/
def required (found : Found) (option : CommandOption) : Except UsageError String :=
  (found.lookup option).elim (.error (.missingOption option)) .ok

/-- The task with the files that its options name. -/
def task (name : TaskName) (found : Found) : Except UsageError Task := do
  let input ← required found .input
  match name with
  | .render => return .render input
  | .check => return .check input
  | .reencode => return .reencode input (← required found .output)

/-- What a request for help is about: at most one topic may be named. -/
def helpTopic : List String → Except UsageError HelpTopic
  | [] => .ok .command
  | name :: rest => do
    let topic ← if name == HelpTopic.word then pure HelpTopic.help
      else (TaskName.ofText? name).elim (.error (.unknownTask name)) (.ok <| .task ·)
    match rest with
    | [] => return topic
    | next :: _ => throw (.unknownTask next)

end CommandLine

open CommandLine

/-- Reads the arguments of the command. -/
def Request.ofArguments (arguments : List String) : Except UsageError Request := do
  match ← scan commonOptions arguments [] with
  | .help => return .help .command
  | .options _ [] => throw .missingTask
  | .options common (name :: rest) =>
    if name == HelpTopic.word then
      return .help (← helpTopic rest)
    match TaskName.ofText? name with
    | none => throw (.unknownTask name)
    | some name =>
      match ← scan name.options rest [] with
      | .help => return .help (.task name)
      | .options _ (argument :: _) => throw (.unexpected argument)
      | .options found [] =>
        let task ← task name found
        return .run
          { verbose := (common.lookup .verbose).isSome || (common.lookup .debug).isSome
            config := (found.lookup .config).or (common.lookup .config)
            task }

end ApiGraph
