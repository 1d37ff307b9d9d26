import ApiGraph.CommandLine.Arguments

/-!
# ApiGraph.CommandLine.Help

The help texts of the command, of its tasks and of the request for help itself.
-/

namespace ApiGraph

/-- What an option is for. -/
def CommandOption.purpose : CommandOption → String
  | .verbose => "Enable verbose output"
  | .debug => "Enable debug output"
  | .config => "Serializer configuration file (TOML)"
  | .input => "Project JSON file"
  | .output => "Output file path"
  | .help => "Print help"

/-- What a task does. -/
def TaskName.purpose : TaskName → String
  | .render => "Print every declaration and signature with its rendered type"
  | .check => "Decode and re-encode a project, failing if the output differs"
  | .reencode => "Decode a project and write its canonical encoding"

/-- What asking for help does. -/
def HelpTopic.purpose : String :=
  "Print this message or the help of the given subcommand(s)"

namespace CommandLine

/-- A text filled up with blanks to `width` characters. -/
def padded (width : Nat) (text : String) : String :=
  text ++ String.ofList (List.replicate (width - text.length) ' ')

/-- Lines of two columns, indented. -/
def columns (rows : List (String × String)) : String :=
  let width := rows.foldl (fun width row => max width row.1.length) 0
  String.join (rows.map fun (left, right) => "  " ++ padded width left ++ "  " ++ right ++ "\n")

/-- How an option is written, with a word for its value. -/
def optionUsage (option : CommandOption) : String :=
  "-" ++ String.singleton option.short ++ ", --" ++ option.long ++
    if option.takesValue then " <" ++ option.long.toUpper ++ ">" else ""

/-- The section on options. -/
def optionHelp (options : List CommandOption) : String :=
  "Options:\n" ++ columns (options.map fun option => (optionUsage option, option.purpose))

/-- The options that a task cannot do without. -/
def requiredUsage (name : TaskName) : String :=
  String.join ((name.options.filter fun option => option = .input ∨ option = .output).map
    fun option => " --" ++ option.long ++ " <" ++ option.long.toUpper ++ ">")

end CommandLine

open CommandLine

/-- The help on a topic. -/
def helpText : HelpTopic → String
  | .command =>
    "Inspect and re-encode serialized documentation projects\n\n" ++
      "Usage: docgraph [OPTIONS] <COMMAND>\n\nCommands:\n" ++
      columns (TaskName.all.map (fun name => (name.text, name.purpose)) ++
        [(HelpTopic.word, HelpTopic.purpose)]) ++
      "\n" ++ optionHelp commonOptions
  | .task name =>
    name.purpose ++ "\n\nUsage: docgraph " ++ name.text ++ " [OPTIONS]" ++ requiredUsage name ++
      "\n\n" ++ optionHelp name.options
  | .help =>
    HelpTopic.purpose ++ "\n\nUsage: docgraph " ++ HelpTopic.word ++ " [COMMAND]...\n\n" ++
      "Arguments:\n" ++ columns [("[COMMAND]...", "Print help for the subcommand(s)")]

end ApiGraph
