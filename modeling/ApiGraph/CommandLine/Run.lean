import ApiGraph.CommandLine.Arguments
import ApiGraph.CommandLine.QuotedPath
import ApiGraph.Json.Reader
import ApiGraph.Project.Listing
import ApiGraph.Toml.Config
import ApiGraph.Wire.Decode
import ApiGraph.Wire.Encode
import ApiGraph.Wire.Reader

/-!
# ApiGraph.CommandLine.Run

What a run of the command does, given the contents of its files. A run collects events for the log
and comes to a product or a failure; a document that is to be written is the last step, after which
the outcome is known.

* `Invocation.run` — from file contents to a product or failure.
* `Work.outcome` — what is printed, and the exit code.
-/

namespace ApiGraph

/-! ### Events -/

/-- A line of the log. -/
inductive LogEvent
  | omission (omission : Omission)
  | decoded (name : String) (reflections : Nat)
  | loaded (name : String) (reflections : Nat)
  | clean (input : String)
  | written (output : String)
deriving DecidableEq, Inhabited, Repr

namespace CommandLine

/-- How many reflections a project has, under its name. -/
def summary (name : String) (reflections : Nat) : String :=
  "name=" ++ name ++ " reflections=" ++ toString reflections

end CommandLine

open CommandLine

namespace LogEvent

/-- Whether an event shows in verbose runs only. -/
def isDetail : LogEvent → Bool
  | .decoded .. | .loaded .. => true
  | _ => false

/-- The line of an event: its level, its message and its fields. -/
def text : LogEvent → String
  | .omission o =>
    "WARN omitting unknown category child id=" ++ Id.text o.child ++ " title=" ++ o.title
  | .decoded name reflections => "DEBUG decoded project " ++ summary name reflections
  | .loaded name reflections => "DEBUG loaded project " ++ summary name reflections
  | .clean input => "INFO " ++ quotedPath input ++ " round-trips cleanly"
  | .written output => "INFO Project written to " ++ quotedPath output

end LogEvent

/-! ### Failures -/

/-- Why a run fails. -/
inductive Failure
  | config (path : String) (cause : Error)
  | read (path : String)
  | parse (path : String)
  /-- The path is told where a project is loaded, not where it is checked. -/
  | decode (path : Option String) (cause : Error)
  | encode (cause : Error)
  | differs (path : String)
  | write (path : String)
deriving DecidableEq, Inhabited, Repr

namespace Failure

/-- What was going on. -/
def context : Failure → String
  | .config path _ => "Failed to load config: " ++ quotedPath path
  | .read path => "Failed to read project file: " ++ quotedPath path
  | .parse path => "Failed to parse JSON: " ++ quotedPath path
  | .decode (some path) _ => "Failed to decode project: " ++ quotedPath path
  | .decode none _ => "Failed to decode project"
  | .encode _ => "Failed to encode project"
  | .differs path => "Re-encoded project differs from " ++ quotedPath path
  | .write path => "Failed to write output: " ++ quotedPath path

/-- The error that was met. -/
def cause? : Failure → Option Error
  | .config _ cause | .decode _ cause | .encode cause => some cause
  | _ => none

/-- Whether an error comes from a cause of its own, so that the causes are numbered. -/
def isNumbered : Error → Bool
  | .malformedWire | .config | .io => true
  | _ => false

/-- A text with the lines after the first one indented. -/
def indented (text : String) : String :=
  String.ofList (text.toList.flatMap fun c => if c = '\n' then '\n' :: "    ".toList else [c])

/-- The report of a failure. -/
def report (failure : Failure) : String :=
  "Error: " ++ failure.context ++
    match failure.cause? with
    | none => ""
    | some cause =>
      "\n\nCaused by:\n    " ++ (if isNumbered cause then "0: " else "") ++ indented cause.message

end Failure

/-! ### Runs -/

/-- What a run produces. -/
inductive Product
  | listing (text : String)
  /-- The project was found unchanged. -/
  | unchanged (input : String)
  /-- A document that is to be written. -/
  | document (output : String) (text : String)
deriving DecidableEq, Inhabited, Repr

/-- What a run has come to before it writes. -/
structure Work where
  events : List LogEvent := []
  result : Except Failure Product

/-- The contents of the files that a run reads, by path; nothing for a file that cannot be read. -/
abbrev Contents := String → Option String

namespace Contents

/-- Loads the configuration from its file, if one is named. -/
def config (files : Contents) (path : Option String) : Except Failure Config :=
  match path with
  | none => .ok {}
  | some path =>
    match files path with
    | none => .error (.config path .io)
    | some text => (Config.parse text).mapError (.config path)

/-- Reads a JSON file. -/
def json (files : Contents) (path : String) : Except Failure Json :=
  match files path with
  | none => .error (.read path)
  | some text => (Json.parse? text).elim (.error (.parse path)) .ok

end Contents

/-- The project that a JSON tree holds, with the events on the way. -/
def Project.ofJson (json : Json) : List LogEvent × Except Error Project :=
  match WireReflection.ofJson? json.depth json with
  | none => ([], .error .malformedWire)
  | some wire =>
    let omitted := wire.omissions.map .omission
    match Project.ofWire wire with
    | .error e => (omitted, .error e)
    | .ok p => (omitted ++ [.decoded p.name p.size], .ok p)

/-- Carries on with the project in a file. -/
def Contents.withProject (files : Contents) (path : String)
    (use : Project → Except Failure Product) : Work :=
  match files.json path with
  | .error failure => { result := .error failure }
  | .ok json =>
    match Project.ofJson json with
    | (events, .error e) => { events, result := .error (.decode (some path) e) }
    | (events, .ok p) => { events := events ++ [.loaded p.name p.size], result := use p }

/-- Whether writing the project in a JSON tree gives the tree again. -/
def Json.check (json : Json) (config : Config) (path : String) : Work :=
  match Project.ofJson json with
  | (events, .error e) => { events, result := .error (.decode none e) }
  | (events, .ok p) =>
    { events
      result := do
        let output ← (p.toJson config).mapError .encode
        if output.same json then return .unchanged path else throw (.differs path) }

/-- Runs a task. -/
def Task.run (task : Task) (files : Contents) (config : Config) : Work :=
  match task with
  | .render input => files.withProject input fun p => .ok (.listing p.listing)
  | .check input =>
    match files.json input with
    | .error failure => { result := .error failure }
    | .ok json => json.check config input
  | .reencode input output => files.withProject input fun p =>
    ((p.toText config).mapError .encode).map (.document output)

/-- Runs the command up to the point where it writes. -/
def Invocation.run (invocation : Invocation) (files : Contents) : Work :=
  match files.config invocation.config with
  | .error failure => { result := .error failure }
  | .ok config => invocation.task.run files config

/-! ### Outcomes -/

/-- What a run prints, and its exit code. -/
structure Outcome where
  code : Nat
  stdout : String := ""
  stderr : String := ""
deriving DecidableEq, Inhabited, Repr

namespace Work

/-- The document that is to be written, with its path. -/
def document? (work : Work) : Option (String × String) :=
  match work.result with
  | .ok (.document output text) => some (output, text)
  | _ => none

/-- The lines of the events that show. -/
def logText (verbose : Bool) (events : List LogEvent) : String :=
  String.join ((events.filter fun e => verbose || !e.isDetail).map fun e => e.text ++ "\n")

/-- The outcome; `written` tells whether the document, if there is one, could be written. -/
def outcome (work : Work) (verbose written : Bool) : Outcome :=
  let log := logText verbose
  match work.result with
  | .error failure => { code := 1, stdout := log work.events, stderr := failure.report }
  | .ok (.listing text) => { code := 0, stdout := log work.events ++ text }
  | .ok (.unchanged input) => { code := 0, stdout := log (work.events ++ [.clean input]) }
  | .ok (.document output _) =>
    if written then { code := 0, stdout := log (work.events ++ [.written output]) }
    else { code := 1, stdout := log work.events, stderr := (Failure.write output).report }

end Work

end ApiGraph
