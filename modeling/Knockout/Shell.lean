import Knockout.Arguments
import Knockout.Dot
import Knockout.Encoding
import Knockout.Host
import Knockout.Listing
import Knockout.Quoted

namespace Knockout

inductive Failure where
  | unreadable (path : String) (error : Fault)
  | unwritable (path : String) (error : Fault)
  | invalidSettings (path : String) (error : Fault)
deriving DecidableEq, Repr

namespace Failure

def message : Failure → String
  | unreadable path error => s!"could not read '{path}': {error.message}"
  | unwritable path error => s!"could not write '{path}': {error.message}"
  | invalidSettings path error => s!"invalid config '{path}': {error.message}"

def logText : Failure → String
  | unreadable path error => s!"Read \x7b path: {quoted path}, source: {error.logText} \x7d"
  | unwritable path error => s!"Write \x7b path: {quoted path}, source: {error.logText} \x7d"
  | invalidSettings path error => s!"Config \x7b path: {quoted path}, source: {error.logText} \x7d"

end Failure

inductive Note where
  | log (line : LogLine)
  | problems (count : Nat)
  | failure (failure : Failure)
deriving DecidableEq, Repr

namespace Note

def warning (count : Nat) : String :=
  "source has " ++ toString count ++ " problem(s); run `torneo check` for details"

def problemsText (format : Format) (count : Nat) : String :=
  match format with
  | .text => s!"warning: {warning count}\n"
  | .json => (Json.obj [("problems", .ofNat count), ("warning", .str (warning count))]).compact ++ "\n"

def failureText (format : Format) (f : Failure) : String :=
  match format with
  | .text => s!"error: {f.message}\n"
  | .json => (Json.obj [("error", .str f.message)]).compact ++ "\n"

def text (host : Host) (request : Request) (moment : Nat) : Note → String
  | log line => host.record (.ofVerbosity request.verbosity) moment line
  | problems count => if request.quiet then "" else problemsText request.format count
  | failure f => if request.quiet then "" else failureText request.format f

end Note

structure Answer where
  exit : UInt32
  stdout : String
  notes : List Note

namespace Answer

def stderr (a : Answer) (host : Host) (request : Request) : String :=
  String.join (a.notes.mapIdx (Note.text host request))

def fail (notes : List Note) (f : Failure) : Answer :=
  ⟨1, "", notes ++ [.log ⟨.debug, .program, f.logText⟩, .failure f]⟩

end Answer

namespace Shell

inductive Output where
  | text (s : String)
  | json (value : Json)

def Output.print : Output → String
  | text s => s
  | json value => value.pretty ++ "\n"

def rows (diagnostics : List Diagnostic) : Json :=
  .arr (diagnostics.map Diagnostic.json)

def tokens (s : Source) : Format → Output
  | .text =>
    let problems := if s.lexical.isEmpty then "" else "\n" ++ Listing.diagnostics s.lexical
    .text (Listing.tokens s.tokens ++ problems)
  | .json => .json (Json.obj [("tokens", .arr (s.tokens.map Token.json)), ("diagnostics", rows s.lexical)]).sorted

def check (file : String) (s : Source) : Format → Output
  | .text => .text (Listing.diagnostics s.diagnostics)
  | .json => .json (Json.obj [("file", .str file), ("clean", .bool !s.hasErrors),
      ("diagnostics", rows s.diagnostics)]).sorted

def model (s : Source) : Format → Output
  | .text => .text (Listing.tournament s.tournament)
  | .json => .json s.tournament.json

def stats (r : Report) : Format → Output
  | .text => .text (Listing.stats r (Tally.ofGoals r.goals))
  | .json => .json (Json.obj [("standings", .arr (r.standings.map Standing.json)),
      ("scorers", .arr (r.goals.map Goal.json)), ("tallies", .arr ((Tally.ofGoals r.goals).map Tally.json)),
      ("findings", .arr (r.findings.map Finding.json))]).sorted

def bracket (dot : String) : Format → Output
  | .text => .text dot
  | .json => .json (.obj [("dot", .str dot)])

def written (path dot : String) : Format → Output
  | .text => .text s!"wrote {path}\n"
  | .json => .json (.obj [("bytes", .ofNat dot.utf8ByteSize), ("written", .str path)])

def report (file : String) (s : Source) (r : Report) (dot : String) : Format → Output
  | .text => .text <|
    s!"== Problems ==\n{Listing.diagnostics s.diagnostics}\n== Tournament ==\n{Listing.tournament s.tournament}\n" ++
      s!"== Stats ==\n{Listing.stats r (Tally.ofGoals r.goals)}\n== Bracket (DOT) ==\n{dot}"
  | .json => .json (Json.obj [("file", .str file), ("diagnostics", rows s.diagnostics),
      ("model", s.tournament.json), ("analysis", r.json), ("tallies", .arr ((Tally.ofGoals r.goals).map Tally.json)),
      ("bracket", .str dot)]).sorted

def problems (s : Source) : List Note :=
  if s.hasErrors then [.problems s.diagnostics.length] else []

def drawBracket (request : Request) (out : Option String) (notes : List Note) (g : Graph) : Session Answer :=
  let notes := notes ++ g.log.map .log
  match out with
  | none => .done ⟨0, (bracket g.dot request.format).print, notes⟩
  | some path => .write path g.dot fun
    | .error e => .done (.fail notes (.unwritable path e))
    | .ok () => .done ⟨0, if request.quiet then "" else (written path g.dot request.format).print, notes⟩

def answer (request : Request) (settings : Settings) (notes : List Note) (s : Source) : Session Answer :=
  let format := request.format
  match request.command with
  | .tokens => .done ⟨0, (tokens s format).print, notes⟩
  | .check =>
    .done ⟨if s.hasErrors then 1 else 0, if request.quiet then "" else (check request.file s format).print, notes⟩
  | .model => .done ⟨0, (model s format).print, notes ++ problems s⟩
  | .stats =>
    let r := s.tournament.report
    .done ⟨0, (stats r format).print, notes ++ problems s ++ r.log.map .log⟩
  | .bracket out topDown =>
    let direction := if topDown then .topBottom else settings.direction
    drawBracket request out (notes ++ problems s) (s.tournament.graph direction)
  | .report =>
    let r := s.tournament.report
    let g := s.tournament.graph settings.direction
    .done ⟨0, (report request.file s r g.dot format).print, notes ++ r.log.map .log ++ g.log.map .log⟩

def readSource (request : Request) (notes : List Note) (settings : Settings) : Session Answer :=
  .read request.file fun
    | .error e => .done (.fail notes (.unreadable request.file e))
    | .ok text =>
      let s := Source.read settings.options text
      let summary := s!"{request.file}: {s.tokens.length} token(s), {s.diagnostics.length} diagnostic(s)"
      answer request settings (notes ++ s.log.map .log ++ [.log ⟨.info, .commands, summary⟩]) s

def run (host : Host) (request : Request) : Session Answer :=
  match request.settings with
  | none => readSource request [] {}
  | some path => .read path fun
    | .error e => .done (.fail [] (.unreadable path e))
    | .ok text =>
      match host.settings text with
      | .error e => .done (.fail [] (.invalidSettings path e))
      | .ok settings =>
        readSource request [.log ⟨.debug, .settings, s!"loaded config from {path}: {settings.logText}"⟩] settings

def versionText : String := "torneo 0.1.0\n"

end Shell

end Knockout
