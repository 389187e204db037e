import Cutover.Instant
import Cutover.Rehearsal.Scene
import Cutover.Settings

/-! # The command line

    migrator [--log-level LEVEL] serve
    migrator [--log-level LEVEL] validate [--since TIME] [--dry-run]

`validate` compares the two stores once and repairs what differs, `serve` repairs and takes the
operator's requests until it is told to stop.  What a command does is determined by its arguments,
the settings, and the tables behind the two databases' URLs; it is carried out on the stage of a
rehearsal, where waiting costs nothing.
-/

namespace Cutover.CommandLine

/-! ## Arguments -/

/-- A command. -/
inductive Command where
  | serve
  | validate (since : Option Instant) (dryRun : Bool)
  deriving DecidableEq

/-- The pages of the manual. -/
inductive Page where
  | overview
  | serve
  | validate
  | help
  deriving DecidableEq

/-- What the arguments ask for. -/
inductive Invocation where
  | run (c : Command)
  | version
  | help (p : Page)
  | refused
  deriving DecidableEq

/-- The value behind the equals sign of a long option. -/
def valueOf? (option argument : String) : Option String :=
  let head := (option ++ "=").toList
  if head.isPrefixOf argument.toList then some (String.ofList (argument.toList.drop head.length))
  else none

/-- Whether an argument is an option and no value. -/
def isOption (argument : String) : Bool :=
  match argument.toList with
  | '-' :: _ :: _ => true
  | _ => false

/-- Whether a cluster of short options begins with the given one. -/
def isShort (c : Char) (argument : String) : Bool :=
  match argument.toList with
  | '-' :: d :: _ => d = c
  | _ => false

/-- What is left behind the end of the options, which must be nothing. -/
def nothingBehind (i : Invocation) : List String → Invocation
  | [] => i
  | _ => .refused

/-- The arguments of `serve`. -/
def serveArguments : List String → Invocation
  | [] => .run .serve
  | "--" :: r => nothingBehind (.run .serve) r
  | a :: _ => if a = "--help" || isShort 'h' a then .help .serve else .refused

/-- The arguments of `validate`; each option is given at most once. -/
def validateArguments : (since : Option Instant) → (dryRun : Bool) → List String → Invocation
  | since, dryRun, [] => .run (.validate since dryRun)
  | since, dryRun, "--" :: r => nothingBehind (.run (.validate since dryRun)) r
  | since, dryRun, "--dry-run" :: r => if dryRun then .refused else validateArguments since true r
  | since, dryRun, "--since" :: v :: r =>
    if isOption v then .refused
    else
      match since, Instant.ofText? v with
      | none, some t => validateArguments (some t) dryRun r
      | _, _ => .refused
  | since, dryRun, a :: r =>
    if a = "--help" || isShort 'h' a then .help .validate
    else
      match since, (valueOf? "--since" a).bind Instant.ofText? with
      | none, some t => validateArguments (some t) dryRun r
      | _, _ => .refused

/-- The arguments of `help`. -/
def helpArguments : List String → Invocation
  | [] => .help .overview
  | ["serve"] => .help .serve
  | ["validate"] => .help .validate
  | ["help"] => .help .help
  | _ => .refused

/-- All arguments, `leveled` telling whether the level of the log has been set. -/
def arguments : (leveled : Bool) → List String → Invocation
  | _, [] => .refused
  | _, "serve" :: r => serveArguments r
  | _, "validate" :: r => validateArguments none false r
  | _, "help" :: r => helpArguments r
  | leveled, "--log-level" :: v :: r =>
    if leveled || isOption v then .refused else arguments true r
  | leveled, a :: r =>
    if a = "--version" || isShort 'V' a then .version
    else if a = "--help" || isShort 'h' a then .help .overview
    else if !leveled && (valueOf? "--log-level" a).isSome then arguments true r
    else .refused

/-- The text of a page of the manual. -/
def Page.text : Page → String
  | .overview =>
    "Live zero-downtime table migration\n\nUsage: migrator [OPTIONS] <COMMAND>\n\nCommands:\n" ++
    "  serve     HTTP 제어 서버와 수정 소비자 실행\n  validate  전체 검증 1회 실행 후 수정\n" ++
    "  help      Print this message or the help of the given subcommand(s)\n\nOptions:\n" ++
    "      --log-level <LOG_LEVEL>  로그 레벨 (trace, debug, info, warn, error) [default: info]\n" ++
    "  -h, --help                   Print help\n  -V, --version                Print version"
  | .serve =>
    "HTTP 제어 서버와 수정 소비자 실행\n\nUsage: migrator serve\n\nOptions:\n  -h, --help  Print help"
  | .validate =>
    "전체 검증 1회 실행 후 수정\n\nUsage: migrator validate [OPTIONS]\n\nOptions:\n" ++
    "      --since <SINCE>  이 시각 이후 수정된 행만 검증 (RFC 3339, 예: 2024-01-01T00:00:00Z)\n" ++
    "      --dry-run        수정 없이 검증 결과만 출력\n  -h, --help           Print help"
  | .help =>
    "Print this message or the help of the given subcommand(s)\n\n" ++
    "Usage: migrator help [COMMAND]...\n\nArguments:\n" ++
    "  [COMMAND]...  Print help for the subcommand(s)"

/-! ## Output -/

/-- Why a command fails. -/
inductive Failure where
  | settings (e : SettingsError)
  /-- A database cannot be reached: which side, and its masked URL. -/
  | connection (side : Side) (masked : String)
  | cutover (e : CutoverError)
  | address (e : Net.AddressFault)
  | listening (a : Net.SocketAddress)
  /-- The wait between two attempts was no span of time. -/
  | crashed
  deriving DecidableEq

/-- What the operator is told. -/
def Failure.message : Failure → String
  | .settings e => e.message
  | .connection .src masked => "소스 연결 실패: " ++ masked
  | .connection .dst masked => "목적지 연결 실패: " ++ masked
  | .cutover e => e.message
  | .address e => e.message
  | .listening a => a.toText ++ " 바인딩 실패"
  | .crashed => "the wait before the next attempt cannot be expressed"

/-- A tally as a JSON document, laid out over several lines. -/
def document (members : List (String × Nat)) : String :=
  "\x7b\n" ++ ",\n".intercalate (members.map fun (name, n) =>
    "  \"" ++ name ++ "\": " ++ Text.ofNat n) ++ "\n\x7d"

/-- A validation's tally as a document. -/
def tallyDocument (t : Tally) : String :=
  document [("scanned", t.scanned), ("target_missing", t.targetMissing),
    ("base_missing", t.baseMissing), ("not_equal", t.notEqual), ("errors", t.errors)]

/-- A repair's tally as a document. -/
def fixTallyDocument (t : FixTally) : String :=
  document [("upserted", t.upserted), ("deleted", t.deleted), ("skipped", t.skipped),
    ("failed", t.failed)]

/-- What a command leaves behind: its exit code, the texts it printed, the failure it reported, and
the two tables. -/
structure Outcome where
  exit : Nat
  printed : List String := []
  failure : Option Failure := none
  src : Option Table := none
  dst : Option Table := none

/-! ## Commands -/

/-- The table behind the URL of a database that can be reached. -/
abbrev Databases := String → Option Table

/-- Reaches one of the databases. -/
def connect (databases : Databases) (side : Side) (d : Database) : Except Failure Table :=
  match d.dialect, databases d.url with
  | .ok _, some t => .ok t
  | _, _ => .error (.connection side d.masked)

/-- The name of the topic. -/
def topicName : String := "migrator.inconsistency"

/-- The stores and an empty topic. -/
def sceneOf (s : Settings) (src dst : Table) : Rehearsal.Scene :=
  Rehearsal.Setting.scene {
    table := s.table, dialect := s.dialect, phase := s.initialPhase, topic := topicName
    batch := s.batch, loadPause := s.loadPause, src := { table := src }, dst := { table := dst } }

/-- A full validation in the first phase. -/
def inspection (s : Settings) (since : Option Instant) : Rehearsal.Scene.Inspection where
  direction := s.initialPhase.authoritative
  table := s.table
  dialect := s.dialect
  batch := s.batch
  utimeAfter := ((since.map fun t => Int64.ofInt t.toMillis)).getD 0

/-- What a command leaves behind in a scene. -/
def leave (scene : Rehearsal.Scene) (printed : List String) (failure : Option Failure) :
    Outcome where
  exit := if failure.isSome then 1 else 0
  printed
  failure
  src := some scene.world.src.table
  dst := some scene.world.dst.table

/-- The consumer of the settings. -/
def makeConsumer (s : Settings) : Dialogue Work (Except CutoverError Consumer) :=
  Rehearsal.Scene.makeConsumer s.table s.dialect s.retry s.redelivery

/-- Repairs what is in the topic, which has been closed. -/
def repair (s : Settings) (scene : Rehearsal.Scene) (printed : List String) : Outcome :=
  match scene.work (makeConsumer s) with
  | (some (.ok c), scene) =>
    let scene := scene.startConsumer "" c Http.fixerGroup {}
    match (scene.started.lookup "").map scene.join with
    | some (some (.consumed t), scene) => leave scene (printed ++ [fixTallyDocument t]) none
    | some (_, scene) => leave scene printed (some .crashed)
    | none => leave scene printed (some .crashed)
  | (some (.error e), scene) => leave scene printed (some (.cutover e))
  | (none, scene) => leave scene printed (some .crashed)

/-- Compares the stores and repairs what differs. -/
def validate (s : Settings) (since : Option Instant) (dryRun : Bool) (scene : Rehearsal.Scene) :
    Outcome :=
  match scene.validate (inspection s since) with
  | (some (.ok t), scene) =>
    let printed := [tallyDocument t]
    if dryRun then leave scene printed none
    else
      let world := { scene.world with topic := scene.world.topic.close }
      repair s { scene with world } printed
  | (some (.error e), scene) => leave scene [] (some (.cutover e))
  | (none, scene) => leave scene [] (some .crashed)

/-- Prepares the repair and the address for the operator's requests.  Nothing listens there. -/
def serve (s : Settings) (scene : Rehearsal.Scene) : Outcome :=
  match scene.work (makeConsumer s) with
  | (some (.ok _), scene) =>
    match s.address with
    | .error e => leave scene [] (some (.address e))
    | .ok a => leave scene [] (some (.listening a))
  | (some (.error e), scene) => leave scene [] (some (.cutover e))
  | (none, scene) => leave scene [] (some .crashed)

/-- Reads the settings and reaches the databases, the source first. -/
def prepare (lookup : Lookup) (databases : Databases) :
    Except Failure (Settings × Rehearsal.Scene) := do
  match Settings.ofLookup lookup with
  | .error e => throw (.settings e)
  | .ok s =>
    let src ← connect databases .src s.src
    let dst ← connect databases .dst s.dst
    return (s, sceneOf s src dst)

/-- Carries out a command. -/
def perform (lookup : Lookup) (databases : Databases) (c : Command) : Outcome :=
  match prepare lookup databases with
  | .error f => { exit := 1, failure := some f }
  | .ok (s, scene) =>
    match c with
    | .serve => serve s scene
    | .validate since dryRun => validate s since dryRun scene

/-- The name and the version of the program. -/
def version : String := "migrator 0.3.0"

/-- Does what the arguments ask for. -/
def invoke (args : List String) (lookup : Lookup) (databases : Databases) : Outcome :=
  match arguments false args with
  | .refused => { exit := 2 }
  | .version => { exit := 0, printed := [version] }
  | .help p => { exit := 0, printed := [p.text] }
  | .run c => perform lookup databases c

end Cutover.CommandLine
