import Cutover.Database
import Cutover.Net.SocketAddress
import Cutover.Retry
import Cutover.TableSpec
import Cutover.Text.Blank

/-! # Settings

What the operator configures, looked up by key.  Two databases and a table must be named; everything
else has a default.  A word that names no dialect or phase is refused, whereas a number that cannot
be read, or does not fit, counts as not given.
-/

namespace Cutover

/-- Settings by key. -/
abbrev Lookup := String → Option String

/-- Why the settings are refused. -/
inductive SettingsError where
  /-- A setting that must be given is absent or blank. -/
  | missing (key : String)
  | keyword (error : KeywordError)
  | store (error : StoreError)
  deriving DecidableEq

/-- What the operator is told. -/
def SettingsError.message : SettingsError → String
  | .missing key => "설정 에러: " ++ key ++ " 환경변수가 설정되지 않았습니다"
  | .keyword error => "설정 에러: " ++ error.message
  | .store error => error.message

/-- The settings of the cutover. -/
structure Settings where
  src : Database
  dst : Database
  table : TableSpec
  dialect : Dialect
  initialPhase : Phase
  /-- The greatest number of rows in a page of a validation. -/
  batch : Nat
  batch_pos : 0 < batch
  /-- The rest before each page while the load is high. -/
  loadPause : Duration
  /-- How often a repair is tried again. -/
  maxRetries : Nat
  /-- The wait before the first repetition. -/
  retryDelay : Duration
  /-- The rest before a message is taken again. -/
  redelivery : Duration
  host : String
  port : Nat

namespace Settings

/-- All keys. -/
def keys : List String :=
  ["SRC_DATABASE_URL", "DST_DATABASE_URL", "DB_MAX_CONNECTIONS", "MIGRATOR_TABLE",
    "MIGRATOR_ID_COLUMN", "MIGRATOR_UTIME_COLUMN", "MIGRATOR_DIALECT", "MIGRATOR_INITIAL_PHASE",
    "VALIDATION_BATCH_SIZE", "VALIDATION_HIGH_LOAD_PAUSE_MS", "FIX_MAX_RETRIES",
    "FIX_RETRY_DELAY_MS", "FIX_REDELIVERY_BACKOFF_MS", "API_HOST", "API_PORT"]

/-- A setting that must be given; it is taken as it is, blanks included. -/
def required (lookup : Lookup) (key : String) : Except SettingsError String :=
  match lookup key with
  | none => .error (.missing key)
  | some s => if Text.isAllBlank s.toList then .error (.missing key) else .ok s

/-- A number below `bound`, blanks around it left out, or else its default. -/
def numberOr (lookup : Lookup) (key : String) (bound default : Nat) : Nat :=
  ((lookup key).bind fun s => Text.unsigned? bound (String.ofList (Text.trim s.toList))).getD
    default

/-- A span of milliseconds, or else its default. -/
def millisOr (lookup : Lookup) (key : String) (default : Nat) : Duration :=
  .ofMillis (numberOr lookup key UInt64.size default)

/-- Passes on an error of a store. -/
def orStore {α : Type} : Except StoreError α → Except SettingsError α
  | .ok a => .ok a
  | .error e => .error (.store e)

/-- Passes on an error of a keyword. -/
def orKeyword {α : Type} : Except KeywordError α → Except SettingsError α
  | .ok a => .ok a
  | .error e => .error (.keyword e)

/-- The dialect that is set, or else the one that the source's URL announces. -/
def dialectOf (lookup : Lookup) (src : Database) : Except SettingsError Dialect :=
  match lookup "MIGRATOR_DIALECT" with
  | some s => orKeyword (Dialect.ofText s)
  | none => orStore src.dialect

/-- The phase to start in. -/
def phaseOf (lookup : Lookup) : Except SettingsError Phase :=
  match lookup "MIGRATOR_INITIAL_PHASE" with
  | some s => orKeyword (Phase.ofText s)
  | none => .ok .srcOnly

/-- The settings under the keys. -/
def ofLookup (lookup : Lookup) : Except SettingsError Settings := do
  let connections := numberOr lookup "DB_MAX_CONNECTIONS" UInt32.size 10
  let src := Database.withMaxConnections { url := ← required lookup "SRC_DATABASE_URL" } connections
  let dst := Database.withMaxConnections { url := ← required lookup "DST_DATABASE_URL" } connections
  let name ← required lookup "MIGRATOR_TABLE"
  let table ← orStore (TableSpec.ofNames name ((lookup "MIGRATOR_ID_COLUMN").getD "id")
    ((lookup "MIGRATOR_UTIME_COLUMN").getD "utime"))
  let dialect ← dialectOf lookup src
  let initialPhase ← phaseOf lookup
  return {
    src, dst, table, dialect, initialPhase
    batch := max (numberOr lookup "VALIDATION_BATCH_SIZE" UInt64.size 100) 1
    batch_pos := by omega
    loadPause := millisOr lookup "VALIDATION_HIGH_LOAD_PAUSE_MS" 500
    maxRetries := numberOr lookup "FIX_MAX_RETRIES" UInt32.size 3
    retryDelay := millisOr lookup "FIX_RETRY_DELAY_MS" 200
    redelivery := millisOr lookup "FIX_REDELIVERY_BACKOFF_MS" 1000
    host := (lookup "API_HOST").getD "127.0.0.1"
    port := numberOr lookup "API_PORT" UInt16.size 3000 }

variable (s : Settings)

/-- How a repair is repeated. -/
def retry : Retry := { maxRetries := s.maxRetries, base := s.retryDelay }

/-- The address to listen on. -/
def address : Except Net.AddressFault Net.SocketAddress :=
  Net.SocketAddress.ofText (s.host ++ ":" ++ Text.ofNat s.port)

end Settings
end Cutover
