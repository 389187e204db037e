import Cutover.Dialect
import Cutover.Duration
import Cutover.Error

/-! # Databases

How a store's database is reached: its URL and the limits on its connections.  A URL may hold a
password, so whatever an operator sees of it is masked.
-/

namespace Cutover

/-! ## Masking -/

/-- The text up to the last colon, that colon included, and the text from that colon on. -/
def splitAtLastColon (s : List Char) : Option (List Char × List Char) :=
  match s.reverse.dropWhile (· ≠ ':') with
  | [] => none
  | r => some (r.reverse, ':' :: s.drop r.length)

/-- A URL without its password: what stands between the first `@` and the last colon before it
becomes four stars.  A URL without `@` is left alone, and one where that colon belongs to `://`; one
with `@` and no colon before it is hidden as a whole. -/
def maskUrl (url : String) : String :=
  let front := url.toList.takeWhile (· ≠ '@')
  match url.toList.drop front.length with
  | [] => url
  | rest =>
    match splitAtLastColon front with
    | none => "****"
    | some (kept, colon) =>
      if "://".toList.isPrefixOf (colon ++ rest) then url
      else String.ofList (kept ++ "****".toList ++ rest)

/-! ## Settings of a database -/

/-- How a database is reached. -/
structure Database where
  url : String
  maxConnections : Nat := 10
  minConnections : Nat := 1
  /-- How long to wait for a free connection. -/
  acquire : Duration := .ofSeconds 10
  /-- After which time an unused connection is closed, if ever. -/
  idle : Option Duration := some (.ofSeconds 600)
  deriving DecidableEq

namespace Database

/-- A database in memory.  Every connection would see a database of its own, so there is one
connection and it is never closed. -/
def inMemory : Database where
  url := "sqlite::memory:"
  maxConnections := 1
  acquire := .ofSeconds 5
  idle := none

/-- Sets the greatest number of connections, of which there is at least one. -/
def withMaxConnections (d : Database) (n : Nat) : Database := { d with maxConnections := max n 1 }

/-- The URL as an operator sees it. -/
def masked (d : Database) : String := maskUrl d.url

/-- The dialect that the URL announces. -/
def dialect (d : Database) : Except StoreError Dialect :=
  match Dialect.ofUrl? d.url with
  | some dialect => .ok dialect
  | none => .error (.other (.unsupportedUrl d.masked))

end Database
end Cutover
