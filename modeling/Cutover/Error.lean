import Cutover.Json.Fault
import Cutover.Text.Numeral

/-! # Errors

Three layers can fail: a store, the channel that carries inconsistencies, and the cutover itself.
Each error is a cause; its wording is computed from the cause.  Only faults of a connection are
worth another attempt: a statement that the database refused will be refused again.
-/

namespace Cutover

/-! ## Stores -/

/-- What a database or the connection to it reports. -/
inductive DatabaseFault where
  | io (text : String)
  | poolTimedOut
  | workerCrashed
  | poolClosed
  | rowNotFound
  | columnNotFound (column : String)
  | protocol (text : String)
  | refused
  deriving DecidableEq

namespace DatabaseFault

/-- Faults of the connection, which may be gone at the next attempt. -/
def isTransient : DatabaseFault → Bool
  | .io _ | .poolTimedOut | .workerCrashed => true
  | _ => false

/-- What the operator is told, in the driver's words; what a database itself says of a statement
that it refuses is left out. -/
def message : DatabaseFault → String
  | .io text => "error communicating with database: " ++ text
  | .poolTimedOut => "pool timed out while waiting for an open connection"
  | .workerCrashed => "attempted to communicate with a crashed background worker"
  | .poolClosed => "attempted to acquire a connection on a closed pool"
  | .rowNotFound => "no rows returned by a query that expected to return at least one row"
  | .columnNotFound column => "no column found for name: " ++ column
  | .protocol text => "encountered unexpected or invalid data: " ++ text
  | .refused => "error returned from database"

end DatabaseFault

/-- Why a row does not have the wanted content. -/
inductive DecodeFault where
  | widthMismatch (columns values : Nat)
  | missingColumn (column : String)
  | notInteger (column : String)
  | reported (text : String)
  deriving DecidableEq

/-- What the operator is told. -/
def DecodeFault.message : DecodeFault → String
  | .widthMismatch columns values =>
    "컬럼 수(" ++ Text.ofNat columns ++ ")와 값 수(" ++ Text.ofNat values ++ ")가 다름"
  | .missingColumn column => "컬럼 없음: " ++ column
  | .notInteger column => "정수 컬럼 아님: " ++ column
  | .reported text => text

/-- Why a store cannot do what it was asked. -/
inductive UnsupportedFault where
  /-- A prepared statement would be bound to one of the two stores. -/
  | prepareOnPool (sql : String)
  | reported (text : String)
  deriving DecidableEq

/-- What the operator is told. -/
def UnsupportedFault.message : UnsupportedFault → String
  | .prepareOnPool sql => "이중 쓰기 풀은 prepared statement를 지원하지 않음: " ++ sql
  | .reported text => text

/-- Remaining reasons of a store. -/
inductive OtherFault where
  | noColumns (table : String)
  /-- The URL announces no known kind of database; it is kept with its password masked. -/
  | unsupportedUrl (masked : String)
  | reported (text : String)
  deriving DecidableEq

/-- What the operator is told. -/
def OtherFault.message : OtherFault → String
  | .noColumns table => table ++ " 테이블의 컬럼 목록이 비어 있음"
  | .unsupportedUrl masked => "지원하지 않는 데이터베이스 URL: " ++ masked
  | .reported text => text

/-- An error of a store. -/
inductive StoreError where
  | database (fault : DatabaseFault)
  | unsupported (fault : UnsupportedFault)
  | unknownPhase (code : Nat)
  | decode (fault : DecodeFault)
  | invalidIdentifier (name : String)
  | unavailable (text : String)
  | other (fault : OtherFault)
  deriving DecidableEq

namespace StoreError

/-- Whether another attempt may succeed. -/
def isRetryable : StoreError → Bool
  | .database fault => fault.isTransient
  | .unavailable _ => true
  | _ => false

/-- What the operator is told. -/
def message : StoreError → String
  | .database fault => "데이터베이스 에러: " ++ fault.message
  | .unsupported fault => "지원하지 않는 연산: " ++ fault.message
  | .unknownPhase code => "알 수 없는 phase: " ++ Text.ofNat code
  | .decode fault => "행 디코딩 실패: " ++ fault.message
  | .invalidIdentifier name => "잘못된 식별자: " ++ name
  | .unavailable text => "저장소 사용 불가: " ++ text
  | .other fault => "저장소 에러: " ++ fault.message

end StoreError

/-! ## The channel -/

/-- An error of the channel that carries inconsistencies. -/
inductive ChannelError where
  | closed
  | serialization (fault : Json.Fault)
  | transport (text : String)
  deriving DecidableEq

/-- What the operator is told. -/
def ChannelError.message : ChannelError → String
  | .closed => "채널 닫힘"
  | .serialization fault => "직렬화 실패: " ++ fault.message
  | .transport text => "전송 에러: " ++ text

/-! ## The cutover -/

/-- An argument that an operation refuses. -/
inductive ArgumentFault where
  | noColumns (table : String)
  | zeroInterval
  | reported (text : String)
  deriving DecidableEq

/-- What the operator is told. -/
def ArgumentFault.message : ArgumentFault → String
  | .noColumns table => table ++ " 테이블에 컬럼이 없음"
  | .zeroInterval => "증분 검증 간격은 0보다 커야 함"
  | .reported text => text

/-- An error of validation, repair or scheduling. -/
inductive CutoverError where
  | store (error : StoreError)
  | channel (error : ChannelError)
  /-- A well-formed event names neither side as its direction. -/
  | unknownDirection (text : String)
  | invalidArgument (fault : ArgumentFault)
  /-- A payload is no event. -/
  | decode (fault : Json.Fault)
  deriving DecidableEq

namespace CutoverError

/-- Whether another attempt may succeed. -/
def isRetryable : CutoverError → Bool
  | .store error => error.isRetryable
  | .channel (.transport _) => true
  | _ => false

/-- Whether the payload can never be handled, however often it is read. -/
def isPoison : CutoverError → Bool
  | .decode _ | .unknownDirection _ => true
  | _ => false

/-- What the operator is told. -/
def message : CutoverError → String
  | .store error => error.message
  | .channel error => error.message
  | .unknownDirection text => "알 수 없는 방향: " ++ text
  | .invalidArgument fault => "잘못된 인자: " ++ fault.message
  | .decode fault => "이벤트 디코딩 실패: " ++ fault.message

end CutoverError
end Cutover
