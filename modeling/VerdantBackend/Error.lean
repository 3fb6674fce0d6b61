import VerdantBackend.Json

/-!
# Errors

The errors of the database, and those of the application (`src/error.rs`) with the
status and body that each is answered with.
-/

namespace VerdantBackend

/-! ## The database -/

/-- `sqlx::Error`: a value the application itself refuses before any SQL, a
missing row, or a rejection by the database. -/
inductive SqlxError where
  | protocol (msg : String)
  | rowNotFound
  | database (msg : String)
deriving DecidableEq, Repr

/-- `to_string`. -/
def SqlxError.toString : SqlxError → String
  | .protocol msg => "encountered unexpected or invalid data: " ++ msg
  | .rowNotFound => "no rows returned by a query that expected to return at least one row"
  | .database msg => "error returned from database: " ++ msg

/-- The result of `BIGINT` arithmetic. -/
def bigint (n : Int) : Except SqlxError Int :=
  if InI64 n then .ok n else .error (.database "bigint out of range")

/-- How the database refuses a text that holds U+0000. -/
def nulByte : SqlxError := .database "invalid byte sequence for encoding \"UTF8\": 0x00"

/-! ## The application -/

inductive AppError where
  | database (err : SqlxError)
  | notFound (message : String)
  | badRequest (message : String)
  | unauthorized (message : String)
  | conflict (message : String)
  | internal (message : String)
deriving DecidableEq, Repr

namespace AppError

/-- The status that `into_response` answers with. -/
def status : AppError → Nat
  | database _ => 500
  | notFound _ => 404
  | badRequest _ => 400
  | unauthorized _ => 401
  | conflict _ => 409
  | internal _ => 500

def message : AppError → String
  | database err => err.toString
  | notFound message | badRequest message | unauthorized message | conflict message
  | internal message => message

/-- `into_response`: the status and the body. -/
def intoResponse (e : AppError) : Nat × Json := (e.status, .obj [("error", .str e.message)])

end AppError

end VerdantBackend
