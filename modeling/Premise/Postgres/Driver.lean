import Premise.Js.Basic

/-!
# The driver

What the stores rely on of PostgreSQL: the texts that a column can hold, and transactions.
-/

namespace Premise.Postgres

open Js

/-- A text column, and a text in a `jsonb` column, cannot hold a zero character. -/
def storable (value : String) : Bool := value.toList.all (fun c => decide (c ≠ '\x00'))

/-- What a store throws: an error of its own, or one of the database. -/
inductive PostgresError
  | thrown (err : JsError)
  /-- A text that a column cannot hold. -/
  | encoding
  /-- A row that violates a `CHECK` constraint. -/
  | constraint
deriving DecidableEq

/-- `throw new TypeError(message)`, unless the value passes the check. -/
def require (passes : Bool) (message : String) : Except PostgresError Unit :=
  if passes then .ok () else .error (.thrown (.typeError message))

/-- `withPostgresTransaction`: a transaction that throws is rolled back. -/
def withPostgresTransaction {T A : Type} (table : T) (action : Except PostgresError (T × A)) :
    T × Except PostgresError A :=
  match action with
  | .ok (table', answer) => (table', .ok answer)
  | .error err => (table, .error err)

end Premise.Postgres
