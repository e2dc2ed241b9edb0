import GraphRead.Chunks
import GraphRead.Filter.Basic
import GraphRead.Order
import GraphRead.RowSet
/-!
Reads: what a data store can be asked.

A read looks at one table. It fetches rows, either with one limit or with a limit for the rows of
each value of a column, or it counts rows, either all of them or by the values of a column.
`ReadArguments.batched` splits a long list of wanted values over several reads.
-/

namespace GraphRead

/-- Which rows to fetch, in which order, and how many at most. -/
structure ReadArguments where
  filter : Filter
  order : Order
  take : Option Nat
  deriving Repr

namespace ReadArguments

/-- Narrows a read to the rows whose column has one of the values, in batches of at most
`size` values. -/
def batched (arguments : ReadArguments) (column : String) (values : List Value) (size : Nat) :
    List ReadArguments :=
  (chunks size values).map fun chunk =>
    { arguments with filter := .allOf [arguments.filter, .among column chunk] }

end ReadArguments

/-- A limit for the rows of each value of a column. -/
structure Window where
  column : String
  limit : Nat
  deriving DecidableEq, Repr

/-- A request for rows. The take of the arguments does not count beside a window. -/
inductive Fetch where
  | plain (table : String) (columns : List String) (arguments : ReadArguments)
  | windowed (table : String) (columns : List String) (arguments : ReadArguments)
      (window : Window)
  deriving Repr

/-- A request to a data store. -/
inductive Read where
  | rows (fetch : Fetch)
  | count (table : String) (filter : Filter)
  | grouped (table : String) (filter : Filter) (column : String)
  deriving Repr

/-- Why a data store does not answer. -/
inductive StoreError where
  | columnDoesNotExist (column : String)
  | tableDoesNotExist (table : String)
  | queryFailed (reason : String)
  | domain (error : DomainError)
  deriving DecidableEq, Repr

/-- The reason in words. -/
def StoreError.message : StoreError → String
  | columnDoesNotExist column => "Column '" ++ column ++ "' does not exist."
  | tableDoesNotExist table => "Table '" ++ table ++ "' does not exist."
  | queryFailed reason => "Error querying the data store: " ++ reason
  | domain error => error.message

/-- A data store, as the answers it gives. -/
structure Connector where
  rows : Fetch → Except StoreError RowSet
  count : String → Filter → Except StoreError Nat
  grouped : String → Filter → String → Except StoreError (List (Value × Nat))

/-- The answer to a read. -/
inductive Reply where
  | rows (set : RowSet)
  | count (number : Nat)
  | groups (counts : List (Value × Nat))
  deriving Repr

/-- What a data store answers to a read. -/
def Connector.reply (connector : Connector) : Read → Except StoreError Reply
  | .rows fetch => (connector.rows fetch).map .rows
  | .count table filter => (connector.count table filter).map .count
  | .grouped table filter column => (connector.grouped table filter column).map .groups

namespace Fetch

/-- The table that is read. -/
def table : Fetch → String
  | plain table _ _ => table
  | windowed table _ _ _ => table

end Fetch

namespace Read

/-- The table that is read. -/
def table : Read → String
  | rows fetch => fetch.table
  | count table _ => table
  | grouped table _ _ => table

/-- The filter of a read. -/
def filter : Read → Filter
  | rows (.plain _ _ arguments) => arguments.filter
  | rows (.windowed _ _ arguments _) => arguments.filter
  | count _ filter => filter
  | grouped _ filter _ => filter

/-- The limit of a fetch. -/
def take : Read → Option Nat
  | rows (.plain _ _ arguments) => arguments.take
  | rows (.windowed _ _ _ window) => some window.limit
  | _ => none

/-- The name for a kind of read. -/
def kind : Read → String
  | rows (.plain ..) => "fetch"
  | rows (.windowed ..) => "windowed fetch"
  | count .. => "count"
  | grouped .. => "grouped count"

/-- Whether a read asks for rows. -/
def isFetch : Read → Bool
  | rows _ => true
  | _ => false

/-- Whether a store answers a read. -/
def answered (connector : Connector) (read : Read) : Bool := (connector.reply read).isOk

/-- The reads of a list up to the first one that is not answered, which is included. -/
def untilFailure (connector : Connector) : List Read → List Read
  | [] => []
  | read :: rest => if read.answered connector then read :: untilFailure connector rest else [read]

end Read

end GraphRead
