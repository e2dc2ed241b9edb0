import GraphRead.Binding.Bound
import GraphRead.Binding.Error
import GraphRead.Document.Selection
/-!
The arguments of fields: pages and filters.

A connection takes `first` with `after`, or `last` with `before`; null counts as absent. All other
arguments have to be declared filters.
-/

namespace GraphRead.Selection

/-- The arguments that say which page is asked for. -/
def paginationArguments : List String := ["first", "last", "after", "before"]

/-- The size of a page in an argument. -/
def limit? (s : Selection) (argument : String) (path : Path) : Except BindError (Option Nat) :=
  match s.argument? argument with
  | none => .ok none
  | some .null => .ok none
  | some (.int i) =>
    if 0 ≤ i.toInt then .ok (some i.toInt.toNat)
    else
      .error (.invalidPagination s.name
        ("`" ++ argument ++ "` must not be negative, got " ++ (Value.int i).text) path)
  | some other =>
    .error (.invalidArgument argument ("expected an integer, got `" ++ other.kind ++ "`") path)

/-- The cursor in an argument. -/
def cursor? (s : Selection) (argument : String) (path : Path) : Except BindError (Option Cursor) :=
  match s.argument? argument with
  | none => .ok none
  | some .null => .ok none
  | some (.string text) =>
    match Cursor.decode text with
    | .ok cursor => .ok (some cursor)
    | .error fault => .error (.invalidCursor s.name fault.message path)
  | some other =>
    .error (.invalidCursor s.name ("expected a string, got `" ++ other.kind ++ "`") path)

/-- The page that the arguments ask for. -/
def pagination (s : Selection) (path : Path) : Except BindError Pagination := do
  let first ← s.limit? "first" path
  let last ← s.limit? "last" path
  let after ← s.cursor? "after" path
  let before ← s.cursor? "before" path
  let refuse (reason : String) : Except BindError Pagination :=
    .error (.invalidPagination s.name reason path)
  match first, last with
  | some _, some _ => refuse "`first` and `last` cannot be combined"
  | some n, none =>
    if before.isSome then refuse "`before` requires `last`" else return .forward n after
  | none, some n =>
    if after.isSome then refuse "`after` requires `first`" else return .backward n before
  | none, none => .error (.missingPagination s.name path)

/-- The filter of one argument, which has to be declared. -/
def argumentFilter (s : Selection) (declared : List DeclaredFilter) (path : Path)
    (argument : String) (value : Value) : Except BindError Filter :=
  match DeclaredFilter.find? declared argument with
  | none => .error (.unknownArgument argument s.name path)
  | some filter =>
    (filter.apply value).mapError fun fault => .invalidArgument argument fault.message path

/-- The filters of the arguments other than the allowed ones, in conjunction. -/
def declaredFilter (s : Selection) (declared : List DeclaredFilter) (allowed : List String)
    (path : Path) : Except BindError Filter := do
  let restricting := s.arguments.filter fun entry => !allowed.contains entry.1
  return .allOf (← restricting.mapM fun (argument, value) =>
    s.argumentFilter declared path argument value)

/-- Refuses arguments. -/
def withoutArguments (s : Selection) (path : Path) : Except BindError Unit :=
  match s.arguments with
  | [] => .ok ()
  | (argument, _) :: _ => .error (.unknownArgument argument s.name path)

end GraphRead.Selection
