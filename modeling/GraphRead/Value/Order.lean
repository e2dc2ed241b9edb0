import GraphRead.Value.Basic
/-!
The order of values, and the equality that goes with it.

Values of different kinds are ordered by kind, null first. Within a kind, decimals compare as
numbers, date-times as instants, texts by code points, lists and objects item by item. Two values
are the same if no comparison tells them apart, so `1.50` is the same as `1.5`.
-/

namespace GraphRead.Value

/-- The place of a kind in the order of kinds. -/
def rank : Value → Nat
  | null => 0
  | boolean _ => 1
  | int _ => 2
  | float _ => 3
  | string _ => 4
  | enum _ => 5
  | dateTime _ => 6
  | uuid _ => 7
  | bytes _ => 8
  | list _ => 9
  | object _ => 10

mutual

/-- The order of values. -/
def compare : Value → Value → Ordering
  | boolean a, boolean b => Ord.compare a b
  | int a, int b => Ord.compare a b
  | float a, float b => Decimal.compare a b
  | string a, string b => Ord.compare a b
  | enum a, enum b => Ord.compare a b
  | dateTime a, dateTime b => DateTime.compare a b
  | uuid a, uuid b => Uuid.compare a b
  | bytes a, bytes b => Ord.compare a b
  | list a, list b => compareItems a b
  | object a, object b => compareMembers a b
  | a, b => Ord.compare a.rank b.rank

/-- Lists compare by the first items that differ; a list comes before its extensions. -/
def compareItems : List Value → List Value → Ordering
  | [], [] => .eq
  | [], _ :: _ => .lt
  | _ :: _, [] => .gt
  | a :: as, b :: bs => (compare a b).then (compareItems as bs)

/-- Members compare by key, then by value. -/
def compareMembers : List (String × Value) → List (String × Value) → Ordering
  | [], [] => .eq
  | [], _ :: _ => .lt
  | _ :: _, [] => .gt
  | (j, a) :: as, (k, b) :: bs =>
    ((Ord.compare j k).then (compare a b)).then (compareMembers as bs)

end

mutual

/-- Whether two values are the same: equal kinds and equal content, where decimals count as
numbers and date-times as instants. -/
def same : Value → Value → Bool
  | null, null => true
  | boolean a, boolean b => a == b
  | int a, int b => a == b
  | float a, float b => Decimal.same a b
  | string a, string b => a == b
  | enum a, enum b => a == b
  | dateTime a, dateTime b => DateTime.same a b
  | uuid a, uuid b => a == b
  | bytes a, bytes b => a == b
  | list a, list b => sameItems a b
  | object a, object b => sameMembers a b
  | _, _ => false

/-- Item by item the same. -/
def sameItems : List Value → List Value → Bool
  | [], [] => true
  | a :: as, b :: bs => same a b && sameItems as bs
  | _, _ => false

/-- Member by member the same, in the same order. -/
def sameMembers : List (String × Value) → List (String × Value) → Bool
  | [], [] => true
  | (j, a) :: as, (k, b) :: bs => j == k && same a b && sameMembers as bs
  | _, _ => false

end

instance : BEq Value := ⟨same⟩

instance : Ord Value := ⟨compare⟩

/-- The distinct values of a list, each in its first spelling and in the order of the first
occurrence, with the number of occurrences. -/
def groups (values : List Value) : List (Value × Nat) :=
  values.foldl (fun found v =>
    if found.any fun entry => entry.1 == v then
      found.map fun entry => if entry.1 == v then (entry.1, entry.2 + 1) else entry
    else found ++ [(v, 1)]) []

/-- The distinct values of a list in the order of the first occurrence. -/
def distinct (values : List Value) : List Value := (groups values).map Prod.fst

end GraphRead.Value
