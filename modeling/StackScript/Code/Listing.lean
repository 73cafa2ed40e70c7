import StackScript.Datum.Basic

/-!
# Code that is read while it runs

A file may hold anything in the place of code. What has a length can be loaded: rows, a text, or a
table. Whether a row is an instruction is found out only when it is reached.
-/

namespace StackScript

/-- Code as it stands in a file. -/
inductive Listing where
  | rows (rows : Array Datum)
  | text (t : String)
  | table (entries : List (Datum × Datum))
  deriving Inhabited

namespace Listing

/-- The listing in a piece of data; none if it has no length. -/
def ofDatum? : Datum → Option Listing
  | .list items => some (rows items.toArray)
  | .tuple items => some (rows items.toArray)
  | .str t => some (text t)
  | .dict entries => some (table entries)
  | _ => none

def datum : Listing → Datum
  | rows items => .list items.toList
  | text t => .str t
  | table entries => .dict entries

def size : Listing → Nat
  | rows items => items.size
  | text t => t.length
  | table entries => entries.length

end Listing

end StackScript
