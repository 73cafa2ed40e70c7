/-!
# Sets of code points given by their edges

A set of code points is written as the increasing list of the points where membership changes:
the first edge is the first member, the second the first non-member after it, and so on. A point
belongs to the set when an odd number of edges is at or below it. The edges of large sets are told
by the distance of each to the one before.
-/

namespace StackScript.Text

/-- The edges that are so far apart. -/
def edgesOf (gaps : Array Nat) : Array Nat :=
  (gaps.foldl (fun (edges, last) gap => (edges.push (last + gap), last + gap)) (#[], 0)).1

/-- Membership of a code point in the set with the given edges. -/
def inSpans (edges : Array Nat) (point : Nat) : Bool :=
  edges.foldl (fun inside edge => if edge ≤ point then !inside else inside) false

end StackScript.Text
