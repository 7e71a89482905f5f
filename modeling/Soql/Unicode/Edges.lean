/-
  Unicode — sets of code points given by their edges.

  A property of characters holds on runs of consecutive code points.  It is
  kept as the increasing list of its edges: the first code point of a run,
  then the first one after that run, and so on.

  * `insideEdges`: membership in the set that a list of edges describes.
-/

namespace Soql.Unicode

/-- Whether `n` lies in one of the runs `[start, stop)` listed by `edges`. -/
def insideEdges : List Nat → Nat → Bool
  | [], _ => false
  | [start], n => decide (start ≤ n)
  | start :: stop :: edges, n =>
    if n < start then false else if n < stop then true else insideEdges edges n

end Soql.Unicode
