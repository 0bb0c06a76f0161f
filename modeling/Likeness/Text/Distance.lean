namespace Likeness.Text

-- The cells of a table row after its first: `left` is the cell before, `diagonal` the one above
-- that, and the list holds the rest of the row above.
def nextCells (c : Char) (left diagonal : Nat) : List Char → List Nat → List Nat
  | d :: ds, above :: rest =>
    let cell := min (min (left + 1) (above + 1)) (if c = d then diagonal else diagonal + 1)
    cell :: nextCells c cell above ds rest
  | _, _ => []

-- The row below `row`, for one more character `c` of the first text.
def nextRow (c : Char) (target : List Char) : List Nat → List Nat
  | [] => []
  | first :: rest => (first + 1) :: nextCells c (first + 1) first target rest

-- Rows of distances from a growing prefix of the first text to each prefix of the second.
def lastRow (target : List Char) : List Char → List Nat → List Nat
  | [], row => row
  | c :: cs, row => lastRow target cs (nextRow c target row)

-- The least number of insertions, deletions and substitutions that turn one text into the other.
def editDistance (source target : List Char) : Nat :=
  (lastRow target source (List.range (target.length + 1))).getLastD 0

end Likeness.Text
