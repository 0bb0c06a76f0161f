import Likeness.Text.Distance
import Mathlib.Data.List.Basic

namespace Likeness.Text

-- The distance of two texts that are given last character first. Either the last characters of both
-- go together, or the last one of one text stands alone.
def distance : List Char → List Char → Nat
  | [], ds => ds.length
  | c :: cs, [] => (c :: cs).length
  | c :: cs, d :: ds =>
    min (min (distance (c :: cs) ds + 1) (distance cs (d :: ds) + 1))
      (if c = d then distance cs ds else distance cs ds + 1)

theorem distance_nil_right (cs : List Char) : distance cs [] = cs.length := by
  cases cs <;> simp [distance]

theorem distance_comm (cs ds : List Char) : distance cs ds = distance ds cs := by
  induction cs generalizing ds with
  | nil => rw [distance_nil_right, distance]
  | cons c cs ih =>
    induction ds with
    | nil => rw [distance_nil_right, distance]
    | cons d ds ih' =>
      have hsame : (if c = d then distance cs ds else distance cs ds + 1) =
          if d = c then distance ds cs else distance ds cs + 1 := by
        rw [ih ds]
        simp only [eq_comm]
      rw [distance, distance, ih', ih (d :: ds), hsame, Nat.min_comm (distance ds (c :: cs) + 1)]

theorem distance_eq_zero_iff (cs ds : List Char) : distance cs ds = 0 ↔ cs = ds := by
  induction cs generalizing ds with
  | nil => cases ds <;> simp [distance]
  | cons c cs ih =>
    cases ds with
    | nil => simp [distance]
    | cons d ds =>
      have hcell : distance (c :: cs) (d :: ds) = 0 ↔ c = d ∧ distance cs ds = 0 := by
        rw [distance]
        split
        · simp_all
        · simp_all
      rw [hcell, ih, List.cons.injEq]

-- What a text grows to character by character, each time last character first.
def grown (seen : List Char) : List Char → List (List Char)
  | [] => []
  | d :: ds => (d :: seen) :: grown (d :: seen) ds

-- The row of the table for a growing first text: its distances to what the second one grows to.
def row (cs target : List Char) : List Nat :=
  distance cs [] :: (grown [] target).map (distance cs)

theorem nextCells_grown (c : Char) (cs seen ds : List Char) :
    nextCells c (distance (c :: cs) seen) (distance cs seen) ds
      ((grown seen ds).map (distance cs)) = (grown seen ds).map (distance (c :: cs)) := by
  induction ds generalizing seen with
  | nil => rfl
  | cons d ds ih =>
    have hcell : min (min (distance (c :: cs) seen + 1) (distance cs (d :: seen) + 1))
        (if c = d then distance cs seen else distance cs seen + 1) =
        distance (c :: cs) (d :: seen) := by rw [distance]
    rw [grown, List.map_cons, nextCells, hcell, List.map_cons, ih (d :: seen)]

theorem nextRow_row (c : Char) (cs target : List Char) :
    nextRow c target (row cs target) = row (c :: cs) target := by
  have hfirst : distance cs [] + 1 = distance (c :: cs) [] := by
    rw [distance_nil_right, distance_nil_right, List.length_cons]
  rw [row, nextRow, hfirst, nextCells_grown, row]

theorem lastRow_row (source cs target : List Char) :
    lastRow target source (row cs target) = row (source.reverse ++ cs) target := by
  induction source generalizing cs with
  | nil => rfl
  | cons c source ih => rw [lastRow, nextRow_row, ih, List.reverse_cons, List.append_assoc]; rfl

theorem length_grown (seen ds : List Char) :
    (grown seen ds).map List.length = List.range' (seen.length + 1) ds.length := by
  induction ds generalizing seen with
  | nil => rfl
  | cons d ds ih =>
    rw [grown, List.map_cons, ih, List.length_cons, List.length_cons, List.range'_succ]

-- The table starts with the distances from the empty text.
theorem range_eq_row (target : List Char) : List.range (target.length + 1) = row [] target := by
  have hempty : distance [] = List.length := by
    funext ds
    rw [distance]
  rw [row, hempty, length_grown, List.range_eq_range', List.range'_succ]
  rfl

theorem getLastD_grown (cs seen ds : List Char) (first : Nat) :
    (distance cs seen :: (grown seen ds).map (distance cs)).getLastD first =
      distance cs (ds.reverse ++ seen) := by
  induction ds generalizing seen first with
  | nil => rfl
  | cons d ds ih =>
    rw [grown, List.map_cons, List.getLastD_cons, ih, List.reverse_cons, List.append_assoc]
    rfl

theorem editDistance_eq (source target : List Char) :
    editDistance source target = distance source.reverse target.reverse := by
  rw [editDistance, range_eq_row, lastRow_row, row, getLastD_grown, List.append_nil,
    List.append_nil]

theorem editDistance_comm (source target : List Char) :
    editDistance source target = editDistance target source := by
  rw [editDistance_eq, editDistance_eq, distance_comm]

-- No edit is needed just for one and the same text.
theorem editDistance_eq_zero_iff (source target : List Char) :
    editDistance source target = 0 ↔ source = target := by
  rw [editDistance_eq, distance_eq_zero_iff, List.reverse_inj]

end Likeness.Text
