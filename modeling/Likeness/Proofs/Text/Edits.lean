import Likeness.Proofs.Text.Distance
import Mathlib.Order.Bounds.Basic
import Mathlib.Order.MinMax

namespace Likeness.Text

-- One edit of a text, anywhere in it: a character is put in, taken out, or replaced.
inductive Edit : List Char → List Char → Prop where
  | insert (front : List Char) (c : Char) (rest : List Char) :
    Edit (front ++ rest) (front ++ c :: rest)
  | delete (front : List Char) (c : Char) (rest : List Char) :
    Edit (front ++ c :: rest) (front ++ rest)
  | substitute (front : List Char) (c d : Char) (rest : List Char) :
    Edit (front ++ c :: rest) (front ++ d :: rest)

-- Whether so many edits, one after the other, turn a text into another one.
inductive EditedIn : ℕ → List Char → List Char → Prop where
  | refl (cs : List Char) : EditedIn 0 cs cs
  | step {n : ℕ} {cs ds es : List Char} (hfirst : Edit cs ds) (hrest : EditedIn n ds es) :
    EditedIn (n + 1) cs es

section Edits

variable {m n : ℕ} {cs ds es : List Char}

theorem Edit.cons (c : Char) (h : Edit cs ds) : Edit (c :: cs) (c :: ds) := by
  cases h with
  | insert front d rest => exact .insert (c :: front) d rest
  | delete front d rest => exact .delete (c :: front) d rest
  | substitute front d e rest => exact .substitute (c :: front) d e rest

theorem Edit.reverse (h : Edit cs ds) : Edit cs.reverse ds.reverse := by
  cases h with
  | insert front c rest => simpa using Edit.insert rest.reverse c front.reverse
  | delete front c rest => simpa using Edit.delete rest.reverse c front.reverse
  | substitute front c d rest => simpa using Edit.substitute rest.reverse c d front.reverse

theorem EditedIn.cons (c : Char) (h : EditedIn n cs ds) : EditedIn n (c :: cs) (c :: ds) := by
  induction h with
  | refl cs => exact .refl _
  | step hfirst _ ih => exact .step (hfirst.cons c) ih

theorem EditedIn.reverse (h : EditedIn n cs ds) : EditedIn n cs.reverse ds.reverse := by
  induction h with
  | refl cs => exact .refl _
  | step hfirst _ ih => exact .step hfirst.reverse ih

theorem editedIn_reverse_iff : EditedIn n cs.reverse ds.reverse ↔ EditedIn n cs ds := by
  constructor
  · intro h
    simpa only [List.reverse_reverse] using h.reverse
  · exact EditedIn.reverse

theorem EditedIn.trans (h : EditedIn m cs ds) (h' : EditedIn n ds es) :
    EditedIn (m + n) cs es := by
  induction h with
  | refl cs => simpa only [Nat.zero_add] using h'
  | step hfirst _ ih =>
    rw [Nat.add_right_comm]
    exact .step hfirst (ih h')

theorem editedIn_nil (ds : List Char) : EditedIn ds.length [] ds := by
  induction ds with
  | nil => exact .refl _
  | cons d ds ih => exact .step (.insert [] d []) (ih.cons d)

-- There are as many edits as the distance says. The first characters go by the cell of the table
-- that gives the minimum.
theorem editedIn_distance (cs ds : List Char) : EditedIn (distance cs ds) cs ds := by
  induction cs generalizing ds with
  | nil =>
    rw [distance]
    exact editedIn_nil ds
  | cons c cs ih =>
    induction ds with
    | nil =>
      have hdelete := ih []
      rw [distance_nil_right] at hdelete ⊢
      exact .step (.delete [] c cs) hdelete
    | cons d ds ih' =>
      have hinsert : EditedIn (distance (c :: cs) ds + 1) (c :: cs) (d :: ds) :=
        .step (.insert [] d (c :: cs)) (ih'.cons d)
      have hdelete : EditedIn (distance cs (d :: ds) + 1) (c :: cs) (d :: ds) :=
        .step (.delete [] c cs) (ih (d :: ds))
      have hboth : EditedIn (if c = d then distance cs ds else distance cs ds + 1) (c :: cs)
          (d :: ds) := by
        by_cases hsame : c = d
        · subst d
          rw [if_pos rfl]
          exact (ih ds).cons c
        · rw [if_neg hsame]
          exact .step (.substitute [] c d cs) ((ih ds).cons d)
      rw [distance]
      rcases min_choice (min (distance (c :: cs) ds + 1) (distance cs (d :: ds) + 1))
        (if c = d then distance cs ds else distance cs ds + 1) with h | h
      · rw [h]
        rcases min_choice (distance (c :: cs) ds + 1) (distance cs (d :: ds) + 1) with h' | h'
        · rw [h']
          exact hinsert
        · rw [h']
          exact hdelete
      · rw [h]
        exact hboth

end Edits

section Bounds

variable {n : ℕ} {cs ds : List Char}

theorem distance_cons_left_le (c : Char) (cs ds : List Char) :
    distance (c :: cs) ds ≤ distance cs ds + 1 := by
  cases ds with
  | nil => simp [distance_nil_right]
  | cons d ds =>
    rw [distance]
    omega

theorem distance_cons_right_le (cs : List Char) (d : Char) (ds : List Char) :
    distance cs (d :: ds) ≤ distance cs ds + 1 := by
  rw [distance_comm cs, distance_comm cs]
  exact distance_cons_left_le d ds cs

theorem distance_le_cons_left (c : Char) (cs ds : List Char) :
    distance cs ds ≤ distance (c :: cs) ds + 1 := by
  induction ds with
  | nil =>
    rw [distance_nil_right, distance_nil_right, List.length_cons]
    omega
  | cons d ds ih =>
    have hlonger := distance_cons_right_le cs d ds
    rw [distance]
    split <;> omega

theorem distance_replace_le (c d : Char) (cs ds : List Char) :
    distance (c :: cs) ds ≤ distance (d :: cs) ds + 1 := by
  induction ds with
  | nil => simp [distance_nil_right]
  | cons e ds ih =>
    rw [distance, distance]
    split <;> split <;> omega

-- What one edit changes of the distances to all texts stays so behind a common first character.
theorem distance_front_le (c : Char) (h : ∀ es, distance cs es ≤ distance ds es + 1)
    (es : List Char) : distance (c :: cs) es ≤ distance (c :: ds) es + 1 := by
  induction es with
  | nil =>
    have hempty := h []
    rw [distance_nil_right, distance_nil_right] at hempty ⊢
    simp only [List.length_cons]
    omega
  | cons e es ih =>
    have hboth := h es
    have hdelete := h (e :: es)
    rw [distance, distance]
    split <;> omega

theorem distance_append_le (front : List Char) (h : ∀ es, distance cs es ≤ distance ds es + 1)
    (es : List Char) : distance (front ++ cs) es ≤ distance (front ++ ds) es + 1 := by
  induction front generalizing es with
  | nil => exact h es
  | cons c front ih => exact distance_front_le c ih es

-- One edit brings a text nearer to any other one by no more than one.
theorem Edit.distance_le (h : Edit cs ds) (es : List Char) :
    distance cs es ≤ distance ds es + 1 := by
  cases h with
  | insert front c rest => exact distance_append_le front (distance_le_cons_left c rest) es
  | delete front c rest => exact distance_append_le front (distance_cons_left_le c rest) es
  | substitute front c d rest => exact distance_append_le front (distance_replace_le c d rest) es

theorem EditedIn.distance_le (h : EditedIn n cs ds) : distance cs ds ≤ n := by
  induction h with
  | refl cs => exact ((distance_eq_zero_iff cs cs).mpr rfl).le
  | @step n cs ds es hfirst _ ih =>
    have hstep := hfirst.distance_le es
    omega

theorem distance_le_max (cs ds : List Char) : distance cs ds ≤ max cs.length ds.length := by
  induction cs generalizing ds with
  | nil =>
    rw [distance]
    exact le_max_right _ _
  | cons c cs ih =>
    cases ds with
    | nil =>
      rw [distance_nil_right]
      exact le_max_left _ _
    | cons d ds =>
      have hrest := ih ds
      rw [distance]
      simp only [List.length_cons]
      split <;> omega

end Bounds

section Least

variable (source middle target : List Char)

-- No fewer edits do than the table says, and that many do.
theorem isLeast_editDistance :
    IsLeast {n | EditedIn n source target} (editDistance source target) := by
  rw [editDistance_eq]
  constructor
  · exact editedIn_reverse_iff.mp (editedIn_distance _ _)
  · intro n h
    exact h.reverse.distance_le

-- Edits that lead over a third text are edits that lead there.
theorem editDistance_triangle : editDistance source target ≤
    editDistance source middle + editDistance middle target := by
  apply (isLeast_editDistance source target).2
  exact (isLeast_editDistance source middle).1.trans (isLeast_editDistance middle target).1

theorem editDistance_le_max :
    editDistance source target ≤ max source.length target.length := by
  have hmax := distance_le_max source.reverse target.reverse
  rwa [← editDistance_eq, List.length_reverse, List.length_reverse] at hmax

end Least

end Likeness.Text
