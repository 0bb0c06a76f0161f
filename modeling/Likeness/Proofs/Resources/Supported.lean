import Likeness.Resources.Read
import Mathlib.Data.List.Basic

namespace Likeness

namespace Files

end Files

section Messages

-- Whether a text begins with three characters that are not the first ones of `unsupported`.
def BeginsOtherwise (text : String) : Prop :=
  (text.toList.take 3).length = 3 ∧ text.toList.take 3 ≠ ['u', 'n', 's']

instance (text : String) : Decidable (BeginsOtherwise text) := inferInstanceAs (Decidable (_ ∧ _))

theorem BeginsOtherwise.append {a : String} (h : BeginsOtherwise a) (b : String) :
    BeginsOtherwise (a ++ b) := by
  have hlong : 3 ≤ a.toList.length := by
    have hthree := h.1
    rw [List.length_take] at hthree
    omega
  unfold BeginsOtherwise
  rwa [String.toList_append, List.take_append_of_le_length hlong]

theorem Json.Cause.beginsOtherwise (c : Cause) : BeginsOtherwise c.message := by
  cases c <;> decide +kernel

theorem Json.Fault.beginsOtherwise (f : Fault) (text : List Char) :
    BeginsOtherwise (f.message text) :=
  (((f.cause.beginsOtherwise.append _).append _).append _).append _

namespace Yaml

theorem Cause.beginsOtherwise (c : Cause) : BeginsOtherwise c.text := by
  cases c with
  | controlCharacter bytes =>
    cases bytes with
    | zero => decide +kernel
    | succ bytes =>
      have hstart : BeginsOtherwise "control characters are not allowed at position " := by
        decide +kernel
      exact hstart.append _
  | _ => decide +kernel

theorem Fault.beginsOtherwise (f : Fault) : BeginsOtherwise f.message :=
  (f.cause.beginsOtherwise.append _).append _

theorem ValueFault.beginsOtherwise (f : ValueFault) : BeginsOtherwise f.message := by
  cases f with
  | duplicateKey key =>
    have hstart : BeginsOtherwise "duplicate entry " := by decide +kernel
    exact hstart.append _
  | emptyTag =>
    have hwhole : BeginsOtherwise "empty YAML tag is not allowed" := by decide +kernel
    exact hwhole
  | notA text expected =>
    have hstart : BeginsOtherwise "invalid value: string " := by decide +kernel
    exact ((hstart.append _).append _).append _
  | tooLarge n =>
    have hstart : BeginsOtherwise "invalid type: integer \x60" := by decide +kernel
    exact (((hstart.append _).append _).append _).append _

end Yaml

end Messages

namespace Resources

variable {path : String}

end Resources

end Likeness
