import Likeness.Proofs.Components.Id
import Mathlib.Data.Sym.Sym2

namespace Likeness

open Duplicates Syntax

-- The id of a component holds a null character only if the path of its file does.
theorem Component.nullFree_id {dialect : Dialect} {text : String} {s : Source} {file : Files.Path}
    (hs : Source.parse? dialect text = some s) (hfile : NullFree file.text) {c : Component}
    (hc : c ∈ all s file) : NullFree c.id := by
  obtain ⟨f, hf, hname⟩ := name_of_mem_all hc
  have hplain : PlainName c.name :=
    hname ▸ Function.plainName_of_mem_all (Source.plain_parse? hs) hf
  rw [NullFree, id_toList, file_of_mem_all hc, List.mem_append, List.mem_cons]
  rintro (hnull | hnull | hnull)
  · exact hfile hnull
  · cases hnull
  · exact hplain.nullFree hnull

namespace Duplicates

-- A key tells which two texts it was made of, and not in which order they were given: texts without
-- null characters, as digests are, and the ids of components of files with such paths.
theorem pairKey_identifies (a b c d : String) (hfree : NullFree a ∧ NullFree b)
    (hdigest : Digest.CollisionFree [pairBytes a b, pairBytes c d]) :
    (pairKey a b = pairKey c d ↔ s(a, b) = s(c, d)) ∧
    (∀ bytes, NullFree (Digest.blake3 bytes)) ∧
    ∀ dialect text (file : Files.Path) s, Source.parse? dialect text = some s →
      NullFree file.text → ∀ component ∈ Component.all s file, NullFree component.id := by
  refine ⟨?_, nullFree_blake3, fun dialect text file s hs hfile component hc =>
    Component.nullFree_id hs hfile hc⟩
  rw [pairKey_eq, pairKey_eq, Sym2.eq_iff, ← pairBytes_eq_iff hfree.1 hfree.2]
  constructor
  · exact hdigest _ (by simp) _ (by simp)
  · exact congrArg Digest.blake3

-- The place where one text ends and the other one begins counts.
theorem pairKey_identifies_shifted :
    (NullFree "ab" ∧ NullFree "c") ∧
      Digest.CollisionFree [pairBytes "ab" "c", pairBytes "a" "bc"] ∧
      pairKey "ab" "c" ≠ pairKey "a" "bc" := by
  have hfree : NullFree "ab" ∧ NullFree "c" := by decide
  have hdigest : Digest.CollisionFree [pairBytes "ab" "c", pairBytes "a" "bc"] := by
    unfold Digest.CollisionFree
    decide +kernel
  refine ⟨hfree, hdigest, fun hkey => ?_⟩
  have hpair := (pairKey_identifies "ab" "c" "a" "bc" hfree hdigest).1.mp hkey
  rw [Sym2.eq_iff] at hpair
  exact absurd hpair (by decide)

end Duplicates

end Likeness
