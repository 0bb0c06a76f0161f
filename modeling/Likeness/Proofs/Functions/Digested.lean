import Likeness.Proofs.Duplicates.PairKey
import Likeness.Proofs.Syntax.Source
import Likeness.Proofs.Syntax.Spots

namespace Likeness

open Syntax Text

namespace Syntax

theorem Kind.oneLine_name (k : Kind) : OneLine k.name := by
  have hnames : ∀ i < 185, (Kind.ofNat i).name ≠ "" ∧
      (10 : UInt8) ∉ (Kind.ofNat i).name.toByteArray.data.toList := by
    decide +kernel
  obtain ⟨hempty, hbytes⟩ := hnames _ k.ctorIdx_lt
  rw [Kind.ofNat_ctorIdx] at hempty hbytes
  exact ⟨hempty, unbroken_of_bytes hbytes⟩

namespace Tree

theorem isNode_of_mem_parts {t part : Tree} (h : part ∈ t.parts) : part.isNode = true := by
  rw [parts_eq, List.mem_filter] at h
  exact isNode_of_isPart h.2

theorem isNode_of_firstPart {t part : Tree} (h : t.firstPart = some part) : part.isNode = true :=
  isNode_of_mem_parts (List.mem_of_mem_head? h)

theorem isNode_unwrapParens {t : Tree} (h : t.isNode = true) : t.unwrapParens.isNode = true :=
  unwrapParens_of_parts (fun _ _ _ hpart => isNode_of_mem_parts hpart) h

theorem Plain.of_mem_parts {chars : Array Char} {t part : Tree} (h : t.Plain chars)
    (hpart : part ∈ t.parts) : part.Plain chars := by
  rw [parts_eq] at hpart
  exact h.children part (List.mem_of_mem_filter hpart)

theorem Plain.unwrapParens {chars : Array Char} {t : Tree} (h : t.Plain chars) :
    t.unwrapParens.Plain chars :=
  unwrapParens_of_parts (fun _ hu _ hpart => hu.of_mem_parts hpart) h

end Tree

end Syntax

namespace Shape

variable {chars : Array Char} {t : Tree}

theorem oneLine_kindName (h : t.isNode = true) : OneLine (kindName t) := by
  cases t with
  | token => cases h
  | node kind => exact kind.oneLine_name

-- The word for a statement is on one line, as kinds and operators are.
theorem oneLine_token (hplain : t.Plain chars) (hnode : t.isNode = true) :
    OneLine (token t) := by
  unfold token
  split
  · decide
  · decide
  · split
    · next e he => exact oneLine_kindName (Tree.isNode_unwrapParens (Tree.isNode_of_firstPart he))
    · exact oneLine_kindName hnode
  · split
    · decide
    · next e he =>
      have hvalue := (hplain.of_mem_parts (List.mem_of_mem_head? he)).unwrapParens
      have hshown : OneLine (kindName e.unwrapParens) :=
        oneLine_kindName (Tree.isNode_unwrapParens (Tree.isNode_of_firstPart he))
      dsimp only
      split
      · split
        · next hoperator =>
          have hline := hvalue.oneLine_of_operator hoperator
          exact OneLine.append (by decide) hline.unbroken
        · decide
      · exact OneLine.append (by decide) hshown.unbroken
  · exact oneLine_kindName hnode

theorem oneLine_of_ofBody? (hplain : t.Plain chars) (hnode : t.isNode = true) {least : ℕ}
    {shape : Shape} (h : ofBody? least t = some shape) : ∀ token ∈ shape, OneLine token := by
  unfold ofBody? at h
  split at h
  · dsimp only at h
    split at h
    · cases h
    · cases h
      refine List.forall_mem_map.mpr fun part hpart => ?_
      exact oneLine_token (hplain.of_mem_parts hpart) (Tree.isNode_of_mem_parts hpart)
  · cases h
    exact List.forall_mem_singleton.mpr (oneLine_kindName (Tree.isNode_unwrapParens hnode))

-- What a digest is made of.
def bytes (shape : Shape) : ByteArray := (String.intercalate "\n" shape).toUTF8

theorem digest_eq (shape : Shape) : shape.digest = Digest.blake3 shape.bytes := rfl

theorem bytes_inj {shape other : Shape} (h : ∀ token ∈ shape, OneLine token)
    (hother : ∀ token ∈ other, OneLine token) : shape.bytes = other.bytes ↔ shape = other := by
  rw [bytes, bytes, String.toUTF8_eq_toByteArray, String.toUTF8_eq_toByteArray,
    String.toByteArray_inj, intercalate_inj h hother]

-- Shapes with words on one line are told apart by their digests, and all words that a file that was
-- read can give are on one line: those for statements, and those of the shapes of bodies.
theorem digest_separates (shape other : Shape) (h : ∀ token ∈ shape, OneLine token)
    (hother : ∀ token ∈ other, OneLine token)
    (hdigest : Digest.CollisionFree [shape.bytes, other.bytes]) :
    (shape.digest = other.digest ↔ shape = other) ∧
    ∀ dialect text s, Source.parse? dialect text = some s → ∀ node ∈ s.tree.nodes,
      OneLine (token node) ∧ ∀ least words, ofBody? least node = some words →
        ∀ word ∈ words, OneLine word := by
  refine ⟨?_, fun dialect text s hs node hnode => ?_⟩
  · rw [digest_eq, digest_eq, ← bytes_inj h hother]
    exact ⟨hdigest _ (by simp) _ (by simp), congrArg Digest.blake3⟩
  · have hplain : node.Plain s.chars := Tree.plain_of_mem_visitNodes [s.tree]
      (List.forall_mem_singleton.mpr (Source.plain_parse? hs)) node hnode
    have hroot : s.tree.isNode = true := by
      rw [Tree.isNode, Source.kind?_parse? hs]
      rfl
    have hisNode : node.isNode = true := Tree.forall_mem_visitNodes
      (fun _ _ _ hchild => (List.mem_filter.mp hchild).2) (List.forall_mem_singleton.mpr hroot)
      node hnode
    exact ⟨oneLine_token hplain hisNode, fun least words hwords =>
      oneLine_of_ofBody? hplain hisNode hwords⟩

-- A block without statements has another digest than one with a single return.
theorem digest_separates_empty : (∀ token ∈ ([] : Shape), OneLine token) ∧
    (∀ token ∈ ["return"], OneLine token) ∧
    Digest.CollisionFree [bytes [], bytes ["return"]] ∧ digest [] ≠ digest ["return"] := by
  have hdigest : Digest.CollisionFree [bytes [], bytes ["return"]] := by
    unfold Digest.CollisionFree
    decide +kernel
  refine ⟨by decide, by decide, hdigest, fun heq => ?_⟩
  have hshapes := (digest_separates [] ["return"] (by decide) (by decide) hdigest).1.mp heq
  cases hshapes

end Shape

end Likeness
