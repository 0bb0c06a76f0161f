import Likeness.Syntax.Tree
import Mathlib.Data.List.Sort

namespace Likeness.Syntax

namespace Kind

def nameCode (k : Kind) : Nat :=
  k.name.toByteArray.data.toList.foldl (fun code byte => code * 256 + byte.toNat) 0

-- The codes are compared after sorting, where neighbours decide for all pairs.
theorem nameCodes_chain :
    (((List.range 185).map fun i => (ofNat i).nameCode).insertionSort (· ≤ ·)).IsChain (· < ·) := by
  decide +kernel

theorem nameCodes_nodup : ((List.range 185).map fun i => (ofNat i).nameCode).Nodup :=
  (List.perm_insertionSort (· ≤ ·) _).nodup_iff.mp
    ((List.isChain_iff_pairwise.mp nameCodes_chain).imp Nat.ne_of_lt)

theorem ctorIdx_lt (k : Kind) : k.ctorIdx < 185 := by cases k <;> decide

theorem name_injective : Function.Injective name := by
  intro k k' h
  have hcode : (ofNat k.ctorIdx).nameCode = (ofNat k'.ctorIdx).nameCode := by
    rw [ofNat_ctorIdx, ofNat_ctorIdx, nameCode, nameCode, h]
  have hidx := List.inj_on_of_nodup_map nameCodes_nodup (List.mem_range.mpr k.ctorIdx_lt)
    (List.mem_range.mpr k'.ctorIdx_lt) hcode
  rw [← ofNat_ctorIdx k, hidx, ofNat_ctorIdx]

end Kind

namespace Tree

def isPart (t : Tree) : Bool := t.isNode && !t.isComment

theorem hasKind_iff {t : Tree} {k : Kind} : t.hasKind k = true ↔ t.kind? = some k := by
  simp [hasKind]

@[simp]
theorem hasKind_node (k : Kind) (role : Option Role) (span : Span) (children : List Tree)
    (k' : Kind) : (node k role span children).hasKind k' = decide (k = k') := by
  simp [hasKind, kind?, Bool.beq_eq_decide_eq]

theorem parts_eq (t : Tree) : t.parts = t.children.filter isPart := by
  simp only [parts, namedChildren, List.filter_filter]
  exact List.filter_congr fun u _ => Bool.and_comm _ _

theorem parts_node (k : Kind) (role : Option Role) (span : Span) (children : List Tree) :
    (node k role span children).parts = children.filter isPart := parts_eq _

theorem isPart_congr {t u : Tree} (h : t.kind? = u.kind?) : t.isPart = u.isPart := by
  simp only [isPart, isNode, isComment, h]

theorem isPart_of_comment {t : Tree} (h : t.isComment = true) : t.isPart = false := by
  simp [isPart, h]

theorem parts_comment {k : Kind} {role : Option Role} {span : Span} {before after : List Tree}
    {c : Tree} (hc : c.isComment = true) :
    (node k role span (before ++ c :: after)).parts =
      (node k role span (before ++ after)).parts := by
  simp [parts_node, isPart_of_comment hc]

theorem weight_lt_of_firstPart {t u : Tree} (h : t.firstPart = some u) : u.weight < t.weight := by
  obtain ⟨rest, hparts⟩ := List.head?_eq_some_iff.mp h
  exact weight_lt_of_parts hparts

-- The same tree as another part of a parent, or as none.
def playing (role : Option Role) : Tree → Tree
  | token text _ span => token text role span
  | node kind _ span children => node kind role span children

@[simp]
theorem kind?_playing (role : Option Role) (t : Tree) : (t.playing role).kind? = t.kind? := by
  cases t <;> rfl

@[simp]
theorem children_playing (role : Option Role) (t : Tree) :
    (t.playing role).children = t.children := by
  cases t <;> rfl

@[simp]
theorem parts_playing (role : Option Role) (t : Tree) : (t.playing role).parts = t.parts := by
  rw [parts_eq, parts_eq, children_playing]

@[simp]
theorem hasKind_playing (role : Option Role) (t : Tree) (k : Kind) :
    (t.playing role).hasKind k = t.hasKind k := by
  rw [hasKind, hasKind, kind?_playing]

-- An expression in any number of parentheses, with comments in them before and after it.
inductive Parenthesized (e : Tree) : Tree → Prop where
  | plain (role : Option Role) (part : e.isPart = true) : Parenthesized e (e.playing role)
  | around {p : Tree} {before after : List Tree} (role : Option Role) (span : Span)
      (inner : Parenthesized e p) (first : before.filter isPart = []) :
      Parenthesized e (.node .parenthesizedExpression role span (before ++ p :: after))

-- What is left of an expression without its parentheses. Those with nothing in them are left.
structure Bare (v e : Tree) : Prop where
  inside : Parenthesized v e
  plain : v.hasKind .parenthesizedExpression = true → v.parts = []

theorem Parenthesized.part {e p : Tree} (h : Parenthesized e p) : e.isPart = true := by
  induction h with
  | plain _ part => exact part
  | around _ _ _ _ ih => exact ih

theorem Parenthesized.isPart {e p : Tree} (h : Parenthesized e p) : p.isPart = true := by
  cases h with
  | plain role part => rw [isPart_congr (kind?_playing role e), part]
  | around => rfl

theorem unwrapParens_of_first {t inner : Tree}
    (hk : t.hasKind .parenthesizedExpression = true) (hf : t.firstPart = some inner) :
    t.unwrapParens = inner.unwrapParens := by
  obtain ⟨rest, hparts⟩ : ∃ rest, t.parts = inner :: rest := List.head?_eq_some_iff.mp hf
  conv => lhs; unfold unwrapParens
  split
  next first others heq => simp_all
  next heq => simp_all

theorem unwrapParens_of_plain {t : Tree}
    (h : t.hasKind .parenthesizedExpression = true → t.parts = []) : t.unwrapParens = t := by
  unfold unwrapParens
  split
  next first others heq =>
    have hk : t.hasKind .parenthesizedExpression = false := by
      by_contra hk
      simp [h (by simpa using hk)] at heq
    simp [hk]
  next => rfl

-- What holds of a tree and is passed on to its parts is left when parentheses are taken off.
theorem unwrapParens_of_parts {motive : Tree → Prop}
    (hparts : ∀ t, motive t → ∀ part ∈ t.parts, motive part) {t : Tree} (h : motive t) :
    motive t.unwrapParens := by
  induction t using unwrapParens.induct with
  | case1 t inner rest hfirst hkind ih =>
    have hinner : inner ∈ t.parts := by simp [hfirst]
    rw [unwrapParens_of_first hkind (by rw [firstPart, hfirst]; rfl)]
    exact ih (hparts t h inner hinner)
  | case2 t inner rest hfirst hkind => rwa [unwrapParens_of_plain fun h => absurd h hkind]
  | case3 t hnone => rwa [unwrapParens_of_plain fun _ => hnone]

-- What holds of trees and is passed on to their children holds of all nodes below them.
theorem forall_mem_visitNodes {motive : Tree → Prop}
    (hchildren : ∀ t, motive t → ∀ child ∈ t.namedChildren, motive child) {stack : List Tree}
    (h : ∀ t ∈ stack, motive t) : ∀ t ∈ visitNodes stack, motive t := by
  induction stack using visitNodes.induct with
  | case1 => simp [visitNodes]
  | case2 t rest ih =>
    obtain ⟨ht, hrest⟩ := List.forall_mem_cons.mp h
    rw [visitNodes]
    refine List.forall_mem_cons.mpr ⟨ht, ih (List.forall_mem_append.mpr ⟨?_, hrest⟩)⟩
    exact hchildren t ht

theorem firstPart_around {p : Tree} {before after : List Tree} (k : Kind) (role : Option Role)
    (span : Span) (hp : p.isPart = true) (first : before.filter isPart = []) :
    (node k role span (before ++ p :: after)).firstPart = some p := by
  simp [firstPart, parts_node, first, hp]

theorem playing_role (t : Tree) : t.playing t.role = t := by cases t <;> rfl

theorem exists_firstPart {t : Tree} (h : t.parts ≠ []) : ∃ inner, t.firstPart = some inner :=
  Option.isSome_iff_exists.mp (by simpa [firstPart] using h)

theorem unwrapParens_playing (role : Option Role) (t : Tree) :
    ∃ left, (t.playing role).unwrapParens = t.unwrapParens.playing left := by
  by_cases h : t.hasKind .parenthesizedExpression = true → t.parts = []
  · refine ⟨role, ?_⟩
    rw [unwrapParens_of_plain h, unwrapParens_of_plain (by simpa using h)]
  · obtain ⟨hk, hparts⟩ := Classical.not_imp.mp h
    obtain ⟨inner, hf⟩ := exists_firstPart hparts
    refine ⟨inner.unwrapParens.role, ?_⟩
    rw [unwrapParens_of_first hk hf, playing_role]
    exact unwrapParens_of_first (by simpa using hk) (by simpa [firstPart] using hf)

-- What parentheses leave may play another part in its parent, and nothing else of it is changed.
theorem unwrapParens_parenthesized {e p : Tree} (h : Parenthesized e p) :
    ∃ role, p.unwrapParens = e.unwrapParens.playing role := by
  induction h with
  | plain role _ => exact unwrapParens_playing role e
  | around role span inner first ih =>
    obtain ⟨left, hleft⟩ := ih
    refine ⟨left, ?_⟩
    rw [← hleft]
    exact unwrapParens_of_first rfl (firstPart_around _ _ _ inner.isPart first)

theorem unwrapParens_bare {v e : Tree} (h : Bare v e) : ∃ role, e.unwrapParens = v.playing role := by
  obtain ⟨role, hrole⟩ := unwrapParens_parenthesized h.inside
  exact ⟨role, by rw [hrole, unwrapParens_of_plain h.plain]⟩

end Tree

end Likeness.Syntax
