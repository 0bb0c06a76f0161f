import Likeness.Proofs.Syntax.Parts
import Likeness.Syntax.Tree

namespace Likeness.Syntax

-- The same node seen from further outside.
def Spot.inside (outer : List Tree) (p : Spot) : Spot := ⟨p.around ++ outer, p.node⟩

-- Whether no node around a spot is closed.
def Spot.isOpen (closed : Tree → Bool) (p : Spot) : Bool := p.around.all (!closed ·)

namespace Tree

-- What follows for a tree from its children holds of all trees.
@[elab_as_elim]
theorem inductionOnChildren {motive : Tree → Prop}
    (step : ∀ t, (∀ c ∈ t.children, motive c) → motive t) (t : Tree) : motive t := by
  refine @Tree.rec motive (fun children => ∀ c ∈ children, motive c) ?_ ?_ ?_ ?_ t
  · exact fun text role span => step (.token text role span) (by simp [children])
  · exact fun kind role span children => step (.node kind role span children)
  · simp
  · exact fun c children hc hchildren => List.forall_mem_cons.mpr ⟨hc, hchildren⟩

section Walks

variable (keep : Tree → Bool) (around : List Tree)

theorem spotsAmong_eq (ts : List Tree) :
    spotsAmong keep around ts = (ts.filter keep).flatMap (spotsOf keep around) := by
  induction ts with
  | nil => rfl
  | cons t rest ih =>
    rw [spotsAmong, ih, List.filter_cons]
    cases keep t <;> rfl

theorem spotsOf_eq (t : Tree) :
    spotsOf keep around t =
      ⟨around, t⟩ :: (t.children.filter keep).flatMap (spotsOf keep (t :: around)) := by
  cases t with
  | token => rfl
  | node => rw [spotsOf, spotsAmong_eq]; rfl

theorem spotsOf_around (t : Tree) :
    spotsOf keep around t = (spotsOf keep [] t).map (Spot.inside around) := by
  induction t using inductionOnChildren generalizing around with
  | step t ih =>
    rw [spotsOf_eq keep around, spotsOf_eq keep [], List.map_cons, List.map_flatMap]
    refine congrArg₂ List.cons rfl (List.flatMap_congr fun c hc => ?_)
    have hchild := ih c (List.mem_of_mem_filter hc)
    rw [hchild (t :: around), hchild [t], List.map_map]
    refine List.map_congr_left fun p _ => ?_
    simp [Spot.inside]

theorem map_node_spotsOf (t : Tree) :
    (spotsOf keep around t).map Spot.node = (spotsOf keep [] t).map Spot.node := by
  rw [spotsOf_around keep around, List.map_map]
  rfl

end Walks

-- Each walk with a stack goes through the trees on it one after the other, and through each with
-- all that is below it before the next one.
theorem visitNodes_eq (stack : List Tree) :
    visitNodes stack = stack.flatMap fun t => (spotsOf isNode [] t).map Spot.node := by
  induction stack using visitNodes.induct with
  | case1 => simp [visitNodes]
  | case2 t rest ih =>
    rw [visitNodes, ih, List.flatMap_append, List.flatMap_cons, spotsOf_eq, List.map_cons,
      List.map_flatMap]
    simp only [map_node_spotsOf isNode [t]]
    rfl

theorem visitParts_eq (stack : List Tree) :
    visitParts stack = stack.flatMap fun t => (spotsOf isPart [] t).map Spot.node := by
  induction stack using visitParts.induct with
  | case1 => simp [visitParts]
  | case2 t rest ih =>
    rw [visitParts, ih, List.flatMap_append, List.flatMap_cons, spotsOf_eq, List.map_cons,
      List.map_flatMap, parts_eq]
    simp only [map_node_spotsOf isPart [t]]
    rfl

section Open

variable {keep closed : Tree → Bool} {t : Tree}

-- Nothing inside of a closed node is open.
theorem filter_spotsOf_closed (h : closed t = true) :
    (spotsOf keep [] t).filter (Spot.isOpen closed) = [⟨[], t⟩] := by
  have hinside : ∀ p ∈ (t.children.filter keep).flatMap (spotsOf keep [t]),
      ¬Spot.isOpen closed p = true := by
    intro p hp
    obtain ⟨c, -, hp⟩ := List.mem_flatMap.mp hp
    rw [spotsOf_around] at hp
    obtain ⟨q, -, rfl⟩ := List.mem_map.mp hp
    simp [Spot.isOpen, Spot.inside, h]
  rw [spotsOf_eq, List.filter_cons_of_pos (by simp [Spot.isOpen]),
    List.filter_eq_nil_iff.mpr hinside]

-- A node that is not closed makes no difference to what is inside of it.
theorem filter_spotsOf_open (h : closed t = false) (c : Tree) :
    ((spotsOf keep [t] c).filter (Spot.isOpen closed)).map Spot.node =
      ((spotsOf keep [] c).filter (Spot.isOpen closed)).map Spot.node := by
  have hinside : Spot.isOpen closed ∘ Spot.inside [t] = Spot.isOpen closed := by
    funext p
    simp [Spot.isOpen, Spot.inside, h]
  rw [spotsOf_around keep [t], List.filter_map, hinside, List.map_map]
  rfl

theorem visitOpen_eq (closed : Tree → Bool) (stack : List Tree) :
    visitOpen closed stack = stack.flatMap fun t =>
      ((spotsOf isPart [] t).filter (Spot.isOpen closed)).map Spot.node := by
  induction stack using visitOpen.induct closed with
  | case1 => simp [visitOpen]
  | case2 t rest hclosed ih =>
    rw [visitOpen, if_pos hclosed, ih, List.flatMap_cons, filter_spotsOf_closed hclosed]
    rfl
  | case3 t rest hopen ih =>
    rw [visitOpen, if_neg hopen, ih, List.flatMap_append, List.flatMap_cons, spotsOf_eq,
      List.filter_cons_of_pos (by simp [Spot.isOpen]), List.map_cons, List.filter_flatMap,
      List.map_flatMap, parts_eq]
    simp only [filter_spotsOf_open (Bool.not_eq_true _ ▸ hopen)]
    rfl

end Open

theorem nodes_eq (t : Tree) : t.nodes = (spotsOf isNode [] t).map Spot.node := by
  rw [nodes, visitNodes_eq, List.flatMap_singleton]

theorem spots_eq (t : Tree) : t.spots = spotsOf isPart [] t := rfl

theorem descendants_eq (t : Tree) : t.descendants = t.spots.map Spot.node := by
  rw [descendants, visitParts_eq, List.flatMap_singleton, spots_eq]

section Members

variable {keep : Tree → Bool} {around : List Tree} {t : Tree}

theorem self_mem_spotsOf (keep : Tree → Bool) (around : List Tree) (t : Tree) :
    ⟨around, t⟩ ∈ spotsOf keep around t := by
  rw [spotsOf_eq]
  exact List.mem_cons_self

theorem mem_spotsOf_iff {p : Spot} : p ∈ spotsOf keep around t ↔
    p = ⟨around, t⟩ ∨ ∃ c ∈ t.children, keep c = true ∧ p ∈ spotsOf keep (t :: around) c := by
  rw [spotsOf_eq, List.mem_cons, List.mem_flatMap]
  simp only [List.mem_filter, and_assoc]

-- What is seen from a spot in a tree is seen from the whole tree.
theorem mem_spotsOf_trans {p q : Spot} (hp : p ∈ spotsOf keep around t)
    (hq : q ∈ spotsOf keep p.around p.node) : q ∈ spotsOf keep around t := by
  induction t using inductionOnChildren generalizing around with
  | step t ih =>
    rcases mem_spotsOf_iff.mp hp with rfl | ⟨c, hc, hkeep, hp⟩
    · exact hq
    · exact mem_spotsOf_iff.mpr (.inr ⟨c, hc, hkeep, ih c hc hp⟩)

theorem mem_spotsOf_child {p : Spot} (hp : p ∈ spotsOf keep around t) {c : Tree}
    (hc : c ∈ p.node.children) (hkeep : keep c = true) :
    ⟨p.node :: p.around, c⟩ ∈ spotsOf keep around t :=
  mem_spotsOf_trans hp
    (mem_spotsOf_iff.mpr (.inr ⟨c, hc, hkeep, self_mem_spotsOf keep _ c⟩))

theorem around_of_mem_spotsOf {p : Spot} (hp : p ∈ spotsOf keep around t) :
    p = ⟨around, t⟩ ∨ t ∈ p.around := by
  rcases mem_spotsOf_iff.mp hp with rfl | ⟨c, -, -, hp⟩
  · exact .inl rfl
  · rw [spotsOf_around] at hp
    obtain ⟨q, -, rfl⟩ := List.mem_map.mp hp
    exact .inr (List.mem_append_right _ List.mem_cons_self)

-- More is seen where more is kept.
theorem mem_spotsOf_of_imp {keep' : Tree → Bool} (h : ∀ c, keep c = true → keep' c = true)
    {p : Spot} (hp : p ∈ spotsOf keep around t) : p ∈ spotsOf keep' around t := by
  induction t using inductionOnChildren generalizing around with
  | step t ih =>
    rcases mem_spotsOf_iff.mp hp with rfl | ⟨c, hc, hkeep, hp⟩
    · exact self_mem_spotsOf keep' around t
    · exact mem_spotsOf_iff.mpr (.inr ⟨c, hc, h c hkeep, ih c hc hp⟩)

end Members

theorem isNode_of_isPart {t : Tree} (h : t.isPart = true) : t.isNode = true :=
  (Bool.and_eq_true _ _ ▸ h).1

theorem isPart_of_hasKind {t : Tree} {k : Kind} (h : t.hasKind k = true)
    (hk : k.isComment = false) : t.isPart = true := by
  rw [hasKind_iff] at h
  simp [isPart, isNode, isComment, h, hk]

section Descendants

variable {t u v : Tree}

theorem mem_descendants_iff : u ∈ t.descendants ↔ ∃ around, ⟨around, u⟩ ∈ spotsOf isPart [] t := by
  rw [descendants_eq, List.mem_map]
  constructor
  · rintro ⟨p, hp, rfl⟩
    exact ⟨p.around, hp⟩
  · rintro ⟨around, hp⟩
    exact ⟨_, hp, rfl⟩

theorem self_mem_descendants (t : Tree) : t ∈ t.descendants :=
  mem_descendants_iff.mpr ⟨[], self_mem_spotsOf isPart [] t⟩

theorem mem_descendants_trans (hu : u ∈ t.descendants) (hv : v ∈ u.descendants) :
    v ∈ t.descendants := by
  obtain ⟨around, hu⟩ := mem_descendants_iff.mp hu
  obtain ⟨within, hv⟩ := mem_descendants_iff.mp hv
  refine mem_descendants_iff.mpr ⟨within ++ around, mem_spotsOf_trans hu ?_⟩
  rw [spotsOf_around]
  exact List.mem_map_of_mem hv

theorem mem_descendants_of_mem_parts (h : u ∈ t.parts) : u ∈ t.descendants := by
  rw [parts_eq, List.mem_filter] at h
  exact mem_descendants_iff.mpr
    ⟨[t], mem_spotsOf_child (self_mem_spotsOf isPart [] t) h.1 h.2⟩

theorem unwrapParens_mem_descendants (t : Tree) : t.unwrapParens ∈ t.descendants := by
  induction t using unwrapParens.induct with
  | case1 t inner rest hparts hkind ih =>
    rw [unwrapParens_of_first hkind (by rw [firstPart, hparts]; rfl)]
    exact mem_descendants_trans (mem_descendants_of_mem_parts (by simp [hparts])) ih
  | case2 t inner rest hparts hkind =>
    rw [unwrapParens_of_plain fun h => absurd h hkind]
    exact self_mem_descendants t
  | case3 t hparts =>
    rw [unwrapParens_of_plain fun _ => hparts]
    exact self_mem_descendants t

end Descendants

end Tree

end Likeness.Syntax
