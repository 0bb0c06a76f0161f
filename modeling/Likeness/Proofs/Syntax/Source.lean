import Likeness.Proofs.Syntax.Parts
import Likeness.Proofs.Syntax.Rules
import Likeness.Syntax.Source

namespace Likeness.Syntax

open Reading

variable {chars : Array Char}

namespace Tree

theorem role_insertComment (comment t : Tree) : (insertComment comment t).role = t.role := by
  cases t <;> rfl

theorem span_insertComment (comment t : Tree) : (insertComment comment t).span = t.span := by
  cases t <;> rfl

-- A comment that is put among the children of a node is not taken for a name.
theorem namesPlain_insertCommentAmong {comment : Tree} (hrole : comment.role = none)
    {ts : List Tree} (h : NamesPlain chars ts) :
    NamesPlain chars (insertCommentAmong comment ts) := by
  have hcomment : isNameRole comment.role = false := by rw [hrole]
  induction ts with
  | nil => exact NamesPlain.cons (by simp [NamesPlain]) hcomment
  | cons t rest ih =>
    obtain ⟨ht, hrest⟩ := List.forall_mem_cons.mp h
    rw [insertCommentAmong]
    split
    · refine List.forall_mem_cons.mpr ⟨?_, hrest⟩
      rwa [role_insertComment, span_insertComment]
    · split
      · exact NamesPlain.cons h hcomment
      · exact List.forall_mem_cons.mpr ⟨ht, ih hrest⟩

mutual

theorem Plain.insertComment {comment : Tree} (hcomment : comment.Plain chars)
    (hrole : comment.role = none) : ∀ t : Tree, t.Plain chars →
      (Tree.insertComment comment t).Plain chars
  | .token _ _ _, .token hoperator => .token hoperator
  | .node _ _ _ children, .node hword hnames hchildren =>
    .node hword (fun hkind => namesPlain_insertCommentAmong hrole (hnames hkind))
      (Plain.insertCommentAmong hcomment hrole children hchildren)

theorem Plain.insertCommentAmong {comment : Tree} (hcomment : comment.Plain chars)
    (hrole : comment.role = none) : ∀ ts : List Tree, (∀ t ∈ ts, t.Plain chars) →
      ∀ t ∈ Tree.insertCommentAmong comment ts, t.Plain chars
  | [], _ => List.forall_mem_singleton.mpr hcomment
  | t :: rest, h => by
    obtain ⟨ht, hrest⟩ := List.forall_mem_cons.mp h
    rw [Tree.insertCommentAmong]
    split
    · exact List.forall_mem_cons.mpr ⟨Plain.insertComment hcomment hrole t ht, hrest⟩
    · split
      · exact List.forall_mem_cons.mpr ⟨hcomment, h⟩
      · exact List.forall_mem_cons.mpr ⟨ht, Plain.insertCommentAmong hcomment hrole rest hrest⟩

end

theorem Plain.foldl_insertComment {comments : List Tree}
    (hcomments : ∀ t ∈ comments, t.Plain chars ∧ t.role = none) {tree : Tree}
    (h : tree.Plain chars) :
    (comments.foldl (fun tree comment => Tree.insertComment comment tree) tree).Plain chars := by
  induction comments generalizing tree with
  | nil => exact h
  | cons comment rest ih =>
    obtain ⟨⟨hcomment, hrole⟩, hrest⟩ := List.forall_mem_cons.mp hcomments
    exact ih hrest (Plain.insertComment hcomment hrole tree h)

theorem Plain.children {t : Tree} (h : t.Plain chars) : ∀ child ∈ t.children, child.Plain chars := by
  cases h with
  | token => simp [Tree.children]
  | node _ _ hchildren => exact hchildren

-- A word for a name is plain, and so is what is given as the name of a declared function.
theorem Plain.span_of_identifier {t : Tree} (h : t.Plain chars)
    (hkind : t.hasKind .identifier = true) : PlainSpan chars t.span := by
  cases h with
  | token => cases hkind
  | node hword _ _ => exact hword (by simpa [hasKind, kind?] using hkind)

theorem Plain.span_of_name {t : Tree} (h : t.Plain chars)
    (hkind : t.kind? = some .functionDeclaration ∨ t.kind? = some .generatorFunctionDeclaration)
    {name : Tree} (hname : name ∈ t.children) (hrole : name.role = some .name) :
    PlainSpan chars name.span := by
  cases h with
  | token => rcases hkind with hkind | hkind <;> cases hkind
  | node _ hnames _ => exact hnames (by simpa [kind?] using hkind) name hname hrole

theorem mem_children_of_child? {role : Role} {t child : Tree} (h : t.child? role = some child) :
    child ∈ t.children ∧ child.role = some role :=
  ⟨List.mem_of_find?_eq_some h, by simpa using List.find?_some h⟩

-- An operator is on one line.
theorem Plain.oneLine_of_operator {t : Tree} (h : t.Plain chars) {text : String}
    {role : Option Role} {span : Span} (ht : t.child? .operator = some (.token text role span)) :
    Text.OneLine text := by
  obtain ⟨hmem, hrole⟩ := mem_children_of_child? ht
  cases h.children _ hmem with
  | token hoperator => exact hoperator hrole

theorem plain_of_mem_visitNodes (stack : List Tree) (h : ∀ t ∈ stack, t.Plain chars) :
    ∀ t ∈ visitNodes stack, t.Plain chars :=
  forall_mem_visitNodes (fun _ ht child hchild => ht.children child (List.mem_filter.mp hchild).1) h

end Tree

namespace Source

theorem plain_read {dialect : Dialect} {tree : Tree} (h : read dialect chars = .ok tree) :
    tree.Plain chars := by
  unfold read at h
  dsimp only at h
  split at h
  · cases h
  · next s hprogram =>
    have hs : s.Plain chars :=
      (Grammar.rulesPlain_rules chars _).program.plain _ _ _ s rfl ⟨by simp, by simp⟩ hprogram
    split at h
    · next tree rest hout =>
      cases h
      obtain ⟨htree, -⟩ := List.forall_mem_cons.mp (hout ▸ hs.out)
      exact Tree.Plain.foldl_insertComment (by simpa using hs.comments) htree
    · cases h

theorem kind?_foldl_insertComment (comments : List Tree) (tree : Tree) :
    (comments.foldl (fun tree comment => Tree.insertComment comment tree) tree).kind? =
      tree.kind? := by
  induction comments generalizing tree with
  | nil => rfl
  | cons comment rest ih =>
    rw [List.foldl_cons, ih]
    cases tree <;> rfl

-- What is read is one node for the whole file.
theorem kind?_read {dialect : Dialect} {tree : Tree} (h : read dialect chars = .ok tree) :
    tree.kind? = some .program := by
  unfold read at h
  dsimp only at h
  split at h
  · cases h
  · next s hprogram =>
    unfold Grammar.program node at hprogram
    split at hprogram <;> cases hprogram
    cases h
    rw [kind?_foldl_insertComment]
    rfl

theorem plain_parse? {dialect : Dialect} {text : String} {s : Source}
    (h : parse? dialect text = some s) : s.tree.Plain s.chars := by
  unfold parse? at h
  dsimp only at h
  split at h
  · next hread =>
    cases h
    exact plain_read hread
  · cases h

theorem kind?_parse? {dialect : Dialect} {text : String} {s : Source}
    (h : parse? dialect text = some s) : s.tree.kind? = some .program := by
  unfold parse? at h
  dsimp only at h
  split at h
  · next hread =>
    cases h
    exact kind?_read hread
  · cases h

end Source

end Likeness.Syntax
