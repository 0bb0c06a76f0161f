import Likeness.Proofs.Syntax.Word
import Likeness.Proofs.Text.Lines

namespace Likeness.Syntax

open Reading

-- The kinds of nodes that names are read from: the words for names, and what declares a function.
@[reducible] def Kind.bearsName : Kind → Bool
  | .identifier | .functionDeclaration | .generatorFunctionDeclaration => true
  | _ => false

-- Whether a test of a constructor is known to fail.
class Fails (test : Bool) : Prop where
  eq_false : test = false

instance : Fails false := ⟨rfl⟩

-- Whether what is given as a name is plain.
def NamesPlain (chars : Array Char) (ts : List Tree) : Prop :=
  ∀ t ∈ ts, t.role = some .name → PlainSpan chars t.span

-- A tree in which all words for names and all names of declared functions are plain, and all
-- operators are on one line.
inductive Tree.Plain (chars : Array Char) : Tree → Prop
  | token {text : String} {role : Option Role} {span : Span}
      (hoperator : role = some .operator → Text.OneLine text) : Plain chars (.token text role span)
  | node {kind : Kind} {role : Option Role} {span : Span} {children : List Tree}
      (hword : kind = .identifier → PlainSpan chars span)
      (hnames : kind = .functionDeclaration ∨ kind = .generatorFunctionDeclaration →
        NamesPlain chars children)
      (hchildren : ∀ t ∈ children, Plain chars t) :
      Plain chars (.node kind role span children)

theorem Tree.Plain.node_of_fails {chars : Array Char} {kind : Kind} [h : Fails kind.bearsName]
    {role : Option Role} {span : Span} {children : List Tree}
    (hchildren : ∀ t ∈ children, Tree.Plain chars t) :
    Tree.Plain chars (.node kind role span children) := by
  have hkind := h.eq_false
  refine .node ?_ ?_ hchildren
  · rintro rfl
    cases hkind
  · rintro (rfl | rfl) <;> cases hkind

-- Whether a role is that of an operator.
@[reducible] def isOperatorRole : Option Role → Bool
  | some .operator => true
  | _ => false

theorem ne_operator_of_fails {role : Option Role} [h : Fails (isOperatorRole role)] :
    role ≠ some .operator := by
  rintro rfl
  cases h.eq_false

-- Whether a text is known to be on one line if it is an operator.
class Spelled (text : String) (role : Option Role) : Prop where
  oneLine : role = some .operator → Text.OneLine text

instance (text : String) (role : Option Role) [Fails (isOperatorRole role)] : Spelled text role :=
  ⟨fun h => absurd h ne_operator_of_fails⟩

theorem Spelled.of_oneLine {text : String} (h : Text.OneLine text) (role : Option Role) :
    Spelled text role := ⟨fun _ => h⟩

theorem Tree.Plain.withRole {chars : Array Char} {t : Tree} (h : t.Plain chars) (role : Role)
    [Fails (isOperatorRole (some role))] : (t.withRole role).Plain chars := by
  cases h with
  | token => exact .token fun hrole => absurd hrole ne_operator_of_fails
  | node hword hnames hchildren => exact .node hword hnames hchildren

-- What has been read so far is plain, and comments are not given as names.
structure State.Plain (chars : Array Char) (s : State) : Prop where
  out : ∀ t ∈ s.out, t.Plain chars
  comments : ∀ t ∈ s.comments, t.Plain chars ∧ t.role = none

-- A rule that makes plain trees. The rules are put together from few parts, so instances for these
-- find out about nearly all of them.
class Keeps {α : Type} (chars : Array Char) (p : Reading α) : Prop where
  plain : ∀ c s a s', c.chars = chars → s.Plain chars → p c s = .done a s' → s'.Plain chars

section Combinators

variable {α β : Type} {chars : Array Char}

theorem bind_eq_done {p : Reading α} {q : α → Reading β} {c : Context} {s s' : State} {b : β} :
    (p >>= q) c s = .done b s' ↔
      ∃ a next, p c s = .done a next ∧ q a c next = .done b s' := by
  change andThen p q c s = .done b s' ↔ _
  unfold andThen
  cases hp : p c s with
  | done a next => simp [and_assoc]
  | refused notes => simp

theorem otherwise_eq_done {p : Reading α} {q : Unit → Reading α} {c : Context} {s s' : State}
    {a : α} (h : HOrElse.hOrElse p q c s = .done a s') :
    p c s = .done a s' ∨ ∃ notes, q () c { s with notes := notes } = .done a s' := by
  change otherwise p q c s = .done a s' at h
  unfold otherwise at h
  split at h
  · next hp => exact .inl (hp.trans h)
  · next notes _ => exact .inr ⟨notes, h⟩

instance keeps_pure (a : α) : Keeps chars (pure a : Reading α) where
  plain c s b s' _ hs h := by cases h; exact hs

instance keeps_refuse : Keeps chars (refuse : Reading α) where
  plain c s b s' _ _ h := by cases h

instance keeps_bind (p : Reading α) (q : α → Reading β) [hp : Keeps chars p]
    [hq : ∀ a, Keeps chars (q a)] : Keeps chars (p >>= q) where
  plain c s b s' hc hs h := by
    obtain ⟨a, next, hfirst, hrest⟩ := bind_eq_done.mp h
    exact (hq a).plain c next b s' hc (hp.plain c s a next hc hs hfirst) hrest

theorem Keeps.bind {p : Reading α} {q : α → Reading β} (hp : Keeps chars p)
    (hq : ∀ a, Keeps chars (q a)) : Keeps chars (p >>= q) := keeps_bind p q

-- Where the second part does not depend on what the first one gives, there is no need to go under
-- its binder. The search for an instance would count all that is found there twice.
instance keeps_then (p : Reading α) (q : Reading β) [hp : Keeps chars p] [hq : Keeps chars q] :
    Keeps chars (p >>= fun _ => q) := keeps_bind p fun _ => q

instance keeps_otherwise (p : Reading α) (q : Unit → Reading α) [hp : Keeps chars p]
    [hq : ∀ u, Keeps chars (q u)] : Keeps chars (HOrElse.hOrElse p q) where
  plain c s a s' hc hs h := by
    rcases otherwise_eq_done h with h | ⟨notes, h⟩
    · exact hp.plain c s a s' hc hs h
    · exact (hq ()).plain c { s with notes := notes } a s' hc ⟨hs.out, hs.comments⟩ h

instance keeps_or (p q : Reading α) [hp : Keeps chars p] [hq : Keeps chars q] :
    Keeps chars (HOrElse.hOrElse p fun _ => q) := keeps_otherwise p fun _ => q

instance keeps_ite (b : Prop) [Decidable b] (p q : Reading α) [hp : Keeps chars p]
    [hq : Keeps chars q] : Keeps chars (if b then p else q) := by
  split
  · exact hp
  · exact hq

instance keeps_context : Keeps chars context where
  plain c s a s' _ hs h := by cases h; exact hs

instance keeps_state : Keeps chars state where
  plain c s a s' _ hs h := by cases h; exact hs

instance keeps_peek : Keeps chars peek where
  plain c s a s' _ hs h := by cases h; exact hs

instance keeps_peekSign : Keeps chars peekSign where
  plain c s a s' _ hs h := by cases h; exact hs

instance keeps_peekWord : Keeps chars peekWord where
  plain c s a s' _ hs h := by
    unfold peekWord at h
    split at h <;> cases h <;> exact hs

instance keeps_lastKind : Keeps chars lastKind where
  plain c s a s' _ hs h := by cases h; exact hs

instance keeps_openEndHere (afterValue beforeBlock : Bool) :
    Keeps chars (openEndHere afterValue beforeBlock) where
  plain c s a s' _ hs h := by cases h; exact hs

instance keeps_within (openEnd resultTypes : Context → Bool) (p : Reading α)
    [hp : Keeps chars p] :
    Keeps chars (within (fun c => ⟨c.chars, c.dialect, openEnd c, resultTypes c⟩) p) where
  plain c s a s' hc hs h :=
    hp.plain ⟨c.chars, c.dialect, openEnd c, resultTypes c⟩ s a s' hc hs h

instance keeps_lookAhead (p : Reading Unit) : Keeps chars (lookAhead p) where
  plain c s a s' _ hs h := by
    unfold lookAhead at h
    split at h <;> cases h
    exact hs

instance keeps_never (p : Reading Unit) : Keeps chars (never p) where
  plain c s a s' _ hs h := by
    unfold never at h
    split at h <;> cases h
    exact ⟨hs.out, hs.comments⟩

instance keeps_optional (p : Reading Unit) [Keeps chars p] : Keeps chars (Reading.optional p) := by
  unfold Reading.optional
  infer_instance

instance keeps_tried (p : Reading Unit) [Keeps chars p] : Keeps chars (tried p) := by
  unfold tried
  infer_instance

instance keeps_bracketed (p : Reading α) [Keeps chars p] : Keeps chars (bracketed p) := by
  unfold bracketed
  infer_instance

theorem keeps_repeatFor (p : Reading Unit) [hp : Keeps chars p] (fuel : Nat) :
    Keeps chars (repeatFor p fuel) := by
  induction fuel with
  | zero => exact keeps_pure ()
  | succ fuel ih =>
    refine ⟨fun c s a s' hc hs h => ?_⟩
    rw [repeatFor] at h
    dsimp only at h
    split at h
    · cases h
      exact ⟨hs.out, hs.comments⟩
    · next next hfirst =>
      have hnext := hp.plain c s _ next hc hs hfirst
      split at h
      · cases h
        exact hnext
      · exact ih.plain c next a s' hc hnext h

instance keeps_many (p : Reading Unit) [Keeps chars p] : Keeps chars (many p) where
  plain c s a s' hc hs h := (keeps_repeatFor p _).plain c s a s' hc hs h

instance keeps_many1 (p : Reading Unit) [Keeps chars p] : Keeps chars (many1 p) := by
  unfold many1
  infer_instance

end Combinators

section Parts

variable {chars : Array Char}

theorem State.Plain.push {s : State} (hs : s.Plain chars) {t : Tree} (ht : t.Plain chars)
    (pos last : Nat) : State.Plain chars { s with pos := pos, last := last, out := t :: s.out } :=
  ⟨List.forall_mem_cons.mpr ⟨ht, hs.out⟩, hs.comments⟩

theorem keeps_take (stop : Nat) (make : Span → Tree)
    (hmake : ∀ span, (make span).Plain chars) : Keeps chars (take stop make) where
  plain c s a s' _ hs h := by
    cases h
    exact hs.push (hmake _) _ _

instance keeps_take_token (stop : Nat) (text : String) (role : Option Role)
    [h : Spelled text role] : Keeps chars (take stop fun span => .token text role span) :=
  keeps_take stop _ fun _ => .token h.oneLine

instance keeps_take_node (stop : Nat) (kind : Kind) [Fails kind.bearsName] (role : Option Role) :
    Keeps chars (take stop fun span => .node kind role span []) :=
  keeps_take stop _ fun _ => .node_of_fails (by simp)

theorem plain_skipTrivia (comments : List Tree) (i fuel : Nat)
    (h : ∀ t ∈ comments, t.Plain chars ∧ t.role = none) :
    ∀ t ∈ (skipTrivia chars comments i fuel).2, t.Plain chars ∧ t.role = none := by
  induction fuel generalizing comments i with
  | zero => exact h
  | succ fuel ih =>
    rw [skipTrivia]
    split
    · refine ih _ _ (List.forall_mem_cons.mpr ⟨⟨?_, rfl⟩, h⟩)
      exact .node_of_fails (by simp)
    · exact h

instance keeps_settle : Keeps chars settle where
  plain c s a s' hc hs h := by
    cases h
    subst hc
    exact ⟨hs.out, plain_skipTrivia _ _ _ hs.comments⟩

instance keeps_rawToken (text : String) (role : Option Role) [Spelled text role] :
    Keeps chars (rawToken text role) where
  plain c s a s' hc hs h := by
    unfold rawToken at h
    split at h
    · exact (keeps_take_token _ text role).plain c s a s' hc hs h
    · cases h

instance keeps_mark (text : String) (role : Option Role) [Spelled text role] :
    Keeps chars (mark text role) := by
  unfold mark
  infer_instance

-- A part of the text and the blanks after it.
theorem keeps_take_settle (stop : Nat) (make : Span → Tree) [Keeps chars (take stop make)] :
    Keeps chars (andThen (take stop make) fun _ => settle) :=
  keeps_bind (take stop make) fun _ => settle

instance keeps_sign (text : String) (role : Option Role) [Spelled text role] :
    Keeps chars (sign text role) where
  plain c s a s' hc hs h := by
    unfold sign at h
    split at h
    · exact (keeps_take_settle _ fun span => .token text role span).plain c s a s' hc hs h
    · cases h

instance keeps_word (text : String) (role : Option Role) [Spelled text role] :
    Keeps chars (word text role) where
  plain c s a s' hc hs h := by
    unfold word at h
    split at h
    · exact (keeps_take_settle _ fun span => .token text role span).plain c s a s' hc hs h
    · cases h

theorem keeps_anyWord {texts : List String} {role : Option Role}
    (h : ∀ text ∈ texts, Spelled text role) : Keeps chars (anyWord texts role) := by
  induction texts with
  | nil => exact keeps_refuse
  | cons text rest ih =>
    obtain ⟨htext, hrest⟩ := List.forall_mem_cons.mp h
    have := ih hrest
    unfold anyWord
    infer_instance

instance keeps_anyWord_of_fails (texts : List String) (role : Option Role)
    [Fails (isOperatorRole role)] : Keeps chars (anyWord texts role) :=
  keeps_anyWord fun _ _ => inferInstance

-- A word is plain, so it may be a name whatever its kind is.
theorem plain_of_word {kind : Kind} {role : Option Role} {span : Span}
    (h : PlainSpan chars span) : Tree.Plain chars (.node kind role span []) :=
  .node (fun _ => h) (fun _ => by simp [NamesPlain]) (by simp)

instance keeps_wordNode (kind : Kind) (role : Option Role) :
    Keeps chars (wordNode kind role) where
  plain c s a s' hc hs h := by
    unfold wordNode at h
    split at h
    · next stop hword =>
      obtain ⟨_, next, htake, hsettle⟩ := bind_eq_done.mp h
      cases htake
      subst hc
      exact keeps_settle.plain c _ a s' rfl (hs.push (plain_of_word (plainFrom_of_wordAt? hword)) _ _)
        hsettle
    · cases h

instance keeps_wordAs (text : String) (kind : Kind) (role : Option Role) :
    Keeps chars (wordAs text kind role) := by
  unfold wordAs
  infer_instance

-- What a rule reads after some trees becomes one node, in front of what was there before.
theorem plain_made {kind : Kind} [Fails kind.bearsName] {α : Type} {p : Reading α}
    [hp : Keeps chars p] {c : Context} {s next : State} {a : α} {start before : List Tree}
    (hc : c.chars = chars) (hs : s.Plain chars) (hstart : ∀ t ∈ start, t.Plain chars)
    (hbefore : ∀ t ∈ before, t.Plain chars) (h : p c { s with out := start } = .done a next)
    (role : Option Role) (span : Span) :
    State.Plain chars { next with out := .node kind role span next.out.reverse :: before } := by
  have hnext := hp.plain c { s with out := start } a next hc ⟨hstart, hs.comments⟩ h
  refine ⟨List.forall_mem_cons.mpr ⟨.node_of_fails ?_, hbefore⟩, hnext.comments⟩
  simpa using hnext.out

instance keeps_node (kind : Kind) [Fails kind.bearsName] (role : Option Role) (p : Reading Unit)
    [Keeps chars p] : Keeps chars (node kind role p) where
  plain c s a s' hc hs h := by
    unfold node at h
    split at h
    · cases h
    · next hinner =>
      cases h
      exact plain_made hc hs (by simp) hs.out hinner role _

instance keeps_wrap (kind : Kind) [Fails kind.bearsName] (inner : Option Role)
    [Fails (isOperatorRole inner)] (p : Reading Unit) [Keeps chars p] :
    Keeps chars (wrap kind inner p) where
  plain c s a s' hc hs h := by
    unfold wrap at h
    split at h
    · cases h
    · next first before hout =>
      obtain ⟨hfirst, hbefore⟩ := List.forall_mem_cons.mp (hout ▸ hs.out)
      cases inner with
      | none =>
        dsimp only at h
        split at h
        · cases h
        · next hinner =>
          cases h
          exact plain_made hc hs (List.forall_mem_singleton.mpr hfirst) hbefore hinner none _
      | some role =>
        dsimp only at h
        split at h
        · cases h
        · next hinner =>
          cases h
          exact plain_made hc hs (List.forall_mem_singleton.mpr (hfirst.withRole role)) hbefore
            hinner none _

-- Where the reading goes on and what it notes has nothing to do with trees.
instance keeps_change (pos last : State → Nat) (notes : State → Notes) :
    Keeps chars (change fun s => ⟨pos s, last s, s.out, s.comments, notes s⟩) where
  plain c s a s' _ hs h := by
    cases h
    exact ⟨hs.out, hs.comments⟩

-- Going back to an earlier state is no harm either.
theorem keeps_change_to {earlier : State} (h : earlier.Plain chars) :
    Keeps chars (change fun now => { earlier with notes := now.notes }) where
  plain c s a s' _ _ hchange := by
    cases hchange
    exact ⟨h.out, h.comments⟩

theorem keeps_state_bind {α : Type} {q : State → Reading α}
    (hq : ∀ s, s.Plain chars → Keeps chars (q s)) : Keeps chars (state >>= q) where
  plain c s a s' hc hs h := by
    obtain ⟨_, next, hstate, hrest⟩ := bind_eq_done.mp h
    cases hstate
    exact (hq s hs).plain c s a s' hc hs hrest

-- The tree read last keeps all but its role.
instance keeps_change_role (role : Role) [Fails (isOperatorRole (some role))] :
    Keeps chars (change fun s => match s.out with
      | last :: before => { s with out := last.withRole role :: before }
      | [] => s) where
  plain c s a s' _ hs h := by
    cases h
    dsimp only
    split
    · next last before hout =>
      obtain ⟨hlast, hbefore⟩ := List.forall_mem_cons.mp (hout ▸ hs.out)
      exact ⟨List.forall_mem_cons.mpr ⟨hlast.withRole role, hbefore⟩, hs.comments⟩
    · exact hs

instance keeps_withRole (role : Option Role) [Fails (isOperatorRole role)] (p : Reading Unit)
    [Keeps chars p] : Keeps chars (withRole role p) := by
  unfold withRole
  cases role <;> infer_instance

instance keeps_commaSep1 (p : Reading Unit) [Keeps chars p] : Keeps chars (commaSep1 p) := by
  unfold commaSep1
  infer_instance

instance keeps_commaSep (p : Reading Unit) [Keeps chars p] : Keeps chars (commaSep p) := by
  unfold commaSep
  infer_instance

instance keeps_commaGaps (p : Reading Unit) [Keeps chars p] : Keeps chars (commaGaps p) := by
  unfold commaGaps
  infer_instance

instance keeps_statementOver (afterValue : Bool) : Keeps chars (statementOver afterValue) := by
  unfold statementOver
  infer_instance

instance keeps_openEnd (afterValue beforeBlock : Bool) :
    Keeps chars (openEnd afterValue beforeBlock) where
  plain c s a s' _ hs h := by
    obtain ⟨place, next, hhere, hrest⟩ := bind_eq_done.mp h
    obtain rfl : next = s := by
      cases hhere
      rfl
    cases place with
    | some place =>
      cases hrest
      have hmark : Tree.Plain chars (.token "" none ⟨place, place⟩) := .token nofun
      exact hs.push hmark _ _
    | none => cases hrest

instance keeps_semicolon (afterValue : Bool) : Keeps chars (semicolon afterValue) := by
  unfold semicolon
  infer_instance

end Parts

-- A rule that gives only plain names to the node that it is part of.
class KeepsNames {α : Type} (chars : Array Char) (p : Reading α) : Prop where
  names : ∀ c s a s', c.chars = chars → NamesPlain chars s.out → p c s = .done a s' →
    NamesPlain chars s'.out

-- Whether a role is that of a name.
@[reducible] def isNameRole : Option Role → Bool
  | some .name => true
  | _ => false

section Names

variable {α β : Type} {chars : Array Char}

theorem NamesPlain.cons {ts : List Tree} (h : NamesPlain chars ts) {t : Tree}
    (ht : isNameRole t.role = false) : NamesPlain chars (t :: ts) := by
  refine List.forall_mem_cons.mpr ⟨fun hrole => ?_, h⟩
  rw [hrole] at ht
  cases ht

instance keepsNames_pure (a : α) : KeepsNames chars (pure a : Reading α) where
  names c s b s' _ hs h := by cases h; exact hs

instance keepsNames_refuse : KeepsNames chars (refuse : Reading α) where
  names c s b s' _ _ h := by cases h

instance keepsNames_bind (p : Reading α) (q : α → Reading β) [hp : KeepsNames chars p]
    [hq : ∀ a, KeepsNames chars (q a)] : KeepsNames chars (p >>= q) where
  names c s b s' hc hs h := by
    obtain ⟨a, next, hfirst, hrest⟩ := bind_eq_done.mp h
    exact (hq a).names c next b s' hc (hp.names c s a next hc hs hfirst) hrest

instance keepsNames_otherwise (p : Reading α) (q : Unit → Reading α) [hp : KeepsNames chars p]
    [hq : ∀ u, KeepsNames chars (q u)] : KeepsNames chars (HOrElse.hOrElse p q) where
  names c s a s' hc hs h := by
    rcases otherwise_eq_done h with h | ⟨notes, h⟩
    · exact hp.names c s a s' hc hs h
    · exact (hq ()).names c { s with notes := notes } a s' hc hs h

instance keepsNames_ite (b : Prop) [Decidable b] (p q : Reading α) [hp : KeepsNames chars p]
    [hq : KeepsNames chars q] : KeepsNames chars (if b then p else q) := by
  split
  · exact hp
  · exact hq

instance keepsNames_context : KeepsNames chars context where
  names c s a s' _ hs h := by cases h; exact hs

instance keepsNames_optional (p : Reading Unit) [KeepsNames chars p] :
    KeepsNames chars (Reading.optional p) := by
  unfold Reading.optional
  infer_instance

instance keepsNames_sign (text : String) (role : Option Role) [hrole : Fails (isNameRole role)] :
    KeepsNames chars (sign text role) where
  names c s a s' _ hs h := by
    unfold sign at h
    split at h
    · cases h
      exact hs.cons hrole.eq_false
    · cases h

instance keepsNames_word (text : String) (role : Option Role) [hrole : Fails (isNameRole role)] :
    KeepsNames chars (word text role) where
  names c s a s' _ hs h := by
    unfold word at h
    split at h
    · cases h
      exact hs.cons hrole.eq_false
    · cases h

instance keepsNames_wordNode (kind : Kind) (role : Option Role) :
    KeepsNames chars (wordNode kind role) where
  names c s a s' hc hs h := by
    unfold wordNode at h
    split at h
    · next hword =>
      cases h
      subst hc
      exact List.forall_mem_cons.mpr ⟨fun _ => plainFrom_of_wordAt? hword, hs⟩
    · cases h

-- What is inside of a node is not given to the node around it.
instance keepsNames_node (kind : Kind) (role : Option Role) [hrole : Fails (isNameRole role)]
    (p : Reading Unit) : KeepsNames chars (node kind role p) where
  names c s a s' _ hs h := by
    unfold node at h
    split at h
    · cases h
    · cases h
      exact hs.cons hrole.eq_false

-- A node that is given a role has it, and nothing else has changed.
theorem keepsNames_withRole_node (kind : Kind) (role : Role)
    (hrole : isNameRole (some role) = false) (inner : Option Role) (p : Reading Unit) :
    KeepsNames chars (withRole (some role) (node kind inner p)) where
  names c s a s' _ hs h := by
    obtain ⟨_, next, hnode, hchange⟩ := bind_eq_done.mp h
    unfold node at hnode
    split at hnode
    · cases hnode
    · cases hnode
      cases hchange
      exact hs.cons hrole

-- A function has the names that its rule gives it.
theorem keeps_node_of_names (kind : Kind) (hkind : kind ≠ .identifier) (role : Option Role)
    (p : Reading Unit) [hp : Keeps chars p] [hnames : KeepsNames chars p] :
    Keeps chars (node kind role p) where
  plain c s a s' hc hs h := by
    unfold node at h
    split at h
    · cases h
    · next next hinner =>
      cases h
      have hnext := hp.plain c { s with out := [] } _ next hc ⟨by simp, hs.comments⟩ hinner
      have hgiven := hnames.names c { s with out := [] } _ next hc (by simp [NamesPlain]) hinner
      refine ⟨List.forall_mem_cons.mpr ⟨.node ?_ ?_ ?_, hs.out⟩, hnext.comments⟩
      · exact fun heq => absurd heq hkind
      · intro _ t ht
        exact hgiven t (List.mem_reverse.mp ht)
      · simpa using hnext.out

end Names

end Likeness.Syntax
