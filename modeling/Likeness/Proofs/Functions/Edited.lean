import Likeness.Functions.Shape
import Likeness.Proofs.Syntax.Parts
import Mathlib.Logic.Relation

namespace Likeness

open Syntax

namespace Syntax

-- The kinds of node that a shape looks into.
def Kind.isOpened : Kind → Bool
  | .statementBlock | .expressionStatement | .returnStatement | .parenthesizedExpression
  | .binaryExpression => true
  | _ => false

def Tree.isDeclaration (t : Tree) : Bool :=
  t.hasKind .lexicalDeclaration || t.hasKind .variableDeclaration

end Syntax

namespace Shape

-- One change to a tree at one place in it that is no change of statements.
inductive Edit : Tree → Tree → Prop where
  | movedToken {text : String} {role : Option Role} (span span' : Span) :
      Edit (.token text role span) (.token text role span')
  | moved {k : Kind} {role : Option Role} {children : List Tree} (span span' : Span) :
      Edit (.node k role span children) (.node k role span' children)
  | comment {k : Kind} {role : Option Role} {span : Span} {before after : List Tree} {c : Tree}
      (hc : c.isComment = true) (hrole : c.role ≠ some .operator) :
      Edit (.node k role span (before ++ after)) (.node k role span (before ++ c :: after))
  -- An identifier, a literal or what else is not looked into becomes another of its kind.
  | content {k : Kind} {role : Option Role} {span : Span} {children children' : List Tree}
      (hk : k.isOpened = false) :
      Edit (.node k role span children) (.node k role span children')
  | declaration {role : Option Role} {span : Span} {before after : List Tree} {d d' : Tree}
      (hd : d.isDeclaration = true) (hd' : d'.isDeclaration = true) :
      Edit (.node .statementBlock role span (before ++ d :: after))
        (.node .statementBlock role span (before ++ d' :: after))
  | operand {role : Option Role} {span : Span} {before after : List Tree} {a a' : Tree}
      (ha : a.role ≠ some .operator) (ha' : a'.role ≠ some .operator) :
      Edit (.node .binaryExpression role span (before ++ a :: after))
        (.node .binaryExpression role span (before ++ a' :: after))
  | wrapped {k : Kind} {role : Option Role} {span : Span} {before after : List Tree} {e p : Tree}
      (hk : k = .expressionStatement ∨ k = .returnStatement)
      (first : before.filter Tree.isPart = []) (hp : Tree.Parenthesized e p) :
      Edit (.node k role span (before ++ e :: after)) (.node k role span (before ++ p :: after))
  | inside {k : Kind} {role : Option Role} {span : Span} {before after : List Tree} {t t' : Tree}
      (h : Edit t t') :
      Edit (.node k role span (before ++ t :: after)) (.node k role span (before ++ t' :: after))

-- The same for a body, which may be an expression that gets parentheses itself.
inductive BodyEdit : Tree → Tree → Prop where
  | edit {b b' : Tree} (h : Edit b b') : BodyEdit b b'
  | wrapped {e p : Tree} (he : e.hasKind .statementBlock = false)
      (hp : Tree.Parenthesized e p) : BodyEdit e p

-- Two statements of one kind that differ in what is left of them in a shape.
inductive Apart : Tree → Tree → Prop where
  | expression {s s' e e' v v' : Tree}
      (hs : s.hasKind .expressionStatement = true) (hs' : s'.hasKind .expressionStatement = true)
      (he : s.firstPart = some e) (he' : s'.firstPart = some e')
      (hv : Tree.Bare v e) (hv' : Tree.Bare v' e') (h : v.kind? ≠ v'.kind?) : Apart s s'
  | argument {s s' e e' v v' : Tree}
      (hs : s.hasKind .returnStatement = true) (hs' : s'.hasKind .returnStatement = true)
      (he : s.firstPart = some e) (he' : s'.firstPart = some e')
      (hv : Tree.Bare v e) (hv' : Tree.Bare v' e') (h : v.kind? ≠ v'.kind?) : Apart s s'
  | operator {s s' e e' v v' : Tree} {text text' : String} {role role' : Option Role}
      {span span' : Span}
      (hs : s.hasKind .returnStatement = true) (hs' : s'.hasKind .returnStatement = true)
      (he : s.firstPart = some e) (he' : s'.firstPart = some e')
      (hv : Tree.Bare v e) (hv' : Tree.Bare v' e')
      (hk : v.hasKind .binaryExpression = true) (hk' : v'.hasKind .binaryExpression = true)
      (ho : v.child? .operator = some (.token text role span))
      (ho' : v'.child? .operator = some (.token text' role' span')) (h : text ≠ text') : Apart s s'

inductive BodyApart : Tree → Tree → Prop where
  | statement {b b' s s' : Tree} {i : Nat}
      (hb : b.hasKind .statementBlock = true) (hb' : b'.hasKind .statementBlock = true)
      (hs : b.parts[i]? = some s) (hs' : b'.parts[i]? = some s') (h : Apart s s') :
      BodyApart b b'
  | expression {b b' v v' : Tree}
      (hb : b.hasKind .statementBlock = false) (hb' : b'.hasKind .statementBlock = false)
      (hv : Tree.Bare v b) (hv' : Tree.Bare v' b') (h : v.kind? ≠ v'.kind?) : BodyApart b b'

-- What a word takes from an expression: its kind, and the operator between two operands.
def operatorText (v : Tree) : String :=
  match v.child? .operator with
  | some (.token text _ _) => text
  | _ => "?"

def face (e : Tree) : Option Kind × Option String :=
  (e.unwrapParens.kind?,
    if e.unwrapParens.hasKind .binaryExpression then some (operatorText e.unwrapParens) else none)

theorem kindName_congr {t u : Tree} (h : t.kind? = u.kind?) : kindName t = kindName u := by
  rw [kindName, kindName, h]

theorem operatorText_playing (role : Option Role) (v : Tree) :
    operatorText (v.playing role) = operatorText v := by
  rw [operatorText, operatorText, Tree.child?, Tree.child?, Tree.children_playing]

theorem face_parenthesized {e p : Tree} (h : Tree.Parenthesized e p) : face p = face e := by
  obtain ⟨role, hrole⟩ := Tree.unwrapParens_parenthesized h
  simp only [face, hrole, Tree.kind?_playing, Tree.hasKind_playing, operatorText_playing]

theorem token_expression {s e : Tree} (hs : s.hasKind .expressionStatement = true)
    (he : s.firstPart = some e) : token s = kindName e.unwrapParens := by
  simp [token, Tree.hasKind_iff.mp hs, he]

theorem token_binary {s e : Tree} (hs : s.hasKind .returnStatement = true)
    (he : s.firstPart = some e) (hk : e.unwrapParens.hasKind .binaryExpression = true) :
    token s = "return-binary:" ++ operatorText e.unwrapParens := by
  simp only [token, Tree.hasKind_iff.mp hs, he, hk, operatorText]
  cases e.unwrapParens.child? .operator with
  | none => rfl
  | some o => cases o <;> rfl

theorem token_argument {s e : Tree} (hs : s.hasKind .returnStatement = true)
    (he : s.firstPart = some e) (hk : e.unwrapParens.hasKind .binaryExpression = false) :
    token s = "return:" ++ kindName e.unwrapParens := by
  simp only [token, Tree.hasKind_iff.mp hs, he, hk]
  rfl

theorem token_of_kind {s s' : Tree} (hk : s.kind? = s'.kind?)
    (hs : ¬ s.hasKind .expressionStatement = true) (hr : ¬ s.hasKind .returnStatement = true) :
    token s = token s' := by
  simp only [token, ← hk, kindName_congr hk]
  split <;> simp_all [Tree.hasKind]

-- A word is told by the kind of its statement and the face of the expression in it.
theorem token_congr {s s' : Tree} (hk : s.kind? = s'.kind?)
    (hf : s.firstPart.map face = s'.firstPart.map face) : token s = token s' := by
  have hsame (k : Kind) : s'.hasKind k = s.hasKind k := by rw [Tree.hasKind, Tree.hasKind, hk]
  cases he : s.firstPart with
  | none =>
    have he' : s'.firstPart = none := by simpa [he] using hf.symm
    simp only [token, ← hk, he, he', kindName_congr hk]
  | some e =>
    obtain ⟨e', he', hface⟩ : ∃ e', s'.firstPart = some e' ∧ face e' = face e := by
      simpa [he] using hf.symm
    have hkind : e.unwrapParens.kind? = e'.unwrapParens.kind? := (congrArg Prod.fst hface).symm
    have hbinary : e'.unwrapParens.hasKind .binaryExpression =
        e.unwrapParens.hasKind .binaryExpression := by rw [Tree.hasKind, Tree.hasKind, hkind]
    by_cases hs : s.hasKind .expressionStatement = true
    · rw [token_expression hs he, token_expression (hsame _ ▸ hs) he', kindName_congr hkind]
    by_cases hr : s.hasKind .returnStatement = true
    · cases hb : e.unwrapParens.hasKind .binaryExpression with
      | true =>
        have hop : operatorText e.unwrapParens = operatorText e'.unwrapParens := by
          simpa [face, hb, hbinary] using (congrArg Prod.snd hface).symm
        rw [token_binary hr he hb, token_binary (hsame _ ▸ hr) he' (hbinary ▸ hb), hop]
      | false =>
        rw [token_argument hr he hb, token_argument (hsame _ ▸ hr) he' (hbinary ▸ hb),
          kindName_congr hkind]
    · exact token_of_kind hk hs hr

section Edit

variable {t t' : Tree}

theorem Edit.kind? (h : Edit t t') : t.kind? = t'.kind? := by cases h <;> rfl

theorem Edit.role (h : Edit t t') : t.role = t'.role := by cases h <;> rfl

theorem Edit.hasKind (h : Edit t t') (k : Kind) : t.hasKind k = t'.hasKind k := by
  rw [Tree.hasKind, Tree.hasKind, h.kind?]

theorem Edit.isPart (h : Edit t t') : t.isPart = t'.isPart := Tree.isPart_congr h.kind?

theorem operatorText_append {k : Kind} {role : Option Role} {span : Span}
    {before after after' : List Tree} (h : operatorText (.node k role span after) =
      operatorText (.node k role span after')) :
    operatorText (.node k role span (before ++ after)) =
      operatorText (.node k role span (before ++ after')) := by
  simp only [operatorText, Tree.child?, Tree.children, List.find?_append] at h ⊢
  cases before.find? fun u => u.role == some .operator with
  | some u => rfl
  | none => exact h

theorem operatorText_skip {k : Kind} {role : Option Role} {span : Span} {u : Tree}
    {after : List Tree} (hu : u.role ≠ some .operator) :
    operatorText (.node k role span (u :: after)) = operatorText (.node k role span after) := by
  simp [operatorText, Tree.child?, Tree.children, hu]

-- An operator is a token, and a change leaves the texts of tokens.
theorem Edit.operatorText (h : Edit t t') (hk : t.hasKind .binaryExpression = true) :
    operatorText t = operatorText t' := by
  cases h with
  | movedToken => rfl
  | moved => rfl
  | comment hc hrole => exact operatorText_append (operatorText_skip hrole).symm
  | content hopen => simp_all [Tree.hasKind, Tree.kind?, Kind.isOpened]
  | declaration => simp [Tree.hasKind, Tree.kind?] at hk
  | operand ha ha' =>
    exact operatorText_append ((operatorText_skip ha).trans (operatorText_skip ha').symm)
  | wrapped hs => simp_all [Tree.hasKind, Tree.kind?]
  | @inside k role span before after u u' h =>
    refine operatorText_append ?_
    by_cases hu : u.role = some .operator
    · have hu' : u'.role = some .operator := h.role ▸ hu
      cases h <;> simp_all [Shape.operatorText, Tree.child?, Tree.children, Tree.role]
    · rw [operatorText_skip hu, operatorText_skip (h.role ▸ hu)]

-- The kinds of node of which the first part is read.
def OfFirst (t : Tree) : Prop :=
  t.hasKind .parenthesizedExpression = true ∨ t.hasKind .expressionStatement = true ∨
    t.hasKind .returnStatement = true

-- What a change does to the part that is read.
theorem Edit.firstPart (h : Edit t t') (hk : OfFirst t) :
    t.firstPart = t'.firstPart ∨ ∃ u u', t.firstPart = some u ∧ t'.firstPart = some u' ∧
      (Edit u u' ∨ Tree.Parenthesized u u') := by
  cases h with
  | movedToken => exact .inl rfl
  | moved => exact .inl (by simp only [Tree.firstPart, Tree.parts_node])
  | comment hc => exact .inl (by rw [Tree.firstPart, Tree.firstPart, Tree.parts_comment hc])
  | content hopen =>
    simp only [OfFirst, Tree.hasKind_node, decide_eq_true_eq] at hk
    rcases hk with rfl | rfl | rfl <;> cases hopen
  | declaration | operand => simp [OfFirst] at hk
  | @wrapped k role span before after e p hs first hp =>
    exact .inr ⟨e, p, Tree.firstPart_around _ _ _ hp.part first,
      Tree.firstPart_around _ _ _ hp.isPart first, .inr hp⟩
  | @inside k role span before after u u' h =>
    have hu : u'.isPart = u.isPart := h.isPart.symm
    simp only [Tree.firstPart, Tree.parts_node, List.filter_append, List.filter_cons, hu]
    cases hbefore : before.filter Tree.isPart with
    | nil => cases hpart : u.isPart <;> simp [h]
    | cons => simp

theorem face_around {t u : Tree} (hk : t.hasKind .parenthesizedExpression = true)
    (hf : t.firstPart = some u) : face t = face u := by
  rw [face, face, Tree.unwrapParens_of_first hk hf]

-- A tree that is no parentheses around something shows its own kind and operator.
theorem Edit.face_plain (h : Edit t t')
    (hp : t.hasKind .parenthesizedExpression = true → t.parts = [])
    (hp' : t'.hasKind .parenthesizedExpression = true → t'.parts = []) :
    Shape.face t = Shape.face t' := by
  simp only [Shape.face, Tree.unwrapParens_of_plain hp, Tree.unwrapParens_of_plain hp', h.kind?,
    h.hasKind]
  split
  next hk => rw [h.operatorText ((h.hasKind _).trans hk)]
  next => rfl

-- By the number of nodes, as parentheses are opened one after the other.
theorem Edit.face {t t' : Tree} (h : Edit t t') : Shape.face t = Shape.face t' := by
  by_cases hk : t.hasKind .parenthesizedExpression = true
  · have hk' : t'.hasKind .parenthesizedExpression = true := h.hasKind _ ▸ hk
    rcases h.firstPart (.inl hk) with heq | ⟨u, u', hu, hu', hchange | hparens⟩
    · cases he : t.firstPart with
      | none =>
        have he' : t'.firstPart = none := heq.symm.trans he
        exact h.face_plain (fun _ => List.head?_eq_none_iff.mp he)
          fun _ => List.head?_eq_none_iff.mp he'
      | some e => rw [face_around hk he, face_around hk' (heq ▸ he)]
    · have hless := Tree.weight_lt_of_firstPart hu
      rw [face_around hk hu, face_around hk' hu', hchange.face]
    · rw [face_around hk hu, face_around hk' hu', face_parenthesized hparens]
  · exact h.face_plain (absurd · hk) (absurd · (h.hasKind _ ▸ hk))
termination_by t.weight

theorem Edit.firstPart_face (h : Edit t t') (hk : OfFirst t) :
    t.firstPart.map Shape.face = t'.firstPart.map Shape.face := by
  rcases h.firstPart hk with heq | ⟨u, u', hu, hu', hchange | hparens⟩
  · rw [heq]
  · rw [hu, hu', Option.map_some, Option.map_some, hchange.face]
  · rw [hu, hu', Option.map_some, Option.map_some, face_parenthesized hparens]

theorem Edit.token (h : Edit t t') : Shape.token t = Shape.token t' := by
  by_cases hk : OfFirst t
  · exact token_congr h.kind? (h.firstPart_face hk)
  · simp only [OfFirst, not_or] at hk
    exact token_of_kind h.kind? hk.2.1 hk.2.2

theorem token_of_declaration {d : Tree} (hd : d.isDeclaration = true) :
    Shape.token d = "declaration" := by
  rcases Bool.or_eq_true_iff.mp hd with h | h <;> simp [Shape.token, Tree.hasKind_iff.mp h]

theorem Edit.tokens (h : Edit t t') (hk : t.hasKind .statementBlock = true) :
    t.parts.map Shape.token = t'.parts.map Shape.token := by
  cases h with
  | movedToken => rfl
  | moved => simp only [Tree.parts_node]
  | comment hc => rw [Tree.parts_comment hc]
  | content hopen =>
    obtain rfl : _ = Kind.statementBlock := by simpa using hk
    cases hopen
  | declaration hd hd' =>
    have hpart {d : Tree} (h : d.isDeclaration = true) : d.isPart = true := by
      rcases Bool.or_eq_true_iff.mp h with h | h <;>
        simp [Tree.isPart, Tree.isNode, Tree.isComment, Tree.hasKind_iff.mp h, Kind.isComment]
    simp [Tree.parts_node, hpart hd, hpart hd', token_of_declaration hd, token_of_declaration hd']
  | operand => simp at hk
  | wrapped hs => simp_all
  | @inside k role span before after u u' h =>
    simp only [Tree.parts_node, List.filter_append, List.filter_cons, h.isPart, List.map_append]
    split
    next => rw [List.map_cons, List.map_cons, h.token]
    next => rfl

end Edit

theorem kindName_unwrapParens {b b' : Tree} (h : face b = face b') :
    kindName b.unwrapParens = kindName b'.unwrapParens := kindName_congr (congrArg Prod.fst h)

theorem BodyEdit.ofBody? {b b' : Tree} (h : BodyEdit b b') (least : Nat) :
    ofBody? least b = ofBody? least b' := by
  cases h with
  | edit h =>
    simp only [Shape.ofBody?, ← h.hasKind, kindName_unwrapParens h.face]
    split
    next hk => rw [h.tokens hk]
    next => rfl
  | wrapped he hp =>
    have hp' : b'.hasKind .statementBlock = false := by
      cases hp with
      | plain role => rw [Tree.hasKind_playing, he]
      | around => rfl
    simp [Shape.ofBody?, he, hp', kindName_unwrapParens (face_parenthesized hp)]

theorem kindName_injective {t u : Tree} (ht : t.isPart = true) (hu : u.isPart = true)
    (h : kindName t = kindName u) : t.kind? = u.kind? := by
  cases t with
  | token => cases ht
  | node =>
    cases u with
    | token => cases hu
    | node => exact congrArg some (Kind.name_injective h)

section Bare

variable {v e v' e' : Tree}

theorem kindName_bare (h : Tree.Bare v e) : kindName e.unwrapParens = kindName v := by
  obtain ⟨role, hrole⟩ := Tree.unwrapParens_bare h
  rw [hrole, kindName_congr (Tree.kind?_playing role v)]

theorem operatorText_bare (h : Tree.Bare v e) :
    operatorText e.unwrapParens = operatorText v := by
  obtain ⟨role, hrole⟩ := Tree.unwrapParens_bare h
  rw [hrole, operatorText_playing]

theorem hasKind_bare (h : Tree.Bare v e) (k : Kind) : e.unwrapParens.hasKind k = v.hasKind k := by
  obtain ⟨role, hrole⟩ := Tree.unwrapParens_bare h
  rw [hrole, Tree.hasKind_playing]

theorem kindName_ne_of_bare (hv : Tree.Bare v e) (hv' : Tree.Bare v' e')
    (h : v.kind? ≠ v'.kind?) : kindName e.unwrapParens ≠ kindName e'.unwrapParens := by
  rw [kindName_bare hv, kindName_bare hv']
  exact mt (kindName_injective hv.inside.part hv'.inside.part) h

end Bare

theorem binary_ne_argument (text name : String) : "return-binary:" ++ text ≠ "return:" ++ name := by
  intro h
  have hlist := congrArg String.toList h
  simp at hlist

theorem Apart.token_ne {s s' : Tree} (h : Apart s s') : token s ≠ token s' := by
  cases h with
  | expression hs hs' he he' hv hv' h =>
    rw [token_expression hs he, token_expression hs' he']
    exact kindName_ne_of_bare hv hv' h
  | @argument e e' v v' hs hs' he he' hv hv' h =>
    cases hb : e.unwrapParens.hasKind .binaryExpression <;>
      cases hb' : e'.unwrapParens.hasKind .binaryExpression
    case false.false =>
      rw [token_argument hs he hb, token_argument hs' he' hb', Ne, String.append_right_inj]
      exact kindName_ne_of_bare hv hv' h
    case false.true =>
      rw [token_argument hs he hb, token_binary hs' he' hb']
      exact (binary_ne_argument _ _).symm
    case true.false =>
      rw [token_binary hs he hb, token_argument hs' he' hb']
      exact binary_ne_argument _ _
    case true.true =>
      rw [hasKind_bare hv, Tree.hasKind_iff] at hb
      rw [hasKind_bare hv', Tree.hasKind_iff] at hb'
      exact absurd (hb.trans hb'.symm) h
  | operator hs hs' he he' hv hv' hk hk' ho ho' h =>
    rw [token_binary hs he ((hasKind_bare hv _).trans hk),
      token_binary hs' he' ((hasKind_bare hv' _).trans hk'), operatorText_bare hv,
      operatorText_bare hv', Ne, String.append_right_inj]
    simpa [operatorText, ho, ho'] using h

theorem eq_tokens_of_ofBody? {least : Nat} {b : Tree} {shape : Shape}
    (hb : b.hasKind .statementBlock = true) (h : ofBody? least b = some shape) :
    shape = b.parts.map token := by
  simp only [ofBody?, hb, if_true] at h
  split at h
  · cases h
  · exact (Option.some.inj h).symm

theorem BodyApart.ofBody?_ne {b b' : Tree} (h : BodyApart b b') {least : Nat}
    (hsome : ofBody? least b ≠ none) : ofBody? least b ≠ ofBody? least b' := by
  cases h with
  | @statement s s' i hb hb' hs hs' h =>
    intro heq
    obtain ⟨shape, hshape⟩ := Option.ne_none_iff_exists'.mp hsome
    have htokens : b.parts.map token = b'.parts.map token :=
      (eq_tokens_of_ofBody? hb hshape).symm.trans (eq_tokens_of_ofBody? hb' (heq ▸ hshape))
    have hi := congrArg (·[i]?) htokens
    simp only [List.getElem?_map, hs, hs', Option.map_some, Option.some.injEq] at hi
    exact h.token_ne hi
  | expression hb hb' hv hv' h =>
    simpa [ofBody?, hb, hb'] using kindName_ne_of_bare hv hv' h

-- A shape shows the statements of a body and nothing else of it. What is changed below statements
-- leaves it, and a returned operator or the kind of a value does not.
theorem told_by_statements (least : Nat) (b b' : Tree) :
    (Relation.EqvGen BodyEdit b b' → ofBody? least b = ofBody? least b') ∧
      (BodyApart b b' → ofBody? least b ≠ none → ofBody? least b ≠ ofBody? least b') := by
  refine ⟨fun h => ?_, fun h => h.ofBody?_ne⟩
  induction h with
  | rel _ _ hedit => exact hedit.ofBody? least
  | refl => rfl
  | symm _ _ _ ih => exact ih.symm
  | trans _ _ _ _ _ ih ih' => exact ih.trans ih'

def operation (operator : String) : Tree :=
  .node .binaryExpression none ⟨0, 0⟩ [.node .identifier (some .left) ⟨0, 0⟩ [],
    .token operator (some .operator) ⟨0, 0⟩, .node .number (some .right) ⟨0, 0⟩ []]

def returning (declaration : Kind) (value : Tree) : Tree :=
  .node .statementBlock (some .body) ⟨0, 0⟩ [.node declaration none ⟨0, 0⟩ [],
    .node .returnStatement none ⟨0, 0⟩ [.token "return" none ⟨0, 0⟩, value]]

def commented (value : Tree) : Tree :=
  .node .parenthesizedExpression none ⟨0, 0⟩
    [.token "(" none ⟨0, 0⟩, .node .comment none ⟨0, 0⟩ [], value, .token ")" none ⟨0, 0⟩]

theorem told_by_statements_returning :
    Relation.EqvGen BodyEdit (returning .lexicalDeclaration (operation "+"))
        (returning .variableDeclaration (commented (operation "+"))) ∧
      ofBody? 2 (returning .lexicalDeclaration (operation "+")) =
        ofBody? 2 (returning .variableDeclaration (commented (operation "+"))) ∧
      BodyApart (returning .lexicalDeclaration (operation "+"))
        (returning .variableDeclaration (operation "-")) ∧
      ofBody? 2 (returning .lexicalDeclaration (operation "+")) ≠
        ofBody? 2 (returning .variableDeclaration (operation "-")) := by
  have hdeclared : Edit (returning .lexicalDeclaration (operation "+"))
      (returning .variableDeclaration (operation "+")) :=
    @Edit.declaration _ _ [] _ _ _ rfl rfl
  have hcommented : Tree.Parenthesized (operation "+") (commented (operation "+")) :=
    @Tree.Parenthesized.around _ _ [_, _] _ none ⟨0, 0⟩ (.plain none rfl) rfl
  have hreturned : Edit (returning .variableDeclaration (operation "+"))
      (returning .variableDeclaration (commented (operation "+"))) :=
    @Edit.inside _ _ _ [_] [] _ _ (@Edit.wrapped _ _ _ [_] [] _ _ (.inr rfl) rfl hcommented)
  have hbare (operator : String) : Tree.Bare (operation operator) (operation operator) :=
    ⟨.plain none rfl, nofun⟩
  have hapart : BodyApart (returning .lexicalDeclaration (operation "+"))
      (returning .variableDeclaration (operation "-")) :=
    @BodyApart.statement _ _ _ _ 1 rfl rfl rfl rfl
      (.operator rfl rfl rfl rfl (hbare "+") (hbare "-") rfl rfl rfl rfl (by decide))
  have hedits := (Relation.EqvGen.rel _ _ (BodyEdit.edit hdeclared)).trans _ _ _
    (.rel _ _ (.edit hreturned))
  exact ⟨hedits, (told_by_statements 2 _ _).1 hedits, hapart,
    (told_by_statements 2 _ _).2 hapart (by decide)⟩

end Shape

end Likeness
