import Likeness.Syntax.Kind

namespace Likeness.Syntax

-- A stretch of a text, as numbers of characters before its start and its end.
structure Span where
  start : Nat
  stop : Nat
deriving DecidableEq

-- The part that a child plays in its parent.
inductive Role where
  | alias
  | alternative
  | argument
  | arguments
  | attribute
  | body
  | closeTag
  | condition
  | consequence
  | constructorPart
  | declaration
  | decorator
  | function
  | handler
  | increment
  | index
  | initializer
  | key
  | kindWord
  | label
  | left
  | name
  | object
  | openTag
  | operator
  | parameter
  | parameters
  | pattern
  | property
  | returnType
  | right
  | source
  | typeArguments
  | typeParameters
  | typePart
  | value
deriving DecidableEq

-- The syntax tree of a source file. Punctuation and keywords are tokens, all else are nodes.
inductive Tree where
  | token (text : String) (role : Option Role) (span : Span)
  | node (kind : Kind) (role : Option Role) (span : Span) (children : List Tree)

namespace Tree

def kind? : Tree → Option Kind
  | .token _ _ _ => none
  | .node kind _ _ _ => some kind

def isNode (t : Tree) : Bool := t.kind?.isSome

def hasKind (t : Tree) (kind : Kind) : Bool := t.kind? == some kind

def role : Tree → Option Role
  | .token _ role _ => role
  | .node _ role _ _ => role

def span : Tree → Span
  | .token _ _ span => span
  | .node _ _ span _ => span

def children : Tree → List Tree
  | .token _ _ _ => []
  | .node _ _ _ children => children

def withRole (role : Role) : Tree → Tree
  | .token text _ span => .token text (some role) span
  | .node kind _ span children => .node kind (some role) span children

def isComment (t : Tree) : Bool :=
  match t.kind? with
  | some kind => kind.isComment
  | none => false

-- The children that are nodes, comments among them.
def namedChildren (t : Tree) : List Tree := t.children.filter isNode

-- The children that are nodes and no comments.
def parts (t : Tree) : List Tree := t.namedChildren.filter (!·.isComment)

def firstPart (t : Tree) : Option Tree := t.parts.head?

def child? (role : Role) (t : Tree) : Option Tree := t.children.find? (·.role == some role)

mutual

def weight : Tree → Nat
  | .token _ _ _ => 1
  | .node _ _ _ children => 1 + weights children

def weights : List Tree → Nat
  | [] => 0
  | t :: rest => t.weight + weights rest

end

theorem weights_append (as bs : List Tree) : weights (as ++ bs) = weights as + weights bs := by
  induction as with
  | nil => simp [weights]
  | cons a as ih => simp [weights, ih, Nat.add_assoc]

theorem weights_filter_le (p : Tree → Bool) (ts : List Tree) :
    weights (ts.filter p) ≤ weights ts := by
  induction ts with
  | nil => simp
  | cons t ts ih =>
    by_cases h : p t
    · simp only [List.filter_cons_of_pos h, weights]; omega
    · simp only [List.filter_cons_of_neg h, weights]; omega

theorem weights_namedChildren_lt (t : Tree) : weights t.namedChildren < t.weight := by
  have h := weights_filter_le isNode t.children
  cases t with
  | token text role span => simp [namedChildren, children, weights, weight]
  | node kind role span children =>
    simp only [Tree.children] at h
    simp only [namedChildren, Tree.children, weight]; omega

theorem weights_parts_lt (t : Tree) : weights t.parts < t.weight :=
  Nat.lt_of_le_of_lt (weights_filter_le _ _) (weights_namedChildren_lt t)

-- The nodes on a stack of trees and all nodes below them, the top of the stack first.
def visitNodes : List Tree → List Tree
  | [] => []
  | t :: rest => t :: visitNodes (t.namedChildren ++ rest)
termination_by stack => weights stack
decreasing_by
  have h := weights_namedChildren_lt t
  simp only [weights_append, weights]; omega

-- The same without comments below the trees on the stack.
def visitParts : List Tree → List Tree
  | [] => []
  | t :: rest => t :: visitParts (t.parts ++ rest)
termination_by stack => weights stack
decreasing_by
  have h := weights_parts_lt t
  simp only [weights_append, weights]; omega

-- The same without what is below a node that is closed.
def visitOpen (closed : Tree → Bool) : List Tree → List Tree
  | [] => []
  | t :: rest =>
    if closed t then t :: visitOpen closed rest else t :: visitOpen closed (t.parts ++ rest)
termination_by stack => weights stack
decreasing_by
  · cases t <;> simp only [weights, weight] <;> omega
  · have h := weights_parts_lt t
    simp only [weights_append, weights]; omega

-- A node and all nodes below it, parents first, in source order.
def nodes (t : Tree) : List Tree := visitNodes [t]

-- A node and all nodes below it that are not comments, parents first, in source order.
def descendants (t : Tree) : List Tree := visitParts [t]

theorem weight_lt_of_parts {t inner : Tree} {rest : List Tree} (h : t.parts = inner :: rest) :
    inner.weight < t.weight := by
  have := weights_parts_lt t
  rw [h] at this
  simp only [weights] at this; omega

-- The inner expression of any number of parentheses.
def unwrapParens (t : Tree) : Tree :=
  match _h : t.parts with
  | inner :: _ => if t.hasKind .parenthesizedExpression then unwrapParens inner else t
  | [] => t
termination_by t.weight
decreasing_by exact weight_lt_of_parts (by assumption)

end Tree

-- A node of a tree with the nodes around it, the innermost first.
structure Spot where
  around : List Tree
  node : Tree

-- The node that the node at a spot is a part of.
def Spot.parent? (p : Spot) : Option Tree := p.around.head?

namespace Tree

mutual

-- A tree and those nodes below it that are kept, parents first, in source order. What is below a
-- node that is not kept is left out.
def spotsOf (keep : Tree → Bool) (around : List Tree) : Tree → List Spot
  | .token text role span => [⟨around, .token text role span⟩]
  | .node kind role span children =>
    ⟨around, .node kind role span children⟩ ::
      spotsAmong keep (.node kind role span children :: around) children
termination_by structural t => t

def spotsAmong (keep : Tree → Bool) (around : List Tree) : List Tree → List Spot
  | [] => []
  | t :: rest =>
    if keep t then spotsOf keep around t ++ spotsAmong keep around rest
    else spotsAmong keep around rest
termination_by structural ts => ts

end

-- The spots of a tree and of all nodes below it that are not comments.
def spots (t : Tree) : List Spot := spotsOf (fun child => child.isNode && !child.isComment) [] t

end Tree

end Likeness.Syntax
