import Likeness.Syntax.Grammar.Pattern

namespace Likeness.Syntax.Grammar

open Reading

-- The end of a name that may have hyphens in it.
def hyphenEnd (chars : Array Char) (i : Nat) : Nat :=
  skipWhile chars (fun c => isWordChar c || c = '-') i

def hyphenName (kind : Kind) (role : Option Role) : Reading Unit := do
  let c ← context
  let s ← state
  match wordAt? c.chars s.pos with
  | some _ =>
    take (hyphenEnd c.chars s.pos) (.node kind role · [])
    settle
  | none => refuse

def namespaceName (role : Option Role) : Reading Unit :=
  node .jsxNamespaceName role do
    hyphenName .identifier none
    sign ":" none
    hyphenName .identifier none

-- The name of an element: a word, words with points between them, or two words with a colon.
def elementName (role : Option Role) : Reading Unit :=
  namespaceName role <|> withRole role (do
    hyphenName .identifier none
    many (wrap .memberExpression (some .object) do
      sign "." none
      wordNode .propertyIdentifier (some .property)))

-- The end of a character reference at `i`, such as an ampersand, `lt` and a semicolon.
def referenceEnd? (chars : Array Char) (i : Nat) : Option Nat :=
  let closed (start stop most : Nat) : Option Nat :=
    if start < stop && stop ≤ start + most && chars[stop]? = some ';' then some (stop + 1) else none
  if chars[i]? ≠ some '&' then none
  else if chars[i + 1]? = some '#' then
    if chars[i + 2]? = some 'x' || chars[i + 2]? = some 'X' then
      closed (i + 3) (skipWhile chars isHexDigit (i + 3)) 6
    else closed (i + 2) (skipWhile chars Char.isDigit (i + 2)) 5
  else closed (i + 1) (skipWhile chars Char.isAlpha (i + 1)) 30

def characterReference : Reading Unit := do
  let c ← context
  let s ← state
  match referenceEnd? c.chars s.pos with
  | some stop => take stop (.node .htmlCharacterReference none · [])
  | none => refuse

-- The end of the text of an attribute. An ampersand stands for itself unless a letter or a number
-- sign follows.
def attributeTextEnd (chars : Array Char) (quote : Char) (i : Nat) : Nat → Nat
  | 0 => i
  | fuel + 1 =>
    let stop := skipWhile chars (fun c => c ≠ quote && c ≠ '&') i
    if chars[stop]? = some '&' then
      match chars[stop + 1]? with
      | some c =>
        if c = '#' || c.isAlpha then stop else attributeTextEnd chars quote (stop + 2) fuel
      | none => stop
    else stop

def attributePart (quote : Char) : Reading Unit := do
  let c ← context
  let s ← state
  let stop := attributeTextEnd c.chars quote s.pos (c.chars.size + 1 - s.pos)
  if s.pos < stop then take stop (.node .stringFragment none · []) else characterReference

-- A quoted attribute, which may go over several lines.
def attributeString : Reading Unit := do
  node .string none (quoted "\"" (attributePart '"') <|> quoted "'" (attributePart '\x27'))
  settle

def spreadElement (g : Rules) : Reading Unit :=
  node .spreadElement none do
    sign "..." none
    g (.expression 0)

-- An expression in braces. What follows the closing brace may be text.
def embedded (g : Rules) : Reading Unit :=
  node .jsxExpression none do
    rawToken "\x7b" none
    settle
    bracketed (optional (spreadElement g <|> g .expressions))
    rawToken "\x7d" none

def elementAttribute (g : Rules) : Reading Unit :=
  (do
    node .jsxAttribute (some .attribute) do
      namespaceName none <|> hyphenName .propertyIdentifier none
      optional do
        sign "=" none
        attributeString
          <|> (do embedded g; settle)
          <|> (do g .markup; settle))
    <|> (do withRole (some .attribute) (embedded g); settle)

-- A tag up to its closing bracket: the kind says whether it opens an element or is one.
def startTag (g : Rules) : Reading Kind := do
  mark "<" none
  optional do
    elementName (some .name)
    optional (g .typeArguments)
    many (elementAttribute g)
  let closed ← tried (rawToken "/>" none)
  if closed then return .jsxSelfClosingElement
  else
    rawToken ">" none
    return .jsxOpeningElement

-- Text between tags. Blanks around line ends are no text.
def markupText : Reading Unit := do
  let c ← context
  let s ← state
  let stop := skipWhile c.chars (fun d => !"<>\x7b\x7d&".toList.contains d) s.pos
  if stop = s.pos || c.chars.size ≤ stop then refuse
  else if hasText (c.chars.extract s.pos stop).toList false then
    take stop (.node .jsxText none · [])
  else change fun s => { s with pos := stop, last := stop }
where
  -- `newLine` while only blanks have been seen since the end of a line
  hasText : List Char → Bool → Bool
    | [], _ => false
    | c :: rest, newLine =>
      if c = '\n' then hasText rest true
      else if newLine && isSeparator c then hasText rest true
      else true

def closingTag : Reading Unit :=
  node .jsxClosingElement (some .closeTag) do
    rawToken "</" none
    settle
    optional (elementName (some .name))
    rawToken ">" none

-- An element or a fragment. What follows it may be text.
def markup (g : Rules) : Reading Unit := do
  let s ← state
  let kind ← within (fun c => { c with openEnd := false }) (nodeOf s.pos (startTag g))
  if kind = .jsxOpeningElement then
    wrap .jsxElement (some .openTag) do
      many (markupText <|> characterReference <|> embedded g <|> child)
      closingTag
  else pure ()
where
  child : Reading Unit := do
    never (rawToken "</" none)
    g .markup
  -- a node whose kind is known at its end
  nodeOf (start : Nat) (p : Reading Kind) : Reading Kind := fun c s =>
    match p c { s with out := [] } with
    | .refused notes => .refused notes
    | .done kind next =>
      let made := Tree.node kind none (spanOf next.out start) next.out.reverse
      .done kind { next with out := made :: s.out }

end Likeness.Syntax.Grammar
