import Likeness.Yaml.Token

namespace Likeness.Yaml

-- Why a document cannot be read on.
inductive Broken where
  | malformed (fault : Fault)
  | unknownAnchor (mark : Mark)

-- A document as a tree, with the place of each node. Anchors are numbered.
inductive Node where
  | scalar (mark : Mark) (anchor : Option Nat) (tag : Option String) (text : String)
    (isPlain : Bool)
  | sequence (mark : Mark) (anchor : Option Nat) (tag : Option String) (items : List Node)
  | mapping (mark : Mark) (anchor : Option Nat) (tag : Option String)
    (entries : List (Node × Node))
  | alias (mark : Mark) (anchor : Nat)
  -- the document cannot be read on from here
  | missing (why : Broken)

namespace Node

-- A scalar that is not written at all.
def empty (mark : Mark) : Node := .scalar mark none none "" true

-- The tokens that are left and the anchors so far, each with its number.
structure Rest where
  tokens : List Token
  anchors : List (String × Nat)

namespace Rest

def skip (r : Rest) : Rest := { r with tokens := r.tokens.drop 1 }

-- Numbers an anchor by how many names there are; a name that comes again takes the new number.
def bind (r : Rest) (name : Option String) : Option Nat × Rest :=
  match name with
  | none => (none, r)
  | some name =>
    let number := r.anchors.length
    (some number, { r with
      anchors := (name, number) :: r.anchors.filter fun (other, _) => other != name })

def lookup (r : Rest) (name : String) : Option Nat :=
  (r.anchors.find? fun (other, _) => other == name).map (·.2)

end Rest

-- A part of a tree, and what is left after it unless the document breaks off in it.
abbrev Part (α : Type) := α × Except Broken Rest

def breakOff (why : Broken) : Part Node := (.missing why, .error why)

def faultAt (cause : Cause) (mark : Mark) (activity : Option (Activity × Mark)) : Broken :=
  .malformed ⟨cause, mark, activity⟩

-- The next token, or why there is none.
def nextToken (r : Rest) : Except Broken Token :=
  match r.tokens with
  | ⟨.broken fault, _⟩ :: _ => .error (.malformed fault)
  | token :: _ => .ok token
  | [] => .error (faultAt .noContent .start none)

-- The handles of tags and what they stand for.
abbrev Handles := List TagText

def standardHandles : Handles := [⟨"!", "!"⟩, ⟨"!!", "tag:yaml.org,2002:"⟩]

-- What stands before a node.
structure Properties where
  anchor : Option String
  tag : Option String

-- The whole tag; none if no directive explains its handle.
def wholeTag? (handles : Handles) (tag : TagText) : Option String :=
  if tag.handle = "" then some tag.suffix
  else (handles.find? (·.handle == tag.handle)).map fun found => found.suffix ++ tag.suffix

-- An anchor and a tag, in either order.
def properties (handles : Handles) (start : Mark) (r : Rest) : Except Broken (Properties × Rest) :=
  let ofTag (tag : TagText) (mark : Mark) : Except Broken (Option String) :=
    match wholeTag? handles tag with
    | some whole => .ok (some whole)
    | none => .error (faultAt .unknownHandle mark (some (.node, start)))
  match nextToken r with
  | .error why => .error why
  | .ok ⟨.anchor name, _⟩ =>
    match nextToken r.skip with
    | .error why => .error why
    | .ok ⟨.tag tag, mark⟩ =>
      match nextToken r.skip.skip, ofTag tag mark with
      | .ok _, .ok whole => .ok (⟨some name, whole⟩, r.skip.skip)
      | .error why, _ => .error why
      | _, .error why => .error why
    | .ok _ => .ok (⟨some name, none⟩, r.skip)
  | .ok ⟨.tag tag, mark⟩ =>
    match nextToken r.skip with
    | .error why => .error why
    | .ok ⟨.anchor name, _⟩ =>
      match nextToken r.skip.skip, ofTag tag mark with
      | .ok _, .ok whole => .ok (⟨some name, whole⟩, r.skip.skip)
      | .error why, _ => .error why
      | _, .error why => .error why
    | .ok _ => (ofTag tag mark).map fun whole => (⟨none, whole⟩, r.skip)
  | .ok _ => .ok (⟨none, none⟩, r)

-- Puts a part before the parts that follow it.
def followedBy {α : Type} (first : Part α) (more : Rest → Part (List α)) : Part (List α) :=
  match first.2 with
  | .error why => ([first.1], .error why)
  | .ok r =>
    let (others, r) := more r
    (first.1 :: others, r)

-- A value after its key.
def withValue (key : Part Node) (value : Rest → Part Node) : Part (Node × Node) :=
  match key.2 with
  | .error why => ((key.1, .missing why), .error why)
  | .ok r =>
    let (value, r) := value r
    ((key.1, value), r)

def breakEntries (why : Broken) : Part (List (Node × Node)) :=
  ([(.missing why, .missing why)], .error why)

def breakItems (why : Broken) : Part (List Node) := ([.missing why], .error why)

-- A node that is left out before some pieces.
def unlessAt (absent : Piece → Bool) (mark : Mark) (r : Rest) (node : Rest → Part Node) :
    Part Node :=
  match nextToken r with
  | .error why => breakOff why
  | .ok token => if absent token.piece then (.empty mark, .ok r) else node r

def endsBlockItem : Piece → Bool
  | .blockEntry | .blockEnd => true
  | _ => false

def endsOpenItem : Piece → Bool
  | .blockEntry | .key | .value | .blockEnd => true
  | _ => false

def endsBlockEntry : Piece → Bool
  | .key | .value | .blockEnd => true
  | _ => false

def endsFlowItem : Piece → Bool
  | .flowEntry | .flowSequenceEnd => true
  | _ => false

def endsFlowEntry : Piece → Bool
  | .flowEntry | .flowMappingEnd => true
  | _ => false

mutual

-- A node. Collections in block style are allowed if `block` holds, and entries right in the
-- column of the block around if `entries` does.
def read (handles : Handles) (block entries : Bool) : Nat → Rest → Part Node
  | 0, _ => breakOff (faultAt .noContent .start none)
  | fuel + 1, r =>
    match nextToken r with
    | .error why => breakOff why
    | .ok ⟨.alias name, mark⟩ =>
      match r.lookup name with
      | some anchor => (.alias mark anchor, .ok r.skip)
      | none => breakOff (.unknownAnchor mark)
    | .ok ⟨_, mark⟩ =>
      match properties handles mark r with
      | .error why => breakOff why
      | .ok (properties, r) =>
        let tag := properties.tag
        let (anchor, bound) := r.bind properties.anchor
        let sequenceOf (items : Part (List Node)) : Part Node :=
          (.sequence mark anchor tag items.1, items.2)
        let mappingOf (entries : Part (List (Node × Node))) : Part Node :=
          (.mapping mark anchor tag entries.1, entries.2)
        match nextToken r with
        | .error why => breakOff why
        | .ok token =>
          match token.piece, block, entries with
          | .blockEntry, _, true => sequenceOf (readOpenItems handles fuel bound)
          | .scalar text isPlain, _, _ =>
            let tag := if tag = some "!" then none else tag
            (.scalar mark anchor tag text isPlain, .ok bound.skip)
          | .flowSequenceStart, _, _ =>
            sequenceOf (readFlowItems handles token.mark true fuel bound.skip)
          | .flowMappingStart, _, _ =>
            mappingOf (readFlowEntries handles token.mark true fuel bound.skip)
          | .blockSequenceStart, true, _ =>
            sequenceOf (readBlockItems handles token.mark fuel bound.skip)
          | .blockMappingStart, true, _ =>
            mappingOf (readBlockEntries handles token.mark fuel bound.skip)
          | _, _, _ =>
            if properties.anchor.isSome || tag.isSome then
              (.scalar mark anchor tag "" true, .ok bound)
            else
              breakOff (faultAt .noContent token.mark
                (some (if block then .blockNode else .flowNode, mark)))

-- The items of a block sequence that has a block of its own.
def readBlockItems (handles : Handles) (start : Mark) : Nat → Rest → Part (List Node)
  | 0, _ => breakItems (faultAt .noContent .start none)
  | fuel + 1, r =>
    match nextToken r with
    | .error why => breakItems why
    | .ok ⟨.blockEntry, mark⟩ =>
      followedBy (unlessAt endsBlockItem mark r.skip (read handles true false fuel))
        (readBlockItems handles start fuel)
    | .ok ⟨.blockEnd, _⟩ => ([], .ok r.skip)
    | .ok ⟨_, mark⟩ => breakItems (faultAt .noDash mark (some (.blockCollection, start)))

-- The items of a block sequence in the column of the mapping around it.
def readOpenItems (handles : Handles) : Nat → Rest → Part (List Node)
  | 0, _ => breakItems (faultAt .noContent .start none)
  | fuel + 1, r =>
    match nextToken r with
    | .error why => breakItems why
    | .ok ⟨.blockEntry, mark⟩ =>
      followedBy (unlessAt endsOpenItem mark r.skip (read handles true false fuel))
        (readOpenItems handles fuel)
    | .ok _ => ([], .ok r)

-- The entries of a block mapping.
def readBlockEntries (handles : Handles) (start : Mark) : Nat → Rest → Part (List (Node × Node))
  | 0, _ => breakEntries (faultAt .noContent .start none)
  | fuel + 1, r =>
    match nextToken r with
    | .error why => breakEntries why
    | .ok ⟨.key, mark⟩ =>
      let key := unlessAt endsBlockEntry mark r.skip (read handles true true fuel)
      let value (r : Rest) : Part Node :=
        match nextToken r with
        | .error why => breakOff why
        | .ok ⟨.value, mark⟩ => unlessAt endsBlockEntry mark r.skip (read handles true true fuel)
        | .ok token => (.empty token.mark, .ok r)
      followedBy (withValue key value) (readBlockEntries handles start fuel)
    | .ok ⟨.blockEnd, _⟩ => ([], .ok r.skip)
    | .ok ⟨_, mark⟩ => breakEntries (faultAt .noKey mark (some (.blockMapping, start)))

-- The items of a sequence in brackets.
def readFlowItems (handles : Handles) (start : Mark) (first : Bool) :
    Nat → Rest → Part (List Node)
  | 0, _ => breakItems (faultAt .noContent .start none)
  | fuel + 1, r =>
    match nextToken r with
    | .error why => breakItems why
    | .ok ⟨.flowSequenceEnd, _⟩ => ([], .ok r.skip)
    | .ok token =>
      let isEntry := match token.piece with
        | .flowEntry => true
        | _ => false
      if !first && !isEntry then
        breakItems (faultAt .noSequenceEnd token.mark (some (.flowSequence, start)))
      else
        let r := if first then r else r.skip
        match nextToken r with
        | .error why => breakItems why
        | .ok ⟨.flowSequenceEnd, _⟩ => ([], .ok r.skip)
        | .ok ⟨.key, mark⟩ =>
          let (entries, r) := readPair handles fuel r.skip
          followedBy (.mapping mark none none entries, r) (readFlowItems handles start false fuel)
        | .ok _ =>
          followedBy (read handles false false fuel r) (readFlowItems handles start false fuel)

-- The only entry of a mapping without braces in a sequence.
def readPair (handles : Handles) : Nat → Rest → Part (List (Node × Node))
  | 0, _ => breakEntries (faultAt .noContent .start none)
  | fuel + 1, r =>
    let absent (piece : Piece) : Bool := match piece with
      | .value | .flowEntry | .flowSequenceEnd => true
      | _ => false
    let key := match nextToken r with
      | .error why => breakOff why
      | .ok token =>
        if absent token.piece then (.empty token.mark, .ok r.skip)
        else read handles false false fuel r
    let value (r : Rest) : Part Node :=
      match nextToken r with
      | .error why => breakOff why
      | .ok ⟨.value, mark⟩ => unlessAt endsFlowItem mark r.skip (read handles false false fuel)
      | .ok token => (.empty token.mark, .ok r)
    followedBy (withValue key value) fun r =>
      match nextToken r with
      | .error why => breakEntries why
      | .ok _ => ([], .ok r)

-- The entries of a mapping in braces.
def readFlowEntries (handles : Handles) (start : Mark) (first : Bool) :
    Nat → Rest → Part (List (Node × Node))
  | 0, _ => breakEntries (faultAt .noContent .start none)
  | fuel + 1, r =>
    let value (r : Rest) : Part Node :=
      match nextToken r with
      | .error why => breakOff why
      | .ok ⟨.value, mark⟩ => unlessAt endsFlowEntry mark r.skip (read handles false false fuel)
      | .ok token => (.empty token.mark, .ok r)
    let absentKey (piece : Piece) : Bool := match piece with
      | .value | .flowEntry | .flowMappingEnd => true
      | _ => false
    let noValue (r : Rest) : Part Node :=
      match nextToken r with
      | .error why => breakOff why
      | .ok token => (.empty token.mark, .ok r)
    match nextToken r with
    | .error why => breakEntries why
    | .ok ⟨.flowMappingEnd, _⟩ => ([], .ok r.skip)
    | .ok token =>
      let isEntry := match token.piece with
        | .flowEntry => true
        | _ => false
      if !first && !isEntry then
        breakEntries (faultAt .noMappingEnd token.mark (some (.flowMapping, start)))
      else
        let r := if first then r else r.skip
        match nextToken r with
        | .error why => breakEntries why
        | .ok ⟨.flowMappingEnd, _⟩ => ([], .ok r.skip)
        | .ok ⟨.key, mark⟩ =>
          let key := unlessAt absentKey mark r.skip (read handles false false fuel)
          followedBy (withValue key value) (readFlowEntries handles start false fuel)
        | .ok _ =>
          followedBy (withValue (read handles false false fuel r) noValue)
            (readFlowEntries handles start false fuel)

end

end Node

-- The first document of a text: its tree, if there is a document at all, why it breaks off after
-- its tree, and whether another document follows.
structure Document where
  root : Option Node
  broken : Option Broken
  isFollowed : Bool

namespace Document

-- The directives before a document.
def readDirectives (version : Bool) (handles : Node.Handles) :
    List Token → Except Broken (Node.Handles × List Token)
  | ⟨.directive (.version major minor), mark⟩ :: tokens =>
    if version then .error (Node.faultAt .secondVersion mark none)
    else if major ≠ 1 || (minor ≠ 1 && minor ≠ 2) then
      .error (Node.faultAt .otherVersion mark none)
    else readDirectives true handles tokens
  | ⟨.directive (.handle tag), mark⟩ :: tokens =>
    if handles.any (·.handle == tag.handle) then .error (Node.faultAt .secondHandle mark none)
    else readDirectives version (handles ++ [tag]) tokens
  | tokens => .ok (handles ++ Node.standardHandles, tokens)

-- Whether anything but the end of the text follows a document.
def isFollowedBy : List Token → Bool
  | ⟨.documentEnd, _⟩ :: tokens => isFollowedBy tokens
  | ⟨.streamEnd, _⟩ :: _ => false
  | _ => true

-- A document from its root node.
def ofRoot (root : Node.Part Node) : Document :=
  match root.2 with
  | .error _ => ⟨some root.1, none, false⟩
  | .ok r =>
    match Node.nextToken r with
    | .error why => ⟨some root.1, some why, false⟩
    | .ok _ => ⟨some root.1, none, isFollowedBy r.tokens⟩

def ofTokens (tokens : List Token) : Document :=
  let fuel := 4 * tokens.length + 8
  let implicit := match tokens with
    | ⟨.directive _, _⟩ :: _ => false
    | ⟨.documentStart, _⟩ :: _ => false
    | _ => true
  match tokens with
  | ⟨.streamEnd, _⟩ :: _ => ⟨none, none, false⟩
  | _ =>
    if implicit then ofRoot (Node.read Node.standardHandles true false fuel ⟨tokens, []⟩)
    else
      match readDirectives false [] tokens with
      | .error why => ofRoot (Node.breakOff why)
      | .ok (handles, tokens) =>
        match Node.nextToken ⟨tokens, []⟩ with
        | .error why => ofRoot (Node.breakOff why)
        | .ok ⟨.documentStart, _⟩ =>
          let r : Node.Rest := ⟨tokens.drop 1, []⟩
          ofRoot (match Node.nextToken r with
            | .error why => Node.breakOff why
            | .ok ⟨.directive _, mark⟩ | .ok ⟨.documentStart, mark⟩ | .ok ⟨.documentEnd, mark⟩
            | .ok ⟨.streamEnd, mark⟩ => (.empty mark, .ok r)
            | .ok _ => Node.read handles true false fuel r)
        | .ok token => ofRoot (Node.breakOff (Node.faultAt .noDocumentStart token.mark none))

end Document

end Likeness.Yaml
