import Likeness.Yaml.Cursor

namespace Likeness.Yaml

-- A tag as it is written: a handle that a directive explains, and what follows it.
structure TagText where
  handle : String
  suffix : String

def isTagPunctuation (c : Char) : Bool :=
  c = ';' || c = '/' || c = '?' || c = ':' || c = '@' || c = '&' || c = '=' || c = '+' || c = '$'
    || c = '.' || c = '%' || c = '!' || c = '~' || c = '*' || c = '\x27' || c = '(' || c = ')'

-- The characters of a tag; those that also structure collections only where it is enclosed.
def isTagChar (enclosed : Bool) (c : Char) : Bool :=
  isWord c || isTagPunctuation c || (enclosed && (c = ',' || c = '[' || c = ']'))

def tagActivity (directive : Bool) : Activity := if directive then .tagDirective else .tagPart

-- How many octets a character takes that starts with a given one; zero if none does.
def octetCount (first : Nat) : Nat :=
  if first < 0x80 then 1
  else if first / 0x20 = 6 then 2
  else if first / 0x10 = 14 then 3
  else if first / 8 = 30 then 4
  else 0

-- An octet written as a percent sign and two digits.
def readOctet (activity : Activity) (start : Mark) (c : Cursor) : Except Fault (Nat × Cursor) :=
  let octet := match c.rest with
    | '%' :: a :: b :: _ => match hexValue? a, hexValue? b with
      | some a, some b => some (a * 16 + b)
      | _, _ => none
    | _ => none
  match octet with
  | some n => .ok (n, c)
  | none => c.fault .noOctet (some (activity, start))

-- The octets of a character after its first one, added to its code point.
def readMoreOctets (activity : Activity) (start : Mark) :
    Nat → Nat → Cursor → Except Fault (Nat × Cursor)
  | 0, code, c => .ok (code, c)
  | count + 1, code, c =>
    match readOctet activity start c with
    | .error fault => .error fault
    | .ok (octet, c) =>
      if octet / 0x40 = 2 then
        readMoreOctets activity start count (code * 0x40 + octet % 0x40) (c.skip 3)
      else c.fault .badTrailingOctet (some (activity, start))

-- A character written in octets.
def readOctets (activity : Activity) (start : Mark) (c : Cursor) : Except Fault (Char × Cursor) :=
  match readOctet activity start c with
  | .error fault => .error fault
  | .ok (first, c) =>
    match octetCount first with
    | 0 => c.fault .badLeadingOctet (some (activity, start))
    | count + 1 =>
      let bits := if count = 0 then first else first % (1 <<< (6 - count))
      (readMoreOctets activity start count bits (c.skip 3)).map fun (code, c) =>
        (Char.ofNat code, c)

-- The characters of a tag, last one first.
def readTagChars (enclosed directive : Bool) (start : Mark) :
    Nat → List Char → Cursor → Except Fault (List Char × Cursor)
  | 0, acc, c => .ok (acc, c)
  | fuel + 1, acc, c =>
    match c.rest with
    | [] => .ok (acc, c)
    | x :: _ =>
      if !isTagChar enclosed x then .ok (acc, c)
      else if x = '%' then
        match readOctets (tagActivity directive) start c with
        | .error fault => .error fault
        | .ok (y, c) => readTagChars enclosed directive start fuel (y :: acc) c
      else readTagChars enclosed directive start fuel (x :: acc) (c.skip 1)

-- The rest of a tag after what was first taken for its handle, which may be all there is.
def readTagRest (enclosed directive : Bool) (head : List Char) (start : Mark) (c : Cursor) :
    Except Fault (String × Cursor) :=
  match readTagChars enclosed directive start (c.rest.length + 1) (head.drop 1).reverse c with
  | .error fault => .error fault
  | .ok (acc, after) =>
    if head.isEmpty && acc.isEmpty then
      after.fault .noTagText (some (tagActivity directive, start))
    else .ok (String.ofList acc.reverse, after)

-- An exclamation mark, a word, and perhaps another exclamation mark.
def readHandle (directive : Bool) (start : Mark) (c : Cursor) :
    Except Fault (List Char × Cursor) :=
  if !c.has '!' 0 then
    c.fault .noExclamation (some (if directive then .tagDirectiveStart else .tag, start))
  else
    let (word, c) := (c.skip 1).span isWord
    if c.has '!' 0 then .ok ('!' :: word ++ ['!'], c.skip 1)
    else if directive && !word.isEmpty then
      c.fault .noExclamation (some (.tagDirectiveHandle, start))
    else .ok ('!' :: word, c)

-- A tag without what has to follow it.
def readTagText (c : Cursor) : Except Fault (TagText × Cursor) :=
  let start := c.mark
  if c.has '<' 1 then
    match readTagRest true false [] start (c.skip 2) with
    | .error fault => .error fault
    | .ok (suffix, c) =>
      if c.has '>' 0 then .ok (⟨"", suffix⟩, c.skip 1)
      else c.fault .noTagEnd (some (.tag, start))
  else
    match readHandle false start c with
    | .error fault => .error fault
    | .ok (handle, c) =>
      if 1 < handle.length && handle.getLast? = some '!' then
        (readTagRest false false [] start c).map fun (suffix, c) =>
          (⟨String.ofList handle, suffix⟩, c)
      else
        (readTagRest false false handle start c).map fun (suffix, c) =>
          (if suffix.isEmpty then ⟨"", "!"⟩ else ⟨"!", suffix⟩, c)

-- A tag; the cursor stands on its exclamation mark.
def readTag (inFlow : Bool) (c : Cursor) : Except Fault (TagText × Cursor) :=
  match readTagText c with
  | .error fault => .error fault
  | .ok (tag, after) =>
    if (inFlow && after.has ',' 0) || after.atGap 0 then .ok (tag, after)
    else after.fault .noBlankOrBreak (some (.tag, c.mark))

-- The name after an ampersand or an asterisk.
def readAnchor (isAlias : Bool) (c : Cursor) : Except Fault (String × Cursor) :=
  let (name, after) := (c.skip 1).span isWord
  let ends := after.atGap 0 || ['?', ':', ',', ']', '\x7d', '%', '@', '\x60'].any (after.has · 0)
  if name.isEmpty || !ends then
    after.fault .noWord (some (if isAlias then .alias else .anchor, c.mark))
  else .ok (String.ofList name, after)

-- What a directive says.
inductive Directive where
  | version (major minor : Nat)
  | handle (tag : TagText)

-- A part of a version, of at most nine digits.
def readVersionPart (start : Mark) (c : Cursor) : Except Fault (Nat × Cursor) :=
  let (digits, after) := c.span Char.isDigit
  let activity := some (Activity.versionDirective, start)
  if 9 < digits.length then (c.skip 9).fault .longVersion activity
  else if digits.isEmpty then c.fault .noVersion activity
  else .ok (digits.foldl (fun n d => n * 10 + (d.toNat - 48)) 0, after)

def readVersion (start : Mark) (c : Cursor) : Except Fault (Directive × Cursor) :=
  match readVersionPart start (c.skipAll isBlank) with
  | .error fault => .error fault
  | .ok (major, c) =>
    if !c.has '.' 0 then c.fault .noVersionPoint (some (.versionDirective, start))
    else (readVersionPart start (c.skip 1)).map fun (minor, c) => (.version major minor, c)

def readTagHandle (start : Mark) (c : Cursor) : Except Fault (Directive × Cursor) :=
  let activity := some (Activity.tagDirective, start)
  match readHandle true start (c.skipAll isBlank) with
  | .error fault => .error fault
  | .ok (handle, c) =>
    if !c.atBlank then c.fault .noBlank activity
    else
      match readTagRest true true [] start (c.skipAll isBlank) with
      | .error fault => .error fault
      | .ok (suffix, c) =>
        if c.atGap 0 then .ok (.handle ⟨String.ofList handle, suffix⟩, c)
        else c.fault .noBlankOrBreak activity

-- A directive up to the end of its line; the cursor stands on its percent sign.
def readDirective (c : Cursor) : Except Fault (Directive × Cursor) :=
  let start := c.mark
  let activity := some (Activity.directive, start)
  let (name, c) := (c.skip 1).span isWord
  if name.isEmpty then c.fault .noDirectiveName activity
  else if !c.atGap 0 then c.fault .badDirectiveName activity
  else
    let body := match String.ofList name with
      | "YAML" => readVersion start c
      | "TAG" => readTagHandle start c
      | _ => c.fault .unknownDirective activity
    match body with
    | .error fault => .error fault
    | .ok (directive, c) =>
      let c := c.skipComment
      if c.atLineEnd then .ok (directive, c.skipBreak) else c.fault .noLineEnd activity

end Likeness.Yaml
