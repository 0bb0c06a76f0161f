namespace Likeness.Files

abbrev Bytes := List UInt8

def bytesOf (s : String) : Bytes := s.toList.flatMap String.utf8EncodeChar

-- What a path names: whether it starts at the root, and its parts. A point for the current
-- directory is a part only at the start of a relative path.
structure Steps where
  fromRoot : Bool
  parts : List String
deriving DecidableEq

-- The pieces of a text between slashes.
def splitSlashes (text : String) : List String :=
  let (pieces, last) := List.foldr
    (fun c (pieces, current) => if c = '/' then (String.ofList current :: pieces, [])
      else (pieces, c :: current)) ([], []) text.toList
  String.ofList last :: pieces

def stepsOf (path : String) : Steps :=
  let pieces := splitSlashes path
  let fromRoot := path.startsWith "/"
  let named := (pieces.filter (fun piece => piece != "" && piece != "."))
  if !fromRoot && pieces.head? == some "." then ⟨false, "." :: named⟩ else ⟨fromRoot, named⟩

-- Paths are compared by their steps: repeated slashes, inner points and a slash at the end do not
-- count.
def samePath (a b : String) : Bool := stepsOf a == stepsOf b

-- The way from one place to another, both given from the root: up to where they part, then down.
def wayTo : List String → List String → List String
  | step :: here, part :: there =>
    if step = part then wayTo here there
    else List.replicate (here.length + 1) ".." ++ part :: there
  | here, there => List.replicate here.length ".." ++ there

-- A path as it is seen from a directory: the way from there, unless the path is as short.
def seenFrom (current : List String) (path : String) : String :=
  let s := stepsOf path
  let parts := s.parts.filter (· != ".")
  let way := if s.fromRoot then wayTo current parts else parts
  if s.fromRoot && parts.length < way.length then path else String.intercalate "/" way

-- A path below a directory.
def join (directory name : String) : String :=
  if directory = "" then name
  else if directory.endsWith "/" then directory ++ name
  else directory ++ "/" ++ name

-- The last part of a path, unless it says to go up.
def nameOf (path : String) : Option String :=
  match (stepsOf path).parts.getLast? with
  | some name => if name = ".." || name = "." then none else some name
  | none => none

-- What follows the last point of a name. A point at the start of a name does not count.
def extensionOf (path : String) : Option String :=
  match nameOf path with
  | some name =>
    let reversed := name.toList.reverse
    let tail := reversed.takeWhile (· ≠ '.')
    if tail.length + 1 < reversed.length then some (String.ofList tail.reverse) else none
  | none => none

-- The extension with its Latin capitals made small.
def smallExtension? (path : String) : Option String :=
  (extensionOf path).map fun text => String.ofList (text.toList.map Char.toLower)

def extensionOrEmpty (path : String) : String := (smallExtension? path).getD ""

section Decoding

-- A character of which some bytes were read.
structure Partial where
  -- what they say of its number
  bits : Nat
  -- between which numbers the bytes to come have to be, the next one first
  due : List (Nat × Nat)
deriving DecidableEq

namespace Partial

def anyTail : Nat × Nat := (0x80, 0xBF)

-- The first byte of a character. Not every byte is one. A character with a shorter form and half of
-- a surrogate pair are turned away at the second byte.
def begin? (byte : Nat) : Option Partial :=
  if byte < 0x80 then some ⟨byte, []⟩
  else if byte < 0xC2 then none
  else if byte < 0xE0 then some ⟨byte % 32, [anyTail]⟩
  else if byte < 0xF0 then
    let low := if byte = 0xE0 then 0xA0 else 0x80
    let high := if byte = 0xED then 0x9F else 0xBF
    some ⟨byte % 16, [(low, high), anyTail]⟩
  else if byte < 0xF5 then
    let low := if byte = 0xF0 then 0x90 else 0x80
    let high := if byte = 0xF4 then 0x8F else 0xBF
    some ⟨byte % 8, [(low, high), anyTail, anyTail]⟩
  else none

-- The next byte of a character, if it can be one.
def add? (p : Partial) (byte : Nat) : Option Partial :=
  match p.due with
  | (low, high) :: due =>
    if low ≤ byte && byte ≤ high then some ⟨p.bits * 64 + byte % 64, due⟩ else none
  | [] => none

-- A character is written when no byte of it is due any more.
def settle (p : Partial) : List Char × Option Partial :=
  if p.due.isEmpty then ([Char.ofNat p.bits], none) else ([], some p)

end Partial

-- What stands for bytes that make no character.
def replacement : Char := '\uFFFD'

-- The characters that are written with a byte, and the one that is left open. A byte that cannot go
-- on with an open one breaks it off and begins another.
def readByte (pending : Option Partial) (byte : Nat) : List Char × Option Partial :=
  match pending.bind (·.add? byte) with
  | some p => p.settle
  | none =>
    let broken := if pending.isSome then [replacement] else []
    match Partial.begin? byte with
    | some p => (broken ++ p.settle.1, p.settle.2)
    | none => (broken ++ [replacement], none)

-- Bytes as a text. The bytes of a character that is broken off make one replacement together, and
-- each byte that begins no character makes one as well.
def decode : Option Partial → Bytes → List Char
  | none, [] => []
  | some _, [] => [replacement]
  | pending, byte :: rest =>
    (readByte pending byte.toNat).1 ++ decode (readByte pending byte.toNat).2 rest

end Decoding

-- A path as the system has it, which may hold any bytes.
structure Path where
  bytes : Bytes
deriving DecidableEq

namespace Path

def ofText (text : String) : Path := ⟨bytesOf text⟩

instance : Coe String Path := ⟨ofText⟩

-- A path as it is shown. Two paths may be shown alike.
def text (p : Path) : String := String.ofList (decode none p.bytes)

-- What a path names. The bytes of slashes and points stand for nothing else, so that each byte can
-- be taken for a character of its own.
def steps (p : Path) : Steps := stepsOf (String.ofList (p.bytes.map fun b => Char.ofNat b.toNat))

end Path

end Likeness.Files
