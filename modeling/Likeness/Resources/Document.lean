import Likeness.Duplicates.Registry
import Likeness.Similarity.Score

namespace Likeness.Resources

open Duplicates Json Number Similarity

-- The value of a resource file.
structure Document where
  file : Files.Path
  value : Value

-- A value that is compared, and where it stands.
structure Place where
  value : Value
  file : Files.Path
  keyPath : String
  digest : String

-- The digest of a value, apart for whole documents and for the values in them.
def valueDigest (scope : String) (value : Value) : String := Digest.ofText (scope ++ value.text)

namespace Place

def kind (p : Place) : Similarity.Kind := .ofValue p.value

def occurrence (p : Place) : Occurrence := ⟨p.file, .keyPath p.keyPath, none⟩

def ofDocument (d : Document) : Place := ⟨d.value, d.file, "", valueDigest "document" d.value⟩

end Place

def joinKey (path key : String) : String := if path = "" then key else path ++ "." ++ key

-- The keys of the deepest places that are compared.
def depthLimit : Nat := 64

-- What a walk through a document meets.
inductive Visit where
  | place (p : Place)
  -- an object whose values are not visited, for its depth
  | tooDeep (keyPath : String) (file : Files.Path)

mutual

-- The fields of an object in the order of their keys, each before the fields of its own value.
def visitFields (file : Files.Path) (path : String) (depth : Nat) : List (String × Value) → List Visit
  | [] => []
  | (key, value) :: rest =>
    .place ⟨value, file, joinKey path key, valueDigest "value" value⟩ ::
      (visitBelow file (joinKey path key) (depth + 1) value ++ visitFields file path depth rest)

-- The fields of an object; nothing else has any.
def visitBelow (file : Files.Path) (path : String) (depth : Nat) : Value → List Visit
  | .object fields =>
    if depthLimit < depth then [.tooDeep path file] else visitFields file path depth fields
  | _ => []

end

def Document.visits (d : Document) : List Visit := visitBelow d.file "" 1 d.value

-- The values in all documents, in the order they are visited.
def catalogue (documents : List Document) : List Place :=
  (documents.flatMap Document.visits).filterMap fun
    | .place p => some p
    | .tooDeep _ _ => none

-- The notes on what was not visited.
def warnings (documents : List Document) : List String :=
  (documents.flatMap Document.visits).filterMap fun
    | .place _ => none
    | .tooDeep path file =>
      some s!"Key path {path} in {file.text} is nested deeper than {depthLimit}, not descending"

variable {α : Type} [Scalar α]

def isNumeric (p : Place) : Bool := (numeric? p.value).isSome

-- From which score on two values in documents are alike; none if they are not compared.
def cutoff? (o : Options α) (a b : Place) : Option α :=
  if a.kind = .object && !o.compareObjects then none
  else if a.kind = b.kind then some (o.thresholds.ofKind a.kind)
  else if !o.compareNumbers then none
  else
    match a.kind, b.kind with
    | .number, .string => if isNumeric b then some o.thresholds.number else none
    | .string, .number => if isNumeric a then some o.thresholds.number else none
    | _, _ => none

def finding (earlier current : Place) (similarity : α) : Finding α :=
  ⟨.resources, pairKey earlier.digest current.digest, .value earlier.value, similarity,
    [earlier.occurrence, current.occurrence]⟩

-- What is found for two whole documents.
def documentFinding? (o : Options α) (earlier current : Place) : Option (Finding α) :=
  let score := objectScore o false earlier.value current.value
  if Scalar.le o.thresholds.default score then some (finding earlier current score) else none

-- What is found for two values in documents.
def valueFinding? (o : Options α) (earlier current : Place) : Option (Finding α) :=
  match cutoff? o earlier current with
  | none => none
  | some cutoff =>
    let score := if current.kind = .object then objectScore o false earlier.value current.value
      else score o earlier.value current.value
    if Scalar.le cutoff score then some (finding earlier current score) else none

-- What is found for each place and those before it.
def findingsAmong (test : Place → Place → Option (Finding α)) (before : List Place) :
    List Place → List (Finding α)
  | [] => []
  | current :: rest =>
    before.filterMap (fun earlier => test earlier current) ++
      findingsAmong test (before ++ [current]) rest

-- What is found among whole documents.
def documentFindings (o : Options α) (documents : List Document) : List (Finding α) :=
  if o.compareObjects then
    findingsAmong (documentFinding? o) [] (documents.map Place.ofDocument)
  else []

-- What is found among the values in documents.
def valueFindings (o : Options α) (documents : List Document) : List (Finding α) :=
  findingsAmong (valueFinding? o) [] (catalogue documents)

end Likeness.Resources
