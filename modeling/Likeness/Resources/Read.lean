import Likeness.Files.Kind
import Likeness.Json.Reader
import Likeness.Scan.Failure
import Likeness.Yaml.Reader

namespace Likeness.Resources

open Json (Value)

-- The value of the text of a resource file, read as the extension of its path says.
def readValue (path text : String) : Except String Value :=
  match Files.formatOf path with
  | some .json => Value.read text
  | some .yaml => ((Yaml.Value.read text).mapError (·.message)).map (·.toJson)
  | none =>
    .error ("unsupported resource extension " ++ Text.quoted (Files.extensionOrEmpty path))

-- A resource file; one that is malformed is passed over.
def read (path text : String) : Except Scan.Skipped Value :=
  (readValue path text).mapError (.malformedResource path)

end Likeness.Resources
