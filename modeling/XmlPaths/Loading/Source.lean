import XmlPaths.Markup.Document

/-!
# Sources of documents

* `Source`      what a document can be loaded from;
* `Reply`       what a loader says to a source: the loaded node, or why it can't load it;
* `loadNode`, `loadFile`, `loadBuffer`, `loadText`   the loaders for each kind of source.

A loader for one kind of source declines all others with an excuse.
-/

namespace XmlPaths

open Markup (Bytes Parser)

inductive Buffer where
  | bytes (content : Bytes)
  | text (content : List Char)
  | closed
deriving DecidableEq

inductive File where
  | content (bytes : Bytes)
  | missing
  | directory
deriving DecidableEq

/-- what a document is loaded from; `foreign` values are known to registered loaders only -/
inductive Source (ε : Type) where
  | nothing
  | node (n : Node)
  | file (f : File)
  | buffer (b : Buffer)
  | text (cs : List Char)
  | bytes (bs : Bytes)
  | foreign (value : ε)

/-- what breaks a loader off; `other` ones, with their class and text, come from registered
loaders -/
inductive Breakdown where
  | badValue
  | missingFile
  | isDirectory
  | other (kind text : String)
deriving DecidableEq

inductive Excuse where
  | declined (reason : String)
  | brokeOff (b : Breakdown)
deriving DecidableEq

/-- What a loader says to a source.  A loader that is registered may produce something else than a
node. -/
inductive Reply where
  | loaded (n : Node)
  | excused (e : Excuse)
  | unfit

namespace Source

variable {ε : Type}

def decline (reason : String) : Reply := .excused (.declined reason)

/-- the reply of a loader that reads markup, with what it says about malformed one -/
def ofReading (malformed : String) : Option Node → Reply
  | some n => .loaded n
  | none => decline malformed

def loadNode : Source ε → Parser → Reply
  | node n, _ => .loaded (n.withTail none)
  | _, _ => decline "The input value is not an lxml element or element tree."

/-- The document in a buffer.  Text that seems to declare an encoding is refused. -/
def readBuffer (parser : Parser) : Buffer → Reply
  | .bytes bs => ofReading "The buffer's content isn't well-formed" (parser.ofBytes? bs)
  | .text cs =>
    if Markup.namesEncoding cs then .excused (.brokeOff .badValue)
    else ofReading "The buffer's content isn't well-formed" (parser.ofText? cs)
  | .closed => .excused (.brokeOff .badValue)

def loadFile : Source ε → Parser → Reply
  | file (.content bs), parser => readBuffer parser (.bytes bs)
  | file .missing, _ => .excused (.brokeOff .missingFile)
  | file .directory, _ => .excused (.brokeOff .isDirectory)
  | _, _ => decline "The input value is not a pathlib.Path instance."

def loadBuffer : Source ε → Parser → Reply
  | buffer b, parser => readBuffer parser b
  | _, _ => decline "The input value is no buffer object."

/-- The document that a text or byte sequence is.  Text is read by way of its bytes in UTF-8, so
that an encoding that it declares counts. -/
def loadText : Source ε → Parser → Reply
  | text cs, parser => ofReading "The text isn't well-formed" (parser.ofBytes? (Markup.utf8 cs))
  | bytes bs, parser => ofReading "The text isn't well-formed" (parser.ofBytes? bs)
  | _, _ => decline "The input value is not a byte sequence or a string."

end Source

end XmlPaths
