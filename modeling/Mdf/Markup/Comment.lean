import Mdf.Error
import Mdf.Markup.Reference
import Mdf.Markup.Token
import Mdf.Text.Blank

/-!
# Comments

A comment is a document of which the elements without children are kept as fields: the name of the
root element, and for each name the text of the first element of that name that has any.  Names go
without the part before their first colon, and texts without blanks at either end.

`parse` reads a comment token by token, and `headerDocument` and `historyDocument` write the two
documents of a new file.
-/

namespace Mdf

/-- What a comment says. -/
structure Comment where
  /-- The name of the root element; empty in a plain comment. -/
  root : String
  /-- The fields, in the order of the document. -/
  fields : List (String × String)
deriving DecidableEq, Repr

namespace Comment

/-- The name of the field that holds the comment proper. -/
def textField : String := "TX"

/-- The comment of a plain text. -/
def plain (text : String) : Comment := ⟨"", [(textField, text)]⟩

def field? (c : Comment) (name : String) : Option String := c.fields.lookup name

/-- The comment proper. -/
def text? (c : Comment) : Option String := c.field? textField

/-- The comment with one more field, unless it has one of that name or the value is empty. -/
def addField (c : Comment) (name value : String) : Comment :=
  if value = "" ∨ (c.field? name).isSome then c
  else { c with fields := c.fields ++ [(name, value)] }

/-! ### Reading -/

/-- A name without the part before its first colon. -/
def localName (name : List Char) : String :=
  match name.dropWhile (· ≠ ':') with
  | _ :: s => String.ofList s
  | [] => String.ofList name

/-- A comment of which a part has been read. -/
structure Partial where
  /-- What has been found so far. -/
  comment : Comment
  /-- The names of the open elements, innermost first. -/
  stack : List (List Char)
  /-- The text since the last tag. -/
  text : String
deriving DecidableEq, Repr

namespace Partial

/-- Before the first token. -/
def start : Partial := ⟨⟨"", []⟩, [], ""⟩

/-- An element outside of all others is the root, unless there is a root with a name. -/
def noteRoot (p : Partial) (name : List Char) : Partial :=
  if p.comment.root = "" ∧ p.stack = [] then
    { p with comment := { p.comment with root := localName name } }
  else p

/-- One more token. -/
def step (p : Partial) : Markup.Token → Except MetadataError Partial
  | .char c => .ok { p with text := p.text.push c }
  | .verbatim s => .ok { p with text := p.text ++ String.ofList s }
  | .reference name =>
    match Markup.resolve? name with
    | some c => .ok { p with text := p.text.push c }
    | none => .error (.unknownEntity (String.ofList name))
  | .opening name =>
    let p := p.noteRoot name
    .ok { p with stack := name :: p.stack, text := "" }
  | .empty name => .ok (p.noteRoot name)
  | .closing name =>
    match p.stack with
    | top :: stack =>
      if top = name then
        .ok ⟨p.comment.addField (localName name) (Text.trim p.text), stack, ""⟩
      else .error .malformed
    | [] => .error .malformed
  | .defect => .error .malformed

/-- The comment, at the end of the document. -/
def finish (p : Partial) : Except MetadataError Comment :=
  match p.stack.getLast? with
  | some name => .error (.unclosedElement (localName name))
  | none => if p.comment.root = "" then .error .noRoot else .ok p.comment

end Partial

/-- Reads the tokens of a document. -/
def ofTokens (tokens : List Markup.Token) : Except MetadataError Comment := do
  let p ← tokens.foldlM Partial.step Partial.start
  p.finish

/-- Reads a document. -/
def parse (document : String) : Except Error Comment :=
  match ofTokens (Markup.tokens document) with
  | .ok c => .ok c
  | .error e => .error (.invalidMetadata e)

/-! ### Writing -/

/-- The namespace of the documents. -/
def xmlNamespace : String := "http://www.asam.net/mdf/v4"

/-- An element that holds a text. -/
def leaf (name text : String) : String :=
  "<" ++ name ++ ">" ++ Markup.escape text ++ "</" ++ name ++ ">"

/-- A document with the given root, of elements that hold the given texts. -/
def document (root : String) (fields : List (String × String)) : String :=
  "<" ++ root ++ " xmlns=\"" ++ xmlNamespace ++ "\">"
    ++ String.join (fields.map fun f => leaf f.1 f.2)
    ++ "</" ++ root ++ ">"

/-- The document of a file header. -/
def headerDocument (text : String) : String := document "HDcomment" [(textField, text)]

/-- The document of a history entry, which names a tool. -/
def historyDocument (text toolId toolVendor toolVersion : String) : String :=
  document "FHcomment"
    [(textField, text), ("tool_id", toolId), ("tool_vendor", toolVendor),
      ("tool_version", toolVersion)]

end Comment

end Mdf
