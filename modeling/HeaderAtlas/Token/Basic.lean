/-!
# Tokens

Tokens are classified pieces of C text. They carry no position: the source they
come from is asked for the current line.
-/

namespace HeaderAtlas

/-- The class of a token. -/
inductive TokenClass where
  /-- An identifier, a keyword, a number or `...`. -/
  | name
  /-- An operator of one or two characters. -/
  | operator
  /-- One of `(){}[]:;,`. -/
  | separator
  /-- The inside of a string or character literal. -/
  | string
  /-- The inside of a comment. -/
  | comment
  /-- A word of a preprocessor line. -/
  | directive
deriving DecidableEq, Inhabited, Repr

/-- The class in a message. -/
def TokenClass.label : TokenClass → String
  | name => "name"
  | operator => "op"
  | separator => "sep"
  | string => "string"
  | comment => "comment"
  | directive => "preproc"

/-- Every class. -/
def TokenClass.all : List TokenClass := [name, operator, separator, string, comment, directive]

/-- A classified piece of text. -/
structure Token where
  cls : TokenClass
  text : String
deriving DecidableEq, Inhabited, Repr

namespace Token

/-- A token of the given characters. -/
def ofChars (cls : TokenClass) (cs : List Char) : Token := ⟨cls, String.ofList cs⟩

/-- The token in a message: `name 'x'`. -/
def describe (t : Token) : String := t.cls.label ++ " '" ++ t.text ++ "'"

/-- Is the token a name? -/
def isName (t : Token) : Bool := t.cls == .name

/-- Is the token this very name? -/
def isWord (word : String) (t : Token) : Bool := t.cls == .name && t.text == word

/-- Is the token this very separator? -/
def isSep (sep : String) (t : Token) : Bool := t.cls == .separator && t.text == sep

/-- Is the token this very operator? -/
def isOp (op : String) (t : Token) : Bool := t.cls == .operator && t.text == op

end Token

end HeaderAtlas
