import CoopKernel.Path.Token

/-!
# Paths

A path in canonical form is absolute and is the list of the names that lead from the root to the
place it denotes; the root itself is the empty list. Every text denotes such a path: separators and
`.` say nothing, `..` goes to the parent, which for the root is the root, and a relative text is
read from the root. `Path.text` is the one written form of a path in canonical form: a slash before
every name, and a lone slash for the root.
-/

namespace CoopKernel

/-- A path in canonical form: the names from the root downwards. -/
structure Path where
  names : List Name
  deriving DecidableEq, Repr

namespace Path

/-- The root directory. -/
def root : Path := ⟨[]⟩

/-- The place with the given name in the directory at `p`. -/
def child (p : Path) (name : Name) : Path := ⟨p.names ++ [name]⟩

/-- The directory that holds the place at `p`; the root is its own parent. -/
def parent (p : Path) : Path := ⟨p.names.dropLast⟩

/-- The name of the place at `p` in its directory; the root has none. -/
def base? (p : Path) : Option Name := p.names.getLast?

/-- Where a token leads from `p`. -/
def follow (p : Path) : Token → Path
  | .separator => p
  | .current => p
  | .parent => p.parent
  | .name name => p.child name

/-- Where the text leads from the root. -/
def ofChars (text : List Char) : Path :=
  (lex text).foldl follow root

/-- Where the text leads from the root. -/
def ofText (text : String) : Path :=
  ofChars text.toList

/-- The written form: a slash before every name, and a lone slash for the root. -/
def chars (p : Path) : List Char :=
  if p.names = [] then ['/'] else p.names.flatMap fun n => '/' :: n.text.toList

/-- The written form: a slash before every name, and a lone slash for the root. -/
def text (p : Path) : String :=
  String.ofList p.chars

/-- The number of bytes of the written form. -/
def size (p : Path) : Nat :=
  (Utf8.encode p.chars).length

/-- Paths are ordered by their written forms. -/
def before (p q : Path) : Bool :=
  p.text < q.text

/-- Where a text leads from a base directory. An absolute text does not depend on the base. -/
def resolve (base text : String) : Path :=
  if text.toList.head? = some '/' then ofText text else ofText (base ++ "/" ++ text)

/-- The most bytes of a path that a process can pass to the kernel. -/
def maxSize : Nat := 63

/-- A text is accepted as a path if it has 1 to `maxSize` bytes and no NUL. -/
def accepts (text : String) : Bool :=
  text ≠ "" && Utf8.size text ≤ maxSize && !text.toList.contains '\x00'

end Path

/-! ## The same on texts -/

/-- The canonical form of a path. -/
def normalise (text : String) : String :=
  (Path.ofText text).text

/-- The canonical form of a path read from a base directory. -/
def join (base text : String) : String :=
  (Path.resolve base text).text

/-- The directory and the name of a path; the name of the root is empty. -/
def split (text : String) : String × String :=
  let p := Path.ofText text
  (p.parent.text, (p.base?.map Name.text).getD "")

end CoopKernel
