import CoopKernel.Text.Utf8

/-!
# Lexing paths

A path is a sequence of maximal runs: runs of slashes, which separate, and runs of other characters,
which are components. Of the components, `.` and `..` stand for the current and the parent
directory, and every other one is a name. A `Name` carries what makes it one, so that a path built
from names is in canonical form by its type.
-/

namespace CoopKernel

/-- The characters form a name: there is at least one, none is a slash, and they are neither `.` nor
`..`. -/
def IsName (chars : List Char) : Prop :=
  chars ≠ [] ∧ '/' ∉ chars ∧ chars ≠ ['.'] ∧ chars ≠ ['.', '.']

instance (chars : List Char) : Decidable (IsName chars) :=
  inferInstanceAs (Decidable (_ ∧ _))

/-- The name of something in a directory. -/
structure Name where
  text : String
  isName : IsName text.toList
  deriving DecidableEq, Repr

namespace Name

/-- The name with the given characters, if they form one. -/
def ofChars? (chars : List Char) : Option Name :=
  if h : IsName chars then some ⟨String.ofList chars, by simpa using h⟩ else none

theorem ext_text {a b : Name} (h : a.text = b.text) : a = b := by
  cases a
  cases b
  cases h
  rfl

end Name

/-- A maximal run of slashes or of other characters. -/
inductive Run where
  /-- As many slashes as given, and one more. -/
  | slashes (more : Nat)
  /-- A component. -/
  | component (chars : List Char) (proper : chars ≠ [] ∧ '/' ∉ chars)
  deriving Repr

namespace Run

/-- The characters of a run. -/
def chars : Run → List Char
  | slashes more => List.replicate (more + 1) '/'
  | component chars _ => chars

/-- Puts a slash in front. -/
def consSlash : List Run → List Run
  | slashes more :: runs => slashes (more + 1) :: runs
  | runs => slashes 0 :: runs

/-- Puts a character that is no slash in front. -/
def consOther (c : Char) (h : c ≠ '/') : List Run → List Run
  | component chars proper :: runs =>
    component (c :: chars) ⟨by simp, by simp [proper.2, h.symm]⟩ :: runs
  | runs => component [c] ⟨by simp, by simp [h.symm]⟩ :: runs

/-- The maximal runs of a text, in order. -/
def ofChars : List Char → List Run
  | [] => []
  | c :: cs => if h : c = '/' then consSlash (ofChars cs) else consOther c h (ofChars cs)

end Run

/-- A unit of a path. -/
inductive Token where
  /-- One or more slashes. -/
  | separator
  /-- The component `.`. -/
  | current
  /-- The component `..`. -/
  | parent
  /-- Any other component. -/
  | name (name : Name)
  deriving DecidableEq, Repr

namespace Token

/-- What a component stands for. -/
def ofComponent (chars : List Char) (proper : chars ≠ [] ∧ '/' ∉ chars) : Token :=
  if hc : chars = ['.'] then current
  else if hp : chars = ['.', '.'] then parent
  else name ⟨String.ofList chars, by simpa using ⟨proper.1, proper.2, hc, hp⟩⟩

/-- What a run stands for. -/
def ofRun : Run → Token
  | .slashes _ => separator
  | .component chars proper => ofComponent chars proper

end Token

/-- The tokens of a text, in order. -/
def lex (text : List Char) : List Token :=
  (Run.ofChars text).map Token.ofRun

/-- A token with the bytes that it takes, from `start` up to and not including `stop`. -/
structure Lexeme where
  token : Token
  start : Nat
  stop : Nat
  deriving DecidableEq, Repr

namespace Lexeme

/-- Places runs one after the other, the first at `start`. -/
def place (start : Nat) : List Run → List Lexeme
  | [] => []
  | run :: runs =>
    let stop := start + (Utf8.encode run.chars).length
    ⟨Token.ofRun run, start, stop⟩ :: place stop runs

/-- The tokens of a text with the bytes that they take. -/
def ofText (text : String) : List Lexeme :=
  place 0 (Run.ofChars text.toList)

end Lexeme

end CoopKernel
