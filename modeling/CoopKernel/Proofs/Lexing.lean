import CoopKernel.Proofs.Path
import CoopKernel.Proofs.Text.Utf8
import Mathlib.Data.List.Chain

/-!
# Lexing by patterns

Each kind of token has a pattern, and the patterns overlap: a dot is what the current directory looks like and what a
name looks like, and so are the first characters of a longer name. `Lexes` tells what becomes of a text under the usual
rule that the longest match counts, and among matches of one length the pattern of the greatest priority. This comes to
cutting the text into its maximal runs of slashes and of other characters: a match never reaches past the end of a run,
since none of the patterns has both slashes and other characters, and some pattern reaches to it.
-/

namespace CoopKernel

/-! ## The rule -/

/-- What a kind of token looks like. -/
inductive Pattern where
  | separator | current | parent | name
  deriving DecidableEq, Repr

namespace Pattern

/-- The characters have the form of such a token. -/
def Matches : Pattern → List Char → Prop
  | separator, piece => piece ≠ [] ∧ ∀ c ∈ piece, c = '/'
  | current, piece => piece = ['.']
  | parent, piece => piece = ['.', '.']
  | name, piece => piece ≠ [] ∧ '/' ∉ piece

/-- What decides between patterns that match the same characters: two for each character that a pattern asks for, and
one for that of names, which asks for none. -/
def priority : Pattern → Nat
  | separator | current => 2
  | parent => 4
  | name => 1

/-- The token for characters that match. -/
def token? : Pattern → List Char → Option Token
  | separator, _ => some .separator
  | current, _ => some .current
  | parent, _ => some .parent
  | name, piece => (Name.ofChars? piece).map .name

/-- The pattern takes a piece from the front of a text, and leaves the rest: no pattern matches more, and no pattern of
as great a priority matches the same. -/
structure Takes (pattern : Pattern) (piece rest : List Char) : Prop where
  ofForm : pattern.Matches piece
  longest : ∀ (other : Pattern) (longer : List Char), longer <+: piece ++ rest → other.Matches longer →
    longer.length ≤ piece.length
  preferred : ∀ other : Pattern, other ≠ pattern → other.Matches piece → other.priority < pattern.priority

end Pattern

/-- The tokens of a text of which so many bytes are behind, each with the bytes that it takes. -/
inductive Lexes : Nat → List Char → List Lexeme → Prop
  | nil (start : Nat) : Lexes start [] []
  | cons {start : Nat} {pattern : Pattern} {piece rest : List Char} {token : Token} {lexemes : List Lexeme} :
      pattern.Takes piece rest → pattern.token? piece = some token →
      Lexes (start + (Utf8.encode piece).length) rest lexemes →
      Lexes start (piece ++ rest) (⟨token, start, start + (Utf8.encode piece).length⟩ :: lexemes)

namespace Pattern

variable {p q : Pattern} {piece rest piece' rest' : List Char}

theorem Matches.ne_nil (h : p.Matches piece) : piece ≠ [] := by
  cases p with
  | separator => exact h.1
  | current =>
    intro hempty
    rw [show piece = ['.'] from h] at hempty
    cases hempty
  | parent =>
    intro hempty
    rw [show piece = ['.', '.'] from h] at hempty
    cases hempty
  | name => exact h.1

/-- No pattern matches a slash together with another character. -/
theorem Matches.uniform (h : p.Matches piece) : ∀ c ∈ piece, ∀ d ∈ piece, (c = '/' ↔ d = '/') := by
  intro c hc d hd
  cases p with
  | separator => simp [h.2 c hc, h.2 d hd]
  | current =>
    rw [show piece = ['.'] from h] at hc hd
    simp [List.mem_singleton.mp hc, List.mem_singleton.mp hd]
  | parent =>
    have hdots : ∀ c ∈ piece, c = '.' := by
      intro c hc
      rw [show piece = ['.', '.'] from h] at hc
      simpa using hc
    simp [hdots c hc, hdots d hd]
  | name =>
    have hother : ∀ c ∈ piece, c ≠ '/' := by
      rintro c hc rfl
      exact h.2 hc
    simp [hother c hc, hother d hd]

/-- At most one pattern takes something from a text, and it takes one piece. -/
theorem Takes.unique (h : p.Takes piece rest) (h' : q.Takes piece' rest') (htext : piece ++ rest = piece' ++ rest') :
    p = q ∧ piece = piece' ∧ rest = rest' := by
  have hle : piece'.length ≤ piece.length :=
    h.longest q piece' (htext ▸ List.prefix_append piece' rest') h'.ofForm
  have hge : piece.length ≤ piece'.length :=
    h'.longest p piece (htext ▸ List.prefix_append piece rest) h.ofForm
  obtain ⟨rfl, rfl⟩ := List.append_inj htext (Nat.le_antisymm hge hle)
  refine ⟨?_, rfl, rfl⟩
  by_contra hne
  have hlt := h.preferred q (Ne.symm hne) h'.ofForm
  have hgt := h'.preferred p hne h.ofForm
  omega

end Pattern

/-- A text is lexed in at most one way. -/
theorem Lexes.unique {start : Nat} {text : List Char} {lexemes others : List Lexeme} (h : Lexes start text lexemes)
    (h' : Lexes start text others) : lexemes = others := by
  induction h generalizing others with
  | nil start =>
    generalize htext : ([] : List Char) = text at h'
    cases h' with
    | nil => rfl
    | cons htakes => exact absurd (List.append_eq_nil_iff.mp htext.symm).1 htakes.ofForm.ne_nil
  | @cons start pattern piece rest token lexemes htakes htoken hrest ih =>
    generalize htext : piece ++ rest = text at h'
    cases h' with
    | nil => exact absurd (List.append_eq_nil_iff.mp htext).1 htakes.ofForm.ne_nil
    | cons htakes' htoken' hrest' =>
      obtain ⟨rfl, rfl, rfl⟩ := htakes.unique htakes' htext
      cases htoken.symm.trans htoken'
      rw [ih hrest']

/-! ## Runs -/

/-- A piece of a text is a maximal run: of slashes, or of other characters. -/
structure MaximalRun (before piece after : List Char) : Prop where
  nonempty : piece ≠ []
  uniform : ∀ c ∈ piece, ∀ d ∈ piece, (c = '/' ↔ d = '/')
  left : ∀ c ∈ before.getLast?, ∀ d ∈ piece, ¬(c = '/' ↔ d = '/')
  right : ∀ c ∈ after.head?, ∀ d ∈ piece, ¬(c = '/' ↔ d = '/')

namespace Run

/-- The run is one of slashes. -/
def isSlashes : Run → Bool
  | slashes _ => true
  | component .. => false

theorem chars_ne_nil (run : Run) : run.chars ≠ [] := by
  cases run with
  | slashes more => simp [chars]
  | component chars proper => exact proper.1

theorem not_all_slashes {chars : List Char} (proper : chars ≠ [] ∧ '/' ∉ chars) : ¬∀ c ∈ chars, c = '/' := by
  intro hall
  obtain ⟨c, hc⟩ := List.exists_mem_of_ne_nil chars proper.1
  exact proper.2 (hall c hc ▸ hc)

theorem mem_chars {run : Run} {c : Char} (hc : c ∈ run.chars) : c = '/' ↔ run.isSlashes = true := by
  cases run with
  | slashes more => simp [isSlashes, (List.mem_replicate.mp hc).2]
  | component chars proper =>
    have hne : c ≠ '/' := by
      rintro rfl
      exact proper.2 hc
    simp [isSlashes, hne]

/-- No run is followed by one of its kind. -/
def Alternate (runs : List Run) : Prop :=
  runs.IsChain fun run next => run.isSlashes ≠ next.isSlashes

theorem alternate_ofChars (text : List Char) : Alternate (ofChars text) := by
  unfold Alternate
  induction text with
  | nil => exact List.IsChain.nil
  | cons c cs ih =>
    rw [ofChars]
    split
    · cases hruns : ofChars cs with
      | nil => exact List.isChain_singleton _
      | cons run runs =>
        rw [hruns] at ih
        cases run with
        | slashes more =>
          rw [consSlash]
          cases runs with
          | nil => exact List.isChain_singleton _
          | cons next runs => simpa [isSlashes] using ih
        | component chars proper => exact List.isChain_cons_cons.mpr ⟨by simp [isSlashes], ih⟩
    · cases hruns : ofChars cs with
      | nil => exact List.isChain_singleton _
      | cons run runs =>
        rw [hruns] at ih
        cases run with
        | slashes more => exact List.isChain_cons_cons.mpr ⟨by simp [isSlashes], ih⟩
        | component chars proper =>
          rw [consOther]
          cases runs with
          | nil => exact List.isChain_singleton _
          | cons next runs => simpa [isSlashes] using ih

/-- What follows a run begins with a character of the other kind. -/
theorem Alternate.head?_rest {run : Run} {runs : List Run} (h : Alternate (run :: runs)) {c : Char}
    (hc : c ∈ (runs.flatMap chars).head?) : ¬(c = '/' ↔ run.isSlashes = true) := by
  cases runs with
  | nil => cases hc
  | cons next runs =>
    have hne := (List.isChain_cons_cons.mp h).1
    have hmem : c ∈ next.chars := by
      obtain ⟨d, ds, hchars⟩ := List.exists_cons_of_ne_nil next.chars_ne_nil
      rw [List.flatMap_cons, hchars] at hc
      simp only [List.cons_append, List.head?_cons, Option.mem_some_iff] at hc
      rw [hchars, hc]
      exact List.mem_cons_self
    rw [mem_chars hmem]
    intro hiff
    exact hne (Bool.eq_iff_iff.mpr hiff.symm)

/-- Two pieces of one kind of character at the front of a text are the same if neither goes on. -/
theorem eq_of_maximal {piece rest piece' rest' : List Char} (htext : piece ++ rest = piece' ++ rest')
    {kind : Prop} (hpiece : ∀ c ∈ piece, (c = '/' ↔ kind)) (hpiece' : ∀ c ∈ piece', (c = '/' ↔ kind))
    (hrest : ∀ c ∈ rest.head?, ¬(c = '/' ↔ kind)) (hrest' : ∀ c ∈ rest'.head?, ¬(c = '/' ↔ kind)) :
    piece = piece' ∧ rest = rest' := by
  induction piece generalizing piece' with
  | nil =>
    cases piece' with
    | nil => exact ⟨rfl, htext⟩
    | cons c piece' =>
      rw [List.nil_append] at htext
      rw [htext] at hrest
      exact absurd (hpiece' c List.mem_cons_self) (hrest c rfl)
  | cons c piece ih =>
    cases piece' with
    | nil =>
      rw [List.nil_append] at htext
      rw [← htext] at hrest'
      exact absurd (hpiece c List.mem_cons_self) (hrest' c rfl)
    | cons d piece' =>
      obtain ⟨rfl, hbehind⟩ := List.cons.inj htext
      obtain ⟨rfl, rfl⟩ := ih hbehind (List.forall_mem_of_forall_mem_cons hpiece)
        (List.forall_mem_of_forall_mem_cons hpiece')
      exact ⟨rfl, rfl⟩

/-- Every run is a maximal one. -/
theorem maximalRun_of_mem {before after : List Run} {run : Run} (h : Alternate (before ++ run :: after)) :
    MaximalRun (before.flatMap chars) run.chars (after.flatMap chars) := by
  obtain ⟨-, hafter, hbetween⟩ := List.isChain_append.mp h
  refine ⟨run.chars_ne_nil, ?_, ?_, ?_⟩
  · intro c hc d hd
    rw [mem_chars hc, mem_chars hd]
  · intro c hc d hd
    rcases List.eq_nil_or_concat before with rfl | ⟨init, last, rfl⟩
    · cases hc
    · have hmem : c ∈ last.chars := by
        rw [List.concat_eq_append, List.flatMap_append, List.flatMap_singleton, List.getLast?_append_of_ne_nil _
          last.chars_ne_nil] at hc
        exact List.mem_of_getLast? hc
      have hne := hbetween last (by simp) run (by simp)
      rw [mem_chars hmem, mem_chars hd]
      intro hiff
      exact hne (Bool.eq_iff_iff.mpr hiff)
  · intro c hc d hd
    rw [mem_chars hd]
    exact Alternate.head?_rest hafter hc

/-- Every maximal run of a text is among its runs. -/
theorem exists_run_of_maximalRun {runs : List Run} (h : Alternate runs) {before piece after : List Char}
    (hmax : MaximalRun before piece after) (htext : runs.flatMap chars = before ++ piece ++ after) :
    ∃ earlier run later, runs = earlier ++ run :: later ∧ earlier.flatMap chars = before ∧ run.chars = piece := by
  obtain ⟨d, hd⟩ := List.exists_mem_of_ne_nil piece hmax.nonempty
  induction runs generalizing before with
  | nil =>
    have hempty := List.append_eq_nil_iff.mp htext.symm
    exact absurd (List.append_eq_nil_iff.mp hempty.1).2 hmax.nonempty
  | cons run runs ih =>
    have hskip : ∀ more, before = run.chars ++ more → runs.flatMap chars = more ++ piece ++ after →
        ∃ earlier run' later, run :: runs = earlier ++ run' :: later ∧ earlier.flatMap chars = before ∧
          run'.chars = piece := by
      rintro more rfl hrest
      have hleft : ∀ c ∈ more.getLast?, ∀ d ∈ piece, ¬(c = '/' ↔ d = '/') := by
        intro c hc
        exact hmax.left c (by rw [List.getLast?_append, hc]; rfl)
      obtain ⟨earlier, run', later, rfl, rfl, rfl⟩ :=
        ih h.tail ⟨hmax.nonempty, hmax.uniform, hleft, hmax.right⟩ hrest
      exact ⟨run :: earlier, run', later, rfl, rfl, rfl⟩
    rw [List.flatMap_cons, List.append_assoc] at htext
    rcases List.append_eq_append_iff.mp htext with ⟨more, hbefore, hrest⟩ | ⟨more, hrun, hrest⟩
    · exact hskip more hbefore (by rw [hrest, List.append_assoc])
    · -- The piece starts in the run or right behind it; in the run, it is the run itself.
      obtain ⟨first, others, hpiece⟩ := List.exists_cons_of_ne_nil hmax.nonempty
      have hfirst : first ∈ piece := by simp [hpiece]
      rcases more with - | ⟨e, more⟩
      · rw [List.append_nil] at hrun
        exact hskip [] (by rw [hrun, List.append_nil]) (by simpa using hrest.symm)
      · have he : e = first := by
          rw [hpiece] at hrest
          exact (List.cons.inj hrest).1.symm
        have hkind : first = '/' ↔ run.isSlashes = true := mem_chars (by simp [hrun, he])
        rcases List.eq_nil_or_concat before with rfl | ⟨init, last, rfl⟩
        · have hpieces : ∀ c ∈ piece, (c = '/' ↔ run.isSlashes = true) := by
            intro c hc
            rw [← hkind]
            exact hmax.uniform c hc first hfirst
          have hright : ∀ c ∈ after.head?, ¬(c = '/' ↔ run.isSlashes = true) := by
            intro c hc
            rw [← hkind]
            exact hmax.right c hc first hfirst
          have hwhole : run.chars ++ runs.flatMap chars = piece ++ after := htext
          obtain ⟨hchars, -⟩ := eq_of_maximal hwhole (fun _ => mem_chars) hpieces (fun _ => h.head?_rest) hright
          exact ⟨[], run, runs, rfl, rfl, hchars⟩
        · have hlast : last = '/' ↔ run.isSlashes = true := mem_chars (by simp [hrun])
          exact absurd (hlast.trans hkind.symm) (hmax.left last (by simp) first hfirst)

/-- No pattern matches more than a run that is followed by characters of the other kind. -/
theorem longest_chars {run : Run} {rest longer : List Char} {p : Pattern}
    (hrest : ∀ c ∈ rest.head?, ¬(c = '/' ↔ run.isSlashes = true)) (hlonger : longer <+: run.chars ++ rest)
    (hp : p.Matches longer) : longer.length ≤ run.chars.length := by
  rcases Nat.le_total longer.length run.chars.length with hle | hge
  · exact hle
  · obtain ⟨more, rfl⟩ := List.prefix_of_prefix_length_le (List.prefix_append run.chars rest) hlonger hge
    cases more with
    | nil => simp
    | cons c more =>
      -- The pattern would match a character of the run together with the one behind it.
      obtain ⟨others, rfl⟩ := (List.prefix_append_right_inj run.chars).mp hlonger
      obtain ⟨d, hd⟩ := List.exists_mem_of_ne_nil run.chars run.chars_ne_nil
      have hkind := hp.uniform c (by simp) d (List.mem_append_left _ hd)
      rw [mem_chars hd] at hkind
      exact absurd hkind (hrest c rfl)

/-- Some pattern takes the run that a text begins with, and gives its token. -/
theorem Alternate.exists_takes {run : Run} {runs : List Run} (h : Alternate (run :: runs)) :
    ∃ p : Pattern, p.Takes run.chars (runs.flatMap chars) ∧ p.token? run.chars = some (Token.ofRun run) := by
  have hlongest : ∀ (other : Pattern) (longer : List Char), longer <+: run.chars ++ runs.flatMap chars →
      other.Matches longer → longer.length ≤ run.chars.length := by
    intro other longer
    exact longest_chars fun c => h.head?_rest
  cases run with
  | slashes more =>
    refine ⟨.separator, ⟨⟨by simp [chars], by simp [chars]⟩, hlongest, ?_⟩, rfl⟩
    intro other hne hother
    have hslash : '/' ∈ (slashes more).chars := by simp [chars]
    cases other with
    | separator => exact absurd rfl hne
    | current => simp [show (slashes more).chars = ['.'] from hother] at hslash
    | parent => simp [show (slashes more).chars = ['.', '.'] from hother] at hslash
    | name => exact absurd hslash hother.2
  | component cs proper =>
    have hseparator : ¬Pattern.separator.Matches cs := by
      rintro ⟨-, hall⟩
      exact not_all_slashes proper hall
    rw [Token.ofRun, Token.ofComponent]
    split_ifs with hcurrent hparent
    · refine ⟨.current, ⟨hcurrent, hlongest, ?_⟩, rfl⟩
      intro other hne hother
      cases other with
      | separator => exact absurd hother hseparator
      | current => exact absurd rfl hne
      | parent => cases hcurrent.symm.trans (show cs = ['.', '.'] from hother)
      | name => simp [Pattern.priority]
    · refine ⟨.parent, ⟨hparent, hlongest, ?_⟩, rfl⟩
      intro other hne hother
      cases other with
      | separator => exact absurd hother hseparator
      | current => cases hparent.symm.trans (show cs = ['.'] from hother)
      | parent => exact absurd rfl hne
      | name => simp [Pattern.priority]
    · refine ⟨.name, ⟨proper, hlongest, ?_⟩, ?_⟩
      · intro other hne hother
        cases other with
        | separator => exact absurd hother hseparator
        | current => exact absurd hother hcurrent
        | parent => exact absurd hother hparent
        | name => exact absurd rfl hne
      · have hname : IsName cs := ⟨proper.1, proper.2, hcurrent, hparent⟩
        simp [Pattern.token?, Name.ofChars?, chars, hname]

/-- Runs that alternate are lexed one by one. -/
theorem Alternate.lexes {runs : List Run} (h : Alternate runs) (start : Nat) :
    Lexes start (runs.flatMap chars) (Lexeme.place start runs) := by
  induction runs generalizing start with
  | nil => exact .nil start
  | cons run runs ih =>
    obtain ⟨p, htakes, htoken⟩ := h.exists_takes
    rw [List.flatMap_cons, Lexeme.place]
    exact .cons htakes htoken (ih h.tail _)

end Run

/-! ## Tokens -/

/-- What a token says about the characters that it stands for. -/
structure Token.StandsFor (token : Token) (piece : List Char) : Prop where
  separator : token = .separator ↔ ∀ c ∈ piece, c = '/'
  current : token = .current ↔ piece = ['.']
  parent : token = .parent ↔ piece = ['.', '.']
  name : ∀ name : Name, token = .name name ↔ name.text.toList = piece

namespace Token

theorem eq_separator_iff (run : Run) : ofRun run = separator ↔ run.isSlashes = true := by
  cases run with
  | slashes more => simp [ofRun, Run.isSlashes]
  | component chars proper =>
    rw [ofRun, ofComponent]
    split_ifs <;> simp [Run.isSlashes]

theorem standsFor_ofRun (run : Run) : (ofRun run).StandsFor run.chars := by
  cases run with
  | slashes more =>
    have hslash : '/' ∈ (Run.slashes more).chars := by simp [Run.chars]
    refine ⟨by simp [ofRun, Run.chars], ?_, ?_, ?_⟩
    · simp only [ofRun, reduceCtorEq, false_iff]
      intro hchars
      simp [hchars] at hslash
    · simp only [ofRun, reduceCtorEq, false_iff]
      intro hchars
      simp [hchars] at hslash
    · intro name
      simp only [ofRun, reduceCtorEq, false_iff]
      intro hchars
      exact name.isName.2.1 (hchars ▸ hslash)
  | component chars proper =>
    have hother := Run.not_all_slashes proper
    rw [ofRun, ofComponent, Run.chars]
    split_ifs with hcurrent hparent
    · refine ⟨by simpa using hother, by simpa using hcurrent, by simp [hcurrent], ?_⟩
      intro name
      simpa [hcurrent] using name.isName.2.2.1
    · refine ⟨by simpa using hother, by simp [hparent], by simpa using hparent, ?_⟩
      intro name
      simpa [hparent] using name.isName.2.2.2
    · refine ⟨by simpa using hother, by simpa using hcurrent, by simpa using hparent, ?_⟩
      intro name
      constructor
      · intro hname
        rw [← Token.name.inj hname]
        exact String.toList_ofList
      · rintro rfl
        simp

/-- The characters determine the token. -/
theorem StandsFor.unique {token other : Token} {piece : List Char} (h : token.StandsFor piece)
    (h' : other.StandsFor piece) : token = other := by
  cases token with
  | separator => exact (h'.separator.mpr (h.separator.mp rfl)).symm
  | current => exact (h'.current.mpr (h.current.mp rfl)).symm
  | parent => exact (h'.parent.mpr (h.parent.mp rfl)).symm
  | name name => exact ((h'.name name).mpr ((h.name name).mp rfl)).symm

end Token

namespace Lexeme

/-- Tokens that take the bytes from one place up to another: each begins where the one before it ends, and takes some
byte. -/
def Covers (start : Nat) : List Lexeme → Nat → Prop
  | [], stop => start = stop
  | l :: lexemes, stop => l.start = start ∧ l.start < l.stop ∧ Covers l.stop lexemes stop

theorem covers_place (start : Nat) (runs : List Run) :
    Covers start (place start runs) (start + (Utf8.encode (runs.flatMap Run.chars)).length) := by
  induction runs generalizing start with
  | nil => rfl
  | cons run runs ih =>
    have hsize : 0 < (Utf8.encode run.chars).length := by
      have hlength := (Utf8.length_encode run.chars).1
      have hpos := List.length_pos_iff.mpr run.chars_ne_nil
      omega
    refine ⟨rfl, Nat.lt_add_of_pos_right hsize, ?_⟩
    have hrest := ih (start + (Utf8.encode run.chars).length)
    rw [Nat.add_assoc, ← List.length_append, ← Utf8.encode_append] at hrest
    exact hrest

theorem map_token_place (start : Nat) (runs : List Run) : (place start runs).map token = runs.map Token.ofRun := by
  induction runs generalizing start with
  | nil => rfl
  | cons run runs ih => rw [place, List.map_cons, List.map_cons, ih]

/-- Each token takes the bytes of one run, which begin behind those of the runs before it. -/
theorem mem_place {start : Nat} {runs : List Run} {l : Lexeme} :
    l ∈ place start runs ↔ ∃ earlier run later, runs = earlier ++ run :: later ∧
      l = ⟨Token.ofRun run, start + (Utf8.encode (earlier.flatMap Run.chars)).length,
        start + (Utf8.encode (earlier.flatMap Run.chars ++ run.chars)).length⟩ := by
  induction runs generalizing start with
  | nil => simp [place]
  | cons run runs ih =>
    rw [place, List.mem_cons, ih]
    constructor
    · rintro (rfl | ⟨earlier, run', later, rfl, rfl⟩)
      · exact ⟨[], run, runs, rfl, rfl⟩
      · refine ⟨run :: earlier, run', later, rfl, ?_⟩
        simp [Utf8.encode_append, Nat.add_assoc]
    · rintro ⟨earlier, run', later, hruns, rfl⟩
      cases earlier with
      | nil =>
        obtain ⟨rfl, rfl⟩ := List.cons.inj hruns
        exact .inl rfl
      | cons first earlier =>
        obtain ⟨rfl, rfl⟩ := List.cons.inj hruns
        refine .inr ⟨earlier, run', later, rfl, ?_⟩
        simp [Utf8.encode_append, Nat.add_assoc]

end Lexeme

/-- Lexing cuts a text into its maximal runs of slashes and of other characters, and gives each the token that it stands
for; and that is what the rule of the longest match and the greatest priority makes of the text. -/
theorem lexing_partitions_text (text : String) :
    Lexeme.Covers 0 (Lexeme.ofText text) (Utf8.size text) ∧
      (Lexeme.ofText text).IsChain (fun l next => ¬(l.token = .separator ↔ next.token = .separator)) ∧
      (∀ l, l ∈ Lexeme.ofText text ↔ ∃ before piece after, text.toList = before ++ piece ++ after ∧
        MaximalRun before piece after ∧ l.start = (Utf8.encode before).length ∧
        l.stop = (Utf8.encode (before ++ piece)).length ∧ l.token.StandsFor piece) ∧
      (∀ lexemes, Lexes 0 text.toList lexemes ↔ lexemes = Lexeme.ofText text) ∧
      (Lexeme.ofText text).map Lexeme.token = lex text.toList := by
  have htext := Run.flatMap_chars_ofChars text.toList
  have halternate := Run.alternate_ofChars text.toList
  refine ⟨?_, ?_, ?_, ?_, Lexeme.map_token_place 0 _⟩
  · have hcovers := Lexeme.covers_place 0 (Run.ofChars text.toList)
    rw [htext, Nat.zero_add] at hcovers
    exact hcovers
  · have htokens : ((Lexeme.ofText text).map Lexeme.token).IsChain
        (fun token next => ¬(token = .separator ↔ next = .separator)) := by
      rw [Lexeme.ofText, Lexeme.map_token_place]
      apply List.isChain_map_of_isChain Token.ofRun ?_ halternate
      intro run next hne
      rw [Token.eq_separator_iff, Token.eq_separator_iff]
      intro hiff
      exact hne (Bool.eq_iff_iff.mpr hiff)
    exact (List.isChain_map Lexeme.token).mp htokens
  · intro l
    rw [Lexeme.ofText, Lexeme.mem_place]
    constructor
    · rintro ⟨earlier, run, later, hruns, rfl⟩
      rw [hruns] at htext halternate
      refine ⟨earlier.flatMap Run.chars, run.chars, later.flatMap Run.chars, ?_, Run.maximalRun_of_mem halternate,
        Nat.zero_add _, Nat.zero_add _, Token.standsFor_ofRun run⟩
      rw [← htext, List.flatMap_append, List.flatMap_cons, List.append_assoc]
    · rintro ⟨before, piece, after, hpieces, hmax, hstart, hstop, hstands⟩
      obtain ⟨earlier, run, later, hruns, rfl, rfl⟩ :=
        Run.exists_run_of_maximalRun halternate hmax (htext.trans hpieces)
      refine ⟨earlier, run, later, hruns, ?_⟩
      rw [Nat.zero_add, Nat.zero_add, ← hstart, ← hstop, ← hstands.unique (Token.standsFor_ofRun run)]
  · intro lexemes
    have hlexes := halternate.lexes 0
    rw [htext] at hlexes
    constructor
    · intro h
      exact h.unique hlexes
    · rintro rfl
      exact hlexes

end CoopKernel
