import CoopKernel.Proofs.Path
import Mathlib.Data.List.Basic

/-!
# Canonical paths by splitting at slashes

A text can be brought to canonical form without lexing it: what stands between the slashes is looked at piece
by piece, from left to right. Both ways come to the same path, since a slash ends every run of other
characters. Splitting makes it plain that a text that goes on behind a slash leads on from where its first
part leads, and this is what the laws of resolving one path after the other rest on.
-/

namespace CoopKernel

namespace Path

/-! ## Fields -/

/-- What stands between the slashes of a text. -/
def fields (text : List Char) : List (List Char) :=
  text.splitOn '/'

/-- The fields before a slash and those behind it are separate. -/
theorem fields_append (text rest : List Char) : fields (text ++ '/' :: rest) = fields text ++ fields rest :=
  List.splitOnP_append_cons text rest (beq_self_eq_true '/')

/-- A text without slashes is one field. -/
theorem fields_of_not_mem {text : List Char} (h : '/' ∉ text) : fields text = [text] := by
  refine List.splitOnP_eq_singleton fun c hc => beq_eq_false_iff_ne.mpr ?_
  rintro rfl
  exact h hc

/-! ## Where fields lead -/

/-- The components that are left when a field is read behind those that were kept: `..` takes the last one away
if there is one, an empty field and `.` say nothing, and any other field is kept. -/
def keepField (kept : List (List Char)) (field : List Char) : List (List Char) :=
  if field = [] ∨ field = ['.'] then kept
  else if field = ['.', '.'] then kept.dropLast
  else kept ++ [field]

/-- The written form of the path with the given components. -/
def writeFields (kept : List (List Char)) : String :=
  if kept = [] then "/" else String.ofList (kept.flatMap ('/' :: ·))

/-- The canonical form of a text, by splitting it at slashes. -/
def normaliseFields (text : String) : String :=
  writeFields ((fields text.toList).foldl keepField [])

/-- The characters of the names. -/
def components (p : Path) : List (List Char) :=
  p.names.map fun n => n.text.toList

theorem components_parent (p : Path) : p.parent.components = p.components.dropLast :=
  List.map_dropLast

theorem components_child (p : Path) (name : Name) :
    (p.child name).components = p.components ++ [name.text.toList] :=
  List.map_append

/-- A component leads where its characters do as a field. -/
theorem components_follow (p : Path) {field : List Char} (proper : field ≠ [] ∧ '/' ∉ field) :
    (p.follow (Token.ofComponent field proper)).components = keepField p.components field := by
  unfold keepField Token.ofComponent
  by_cases hcurrent : field = ['.']
  · rw [dif_pos hcurrent, if_pos (.inr hcurrent)]
    rfl
  · rw [dif_neg hcurrent, if_neg (not_or.mpr ⟨proper.1, hcurrent⟩)]
    by_cases hparent : field = ['.', '.']
    · rw [dif_pos hparent, if_pos hparent]
      exact components_parent p
    · rw [dif_neg hparent, if_neg hparent, follow, components_child, String.toList_ofList]

/-- A slash leads nowhere. -/
theorem foldl_follow_consSlash (runs : List Run) (p : Path) :
    ((Run.consSlash runs).map Token.ofRun).foldl follow p = (runs.map Token.ofRun).foldl follow p := by
  cases runs with
  | nil => rfl
  | cons run runs => cases run <;> rfl

/-- Before its first slash, a text has one run or none, which leads where the first field does. -/
theorem components_foldl_follow_first (p : Path) {first rest : List Char} (hfirst : '/' ∉ first)
    (hrest : rest.head?.all (· = '/')) :
    ∃ q : Path, q.components = keepField p.components first ∧
      (lex (first ++ rest)).foldl follow p = (lex rest).foldl follow q := by
  by_cases hempty : first = []
  · subst hempty
    exact ⟨p, rfl, rfl⟩
  · refine ⟨p.follow (Token.ofComponent first ⟨hempty, hfirst⟩), components_follow p _, ?_⟩
    rw [lex, Run.ofChars_component_append ⟨hempty, hfirst⟩ hrest]
    rfl

/-- A text leads to what is left of its fields. -/
theorem components_foldl_follow (text : List Char) (p : Path) :
    ((lex text).foldl follow p).components = (fields text).foldl keepField p.components := by
  -- On the length of the text, as what lies behind the first slash is no constructor's argument.
  induction hn : text.length using Nat.strongRecOn generalizing text p with
  | _ n ih =>
    by_cases hslash : '/' ∈ text
    · obtain ⟨first, rest, rfl, hfirst⟩ := List.eq_append_cons_of_mem hslash
      obtain ⟨q, hq, hleads⟩ := components_foldl_follow_first p hfirst
        (show ('/' :: rest).head?.all (· = '/') from rfl)
      have hshorter : rest.length < n := by
        rw [← hn, List.length_append, List.length_cons]
        omega
      have hbehind : lex ('/' :: rest) = (Run.consSlash (Run.ofChars rest)).map Token.ofRun := by
        rw [lex, Run.ofChars, dif_pos rfl]
      rw [hleads, hbehind, foldl_follow_consSlash, fields_append, List.foldl_append,
        fields_of_not_mem hfirst, List.foldl_cons, List.foldl_nil, ← hq]
      exact ih rest.length hshorter rest q rfl
    · obtain ⟨q, hq, hleads⟩ := components_foldl_follow_first p hslash
        (show ([] : List Char).head?.all (· = '/') from rfl)
      rw [List.append_nil] at hleads
      rw [hleads, fields_of_not_mem hslash, List.foldl_cons, List.foldl_nil, ← hq]
      rfl

theorem eq_of_components {p q : Path} (h : p.components = q.components) : p = q := by
  obtain ⟨names⟩ := p
  obtain ⟨names'⟩ := q
  have hinj : Function.Injective fun n : Name => n.text.toList :=
    fun _ _ he => Name.ext_text (String.toList_inj.mp he)
  exact congrArg Path.mk (hinj.list_map h)

/-- The written form has a slash before every component. -/
theorem text_eq_writeFields (p : Path) : p.text = writeFields p.components := by
  unfold text chars writeFields components
  by_cases hroot : p.names = []
  · rw [if_pos hroot, if_pos (List.map_eq_nil_iff.mpr hroot)]
  · rw [if_neg hroot, if_neg (mt List.map_eq_nil_iff.mp hroot), List.flatMap_map]

/-- What stands behind a slash leads on from where the rest leads. -/
theorem ofChars_append_slash (text rest : List Char) :
    ofChars (text ++ '/' :: rest) = (lex rest).foldl follow (ofChars text) := by
  refine eq_of_components ?_
  rw [ofChars, ofChars, components_foldl_follow, components_foldl_follow, components_foldl_follow,
    fields_append, List.foldl_append]

theorem ofText_append_slash (text rest : String) :
    ofText (text ++ "/" ++ rest) = (lex rest.toList).foldl follow (ofText text) := by
  have htext : (text ++ "/" ++ rest).toList = text.toList ++ '/' :: rest.toList := by
    simp only [String.toList_append, List.append_assoc]
    rfl
  rw [ofText, ofText, htext, ofChars_append_slash]

/-- A base counts only for where it leads. -/
theorem resolve_congr {base base' : String} (h : ofText base = ofText base') (text : String) :
    resolve base text = resolve base' text := by
  unfold resolve
  split
  · rfl
  · rw [ofText_append_slash, ofText_append_slash, h]

/-- A relative text leads on from where the base leads. -/
theorem resolve_of_relative (base : String) {text : String} (h : text.toList.head? ≠ some '/') :
    resolve base text = (lex text.toList).foldl follow (ofText base) := by
  rw [resolve, if_neg h, ofText_append_slash]

/-- Going on behind a slash from a text is going on from where the text leads. -/
theorem resolve_append_slash (base : String) {text : String} (htext : text ≠ "") (rest : String) :
    resolve base (text ++ "/" ++ rest) = (lex rest.toList).foldl follow (resolve base text) := by
  have hhead : (text ++ "/" ++ rest).toList.head? = text.toList.head? := by
    obtain ⟨c, cs, hcs⟩ := List.exists_cons_of_ne_nil (mt String.toList_eq_nil_iff.mp htext)
    simp only [String.toList_append, hcs, List.cons_append, List.head?_cons]
  unfold resolve
  rw [hhead]
  split
  · exact ofText_append_slash text rest
  · have hassoc : base ++ "/" ++ (text ++ "/" ++ rest) = base ++ "/" ++ text ++ "/" ++ rest := by
      simp only [String.append_assoc]
    rw [hassoc, ofText_append_slash]

end Path

/-! ## The laws -/

theorem normalise_eq_normaliseFields (text : String) : normalise text = Path.normaliseFields text := by
  rw [normalise, Path.text_eq_writeFields, Path.ofText, Path.ofChars, Path.components_foldl_follow]
  rfl

/-- Bringing a text to canonical form is splitting it at slashes, dropping what is empty or `.`, letting `..`
take away what was kept last, and writing a slash before whatever is left. A canonical form is its own, and is
a lone slash or made of names. Texts count only for where they lead, and leading on is associative. -/
theorem normalise_by_fields :
    (∀ p, normalise p = Path.normaliseFields p) ∧
    (∀ p, normalise (normalise p) = normalise p) ∧
    (∀ p, normalise p = "/" ∨ ∃ names : List (List Char), names ≠ [] ∧ (∀ name ∈ names, IsName name) ∧
      normalise p = String.ofList (names.flatMap ('/' :: ·))) ∧
    (∀ a b, normalise (a ++ "/" ++ b) = normalise (normalise a ++ "/" ++ b)) ∧
    (∀ a b, join (normalise a) b = join a b) ∧
    ∀ a b c, b ≠ "" → c.toList.head? ≠ some '/' → join (join a b) c = join a (b ++ "/" ++ c) := by
  refine ⟨normalise_eq_normaliseFields, fun p => ?_, fun p => ?_, fun a b => ?_, fun a b => ?_,
    fun a b c hb hc => ?_⟩
  · rw [normalise, normalise, Path.ofText_text]
  · rw [normalise, Path.text_eq_writeFields, Path.writeFields]
    split
    · exact .inl rfl
    · next hnames =>
      refine .inr ⟨(Path.ofText p).components, hnames, fun name hname => ?_, rfl⟩
      obtain ⟨n, -, rfl⟩ := List.mem_map.mp hname
      exact n.isName
  · rw [normalise, normalise, normalise, Path.ofText_append_slash, Path.ofText_append_slash, Path.ofText_text]
  · exact congrArg Path.text (Path.resolve_congr (Path.ofText_text _) b)
  · rw [join, join, join, Path.resolve_of_relative _ hc, Path.ofText_text, Path.resolve_append_slash a hb]

/-- A relative part that leads up is joined to a path before a further part, or after it. -/
theorem join_of_two_parts : "../b" ≠ "" ∧ "c".toList.head? ≠ some '/' ∧
    join (join "/a" "../b") "c" = join "/a" ("../b" ++ "/" ++ "c") :=
  ⟨by decide, by decide, normalise_by_fields.2.2.2.2.2 "/a" "../b" "c" (by decide) (by decide)⟩

end CoopKernel
