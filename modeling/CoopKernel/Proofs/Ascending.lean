import CoopKernel.Proofs.Normalise
import CoopKernel.Proofs.Text.Utf8
import Mathlib.Logic.Function.Iterate

/-!
# From a path to the directory it is in

The last slash of a canonical form stands before the name of the place, as no name has a slash in it. What stands
before that slash is the canonical form of the directory, unless nothing does: then the directory is the root. So a
path comes apart at the last slash of its canonical form, and resolving the name from the directory puts it together
again. The directory has the shorter text, and going from a path to its directory, from there to the directory of that
and so on ends at the root.
-/

namespace CoopKernel

namespace Path

/-! ## The last slash -/

/-- What stands before the last slash of a text and what stands behind it, if there is a slash. -/
def atLastSlash : List Char → Option (List Char × List Char)
  | [] => none
  | c :: cs =>
    match atLastSlash cs with
    | some (front, back) => some (c :: front, back)
    | none => if c = '/' then some ([], cs) else none

theorem atLastSlash_of_not_mem {text : List Char} (h : '/' ∉ text) : atLastSlash text = none := by
  induction text with
  | nil => rfl
  | cons c cs ih =>
    have hc : c ≠ '/' := fun he => h (he ▸ List.mem_cons_self)
    rw [atLastSlash, ih fun hcs => h (List.mem_cons_of_mem c hcs)]
    exact if_neg hc

theorem atLastSlash_append (front : List Char) {back : List Char} (h : '/' ∉ back) :
    atLastSlash (front ++ '/' :: back) = some (front, back) := by
  induction front with
  | nil =>
    rw [List.nil_append, atLastSlash, atLastSlash_of_not_mem h]
    rfl
  | cons c cs ih => rw [List.cons_append, atLastSlash, ih]

/-- The directory and the name of a path, by taking its canonical form apart at the last slash. Nothing before the
slash is the root. -/
def splitAtLastSlash (text : String) : String × String :=
  match atLastSlash (normalise text).toList with
  | some ([], base) => ("/", String.ofList base)
  | some (dir, base) => (String.ofList dir, String.ofList base)
  | none => ("/", normalise text)

/-! ## The written form of what is in a directory -/

/-- A slash before every name, and nothing for the root. -/
def stem (p : Path) : List Char :=
  p.names.flatMap fun n => '/' :: n.text.toList

theorem chars_of_ne_root {p : Path} (h : p ≠ root) : p.chars = p.stem :=
  if_neg fun hnames => h (congrArg Path.mk hnames)

/-- The root is the only path that nothing is written for before a further name. -/
theorem stem_ne_nil {p : Path} (h : p ≠ root) : p.stem ≠ [] := by
  obtain ⟨d, name, rfl⟩ := exists_child h
  rw [stem, child, List.flatMap_append]
  exact List.append_ne_nil_of_right_ne_nil _ (List.cons_ne_nil _ _)

theorem chars_child (p : Path) (name : Name) : (p.child name).chars = p.stem ++ '/' :: name.text.toList := by
  rw [chars_of_ne_root (child_ne_root p name), stem, stem, child, List.flatMap_append, List.flatMap_singleton]

/-- The text of something in a directory is that of the directory with more behind it. -/
theorem exists_chars_child (p : Path) (name : Name) :
    ∃ rest, rest ≠ [] ∧ (p.child name).chars = p.chars ++ rest := by
  rw [chars_child]
  by_cases hp : p = root
  · subst hp
    exact ⟨name.text.toList, name.isName.1, rfl⟩
  · rw [chars_of_ne_root hp]
    exact ⟨'/' :: name.text.toList, List.cons_ne_nil _ _, rfl⟩

theorem length_text (p : Path) : p.text.length = p.chars.length :=
  String.length_ofList

theorem size_text (p : Path) : Utf8.size p.text = p.size := by
  rw [Utf8.size, Utf8.bytes, text, String.toList_ofList, size]

theorem length_text_child (p : Path) (name : Name) : p.text.length < (p.child name).text.length := by
  obtain ⟨rest, hrest, hchars⟩ := exists_chars_child p name
  have hpos : 0 < rest.length := List.length_pos_iff.mpr hrest
  rw [length_text, length_text, hchars, List.length_append]
  omega

theorem size_text_child (p : Path) (name : Name) : Utf8.size p.text < Utf8.size (p.child name).text := by
  obtain ⟨rest, hrest, hchars⟩ := exists_chars_child p name
  have hpos : 0 < rest.length := List.length_pos_iff.mpr hrest
  have hbytes : rest.length ≤ (Utf8.encode rest).length := (Utf8.length_encode rest).1
  rw [size_text, size_text, size, size, hchars, Utf8.encode_append, List.length_append]
  omega

/-- A path has fewer names than its text has characters. -/
theorem length_names_lt (p : Path) : p.names.length < p.text.length := by
  induction p using child_induction with
  | root => decide
  | child p name ih =>
    have hlonger := length_text_child p name
    rw [child, List.length_append, List.length_singleton]
    exact Nat.lt_of_le_of_lt ih hlonger

/-! ## Taking apart and putting together -/

variable {p : Path} {text : String}

theorem normalise_eq_slash_iff : normalise text = "/" ↔ ofText text = root :=
  text_injective.eq_iff' rfl

/-- The root has no name and is its own directory; every other path has the parts that it was made of. -/
theorem split_cases (text : String) :
    (ofText text = root ∧ split text = ("/", "")) ∨
      ∃ p name, ofText text = child p name ∧ split text = (p.text, name.text) := by
  by_cases hroot : ofText text = root
  · refine .inl ⟨hroot, ?_⟩
    rw [split, hroot]
    rfl
  · obtain ⟨p, name, hp⟩ := exists_child hroot
    refine .inr ⟨p, name, hp, ?_⟩
    rw [split, hp]
    simp only [parent_child, base?_child, Option.map_some, Option.getD_some]

/-- Both ways to take a path apart come to the same. -/
theorem split_eq_splitAtLastSlash (text : String) : split text = splitAtLastSlash text := by
  obtain ⟨hroot, hsplit⟩ | ⟨p, name, hp, hsplit⟩ := split_cases text
  · rw [hsplit, splitAtLastSlash, normalise, hroot]
    rfl
  · have hlast : atLastSlash (normalise text).toList = some (p.stem, name.text.toList) := by
      rw [normalise, hp, Path.text, String.toList_ofList, chars_child, atLastSlash_append _ name.isName.2.1]
    rw [hsplit, splitAtLastSlash, hlast]
    -- Nothing stands before the last slash exactly below the root, and there the root has to be written out.
    by_cases hdir : p = root
    · subst hdir
      exact congrArg (Prod.mk "/") String.ofList_toList.symm
    · obtain ⟨c, cs, hstem⟩ := List.exists_cons_of_ne_nil (stem_ne_nil hdir)
      rw [Path.text, chars_of_ne_root hdir, hstem]
      exact congrArg (Prod.mk _) String.ofList_toList.symm

example : split "/" = ("/", "") ∧ split "/ls" = ("/", "ls") ∧ split "usr//lib/../ls/" = ("/usr", "ls") := by
  decide +kernel

/-- A name leads from a directory to what has the name there. -/
theorem resolve_name (p : Path) (name : Name) : resolve p.text name.text = p.child name := by
  have hrelative : name.text.toList.head? ≠ some '/' :=
    fun hhead => name.isName.2.1 (List.mem_of_head? hhead)
  have hproper : name.text.toList ≠ [] ∧ '/' ∉ name.text.toList := ⟨name.isName.1, name.isName.2.1⟩
  rw [resolve_of_relative p.text hrelative, ofText_text, lex, Run.ofChars_component _ hproper]
  simp only [List.map_cons, List.map_nil, Token.ofRun, Token.ofComponent_name, List.foldl_cons, List.foldl_nil,
    follow]

/-- The parts of a path, put together, denote the path. -/
theorem resolve_split (text : String) : resolve (split text).1 (split text).2 = ofText text := by
  obtain ⟨hroot, hsplit⟩ | ⟨p, name, hp, hsplit⟩ := split_cases text
  · rw [hsplit, hroot]
    decide
  · rw [hsplit, hp]
    exact resolve_name p name

theorem not_mem_split_snd (text : String) : '/' ∉ (split text).2.toList := by
  obtain ⟨-, hsplit⟩ | ⟨p, name, -, hsplit⟩ := split_cases text
  · rw [hsplit]
    exact List.not_mem_nil
  · rw [hsplit]
    exact name.isName.2.1

/-- Only the root has no name. -/
theorem split_snd_eq_empty_iff : (split text).2 = "" ↔ ofText text = root := by
  obtain ⟨hroot, hsplit⟩ | ⟨p, name, hp, hsplit⟩ := split_cases text
  · rw [hsplit]
    exact iff_of_true rfl hroot
  · rw [hsplit, hp]
    exact iff_of_false (mt String.toList_eq_nil_iff.mpr name.isName.1) (child_ne_root p name)

/-! ## All the way up -/

/-- Going up as many times as a path has names, or more, leads to the root. -/
theorem iterate_parent {n : Nat} (h : p.names.length ≤ n) : parent^[n] p = root := by
  induction n generalizing p with
  | zero => exact congrArg Path.mk (List.length_eq_zero_iff.mp (Nat.le_zero.mp h))
  | succ n ih =>
    rw [Function.iterate_succ_apply]
    refine ih ?_
    rw [parent, List.length_dropLast]
    omega

/-- On canonical forms, taking the first part is going to the directory. -/
theorem semiconj_text_parent : Function.Semiconj Path.text parent (Prod.fst ∘ split) := by
  intro p
  rw [Function.comp_apply, split, ofText_text]

/-- Taking the first part over and over, which brings the text to canonical form, is going up. -/
theorem iterate_split (text : String) (n : Nat) :
    (Prod.fst ∘ split)^[n + 1] text = (parent^[n + 1] (ofText text)).text := by
  rw [Function.iterate_succ_apply, Function.iterate_succ_apply]
  exact (semiconj_text_parent.iterate_right n (ofText text).parent).symm

end Path

/-! ## The laws -/

/-- Splitting takes the canonical form of a path apart at its last slash, and depends on nothing but the canonical
form. The first part is in canonical form, the second has no slash and is empty for the root alone, and joining them
gives the canonical form back. Unless that is the root, the first part is shorter, in characters and in bytes, and
whoever goes on to split the first part is at the root after at most as many times as the canonical form has
characters, and stays there. -/
theorem splitting_leads_up_to_root :
    (∀ p, split p = Path.splitAtLastSlash p) ∧
    (∀ p q, split p = split q ↔ normalise p = normalise q) ∧
    (∀ p, (split p).1 = normalise (split p).1 ∧ '/' ∉ (split p).2.toList ∧
      ((split p).2 = "" ↔ normalise p = "/") ∧ join (split p).1 (split p).2 = normalise p) ∧
    (∀ p, normalise p ≠ "/" → (split p).1.length < (normalise p).length ∧
      Utf8.size (split p).1 < Utf8.size (normalise p)) ∧
    ∀ p n, (normalise p).length ≤ n → (Prod.fst ∘ split)^[n] p = "/" := by
  have hjoin : ∀ p, join (split p).1 (split p).2 = normalise p := fun p => congrArg Path.text (Path.resolve_split p)
  refine ⟨Path.split_eq_splitAtLastSlash, fun p q => ⟨fun h => ?_, fun h => ?_⟩,
    fun p => ⟨?_, Path.not_mem_split_snd p, ?_, hjoin p⟩, fun p hp => ?_, fun p n hn => ?_⟩
  · rw [← hjoin p, ← hjoin q, h]
  · have hplace : Path.ofText p = Path.ofText q := Path.text_injective h
    rw [split, split, hplace]
  · rw [split, normalise, Path.ofText_text]
  · rw [Path.normalise_eq_slash_iff, Path.split_snd_eq_empty_iff]
  · obtain ⟨hroot, -⟩ | ⟨d, name, hchild, hsplit⟩ := Path.split_cases p
    · exact absurd (Path.normalise_eq_slash_iff.mpr hroot) hp
    · rw [hsplit, normalise, hchild]
      exact ⟨Path.length_text_child d name, Path.size_text_child d name⟩
  · have hnames : (Path.ofText p).names.length < n := Nat.lt_of_lt_of_le (Path.length_names_lt _) hn
    -- A text need not be in canonical form, so that even one for the root has to be split once.
    obtain ⟨m, rfl⟩ := Nat.exists_eq_add_one_of_ne_zero (Nat.ne_zero_of_lt hnames)
    rw [Path.iterate_split, Path.iterate_parent (Nat.le_of_lt hnames)]
    rfl

/-- A relative path with a detour, an accent and a slash at its end leads up through `/usr/é` and `/usr`. -/
theorem splitting_leads_up_to_root_from_detour :
    normalise "usr//./lib/../é/ls/" ≠ "/" ∧
    (split "usr//./lib/../é/ls/").1.length < (normalise "usr//./lib/../é/ls/").length ∧
    Utf8.size (split "usr//./lib/../é/ls/").1 < Utf8.size (normalise "usr//./lib/../é/ls/") ∧
    (normalise "usr//./lib/../é/ls/").length ≤ 9 ∧ (Prod.fst ∘ split)^[9] "usr//./lib/../é/ls/" = "/" := by
  have hne : normalise "usr//./lib/../é/ls/" ≠ "/" := by decide +kernel
  have hlength : (normalise "usr//./lib/../é/ls/").length ≤ 9 := by decide +kernel
  obtain ⟨hshorter, hsmaller⟩ := splitting_leads_up_to_root.2.2.2.1 _ hne
  exact ⟨hne, hshorter, hsmaller, hlength, splitting_leads_up_to_root.2.2.2.2 _ 9 hlength⟩

end CoopKernel
