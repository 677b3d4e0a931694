import CoopKernel.Kernel.Basic
import Mathlib.Algebra.GroupWithZero.Nat
import Mathlib.Data.List.Induction

/-!
# What a path is made of

A text that ends in a slash and a name leads to a place with that name, whatever stands before it. So
the path of a backing file ends in the name of the file, and different processes have different ones,
whichever directory the settings named when each was made.

The written form of a path denotes the path. The names of a path come from the text that it was read
from: the written form has no other characters but slashes, and at most one more.
-/

namespace CoopKernel

namespace Run

/-- A component ends where the text does, or at the next slash. -/
theorem ofChars_component_append {chars rest : List Char} (proper : chars ≠ [] ∧ '/' ∉ chars)
    (hrest : rest.head?.all (· = '/')) :
    ofChars (chars ++ rest) = component chars proper :: ofChars rest := by
  induction chars with
  | nil => exact absurd rfl proper.1
  | cons c cs ih =>
    have hc : c ≠ '/' := fun he => proper.2 (he ▸ List.mem_cons_self)
    have hcs : '/' ∉ cs := fun h => proper.2 (List.mem_cons_of_mem c h)
    rw [List.cons_append, ofChars, dif_neg hc]
    cases cs with
    | cons d ds =>
      rw [ih ⟨List.cons_ne_nil d ds, hcs⟩]
      rfl
    | nil =>
      cases rest with
      | nil => rfl
      | cons d ds =>
        have hd : d = '/' := of_decide_eq_true hrest
        rw [List.nil_append, ofChars, dif_pos hd]
        cases ofChars ds with
        | nil => rfl
        | cons run runs => cases run <;> rfl

theorem ofChars_component (chars : List Char) (proper : chars ≠ [] ∧ '/' ∉ chars) :
    ofChars chars = [component chars proper] := by
  have happend : ofChars (chars ++ []) = component chars proper :: ofChars [] :=
    ofChars_component_append proper rfl
  rwa [List.append_nil] at happend

/-- A last component stays the last run, whatever is put in front of the slash before it. -/
theorem ofChars_append (cs chars : List Char) (proper : chars ≠ [] ∧ '/' ∉ chars) :
    ∃ runs, runs ≠ [] ∧ ofChars (cs ++ '/' :: chars) = runs ++ [component chars proper] := by
  induction cs with
  | nil =>
    refine ⟨[slashes 0], List.cons_ne_nil _ _, ?_⟩
    rw [List.nil_append, ofChars, dif_pos rfl, ofChars_component chars proper]
    rfl
  | cons c cs ih =>
    obtain ⟨runs, hne, hruns⟩ := ih
    rw [List.cons_append, ofChars, hruns]
    split
    · match runs with
      | slashes more :: runs => exact ⟨slashes (more + 1) :: runs, List.cons_ne_nil _ _, rfl⟩
      | component cs' proper' :: runs =>
        exact ⟨slashes 0 :: component cs' proper' :: runs, List.cons_ne_nil _ _, rfl⟩
    · match runs with
      | slashes more :: runs =>
        exact ⟨component [c] _ :: slashes more :: runs, List.cons_ne_nil _ _, rfl⟩
      | component cs' proper' :: runs =>
        exact ⟨component (c :: cs') _ :: runs, List.cons_ne_nil _ _, rfl⟩

/-- The runs of a text make it up. -/
theorem flatMap_chars_ofChars (text : List Char) : (ofChars text).flatMap chars = text := by
  induction text with
  | nil => rfl
  | cons c cs ih =>
    rw [ofChars]
    split
    · next hc =>
      subst hc
      cases hruns : ofChars cs with
      | nil =>
        rw [hruns] at ih
        rw [← ih]
        rfl
      | cons run runs =>
        rw [hruns] at ih
        rw [← ih]
        cases run <;> rfl
    · cases hruns : ofChars cs with
      | nil =>
        rw [hruns] at ih
        rw [← ih]
        rfl
      | cons run runs =>
        rw [hruns] at ih
        rw [← ih]
        cases run <;> rfl

/-- The number of characters in the components of some runs, with a slash before each. -/
def weight : List Run → Nat
  | [] => 0
  | slashes _ :: runs => weight runs
  | component chars _ :: runs => chars.length + 1 + weight runs

/-- One if the first run is a component, which then has no slash before it. -/
def lead : List Run → Nat
  | component .. :: _ => 1
  | _ => 0

theorem weight_ofChars (text : List Char) :
    weight (ofChars text) ≤ text.length + lead (ofChars text) := by
  induction text with
  | nil => exact Nat.le_refl _
  | cons c cs ih =>
    rw [ofChars, List.length_cons]
    split
    · cases hruns : ofChars cs with
      | nil => exact Nat.zero_le _
      | cons run runs =>
        rw [hruns] at ih
        cases run <;> simp only [consSlash, weight, lead] at ih ⊢ <;> omega
    · cases hruns : ofChars cs with
      | nil =>
        simp only [consOther, weight, lead, List.length_singleton]
        omega
      | cons run runs =>
        rw [hruns] at ih
        cases run <;>
          simp only [consOther, weight, lead, List.length_cons, List.length_nil] at ih ⊢ <;> omega

end Run

namespace Token

/-- A name that a run stands for has the characters of the run. -/
theorem chars_of_name {run : Run} {name : Name} (h : ofRun run = .name name) :
    name.text.toList = run.chars := by
  cases run with
  | slashes more => cases h
  | component chars proper =>
    have h : ofComponent chars proper = .name name := h
    unfold ofComponent at h
    by_cases hcurrent : chars = ['.']
    · rw [dif_pos hcurrent] at h
      cases h
    · rw [dif_neg hcurrent] at h
      by_cases hparent : chars = ['.', '.']
      · rw [dif_pos hparent] at h
        cases h
      · rw [dif_neg hparent] at h
        cases h
        exact String.toList_ofList

/-- The characters of a name stand for the name. -/
theorem ofComponent_name (name : Name) :
    ofComponent name.text.toList ⟨name.isName.1, name.isName.2.1⟩ = .name name := by
  unfold ofComponent
  rw [dif_neg name.isName.2.2.1, dif_neg name.isName.2.2.2]
  exact congrArg Token.name (Name.ext_text String.ofList_toList)

end Token

namespace Path

/-! ## Directories and what is in them -/

theorem parent_child (p : Path) (name : Name) : (p.child name).parent = p := by
  rw [parent, child, List.dropLast_concat]

theorem base?_child (p : Path) (name : Name) : (p.child name).base? = some name :=
  List.getLast?_concat

theorem child_ne_root (p : Path) (name : Name) : p.child name ≠ root := by
  intro h
  exact List.append_ne_nil_of_right_ne_nil p.names (List.cons_ne_nil name []) (congrArg names h)

/-- A path is the root, or that of something in a directory. -/
@[elab_as_elim]
theorem child_induction {motive : Path → Prop} (root : motive root)
    (child : ∀ p name, motive p → motive (p.child name)) (p : Path) : motive p := by
  obtain ⟨names⟩ := p
  induction names using List.reverseRecOn with
  | nil => exact root
  | append_singleton names name ih => exact child ⟨names⟩ name ih

theorem exists_child {p : Path} (hp : p ≠ root) : ∃ (d : Path) (name : Name), p = d.child name := by
  cases p using child_induction with
  | root => exact absurd rfl hp
  | child d name _ => exact ⟨d, name, rfl⟩

theorem length_parent {p : Path} (h : p ≠ root) : p.parent.names.length < p.names.length := by
  obtain ⟨d, name, rfl⟩ := exists_child h
  rw [parent_child, child, List.length_append, List.length_singleton]
  exact Nat.lt_add_one _

/-! ## Names and the texts they come from -/

/-- The number of characters of the names, with a slash before each. -/
def weight (p : Path) : Nat :=
  (p.names.map fun n => n.text.toList.length + 1).sum

theorem weight_child (p : Path) (name : Name) :
    (p.child name).weight = p.weight + (name.text.toList.length + 1) := by
  simp only [weight, child, List.map_append, List.sum_append, List.map_cons, List.map_nil,
    List.sum_singleton]

theorem weight_parent (p : Path) : p.parent.weight ≤ p.weight := by
  cases p using child_induction with
  | root => exact Nat.le_refl _
  | child d name _ =>
    rw [parent_child, weight_child]
    exact Nat.le_add_right _ _

/-- Following runs adds no more to a path than they weigh. -/
theorem weight_follow (runs : List Run) (p : Path) :
    ((runs.map Token.ofRun).foldl follow p).weight ≤ p.weight + Run.weight runs := by
  induction runs generalizing p with
  | nil => exact Nat.le_refl _
  | cons run runs ih =>
    rw [List.map_cons, List.foldl_cons]
    have hrest := ih (p.follow (Token.ofRun run))
    have hrun : (p.follow (Token.ofRun run)).weight + Run.weight runs ≤
        p.weight + Run.weight (run :: runs) := by
      cases run with
      | slashes more => exact Nat.le_refl _
      | component chars proper =>
        have hparent := weight_parent p
        simp only [Run.weight]
        cases htoken : Token.ofRun (.component chars proper) with
        | separator | current =>
          simp only [follow]
          omega
        | parent =>
          simp only [follow]
          omega
        | name name =>
          have hchars : name.text.toList = chars := Token.chars_of_name htoken
          simp only [follow, weight_child, hchars]
          omega
    exact Nat.le_trans hrest hrun

/-- The written form is at most one character longer than the text that the path was read from. -/
theorem length_chars_ofText (text : String) :
    (ofText text).chars.length ≤ text.toList.length + 1 := by
  have hweight : (ofText text).weight ≤ text.toList.length + 1 := by
    have hfollow := weight_follow (Run.ofChars text.toList) root
    have htext := Run.weight_ofChars text.toList
    have hlead : Run.lead (Run.ofChars text.toList) ≤ 1 := by
      unfold Run.lead
      split <;> omega
    have hroot : root.weight = 0 := rfl
    unfold ofText ofChars lex
    omega
  unfold chars
  split
  · exact Nat.le_add_left 1 _
  · simp only [List.length_flatMap, List.length_cons]
    exact hweight

/-- What holds of the names of a path and of those that runs stand for holds of the names of the path that
the runs lead to. -/
theorem forall_names_follow {Q : Name → Prop} {runs : List Run} {p : Path} (hp : ∀ n ∈ p.names, Q n)
    (hruns : ∀ run ∈ runs, ∀ n, Token.ofRun run = .name n → Q n) :
    ∀ n ∈ ((runs.map Token.ofRun).foldl follow p).names, Q n := by
  induction runs generalizing p with
  | nil => exact hp
  | cons run runs ih =>
    refine ih ?_ fun run' hm => hruns run' (List.mem_cons_of_mem run hm)
    have hrun := hruns run List.mem_cons_self
    intro n hn
    cases htoken : Token.ofRun run with
    | separator | current =>
      rw [htoken] at hn
      exact hp n hn
    | parent =>
      rw [htoken] at hn
      exact hp n (List.dropLast_subset _ hn)
    | name name =>
      rw [htoken] at hn
      rcases List.mem_append.mp hn with hn | hn
      · exact hp n hn
      · rw [List.mem_singleton.mp hn]
        exact hrun name htoken

/-- The written form has no characters but slashes and those of the text that the path was read from. -/
theorem mem_chars_ofText {text : String} {c : Char} (hc : c ∈ (ofText text).chars) :
    c = '/' ∨ c ∈ text.toList := by
  have hnames : ∀ n ∈ (ofText text).names, ∀ c ∈ n.text.toList, c ∈ text.toList := by
    refine forall_names_follow (Q := fun n => ∀ c ∈ n.text.toList, c ∈ text.toList) nofun ?_
    intro run hm n hn c hc
    rw [Token.chars_of_name hn] at hc
    have hmem := List.mem_flatMap.mpr ⟨run, hm, hc⟩
    rw [Run.flatMap_chars_ofChars] at hmem
    exact hmem
  unfold chars at hc
  split at hc
  · exact .inl (List.mem_singleton.mp hc)
  · obtain ⟨n, hn, hc⟩ := List.mem_flatMap.mp hc
    rcases List.mem_cons.mp hc with rfl | hc
    · exact .inl rfl
    · exact .inr (hnames n hn c hc)

theorem base?_ofChars (cs : List Char) (name : Name) :
    (ofChars (cs ++ '/' :: name.text.toList)).base? = some name := by
  obtain ⟨runs, _, hruns⟩ :=
    Run.ofChars_append cs name.text.toList ⟨name.isName.1, name.isName.2.1⟩
  rw [ofChars, lex, hruns, List.map_append, List.foldl_append]
  simp only [List.map_cons, List.map_nil, Token.ofRun, Token.ofComponent_name, List.foldl_cons,
    List.foldl_nil, follow, base?_child]

/-- Names with a slash before each lead down from a path. -/
theorem foldl_follow_names (names : List Name) (p : Path) :
    (lex (names.flatMap fun n => '/' :: n.text.toList)).foldl follow p = ⟨p.names ++ names⟩ := by
  induction names generalizing p with
  | nil =>
    rw [List.append_nil]
    rfl
  | cons name names ih =>
    have hrest : (names.flatMap fun n => '/' :: n.text.toList).head?.all (· = '/') := by
      cases names <;> simp
    have hruns := Run.ofChars_component_append ⟨name.isName.1, name.isName.2.1⟩ hrest
    have ih := ih (p.child name)
    unfold lex at ih ⊢
    rw [List.flatMap_cons, List.cons_append, Run.ofChars, dif_pos rfl, hruns]
    simp only [Run.consSlash, List.map_cons, Token.ofRun, Token.ofComponent_name, List.foldl_cons, follow]
    rw [ih, child, List.append_assoc, List.singleton_append]

/-- The written form of a path denotes the path. -/
theorem ofText_text (p : Path) : ofText p.text = p := by
  unfold ofText text ofChars chars
  rw [String.toList_ofList]
  split
  · next hroot =>
    obtain ⟨names⟩ := p
    cases hroot
    rfl
  · exact foldl_follow_names p.names root

/-- A path has one written form, and no other path has it. -/
theorem text_injective : Function.Injective text :=
  Function.LeftInverse.injective ofText_text

theorem length_chars_resolve (base text : String) :
    (resolve base text).chars.length ≤ base.toList.length + text.toList.length + 2 := by
  unfold resolve
  split
  · have htext := length_chars_ofText text
    omega
  · have htext := length_chars_ofText (base ++ "/" ++ text)
    simp only [String.toList_append, List.length_append] at htext
    have hslash : "/".toList.length = 1 := rfl
    omega

theorem mem_chars_resolve {base text : String} {c : Char} (hc : c ∈ (resolve base text).chars) :
    c = '/' ∨ c ∈ base.toList ∨ c ∈ text.toList := by
  unfold resolve at hc
  split at hc
  · exact (mem_chars_ofText hc).imp_right .inr
  · rcases mem_chars_ofText hc with hc | hc
    · exact .inl hc
    · simp only [String.toList_append, List.mem_append] at hc
      rcases hc with (hc | hc) | hc
      · exact .inr (.inl hc)
      · exact .inl (List.mem_singleton.mp hc)
      · exact .inr (.inr hc)

end Path

/-- The name of the backing file of a process. -/
def Pid.fileName (pid : Pid) : Name where
  text := "proc" ++ pid.text
  isName := by
    revert pid
    decide

theorem Pid.fileName_inj {p q : Pid} (h : p.fileName = q.fileName) : p = q := by
  have htext : ∀ p q : Pid, "proc" ++ p.text = "proc" ++ q.text → p = q := by decide
  exact htext p q (congrArg Name.text h)

/-- The path of a backing file ends in its name. -/
theorem Kernel.base?_backingPath {σ : Type} (k : Kernel σ) (pid : Pid) :
    (k.backingPath pid).base? = some pid.fileName := by
  have hrelative : ("proc" ++ pid.text).toList.head? ≠ some '/' := by
    revert pid
    decide
  rw [backingPath, Path.resolve, if_neg hrelative, Path.ofText]
  have hchars : (k.settings.tmpDir ++ "/" ++ ("proc" ++ pid.text)).toList =
      k.settings.tmpDir.toList ++ '/' :: ("proc" ++ pid.text).toList := by
    simp only [String.toList_append, List.append_assoc]
    rfl
  rw [hchars]
  exact Path.base?_ofChars _ pid.fileName

end CoopKernel
