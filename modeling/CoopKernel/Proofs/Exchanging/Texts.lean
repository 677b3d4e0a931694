import CoopKernel.Proofs.Backing.Exec
import CoopKernel.Proofs.Exchanging.Basic
import CoopKernel.Proofs.LoadedBack

/-!
# What the places of programs are made of

A process has its working directory and its search path from its block or from its memory, and both end a text at
the first NUL and have little room for it. So the path of every program that it finds is short and without a NUL,
like the arguments that it reads.
-/

namespace CoopKernel

/-- The text is short and has no NUL. -/
structure Text.Terse (text : String) : Prop where
  length : text.toList.length ≤ Snapshot.textSize
  nul : ∀ c ∈ text.toList, c ≠ '\x00'

/-- The texts of the environment are short and have no NUL. -/
structure Environment.Terse (env : Environment) : Prop where
  workDir : Text.Terse env.workDir
  searchPath : Text.Terse env.searchPath

/-! ## In a turn -/

theorem Text.terse_decodeLossy {bytes : List UInt8} (hshort : bytes.length ≤ Snapshot.textSize)
    (hnul : ∀ b ∈ bytes, b ≠ 0) : Text.Terse (String.ofList (Utf8.decodeLossy bytes)) where
  length := by
    rw [String.toList_ofList]
    exact Nat.le_trans (Utf8.length_decodeLossy bytes) hshort
  nul c hc := by
    rw [String.toList_ofList] at hc
    exact Utf8.decodeLossy_ne_nul hnul hc

namespace Snapshot

/-- A text in a block is terse. -/
theorem terse_textAt (block : Bytes) (start : Nat) : Text.Terse (textAt block start) where
  length := length_textAt block start
  nul c hc := by
    rw [textAt, String.toList_ofList] at hc
    refine Utf8.decodeLossy_ne_nul (fun b hb => ?_) hc
    have hkept := List.mem_takeWhile_imp hb
    exact of_decide_eq_true hkept

theorem terse_of_ofBlock {block : Bytes} {s : Snapshot} (h : ofBlock block = .ok s) : s.env.Terse := by
  unfold ofBlock at h
  split at h
  · cases h
  · dsimp only at h
    split at h
    · cases h
    · cases h
      exact ⟨terse_textAt _ _, terse_textAt _ _⟩

end Snapshot

namespace Turn

variable {σ : Type} [Storage σ] {t : Turn σ}

omit [Storage σ] in
theorem terse_equipped (t t' : Turn σ) (h : Equipped t t') : Stays (fun t => t.self.state.env.Terse) t t' := by
  intro ht
  have hwork : t'.self.state.env.workDir = t.self.state.env.workDir := by
    rw [h.env]
  exact ⟨hwork ▸ ht.workDir, searchPath_equipped h ▸ ht.searchPath⟩

theorem setWorkDir_terse (address : UInt16) :
    Keeps (Stays fun t : Turn σ => t.self.state.env.Terse) (setWorkDir address : Attempt σ Reply) := by
  refine setWorkDir_keeps terse_equipped (fun _ ht => ht.workDir.nul)
    (fun _ workDir ht hsize hnul => ⟨⟨?_, hnul⟩, ht.searchPath⟩) address
  exact Nat.le_trans (Utf8.length_encode workDir.toList).1 (Nat.le_of_lt hsize)

theorem setSearchPath_terse (address : UInt16) :
    Keeps (Stays fun t : Turn σ => t.self.state.env.Terse) (setSearchPath address : Attempt σ Reply) := by
  have hread : Ensures (fun t : Turn σ => t.self.state.env.Terse)
      (access (AddressSpace.readText address Snapshot.textSize))
      (fun raw t => t.self.state.env.Terse ∧ ∀ b ∈ raw, b ≠ 0) fun _ t => t.self.state.env.Terse := by
    intro t ht
    have hkept := terse_equipped _ _
      ((access_composed (AddressSpace.readText address Snapshot.textSize)).keeps t).equipped ht
    cases hr : access (AddressSpace.readText address Snapshot.textSize) t with
    | error f t' =>
      rw [after_error hr] at hkept
      exact hkept
    | ok raw t' =>
      rw [after_ok hr] at hkept
      refine ⟨hkept, ?_⟩
      unfold access at hr
      split at hr
      · next hspace =>
        cases hr
        exact readText_ne_zero hspace
      · cases hr
  have hall : Ensures (fun t : Turn σ => t.self.state.env.Terse) (setSearchPath address : Attempt σ Reply)
      (fun _ t => t.self.state.env.Terse) fun _ t => t.self.state.env.Terse := by
    unfold setSearchPath
    refine .bind hread fun raw => ?_
    split
    · next hroom =>
      refine .bind (Q := fun _ t => t.self.state.env.Terse) (.modify fun t ht => ⟨ht.1.workDir, ?_⟩) fun _ =>
        .pure fun _ => id
      exact Text.terse_decodeLossy (Nat.le_of_lt hroom) ht.2
    · exact .pure fun _ ht => ht.1
  exact hall.keeps

end Turn

/-- Whatever is done to backing files, the texts of the environment are terse at every step of a run. -/
theorem HostCall.terse_of_stepped {σ : Type} [Storage σ] [VolumeBacked σ] {k : Kernel σ}
    {calls : List (HostCall σ)} {t : Turn σ} (ht : .stepped t ∈ courseAll k calls) :
    t.self.state.env.Terse := by
  refine env_of_stepped Snapshot.terse_of_ofBlock (fun t => ?_) ht
  exact Turn.step_env Turn.terse_equipped Turn.setWorkDir_terse fun args _ => Turn.setSearchPath_terse args.a

/-! ## Paths of programs -/

theorem Text.mem_fields {separator : Char} {cs : List Char} {part : List Char} (hpart : part ∈ fields separator cs)
    {c : Char} (hc : c ∈ part) : c ∈ cs := by
  induction cs generalizing part with
  | nil =>
    rw [List.mem_singleton.mp hpart] at hc
    exact hc
  | cons d cs ih =>
    unfold fields at hpart
    split at hpart
    · rw [List.mem_singleton.mp hpart] at hc
      exact List.mem_cons.mpr (.inl (List.mem_singleton.mp hc))
    · next first rest hfields =>
      have hmem : ∀ {p}, p ∈ first :: rest → c ∈ p → c ∈ d :: cs := fun hp hc =>
        List.mem_cons_of_mem d (ih (hfields ▸ hp) hc)
      split at hpart
      · rcases List.mem_cons.mp hpart with rfl | hpart
        · cases hc
        · exact hmem hpart hc
      · rcases List.mem_cons.mp hpart with rfl | hpart
        · rcases List.mem_cons.mp hc with rfl | hc
          · exact List.mem_cons_self
          · exact hmem List.mem_cons_self hc
        · exact hmem (List.mem_cons_of_mem first hpart) hc

/-- A place where a program is looked for has no characters but slashes and those of its name and of the
environment. -/
theorem Environment.mem_candidates {env : Environment} {name : String} {path : Path}
    (hpath : path ∈ env.candidates name) {c : Char} (hc : c ∈ path.chars) :
    c = '/' ∨ c ∈ name.toList ∨ c ∈ env.workDir.toList ∨ c ∈ env.searchPath.toList := by
  have hwork : c ∈ (Path.resolve env.workDir name).chars →
      c = '/' ∨ c ∈ name.toList ∨ c ∈ env.workDir.toList ∨ c ∈ env.searchPath.toList := by
    intro hc
    rcases Path.mem_chars_resolve hc with hc | hc | hc
    · exact .inl hc
    · exact .inr (.inr (.inl hc))
    · exact .inr (.inl hc)
  unfold candidates at hpath
  split at hpath
  · rw [List.mem_singleton.mp hpath] at hc
    exact (Path.mem_chars_ofText hc).imp_right .inl
  · split at hpath
    · rw [List.mem_singleton.mp hpath] at hc
      exact hwork hc
    · rcases List.mem_cons.mp hpath with rfl | hpath
      · exact hwork hc
      · obtain ⟨dir, hdir, rfl⟩ := List.mem_map.mp hpath
        obtain ⟨part, hpart, rfl⟩ := List.mem_map.mp hdir
        rcases Path.mem_chars_resolve hc with hc | hc | hc
        · exact .inl hc
        · rw [String.toList_ofList] at hc
          exact .inr (.inr (.inr (Text.mem_fields (List.mem_filter.mp hpart).1 hc)))
        · exact .inr (.inl hc)

/-- A program that is found has a short path without a NUL. -/
theorem Turn.Finds.terse {t : Turn Volume} (ht : t.self.state.env.Terse) {name : List UInt8} {path : Path}
    (h : t.Finds name path) : path.chars.length ≤ 0x81 ∧ ∀ b ∈ Utf8.encode path.chars, b ≠ 0 := by
  obtain ⟨chars, -, haccepts, hfind⟩ := h
  have hpath := List.mem_of_find?_eq_some hfind
  have hname := Path.length_of_accepts haccepts
  have hlength := Environment.length_candidates ht.workDir.length ht.searchPath.length hpath
  simp only [Path.maxSize, Snapshot.textSize] at hname hlength
  refine ⟨by omega, fun b hb => ?_⟩
  obtain ⟨c, hc, hb⟩ := List.mem_flatMap.mp hb
  refine Utf8.ne_zero_of_mem_encodeChar ?_ hb
  rcases Environment.mem_candidates hpath hc with rfl | hc | hc | hc
  · decide
  · rintro rfl
    simp only [Path.accepts, Bool.and_eq_true, Bool.not_eq_true', List.contains_eq_mem,
      decide_eq_false_iff_not] at haccepts
    exact haccepts.2 hc
  · exact ht.workDir.nul c hc
  · exact ht.searchPath.nul c hc

end CoopKernel
