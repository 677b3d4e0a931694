import CoopKernel.Proofs.Storage.Steady
import CoopKernel.Proofs.Step
import Mathlib.Data.List.Nodup
import Mathlib.Data.List.Perm.Subperm

/-!
# How a program is exchanged

A program is looked for, opened and taken over, and then its arguments are put into the data region. In a
volume, the search ends with nothing or with the first place that can be run from, opening fails only when all
handles are in use, and a process that has taken over a program is stopped by nothing but a backing file that
cannot be resized or written.
-/

namespace CoopKernel

namespace Volume

/-! ## What can be opened -/

/-- A program can be run from a path: something is there that is no directory. -/
def runnable (v : Volume) (p : Path) : Bool :=
  v.contains p && !v.isDir p

/-- Every handle is in use. -/
def Exhausted (v : Volume) : Prop :=
  ∀ h, h ≠ Handle.invalid → (v.pathOf? h).isSome

/-- There is no handle to give out only if all are in use: the numbers that are tried are more than there are
handles, so that they are not all taken. -/
theorem freeHandle?_eq_none {v : Volume} : v.freeHandle? = none ↔ v.Exhausted := by
  constructor
  · intro hnone h hvalid
    simp only [freeHandle?, Option.map_eq_none_iff, List.find?_eq_none, List.mem_range'_1, Bool.and_eq_true,
      decide_eq_true_eq, Option.isNone_iff_eq_none, not_and] at hnone
    have htaken : ∀ n, 1 ≤ n → n < 1 + (v.handles.length + 1) → n < 65536 →
        Handle.mk (UInt16.ofNat n) ∈ v.handles.map Prod.fst := by
      intro n hpos hlt hn
      rw [← Index.find?_isSome_iff, ← Option.ne_none_iff_isSome]
      exact hnone n ⟨hpos, hlt⟩ hn
    have hpos : 1 ≤ h.number.toNat := by
      refine Nat.pos_of_ne_zero fun hzero => hvalid ?_
      have hnumber : h.number = 0 := UInt16.toNat_inj.mp hzero
      rw [Handle.invalid, ← hnumber]
    have hbound := h.number.toNat_lt
    by_cases hfew : h.number.toNat < 1 + (v.handles.length + 1)
    · have hmem := htaken _ hpos hfew hbound
      rw [UInt16.ofNat_toNat] at hmem
      exact (Index.find?_isSome_iff h _).mpr hmem
    · -- All the numbers that were tried fit into a word, so that they are as many different handles.
      have hinj : ((List.range' 1 (v.handles.length + 1)).map fun n => Handle.mk (UInt16.ofNat n)).Nodup := by
        refine List.Nodup.map_on (fun m hm n hn he => ?_) List.nodup_range'
        rw [List.mem_range'_1] at hm hn
        have heq := congrArg UInt16.toNat (Handle.mk.inj he)
        rw [UInt16.toNat_ofNat', UInt16.toNat_ofNat'] at heq
        omega
      have hsub : ((List.range' 1 (v.handles.length + 1)).map fun n => Handle.mk (UInt16.ofNat n)) ⊆
          v.handles.map Prod.fst := by
        intro g hg
        obtain ⟨n, hn, rfl⟩ := List.mem_map.mp hg
        rw [List.mem_range'_1] at hn
        exact htaken n hn.1 hn.2 (by omega)
      have hlength := (hinj.subperm hsub).length_le
      simp only [List.length_map, List.length_range'] at hlength
      omega
  · intro hall
    cases hf : v.freeHandle? with
    | none => rfl
    | some h =>
      obtain ⟨hvalid, hfree⟩ := freeHandle?_spec hf
      have hopen := hall h hvalid
      rw [hfree] at hopen
      cases hopen

/-- What is there is opened under a handle that nobody had, unless every handle is in use. -/
theorem openPath_contains {v : Volume} {p : Path} (hp : v.contains p) :
    (v.Exhausted ∧ v.openPath p = (none, v)) ∨
      ∃ h, h ≠ Handle.invalid ∧ v.pathOf? h = none ∧
        v.openPath p = (some h, { v with handles := Index.insert handleBefore h p v.handles }) := by
  unfold openPath
  rw [if_pos hp]
  cases hf : v.freeHandle? with
  | none => exact .inl ⟨freeHandle?_eq_none.mp hf, rfl⟩
  | some h =>
    obtain ⟨hvalid, hfree⟩ := freeHandle?_spec hf
    exact .inr ⟨h, hvalid, hfree, rfl⟩

end Volume

namespace Turn

/-! ## Finding and opening a program -/

/-- The name is a text that is accepted as a path, and the first of the places where it is looked for that
can be run from is at the path. -/
def Finds (t : Turn Volume) (name : List UInt8) (path : Path) : Prop :=
  ∃ chars, Utf8.decode? name = some chars ∧ Path.accepts (String.ofList chars) ∧
    (t.self.state.env.candidates (String.ofList chars)).find? t.kernel.store.runnable = some path

/-- The name is no text, or not accepted as a path, or nothing can be run in any of the places where it is
looked for. -/
def Misses (t : Turn Volume) (name : List UInt8) : Prop :=
  Utf8.decode? name = none ∨ ∃ chars, Utf8.decode? name = some chars ∧
    (¬Path.accepts (String.ofList chars) ∨
      ∀ p ∈ t.self.state.env.candidates (String.ofList chars), ¬t.kernel.store.runnable p)

variable {t : Turn Volume} {name : List UInt8} {path : Path} {program : Handle} {args : List (List UInt8)}

theorem Finds.not_misses (hf : t.Finds name path) : ¬t.Misses name := by
  obtain ⟨chars, hname, haccepts, hfind⟩ := hf
  rintro (hnone | ⟨chars', hname', hmiss⟩)
  · rw [hname] at hnone
    cases hnone
  · cases hname.symm.trans hname'
    rcases hmiss with hrefused | hmiss
    · exact hrefused haccepts
    · exact hmiss path (List.mem_of_find?_eq_some hfind) (List.find?_some hfind)

/-- What is found is at one path. -/
theorem Finds.unique (h : t.Finds name path) {path' : Path} (h' : t.Finds name path') : path = path' := by
  obtain ⟨chars, hname, -, hfind⟩ := h
  obtain ⟨chars', hname', -, hfind'⟩ := h'
  cases hname.symm.trans hname'
  exact Option.some.inj (hfind.symm.trans hfind')

/-- Either nothing is found, or what is found cannot be opened for want of a handle, or it is opened under a
handle that was free. -/
theorem openProgram_cases (t : Turn Volume) (name : List UInt8) :
    (t.Misses name ∧ openProgram name t = .ok none t) ∨
      ∃ path, t.Finds name path ∧
        ((t.kernel.store.Exhausted ∧ openProgram name t = .ok none t) ∨
          ∃ h s, h ≠ Handle.invalid ∧ t.kernel.store.pathOf? h = none ∧
            Storage.openPath t.kernel.store path = (some h, s) ∧
            openProgram name t = .ok (some (path, h)) { t with kernel := { t.kernel with store := s } }) := by
  unfold openProgram
  cases hname : Utf8.decode? name with
  | none => exact .inl ⟨.inl hname, rfl⟩
  | some chars =>
    dsimp only
    cases haccepts : Path.accepts (String.ofList chars) with
    | false => exact .inl ⟨.inr ⟨chars, hname, .inl (by rw [haccepts]; exact Bool.false_ne_true)⟩, rfl⟩
    | true =>
      have hopen : ∀ found, t.kernel.findProgram t.self.state.env (String.ofList chars) = found →
          (t.self.state.env.candidates (String.ofList chars)).find? t.kernel.store.runnable = found := fun _ => id
      simp only [Bool.not_true, Bool.false_eq_true, if_false, get_bind]
      cases hfind : t.kernel.findProgram t.self.state.env (String.ofList chars) with
      | none =>
        exact .inl ⟨.inr ⟨chars, hname, .inr (List.find?_eq_none.mp (hopen _ hfind))⟩, rfl⟩
      | some path =>
        have hfinds : t.Finds name path := ⟨chars, hname, haccepts, hopen _ hfind⟩
        have hthere : t.kernel.store.contains path := by
          have hrun := List.find?_some (hopen _ hfind)
          exact (Bool.and_eq_true _ _ ▸ hrun).1
        refine .inr ⟨path, hfinds, ?_⟩
        rcases Volume.openPath_contains hthere with ⟨hexhausted, hnone⟩ | ⟨h, hvalid, hfree, hsome⟩
        · have hstore : Storage.openPath t.kernel.store path = (none, t.kernel.store) := hnone
          refine .inl ⟨hexhausted, ?_⟩
          simp only [hstore]
          rfl
        · refine .inr ⟨h, _, hvalid, hfree, hsome, ?_⟩
          have hstore : Storage.openPath t.kernel.store path = (some h, _) := hsome
          simp only [hstore]
          rfl

/-! ## Taking over a program -/

/-- The texts that a program is started with: the path of the program, and the arguments. -/
def startTexts (path : Path) (args : List (List UInt8)) : List (List UInt8) :=
  (Utf8.encode path.chars :: args).take maxArguments

/-- The process has taken over the program, and its arguments are not yet in the data region. -/
def takenOver (t : Turn Volume) (path : Path) (program : Handle) (args : List (List UInt8)) : Turn Volume :=
  ⟨(t.kernel.onTable (·.setProgram t.self.pid program)).releaseProgram t.self.pid t.self.program,
    { t.self with
      program, window := Window.closed
      state := t.self.state.restart (startTexts path args).length (Arguments.layout 0 (startTexts path args)) }⟩

/-- After a process took over a program, its backing file is cut or extended to the length of the arguments,
and they are written there. -/
theorem replaceProgram_eq (t : Turn Volume) (path : Path) (program : Handle) (args : List (List UInt8)) :
    let t' := t.takenOver path program args
    let data := (Arguments.layout 0 (startTexts path args)).data
    let resized := t'.kernel.store.resize t.self.backingPath (Snapshot.blockSize + data.length)
    let written := resized.2.write t.self.backing Snapshot.blockSize data.toArray
    replaceProgram path program args t =
      if resized.1 = false then .error .storage { t' with kernel := { t'.kernel with store := resized.2 } }
      else if written.1 = data.length then
        .ok () { t' with kernel := { t'.kernel with store := written.2 }.note (.executes t.self.pid path) }
      else .error .storage { t' with kernel := { t'.kernel with store := written.2 } } := by
  intro t' data resized written
  have hresize : access (AddressSpace.resizeData data.length) t' =
      .ok resized.1 { t' with kernel := { t'.kernel with store := resized.2 } } := rfl
  have hwrite : access (AddressSpace.writeFile t.self.backing Snapshot.blockSize data.toArray)
      { t' with kernel := { t'.kernel with store := resized.2 } } =
      .ok written.1 { t' with kernel := { t'.kernel with store := written.2 } } := rfl
  have hbegin : replaceProgram path program args t = (do
      if !(← access (AddressSpace.resizeData data.length)) then throw .storage
      let count ← access (AddressSpace.writeFile t.self.backing Snapshot.blockSize data.toArray)
      if count ≠ data.length then throw .storage
      note (.executes t.self.pid path) : Attempt Volume Unit) t' := rfl
  rw [hbegin, bind_of_ok hresize]
  cases resized.1 with
  | false => rfl
  | true =>
    simp only [Bool.not_true, Bool.false_eq_true, if_false]
    rw [bind_of_ok hwrite]
    by_cases hcount : written.1 = data.length
    · rw [if_neg (not_not.mpr hcount), if_pos hcount]
      rfl
    · rw [if_pos hcount, if_neg hcount]
      rfl

/-! ## The whole exchange -/

/-- Without a program to run, nothing happens. -/
theorem exec_of_none {t' : Turn Volume} (h : openProgram name t = .ok none t') :
    exec name args t = .ok false t' := by
  unfold exec
  rw [bind_of_ok h]
  rfl

/-- A program that was opened is taken over. -/
theorem exec_of_some {t' : Turn Volume} (h : openProgram name t = .ok (some (path, program)) t') :
    exec name args t = (replaceProgram path program args >>= fun _ => pure true) t' := by
  unfold exec
  rw [bind_of_ok h]

/-- A process that exchanged its program found one, opened it and took it over. -/
theorem exec_true {t' : Turn Volume} (h : exec name args t = .ok true t') :
    ∃ path program s, t.Finds name path ∧ Storage.openPath t.kernel.store path = (some program, s) ∧
      openProgram name t = .ok (some (path, program)) { t with kernel := { t.kernel with store := s } } ∧
      replaceProgram path program args { t with kernel := { t.kernel with store := s } } = .ok () t' := by
  rcases openProgram_cases t name with ⟨-, hnone⟩ | ⟨path, hfinds, ⟨-, hnone⟩ | ⟨program, s, -, -, hs, hsome⟩⟩
  · cases (exec_of_none hnone).symm.trans h
  · cases (exec_of_none hnone).symm.trans h
  · rw [exec_of_some hsome] at h
    obtain ⟨_, hreplaced, -⟩ := bind_pure_ok.mp h
    exact ⟨path, program, s, hfinds, hs, hsome, hreplaced⟩

/-- What a process took over is what it runs, and all of the texts that it was started with were written to its
backing file. -/
theorem replaceProgram_ok {t' : Turn Volume} (h : replaceProgram path program args t = .ok () t') :
    t'.self = (t.takenOver path program args).self ∧
      ∃ v : Volume, v.write t.self.backing Snapshot.blockSize
        (Arguments.layout 0 (startTexts path args)).data.toArray =
          ((Arguments.layout 0 (startTexts path args)).data.length, t'.kernel.store) := by
  rw [replaceProgram_eq] at h
  dsimp only at h
  split at h
  · cases h
  · split at h
    · next hcount =>
      cases h
      exact ⟨rfl, _, Prod.ext hcount rfl⟩
    · cases h

end Turn

end CoopKernel
