import CoopKernel.Proofs.Loading
import CoopKernel.Proofs.Memory.Region
import CoopKernel.Proofs.Path
import CoopKernel.Proofs.Table

/-!
# Backing files of others

A backing file is proper if it holds a block that can be read, and behind it as many bytes as the block
says. The kernel is sound if the backing file of every process is where it belongs and is proper. While a
process is at work this cannot be said of its own file, and when it works on another process, its own file
is to stay just as it is. What is expected of each file is therefore told by `Demands`.
-/

namespace CoopKernel

namespace Volume

/-- A handle keeps its path, and what is in the file at a path stays the same. -/
structure Spares (h : Handle) (p : Path) (v w : Volume) : Prop where
  path : w.pathOf? h = v.pathOf? h
  content : w.content? p = v.content? p

instance (h : Handle) (p : Path) : IsPreorder Volume (Spares h p) where
  refl _ := ⟨rfl, rfl⟩
  trans _ _ _ h₁ h₂ := ⟨h₂.path.trans h₁.path, h₂.content.trans h₁.content⟩

variable {v w : Volume} {h : Handle} {p x : Path}

theorem OnlyAt.spares (ho : OnlyAt x v w) (hne : p ≠ x) : Spares h p v w :=
  ⟨ho.pathOf? h, by rw [Volume.content?, Volume.content?, ho.nodes p hne]⟩

theorem spares_read (v : Volume) (g : Handle) (offset count : Nat) :
    Spares h p v (v.read g offset count).2 := by
  unfold read
  split <;> exact ⟨rfl, rfl⟩

theorem spares_openPath (q : Path) (hopen : (v.pathOf? h).isSome) :
    Spares h p v (v.openPath q).2 := by
  rcases v.openPath_cases q with ho | ⟨g, _, hfree, ho⟩
  · rw [ho]
    exact refl_of (Spares h p) v
  · have hne : g ≠ h := by
      rintro rfl
      rw [hfree] at hopen
      cases hopen
    rw [ho]
    refine ⟨?_, rfl⟩
    rw [pathOf?, Index.find?_insert, if_neg hne]
    rfl

theorem spares_close {g : Handle} (hne : g ≠ h) : Spares h p v (v.close g) :=
  ⟨by rw [pathOf?_close, if_neg hne], rfl⟩

/-- A file that is open cannot be deleted. -/
theorem spares_delete (q : Path) (hp : v.pathOf? h = some p) : Spares h p v (v.delete q).2 := by
  by_cases hq : p = q
  · subst hq
    rcases v.delete_cases p with hd | ⟨_, _, _, hclosed, _⟩
    · rw [hd]
      exact refl_of (Spares h p) v
    · exact absurd (isOpen_of_pathOf? hp) hclosed
  · exact (v.delete_onlyAt q).spares hq

end Volume

/-- The arguments start far from the end of the data region. -/
def Environment.Compact (env : Environment) : Prop :=
  ∀ (n : Nat) (offset : UInt16), env.argOffsets[n]? = some offset → offset.toNat < 0x7000

/-- There is a block that can be read, and behind it the data region that it tells of. -/
def Proper (content : Bytes) : Prop :=
  ∃ s, Snapshot.ofBlock (content.slice 0 Snapshot.blockSize) = .ok s ∧
    content.size = Snapshot.blockSize + s.dataLength.toNat ∧ s.env.Compact

/-- What is expected of the backing files of processes: nothing of the file of a process at work. -/
abbrev Demands := Pid → Option (Bytes → Prop)

namespace Demands

/-- Everybody's file is to be proper. -/
def strict : Demands :=
  fun _ => some Proper

/-- The same but for one process. -/
def set (D : Demands) (pid : Pid) (demand : Option (Bytes → Prop)) : Demands :=
  fun q => if q = pid then demand else D q

@[simp] theorem set_self (D : Demands) (pid : Pid) (demand : Option (Bytes → Prop)) :
    D.set pid demand pid = demand :=
  if_pos rfl

theorem set_of_ne (D : Demands) {pid q : Pid} (h : q ≠ pid) (demand : Option (Bytes → Prop)) :
    D.set pid demand q = D q :=
  if_neg h

end Demands

namespace Kernel

theorem backingPath_inj {k : Kernel Volume} {pid q : Pid} (h : k.backingPath pid = k.backingPath q) :
    pid = q := by
  have hname := k.base?_backingPath pid
  rw [h, k.base?_backingPath q] at hname
  exact Pid.fileName_inj (Option.some.inj hname).symm

/-- The backing file of a process is where it belongs, and is as demanded. -/
structure Kept (P : Bytes → Prop) (k : Kernel Volume) (pid : Pid) (p : Process) : Prop where
  path : k.store.pathOf? p.backing = some (k.backingPath pid)
  content : ∃ content, k.store.content? (k.backingPath pid) = some content ∧ P content

end Kernel

/-- Backing files are where they belong and as demanded, nobody died of a block that could not be read, and
the kernel goes on. Who can be woken has a proper file. -/
structure Sound (D : Demands) (k : Kernel Volume) : Prop where
  kept : ∀ {pid p P}, k.table.process? pid = some p → D pid = some P → k.Kept P pid p
  rousable : ∀ {pid p P}, k.table.process? pid = some p → D pid = some P →
    P = Proper ∨ p.status = .active
  home : ∀ {pid p path}, k.table.process? pid = some p → k.store.pathOf? p.backing = some path →
    path = k.backingPath pid
  log : ∀ pid, .faulted pid .corruptState ∉ k.log
  running : k.halted = false

namespace Sound

open Volume (Spares OnlyAt)

variable {D : Demands} {k : Kernel Volume}

/-- Less can be demanded. -/
theorem mono {D' : Demands} (h : Sound D k)
    (hD : ∀ {pid p P}, k.table.process? pid = some p → D' pid = some P → D pid = some P) :
    Sound D' k where
  kept hp hP := h.kept hp (hD hp hP)
  rousable hp hP := h.rousable hp (hD hp hP)
  home := h.home
  log := h.log
  running := h.running

/-- Only the files, the processes, their directory, the log and whether the kernel goes on matter. -/
theorem congr (h : Sound D k) {k' : Kernel Volume} (hstore : k'.store = k.store)
    (htable : k'.table = k.table) (hdir : k'.settings.tmpDir = k.settings.tmpDir) (hlog : k'.log = k.log)
    (hhalted : k'.halted = k.halted) : Sound D k' := by
  have hpath : ∀ pid, k'.backingPath pid = k.backingPath pid := by
    intro pid
    rw [Kernel.backingPath, Kernel.backingPath, hdir]
  refine ⟨fun {pid p P} hp hP => ?_, ?_, ?_, ?_, hhalted.trans h.running⟩
  · rw [htable] at hp
    have hkept := h.kept hp hP
    exact ⟨by rw [hstore, hpath]; exact hkept.path, by rw [hstore, hpath]; exact hkept.content⟩
  · rw [htable]
    exact h.rousable
  · rw [htable, hstore]
    intro pid p path hp hq
    rw [hpath]
    exact h.home hp hq
  · rw [hlog]
    exact h.log

/-- What is demanded of one process is seen to by itself. -/
theorem of_set_none {pid : Pid} (h : Sound (D.set pid none) k)
    (hself : ∀ {p P}, k.table.process? pid = some p → D pid = some P →
      k.Kept P pid p ∧ (P = Proper ∨ p.status = .active)) : Sound D k where
  kept {q p P} hp hP := by
    by_cases hq : q = pid
    · subst hq
      exact (hself hp hP).1
    · exact h.kept hp ((D.set_of_ne hq none).trans hP)
  rousable {q p P} hp hP := by
    by_cases hq : q = pid
    · subst hq
      exact (hself hp hP).2
    · exact h.rousable hp ((D.set_of_ne hq none).trans hP)
  home := h.home
  log := h.log
  running := h.running

theorem set_none (h : Sound D k) (pid : Pid) : Sound (D.set pid none) k := by
  refine h.mono fun {q r P} hr hP => ?_
  by_cases hq : q = pid
  · subst hq
    rw [Demands.set_self] at hP
    cases hP
  · rw [Demands.set_of_ne _ hq] at hP
    exact hP

/-! ## Changes of the storage -/

theorem stored (h : Sound D k) {s : Volume}
    (hhome : ∀ {pid p path}, k.table.process? pid = some p → s.pathOf? p.backing = some path →
      k.store.pathOf? p.backing = some path)
    (hspares : ∀ {pid p P}, k.table.process? pid = some p → D pid = some P →
      Spares p.backing (k.backingPath pid) k.store s) : Sound D { k with store := s } where
  kept hp hP := by
    obtain ⟨hpath, content, hc, hdemand⟩ := h.kept hp hP
    have hs := hspares hp hP
    exact ⟨hs.path.trans hpath, content, hs.content.trans hc, hdemand⟩
  rousable := h.rousable
  home hp hpath := h.home hp (hhome hp hpath)
  log := h.log
  running := h.running

/-- Something happens at one path that is not that of a demanded file. -/
theorem onlyAt (h : Sound D k) {x : Path} {s : Volume} (hs : OnlyAt x k.store s)
    (hx : ∀ {pid p P}, k.table.process? pid = some p → D pid = some P → k.backingPath pid ≠ x) :
    Sound D { k with store := s } :=
  h.stored (fun _ hpath => (hs.pathOf? _).symm.trans hpath) fun hp hP => hs.spares (hx hp hP)

theorem read (h : Sound D k) (g : Handle) (offset count : Nat) :
    Sound D { k with store := (k.store.read g offset count).2 } :=
  h.stored (fun {_ p path} _ hpath =>
    ((k.store.spares_read (h := p.backing) (p := path) g offset count).path).symm.trans hpath)
    fun _ _ => k.store.spares_read g offset count

theorem opened (h : Sound D k) (q : Path)
    (hopen : ∀ {pid p}, k.table.process? pid = some p → (k.store.pathOf? p.backing).isSome) :
    Sound D { k with store := (k.store.openPath q).2 } :=
  h.stored (fun {_ _ path} hp hpath =>
    ((Volume.spares_openPath (p := path) q (hopen hp)).path).symm.trans hpath)
    fun hp _ => Volume.spares_openPath q (hopen hp)

theorem closed (h : Sound D k) {g : Handle}
    (hg : ∀ {pid p P}, k.table.process? pid = some p → D pid = some P → g ≠ p.backing) :
    Sound D { k with store := k.store.close g } := by
  refine h.stored (fun {pid p path} _ hpath => ?_) fun hp hP => Volume.spares_close (hg hp hP)
  rw [Volume.pathOf?_close] at hpath
  split at hpath
  · cases hpath
  · exact hpath

theorem deleted (h : Sound D k) (q : Path) : Sound D { k with store := (k.store.delete q).2 } :=
  h.stored (fun _ hpath => ((k.store.delete_onlyAt q).pathOf? _).symm.trans hpath)
    fun hp hP => Volume.spares_delete q (h.kept hp hP).path

/-! ## Changes of the table and the log -/

theorem note (h : Sound D k) {e : Event} (he : ∀ pid, e ≠ .faulted pid .corruptState) :
    Sound D (k.note e) where
  kept hp hP := ⟨(h.kept hp hP).path, (h.kept hp hP).content⟩
  rousable := h.rousable
  home := h.home
  log pid hm := by
    rcases Array.mem_push.mp hm with hm | hm
    · exact h.log pid hm
    · exact he pid hm.symm
  running := h.running

/-- Where the processes are the same but for what they do, or where nothing is demanded of them. -/
theorem onTable (h : Sound D k) {f : Table → Table}
    (hback : ∀ {pid p'}, (f k.table).process? pid = some p' → ∃ p, k.table.process? pid = some p ∧
      p.backing = p'.backing ∧
        (p'.status = p.status ∨ p'.status = .active ∨ D pid = none)) :
    Sound D (k.onTable f) where
  kept hp' hP := by
    obtain ⟨p, hp, hbacking, _⟩ := hback hp'
    have hkept := h.kept hp hP
    exact ⟨hbacking ▸ hkept.path, hkept.content⟩
  rousable hp' hP := by
    obtain ⟨p, hp, _, hstatus⟩ := hback hp'
    rcases hstatus with hsame | hactive | hnone
    · exact (h.rousable hp hP).imp_right fun ha => hsame.trans ha
    · exact .inr hactive
    · rw [hnone] at hP
      cases hP
  home hp' hpath := by
    obtain ⟨p, hp, hbacking, _⟩ := hback hp'
    exact h.home hp (hbacking ▸ hpath)
  log := h.log
  running := h.running

theorem modified (h : Sound D k) {pid : Pid} {f : Process → Process}
    (hf : ∀ p, (f p).backing = p.backing ∧
      ((f p).status = p.status ∨ (f p).status = .active ∨ D pid = none)) :
    Sound D (k.onTable (·.modify pid f)) := by
  refine h.onTable fun {q r} hr => ?_
  rcases Table.process?_modify_cases hr with ⟨rfl, p, hp, rfl⟩ | ⟨_, hr⟩
  · exact ⟨p, hp, (hf p).1.symm, (hf p).2⟩
  · exact ⟨r, hr, rfl, .inl rfl⟩

theorem setActive (h : Sound D k) (pid : Pid) : Sound D (k.onTable (·.setStatus pid .active)) :=
  h.modified fun _ => ⟨rfl, .inr (.inl rfl)⟩

theorem resetCounts (h : Sound D k) : Sound D (k.onTable Table.resetCounts) := by
  refine h.onTable fun {q r} hr => ?_
  rw [Table.process?_resetCounts] at hr
  obtain ⟨p, hp, rfl⟩ := Option.map_eq_some_iff.mp hr
  exact ⟨p, hp, rfl, .inl rfl⟩

theorem vacated (h : Sound D k) (pid : Pid) (status : UInt16) :
    Sound D (k.onTable (·.vacate pid status)) := by
  refine h.onTable fun {q r} hr => ?_
  exact ⟨r, (Table.process?_vacate_cases hr).2, rfl, .inl rfl⟩

/-- A process takes a slot with a backing file that is where it belongs. -/
theorem occupied (h : Sound D k) {pid : Pid} {program backing : Handle}
    (hkept : k.Kept Proper pid { program, backing }) (hD : D pid = some Proper) :
    Sound D (k.onTable (·.occupy pid program backing)) where
  kept hr hP := by
    rcases Table.process?_occupy_cases hr with ⟨rfl, rfl⟩ | ⟨_, hr⟩
    · rw [hD] at hP
      cases hP
      exact ⟨hkept.path, hkept.content⟩
    · have hk := h.kept hr hP
      exact ⟨hk.path, hk.content⟩
  rousable hr hP := by
    rcases Table.process?_occupy_cases hr with ⟨rfl, rfl⟩ | ⟨_, hr⟩
    · exact .inr rfl
    · exact h.rousable hr hP
  home hr hpath := by
    rcases Table.process?_occupy_cases hr with ⟨rfl, rfl⟩ | ⟨_, hr⟩
    · exact Option.some.inj (hpath.symm.trans hkept.path)
    · exact h.home hr hpath
  log := h.log
  running := h.running

end Sound

end CoopKernel
