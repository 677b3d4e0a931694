import CoopKernel.Proofs.Backing.Basic
import CoopKernel.Proofs.Settled

/-!
# A process at work

While a process is loaded, its backing file is as long as the snapshot in memory says, whatever the block
in the file says. It gets such a file by being loaded, keeps it by whatever it does at home, and leaves a
proper file when it is saved. What happens to the backing files of others is none of its doing.
-/

namespace CoopKernel

/-- There are not too many arguments, all of which start far from the end of the data region, and the texts
are no longer than their fields. -/
structure Environment.Neat (env : Environment) : Prop where
  args : env.argCount.toNat ≤ maxArguments
  compact : env.Compact
  workDir : env.workDir.toList.length ≤ Snapshot.textSize
  searchPath : env.searchPath.toList.length ≤ Snapshot.textSize

namespace Snapshot

theorem length_textAt (block : Bytes) (start : Nat) :
    (textAt block start).toList.length ≤ textSize := by
  have hfield : (block.slice start textSize).toList.length ≤ textSize := by
    rw [Array.length_toList, Bytes.size_slice, Bytes.room]
    omega
  have htake : ((block.slice start textSize).toList.takeWhile (· ≠ 0)).length ≤
      (block.slice start textSize).toList.length := (List.takeWhile_sublist _).length_le
  have hdecode := Utf8.length_decodeLossy ((block.slice start textSize).toList.takeWhile (· ≠ 0))
  rw [textAt, String.toList_ofList]
  omega

theorem neat_of_ofBlock {block : Bytes} {s : Snapshot} (h : ofBlock block = .ok s)
    (hcompact : s.env.Compact) : s.env.Neat := by
  have hargs := argCount_of_ofBlock h
  unfold ofBlock at h
  split at h
  · cases h
  · dsimp only at h
    split at h
    · cases h
    · cases h
      exact ⟨hargs, hcompact, length_textAt _ _, length_textAt _ _⟩

end Snapshot

/-- What is written in front of the data region is a block that fits it. -/
theorem proper_overwrite {content : Bytes} {s : Snapshot}
    (hsize : content.size = Snapshot.blockSize + s.dataLength.toNat)
    (hargs : s.env.argCount.toNat ≤ maxArguments) (hcompact : s.env.Compact) :
    Proper (content.overwrite 0 s.toBlock.toList) := by
  refine ⟨s.stored, ?_, ?_, hcompact⟩
  · rw [Kernel.slice_overwrite_toBlock (by omega), Snapshot.ofBlock_toBlock hargs]
  · rw [Bytes.size_overwrite, Snapshot.stored_dataLength, hsize]

namespace AddressSpace

variable {s s' : AddressSpace Volume}

/-- Only the sizes of two files need to be compared. -/
theorem Fits.of_spares (hs : s.Fits) (hdata : s'.data = s.data) (hpath : s'.dataPath = s.dataPath)
    (hlength : s'.dataLength = s.dataLength)
    (hspares : Volume.Spares s.data s.dataPath s.store s'.store) : s'.Fits := by
  refine ⟨?_, ?_⟩
  · rw [hdata, hpath, hspares.path]
    exact hs.path
  · rw [Volume.length?, hpath, hlength, hspares.content]
    exact hs.size

/-- Work that is confined to a backing file that fits leaves it so. -/
def Contained (s s' : AddressSpace Volume) : Prop :=
  s.Fits → s'.Fits ∧ Apart s s'

instance : IsPreorder (AddressSpace Volume) Contained where
  refl s hs := ⟨hs, refl_of Apart s⟩
  trans _ _ _ h₁ h₂ hs :=
    ⟨(h₂ (h₁ hs).1).1, trans_of Apart (h₁ hs).2 (h₂ (h₁ hs).1).2⟩

theorem Untouched.contained (h : Untouched s s') : Contained s s' := fun hs =>
  ⟨(h.evolves hs).fits, (h.evolves hs).apart⟩

/-- The faults of memory are not those of state blocks. -/
theorem write_faults (a : UInt16) (b : UInt8) :
    Works (Stays fun _ => True) (· ≠ .corruptState) (write a b : Access Volume Unit) :=
  write_works (A := Stays fun _ => True) (fun _ => id) (fun _ _ _ _ => id)
    (grow_works (fun _ => id) (fun _ _ _ _ => id) (fun _ _ => id) (fun _ _ => id) fun _ _ => id) a b

theorem write_contained (a : UInt16) (b : UInt8) :
    Works Contained (· ≠ .corruptState) (write a b : Access Volume Unit) := by
  intro s
  by_cases hs : s.Fits
  · unfold write
    split
    · exact ⟨nofun, refl_of Contained s⟩
    · next ha =>
      rcases writeData_cases hs (UInt16.not_lt.mp ha) b with ⟨s', hw, hsame⟩ | ⟨s', hw, hput⟩
      · rw [hw]
        exact ⟨nofun, hsame.contained⟩
      · rw [hw]
        exact fun _ => ⟨hput.fits, hput.apart⟩
  · exact (write_faults a b s).mono (fun _ _ _ hfits => absurd hfits hs) fun _ _ hr =>
      ⟨hr.1, fun hfits => absurd hfits hs⟩

theorem tame_contained : Tame (σ := Volume) Contained (· ≠ .corruptState) where
  fault _ := id
  readFile h offset count s := (readFile_untouched h offset count s).contained
  window _ _ := Untouched.contained ⟨rfl, rfl, rfl⟩
  write := write_contained

end AddressSpace

open AddressSpace (Contained)
open Volume (Spares)

/-- A process is at work: it is the one in its slot, its file is where it belongs and as long as it is to
be, its environment can be put into a block, and nothing is amiss with the others. -/
structure Turn.Tended (D : Demands) (t : Turn Volume) : Prop where
  sound : Sound (D.set t.self.pid none) t.kernel
  seat : ∃ p, t.kernel.table.process? t.self.pid = some p ∧ p.backing = t.self.backing
  place : t.self.backingPath = t.kernel.backingPath t.self.pid
  fits : t.space.Fits
  neat : t.self.state.env.Neat

namespace Turn.Tended

variable {D : Demands} {t : Turn Volume}

/-- The file of the process is where it belongs. -/
theorem path (h : t.Tended D) : t.kernel.store.pathOf? t.self.backing = some t.self.backingPath :=
  h.fits.path

/-- Who else has a demanded file has it elsewhere. -/
theorem elsewhere (h : t.Tended D) {pid : Pid} {P : Bytes → Prop}
    (hP : D.set t.self.pid none pid = some P) : t.kernel.backingPath pid ≠ t.self.backingPath := by
  intro he
  rw [h.place] at he
  rw [Kernel.backingPath_inj he, Demands.set_self] at hP
  cases hP

/-- The kernel does something that concerns neither the process nor its file. -/
theorem others (h : t.Tended D) {k : Kernel Volume} (hsound : Sound (D.set t.self.pid none) k)
    (hseat : ∃ p, k.table.process? t.self.pid = some p ∧ p.backing = t.self.backing)
    (hdir : k.settings.tmpDir = t.kernel.settings.tmpDir)
    (hspares : Spares t.self.backing t.self.backingPath t.kernel.store k.store) :
    Turn.Tended D { t with kernel := k } where
  sound := hsound
  seat := hseat
  place := by rw [h.place, Kernel.backingPath, Kernel.backingPath, hdir]
  fits := h.fits.of_spares rfl rfl rfl hspares
  neat := h.neat

/-- The process itself changes, but for its files and the length of its data region. -/
theorem within (h : t.Tended D) {self : Loaded} (hself : self = { t.self with
      program := self.program, state := self.state, window := self.window })
    (hlength : self.state.dataLength = t.self.state.dataLength) (hneat : self.state.env.Neat) :
    Turn.Tended D { t with self := self } := by
  have hpid : self.pid = t.self.pid := by rw [hself]
  have hbacking : self.backing = t.self.backing := by rw [hself]
  have hpath : self.backingPath = t.self.backingPath := by rw [hself]
  refine ⟨?_, ?_, ?_, ?_, hneat⟩
  · rw [hpid]
    exact h.sound
  · rw [hpid, hbacking]
    exact h.seat
  · rw [hpid, hpath]
    exact h.place
  · exact h.fits.of_spares hbacking hpath hlength (refl_of (Spares _ _) _)

theorem setSpace (h : t.Tended D) {s : AddressSpace Volume} (hfits : s.Fits)
    (hapart : AddressSpace.Apart t.space s) : Turn.Tended D (t.setSpace s) where
  sound := by
    have hstored : Sound (D.set t.self.pid none) { t.kernel with store := s.store } :=
      h.sound.onlyAt hapart.store fun _ hP => h.elsewhere hP
    exact hstored.congr rfl rfl rfl rfl rfl
  seat := h.seat
  place := h.place
  fits := by
    have hdata : t.self.backing = s.data := hapart.data.symm
    have hpath : t.self.backingPath = s.dataPath := hapart.dataPath.symm
    exact hfits.of_spares hdata hpath rfl (refl_of (Spares _ _) _)
  neat := h.neat

/-! ## At home -/

theorem domestic (D : Demands) :
    Domestic Contained (Stays (Turn.Tended D)) (· ≠ .corruptState) where
  memory := AddressSpace.tame_contained
  space _ _ hs h := h.setSpace (hs h.fits).1 (hs h.fits).2
  glance t g offset count h :=
    h.others (h.sound.read g offset count) h.seat rfl (t.kernel.store.spares_read g offset count)
  window _ _ h := h.within rfl rfl h.neat
  state _ _ henv hlength _ h := h.within rfl hlength (henv ▸ h.neat)
  handler _ _ _ _ h := h.within rfl rfl h.neat
  stdio _ _ h := h.within rfl rfl ⟨h.neat.args, h.neat.compact, h.neat.workDir, h.neat.searchPath⟩

theorem note (h : t.Tended D) {e : Event} (he : ∀ pid, e ≠ .faulted pid .corruptState) :
    Turn.Tended D { t with kernel := t.kernel.note e } :=
  h.others (h.sound.note he) h.seat rfl (refl_of (Spares _ _) _)

/-- The process does something else, or it or another is counted. -/
theorem modified (h : t.Tended D) (pid : Pid) {f : Process → Process}
    (hf : ∀ p, (f p).backing = p.backing ∧
      ((f p).status = p.status ∨ (f p).status = .active ∨ D.set t.self.pid none pid = none)) :
    Turn.Tended D { t with kernel := t.kernel.onTable (·.modify pid f) } := by
  refine h.others (h.sound.modified hf) ?_ rfl (refl_of (Spares _ _) _)
  obtain ⟨p, hp, hbacking⟩ := h.seat
  by_cases hpid : t.self.pid = pid
  · subst hpid
    exact ⟨f p, Table.process?_modify_self hp, (hf p).1.trans hbacking⟩
  · exact ⟨p, (Table.process?_modify_of_ne hpid).trans hp, hbacking⟩

theorem setActive (h : t.Tended D) :
    Turn.Tended D { t with kernel := t.kernel.onTable (·.setStatus t.self.pid .active) } :=
  h.modified _ fun _ => ⟨rfl, .inr (.inl rfl)⟩

/-- The process can go to sleep. -/
theorem setStatus (h : t.Tended D) (status : Status) :
    Turn.Tended D { t with kernel := t.kernel.onTable (·.setStatus t.self.pid status) } :=
  h.modified _ fun _ => ⟨rfl, .inr (.inr (D.set_self _ none))⟩

theorem addCount (h : t.Tended D) (pid : Pid) :
    Turn.Tended D { t with kernel := t.kernel.onTable (·.addCount pid) } :=
  h.modified _ fun _ => ⟨rfl, .inl rfl⟩

end Turn.Tended

/-! ## Loading and saving -/

namespace Sound

variable {D : Demands} {k : Kernel Volume} {pid : Pid} {p : Process}

/-- A process with a proper file can be loaded. -/
theorem load (h : Sound D k) (hp : k.table.process? pid = some p) (hD : D pid = some Proper) :
    ∃ self, k.load pid = (.ok self, k) ∧ self.pid = pid ∧ Turn.Tended D ⟨k, self⟩ := by
  obtain ⟨hpath, content, hc, s, hs, hsize, hcompact⟩ := h.kept hp hD
  have hbehind : k.store.behind? p.backing = some content := by
    rw [Volume.behind?, hpath]
    exact hc
  have hload := Kernel.load_eq hp hbehind (by omega)
  rw [hs] at hload
  refine ⟨_, hload, rfl, h.set_none pid, ⟨p, hp, rfl⟩, rfl, ⟨hpath, ?_⟩,
    Snapshot.neat_of_ofBlock hs hcompact⟩
  rw [Volume.length?]
  dsimp only [Turn.space]
  rw [hc, Option.map_some, hsize]

end Sound

namespace Turn.Tended

variable {D : Demands} {t : Turn Volume}

/-- A process at work can be saved, and leaves a proper file. -/
theorem save (h : t.Tended D) (hD : D t.self.pid = some Proper) :
    t.kernel.save t.self = (true, t.kernel.saved t.self) ∧ Sound D (t.kernel.saved t.self) := by
  obtain ⟨content, hc, hbehind, hsize⟩ := h.fits.content
  obtain ⟨p, hp, hbacking⟩ := h.seat
  have honly := Volume.write_onlyAt h.path 0 t.self.state.toBlock
  have hwritten := Kernel.saved_behind hbehind
  have hstored : Sound (D.set t.self.pid none) (t.kernel.saved t.self) :=
    h.sound.onlyAt honly fun _ hP => h.elsewhere hP
  have hpath : (t.kernel.saved t.self).store.pathOf? t.self.backing = some t.self.backingPath :=
    (honly.pathOf? _).trans h.path
  refine ⟨Kernel.save_eq hbehind (Nat.le.intro hsize.symm), hstored.of_set_none fun {q P} hq hP => ?_⟩
  have hsame : q = p := Option.some.inj (hq.symm.trans hp)
  subst hsame
  rw [hD] at hP
  cases hP
  refine ⟨⟨?_, content.overwrite 0 t.self.state.toBlock.toList, ?_,
    proper_overwrite hsize h.neat.args h.neat.compact⟩, .inl rfl⟩
  · rw [hbacking, hpath, h.place]
    rfl
  · rw [Volume.behind?, hpath, Option.bind_some, h.place] at hwritten
    exact hwritten

end Turn.Tended

end CoopKernel
