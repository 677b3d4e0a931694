import CoopKernel.Proofs.Census.Making
import CoopKernel.Proofs.Custody.Neighbours
import CoopKernel.Proofs.Waiting.Aftermath

/-!
# What is known of a process while others are at work

What is known of a process often comes down to its place in the table and to what is in its backing file, where
it is no matter if others end. `Lasts` says so of something known. It is known still when other processes are
loaded, worked on and saved, whatever comes of that, and when processes are made, since these have files of their
own.
-/

namespace CoopKernel

open Volume (OnlyAt Spares)

variable {l : Ledger} {k k' : Kernel Volume} {pid q : Pid} {p r : Process} {self : Loaded} {α : Type}

/-- What is spared at the path that a handle is open for is behind the handle as it was. -/
theorem Volume.Spares.behind? {v w : Volume} {h : Handle} {home : Path} (hs : Spares h home v w)
    (hhome : v.pathOf? h = some home) : w.behind? h = v.behind? h := by
  rw [Volume.behind?, Volume.behind?, hs.path, hhome]
  exact hs.content

/-! ## Work on another process -/

namespace Turn

/-- Besides what the memory of the process is kept in, no file changes, and nothing is opened or closed. -/
def Secluded (t t' : Turn Volume) : Prop := AddressSpace.Secluded t.space t'.space

instance : IsPreorder (Turn Volume) Secluded where
  refl t := refl_of AddressSpace.Secluded t.space
  trans _ _ _ h₁ h₂ := trans_of AddressSpace.Secluded h₁ h₂

theorem indifferent_secluded : Indifferent AddressSpace.Secluded Secluded fun _ => True where
  memory := AddressSpace.tame_secluded
  space _ _ h := ⟨rfl, rfl, h.path, h.content⟩
  glance t h offset count := AddressSpace.readFile_secluded h offset count t.space
  window _ _ := .of_store_eq rfl rfl rfl
  state _ _ _ _ _ := .of_store_eq rfl rfl rfl
  handler _ _ _ _ := .of_store_eq rfl rfl rfl
  stdio _ _ := .of_store_eq rfl rfl rfl
  status _ _ _ := .of_store_eq rfl rfl rfl
  count _ _ := .of_store_eq rfl rfl rfl
  note _ _ _ := .of_store_eq rfl rfl rfl

/-- A loaded process is in the table, with the backing file that it has, and its file would grow where the
settings tell. -/
structure Housed (t : Turn Volume) (p : Process) : Prop where
  process : t.kernel.table.process? t.self.pid = some p
  backing : t.self.backing = p.backing
  growth : t.self.backingPath = t.kernel.backingPath t.self.pid

theorem Housed.spares {t t' : Turn Volume} (h : t.Housed p) (hs : Secluded t t') (c : Custody l t.kernel)
    (hr : t.kernel.table.process? q = some r) (hne : q ≠ t.self.pid) : ∃ home,
      t.kernel.store.pathOf? r.backing = some home ∧ Spares r.backing home t.kernel.store t'.kernel.store ∧
        t'.kernel.store.pathOf? t'.self.backing ≠ some home := by
  obtain ⟨home, hhome, hgrowth, hown⟩ := c.home_apart h.process hr hne
  have hbacking : t'.self.backing = p.backing := hs.data.trans h.backing
  have hdata : t.kernel.store.pathOf? t.self.backing ≠ some home := by
    rw [h.backing]
    exact hown
  have hpath : home ≠ t.self.backingPath := by
    rw [h.growth]
    exact hgrowth
  refine ⟨home, hhome, ⟨hs.path r.backing, hs.content home hpath hdata⟩, ?_⟩
  rw [hbacking, ← h.backing]
  exact fun he => hdata ((hs.path _).symm.trans he)

/-- Work on a process that makes it active at most leaves the others in their places. -/
theorem Inward.others {act : Attempt Volume α} (hin : Inward act) {t : Turn Volume} (hne : q ≠ t.self.pid) :
    Stays (fun k : Kernel Volume => k.table.process? q = some r) t.kernel (after act t).kernel :=
  hin.kernel (fun _ _ hq hr => by rw [hq.rest]; exact hr) (fun _ _ _ => id)
    (fun _ hr => (Table.process?_modify_of_ne hne).trans hr) rfl

end Turn

namespace Kernel

/-- A process is housed when it is loaded. -/
theorem housed_of_load (hl : k.load pid = (.ok self, k')) : ∃ p, Turn.Housed ⟨k', self⟩ p := by
  obtain ⟨p, hp, hself⟩ := load_ok hl
  have hrest := (quiet_of_load hl).rest
  refine ⟨p, ?_, ?_, ?_⟩
  · rw [hrest, hself]
    exact hp
  · rw [hself]
  · rw [hself, backingPath, backingPath, hrest]

end Kernel

/-! ## Beginnings -/

namespace Kernel

/-- The making of a backing file leaves every open file elsewhere as it is. -/
theorem makeBacking_spares {h : Handle} {home : Path} (hopen : (k.store.pathOf? h).isSome)
    (hne : home ≠ k.backingPath pid) (state : Snapshot) (data : Bytes) :
    Spares h home k.store (k.makeBacking pid state data).2.store := by
  unfold makeBacking
  rcases hc : Storage.create k.store (k.backingPath pid) (Snapshot.blockSize + data.size) with ⟨created, s₁⟩
  have h₁ : Spares h home k.store (k.store.create (k.backingPath pid) (Snapshot.blockSize + data.size)).2 :=
    (k.store.create_onlyAt _ _).spares hne
  rw [show (k.store.create _ _).2 = s₁ from congrArg Prod.snd hc] at h₁
  have h₂ : Spares h home k.store (s₁.openPath (k.backingPath pid)).2 :=
    trans_of (Spares h home) h₁ (Volume.spares_openPath _ (by rw [h₁.path]; exact hopen))
  simp only [hc]
  cases created with
  | false => exact h₁
  | true =>
    rcases ho : Storage.openPath s₁ (k.backingPath pid) with ⟨_ | g, s₂⟩
    · rw [show (s₁.openPath (k.backingPath pid)).2 = s₂ from congrArg Prod.snd ho] at h₂
      exact trans_of (Spares h home) h₂ ((s₂.delete_onlyAt _).spares hne)
    · rw [show (s₁.openPath (k.backingPath pid)).2 = s₂ from congrArg Prod.snd ho] at h₂
      obtain ⟨-, hfresh, hpath⟩ := VolumeBacked.openPath_some ho
      have hg : s₂.pathOf? g = some (k.backingPath pid) := (hpath g).trans (if_pos rfl)
      have hgne : g ≠ h := by
        rintro rfl
        have hnone : s₁.pathOf? g = none := hfresh
        rw [← h₁.path, hnone] at hopen
        cases hopen
      have hwrite {s : Volume} (offset : Nat) (bytes : Bytes) (hs : OnlyAt (k.backingPath pid) s₂ s) :
          OnlyAt (k.backingPath pid) s₂ (s.write g offset bytes).2 :=
        trans_of (OnlyAt _) hs (Volume.write_onlyAt ((hs.pathOf? g).trans hg) offset bytes)
      have hsaved := hwrite 0 state.toBlock (refl_of (OnlyAt _) s₂)
      -- Whether or not all was written, what was opened is the only file that changes.
      have hdone (written : Bool) {s : Volume} (hs : OnlyAt (k.backingPath pid) s₂ s) :
          Spares h home k.store (if written then ((.ok g, { k with store := s }) :
            Except SpawnError Handle × Kernel Volume) else (.error .storage,
              { k with store := (Storage.delete (Storage.close s g) (k.backingPath pid)).2 })).2.store := by
        have hkept := trans_of (Spares h home) h₂ (hs.spares hne)
        cases written with
        | true => exact hkept
        | false =>
          have hclosed := trans_of (Spares h home) hkept (Volume.spares_close hgne)
          exact trans_of (Spares h home) hclosed ((Volume.delete_onlyAt _ _).spares hne)
      rcases hs : state.save s₂ g with ⟨_ | _, s₃⟩
      all_goals
        rw [show (s₂.write g 0 state.toBlock).2 = s₃ from congrArg Prod.snd hs] at hsaved
        simp only [hs]
      · exact hdone false hsaved
      · exact hdone _ (hwrite Snapshot.blockSize data hsaved)

/-- So does the making of a copy of a process, which gets a file of its own. -/
theorem fork_spares {h : Handle} {home : Path} (hopen : (k.store.pathOf? h).isSome)
    (hne : ∀ pid, k.table.process? pid = none → home ≠ k.backingPath pid) (parent : Loaded) :
    Spares h home k.store (k.fork parent).2.store := by
  unfold fork
  cases hslot : k.table.firstFree? with
  | none => exact refl_of (Spares h home) k.store
  | some pid =>
    have hread : Spares h home k.store (k.store.read parent.backing Snapshot.blockSize _).2 :=
      k.store.spares_read parent.backing Snapshot.blockSize parent.state.dataLength.toNat
    rcases hr : Storage.read k.store parent.backing Snapshot.blockSize parent.state.dataLength.toNat with
      ⟨data, s⟩
    rw [show (k.store.read parent.backing Snapshot.blockSize _).2 = s from congrArg Prod.snd hr] at hread
    simp only [hr]
    split
    · exact hread
    · have hmade := makeBacking_spares (k := { k with store := s }) (h := h) (by rw [hread.path]; exact hopen)
        (hne pid (Table.process?_of_firstFree? hslot)) (parent.state.setReg Reg.result 0) data
      have hall := trans_of (Spares h home) hread hmade
      split <;> next hm => rw [hm] at hall; exact hall

/-- And so does the making of a process for a program. -/
theorem spawn_spares {h : Handle} {home : Path} (hopen : (k.store.pathOf? h).isSome)
    (hne : ∀ pid, k.table.process? pid = none → home ≠ k.backingPath pid) (program : String) :
    Spares h home k.store (k.spawn program).2.store := by
  unfold spawn
  split
  · exact refl_of (Spares h home) k.store
  · cases hslot : k.table.firstFree? with
    | none => exact refl_of (Spares h home) k.store
    | some pid =>
      dsimp only
      split
      · exact refl_of (Spares h home) k.store
      · have hopened : Spares h home k.store (k.store.openPath (Path.ofText program)).2 :=
          Volume.spares_openPath _ hopen
        rcases ho : Storage.openPath k.store (Path.ofText program) with ⟨_ | g, s⟩
        all_goals rw [show (k.store.openPath (Path.ofText program)).2 = s from congrArg Prod.snd ho] at hopened
        · exact hopened
        · have hgne : g ≠ h := by
            rintro rfl
            have hnone : k.store.pathOf? g = none := (VolumeBacked.openPath_some ho).2.1
            rw [hnone] at hopen
            cases hopen
          have hmade := makeBacking_spares (k := { k with store := s }) (h := h)
            (by rw [hopened.path]; exact hopen) (hne pid (Table.process?_of_firstFree? hslot))
            (k.initialState (Path.ofText program)) #[]
          have hall := trans_of (Spares h home) hopened hmade
          dsimp only
          split
          · next hm =>
            rw [hm] at hall
            exact trans_of (Spares h home) hall (Volume.spares_close hgne)
          · next hm =>
            rw [hm] at hall
            exact hall

end Kernel

/-! ## Lasting knowledge -/

/-- What is known of a process lasts as long as it keeps its place in the table, but for its counter, and its file
stays as it is, and it outlasts whoever ends. -/
structure Kernel.Lasts (q : Pid) (P : Kernel Volume → Prop) : Prop where
  live : ∀ {k}, P k → k.table.isLive q
  same : ∀ {k k' p}, P k → k.table.process? q = some p → (∃ count, k'.table.process? q = some { p with count }) →
    k'.store.behind? p.backing = k.store.behind? p.backing → P k'
  kill : ∀ {l k pid}, Custody l k → P k → q ≠ pid → ∀ status, P (k.kill pid status).2

namespace Kernel.Lasts

variable {P : Kernel Volume → Prop} (d : Lasts q P)

include d

/-- Only the record of the process and what is in its file matter. -/
theorem keep (h : P k) (htable : k'.table.process? q = k.table.process? q)
    (hfile : ∀ p, k.table.process? q = some p → k'.store.behind? p.backing = k.store.behind? p.backing) : P k' := by
  obtain ⟨p, hp⟩ := Table.isLive_iff.mp (d.live h)
  exact d.same h hp ⟨p.count, htable.trans hp⟩ (hfile p hp)

/-- The process keeps its place in the table, and its file stays where it is and as it is. -/
theorem spared (h : P k) (hp : k.table.process? q = some p) {home : Path}
    (hhome : k.store.pathOf? p.backing = some home) (hp' : k'.table.process? q = some p)
    (hs : Spares p.backing home k.store k'.store) : P k' :=
  d.same h hp ⟨p.count, hp'⟩ (hs.behind? hhome)

theorem note (h : P k) (e : Event) : P (k.note e) :=
  d.keep h rfl fun _ _ => rfl

theorem fault (c : Custody l k) (h : P k) (hne : q ≠ pid) (f : Fault) : P (k.fault pid f) :=
  d.kill (c.note (.faulted pid f)) (d.note h _) hne exitFault

theorem load (h : P k) {loaded : Except Fault Loaded} (hl : k.load pid = (loaded, k')) : P k' := by
  have htable : k'.table = k.table := by rw [(quiet_of_load hl).rest]
  refine d.keep h (by rw [htable]) fun p _ => ?_
  have hsame := behind?_load k pid p.backing
  rw [hl] at hsame
  exact hsame

/-- The storage of another process is no matter. -/
theorem save (self : Loaded) (h : P k) (hr : k.table.process? q = some r)
    (hne : k.store.pathOf? self.backing ≠ k.store.pathOf? r.backing) : P (k.save self).2 := by
  have htable : (k.save self).2.table = k.table := by rw [(Kernel.save_quiet k self).rest]
  exact d.same h hr ⟨r.count, htable ▸ hr⟩ (Kernel.behind?_save_of_ne k hne)

/-- Work on another process is none, whatever comes of that. -/
theorem withLoaded (c : Custody l k) (h : P k) (hne : q ≠ pid) {act : Attempt Volume α} (hin : Turn.Inward act)
    (hs : Keeps Turn.Secluded act) : P (k.withLoaded Kernel.fault pid act).2 := by
  unfold Kernel.withLoaded
  rcases hl : k.load pid with ⟨f | self, k₁⟩
  · exact d.fault (c.quiet (Kernel.quiet_of_load hl)) (d.load h hl) hne f
  · have c₁ := c.quiet (Kernel.quiet_of_load hl)
    have h₁ := d.load h hl
    obtain ⟨p, hhoused⟩ := Kernel.housed_of_load hl
    have hself : q ≠ self.pid := by
      obtain ⟨_, -, he⟩ := Kernel.load_ok hl
      rw [he]
      exact hne
    obtain ⟨r, hr⟩ := Table.isLive_iff.mp (d.live h₁)
    obtain ⟨home, hhome, hspares, hown⟩ := hhoused.spares (hs ⟨k₁, self⟩) c₁ hr hself
    have hr' := hin.others (t := ⟨k₁, self⟩) hself hr
    have c₂ := Custody.inward hin ⟨k₁, self⟩ c₁
    have h₂ := d.spared h₁ hr hhome hr' hspares
    dsimp only
    cases ha : act ⟨k₁, self⟩ with
    | error f t =>
      rw [after_error ha] at c₂ h₂
      exact d.fault c₂ h₂ hne f
    | ok a t =>
      rw [after_ok ha] at c₂ h₂ hr' hspares hown
      have hsaved := d.save t.self h₂ hr' (by rw [hspares.path, hhome]; exact hown)
      dsimp only
      rcases hsave : t.kernel.save t.self with ⟨_ | _, k₃⟩
      · rw [hsave] at hsaved
        have c₃ := c₂.quiet (Kernel.save_quiet t.kernel t.self)
        rw [hsave] at c₃
        exact d.fault c₃ hsaved hne .storage
      · rw [hsave] at hsaved
        exact hsaved

/-- Whoever is made gets a file of their own. -/
theorem made (c : Custody l k) (h : P k)
    (hprocess : ∀ {p}, k.table.process? q = some p → k'.table.process? q = some p)
    (hspares : ∀ {g : Handle} {home : Path}, (k.store.pathOf? g).isSome →
      (∀ pid, k.table.process? pid = none → home ≠ k.backingPath pid) → Spares g home k.store k'.store) : P k' := by
  obtain ⟨p, hp⟩ := Table.isLive_iff.mp (d.live h)
  refine d.spared h hp (c.backing_path hp) (hprocess hp) (hspares (c.backing_open hp) fun pid hnone => ?_)
  exact c.home_ne_backingPath hp (Table.ne_of_free hp hnone)

theorem fork (c : Custody l k) (h : P k) (parent : Loaded) : P (k.fork parent).2 :=
  d.made c h (k.fork_making parent).process? fun ho hne => Kernel.fork_spares ho hne parent

theorem spawn (c : Custody l k) (h : P k) (program : String) : P (k.spawn program).2 := by
  by_cases haccepts : Path.accepts program
  · exact d.made c h (k.spawn_making haccepts).process? fun ho hne => Kernel.spawn_spares ho hne program
  · rw [Bool.not_eq_true] at haccepts
    have hrefused : (k.spawn program).2 = k := by rw [Kernel.spawn, haccepts]; rfl
    rw [hrefused]
    exact h

/-! ## Between turns -/

theorem countTick (h : P k) : P k.countTick := by
  have hticks : P { k with ticks := k.ticks + 1 } := d.keep h rfl fun _ _ => rfl
  unfold Kernel.countTick
  dsimp only
  split
  · obtain ⟨p, hp⟩ := Table.isLive_iff.mp (d.live hticks)
    exact d.same hticks hp (Table.process?_of_resetCounts (Table.resetCounts_resetCounts _) hp) rfl
  · exact hticks

/-- What the host does is no matter if it does not kill the process, send it a signal that makes a difference
or change its backing file. -/
theorem obeyed (c : Custody l k) (h : P k) {call : HostCall Volume} (hdirect : call.isDirect)
    (hspares : call.spares k) (hkill : ∀ status, call ≠ .kill q status)
    (hsignal : ∀ signal, call = .sendSignal q signal → P (k.sendSignal q signal).2)
    (hedit : ∀ change p, call = .edit change → k.table.process? q = some p →
      (change.apply k.store).behind? p.backing = k.store.behind? p.backing) : P (call.run k) := by
  obtain ⟨p, hp⟩ := Table.isLive_iff.mp (d.live h)
  cases call with
  | tick | runUntilIdle => cases hdirect
  | spawn program => exact d.spawn c h program
  | kill pid status => exact d.kill c h (fun he => hkill status (by rw [he])) status
  | sendSignal pid signal =>
    by_cases hq : pid = q
    · subst hq
      exact hsignal signal rfl
    · unfold HostCall.run Kernel.sendSignal
      dsimp only
      split
      · exact d.withLoaded c h (Ne.symm hq) (Turn.deliver_inward signal)
          (Turn.indifferent_secluded.deliver signal).keeps
      · exact h
  | inspect pid => exact d.load h rfl
  | setClock | configure => exact d.keep h rfl fun _ _ => rfl
  | openPath path => exact d.spared h hp (c.backing_path hp) hp (Volume.spares_openPath path (c.backing_open hp))
  | close handle =>
    simp only [HostCall.spares, Bool.not_eq_true', List.any_eq_false, Table.mem_live, Table.uses_iff] at hspares
    have hne : handle ≠ p.backing := fun he => hspares q ⟨p, hp⟩ ⟨p, hp, .inr he.symm⟩
    exact d.spared h hp (c.backing_path hp) hp (Volume.spares_close hne)
  | edit change => exact d.same h hp ⟨p.count, hp⟩ (hedit change p rfl hp)

end Kernel.Lasts

end CoopKernel
