import CoopKernel.Proofs.Custody.Neighbours
import CoopKernel.Proofs.Relocating.Memory
import CoopKernel.Proofs.Rollback

/-!
# Which files go when processes end

The path of a backing file is computed anew each time it is needed, from the directory that the settings
name at that time. Ending processes, waking others and working on them changes the shape of the volume only
at the paths that are so computed for those that end or are worked on. Where the file of a process that ends
is at the path that is computed, it is gone afterwards, unless somebody else had it open.
-/

namespace CoopKernel

theorem Index.mem_of_mem_erase {κ ν : Type} [DecidableEq κ] {k : κ} {entries : List (κ × ν)}
    {entry : κ × ν} (h : entry ∈ Index.erase k entries) : entry.1 ≠ k ∧ entry ∈ entries := by
  induction entries with
  | nil => cases h
  | cons first rest ih =>
    obtain ⟨key, value⟩ := first
    unfold erase at h
    split at h
    · exact (ih h).imp_right (List.mem_cons_of_mem _)
    · next hne =>
      rcases List.mem_cons.mp h with rfl | h
      · exact ⟨hne, List.mem_cons_self⟩
      · exact (ih h).imp_right (List.mem_cons_of_mem _)

theorem Volume.handles_close (v : Volume) (h : Handle) : (v.close h).handles ⊆ v.handles :=
  fun _ he => (Index.mem_of_mem_erase he).2

theorem Table.backing_modify (t : Table) (pid q : Pid) {f : Process → Process}
    (hf : ∀ p, (f p).backing = p.backing) :
    ((t.modify pid f).process? q).map Process.backing = (t.process? q).map Process.backing := by
  rw [Table.process?_modify]
  split
  · cases t.process? q with
    | none => rfl
    | some p => exact congrArg some (hf p)
  · rfl

namespace Kernel

/-- The shape of the volume changed only at the paths for those that ended or are among the given ones. The
file of whoever ended is gone if it was at that path, unless somebody else had it open. -/
structure KeepsTo (W : Pid → Prop) (k k' : Kernel Volume) : Prop where
  elsewhere : ∀ p, (∀ q, k.backingPath q = p → k.table.isLive q → ¬W q ∧ k'.table.isLive q) →
    k'.store.shape? p = k.store.shape? p
  removed : ∀ {q r}, k.table.process? q = some r → k'.table.process? q = none →
    k.store.pathOf? r.backing = some (k.backingPath q) →
    k'.store.node? (k.backingPath q) = none ∨
      ∃ g, g ≠ r.backing ∧ (g, k.backingPath q) ∈ k.store.handles

/-- Besides, nobody came, whoever is left has the backing handle that it had, and nothing was opened. -/
structure Confined (W : Pid → Prop) (k k' : Kernel Volume) : Prop extends KeepsTo W k k' where
  dir : k'.settings.tmpDir = k.settings.tmpDir
  seats : ∀ {q r'}, k'.table.process? q = some r' →
    ∃ r, k.table.process? q = some r ∧ r'.backing = r.backing
  handles : k'.store.handles ⊆ k.store.handles

/-- Where the books balance, they go on to balance, and changes are confined. -/
def ConfinedIn (l : Ledger) (W : Pid → Prop) (k k' : Kernel Volume) : Prop :=
  Custody l k → Custody l k' ∧ Confined W k k'

variable {l : Ledger} {W : Pid → Prop} {k k' k'' : Kernel Volume} {pid : Pid}

theorem backingPath_congr (h : k'.settings.tmpDir = k.settings.tmpDir) (q : Pid) :
    k'.backingPath q = k.backingPath q := by
  rw [backingPath, backingPath, h]

/-- Where everybody is still there, there is only the shape of the volume to look at. -/
theorem KeepsTo.of_live (hlive : ∀ q, k.table.isLive q → k'.table.isLive q)
    (helsewhere : ∀ p, (∀ q, k.backingPath q = p → k.table.isLive q → ¬W q) →
      k'.store.shape? p = k.store.shape? p) : KeepsTo W k k' where
  elsewhere p hp := helsewhere p fun q hq hl => (hp q hq hl).1
  removed {q r} hr hgone := by
    have hq := hlive q (Table.isLive_iff.mpr ⟨r, hr⟩)
    rw [Table.isLive, hgone] at hq
    cases hq

theorem KeepsTo.of_store (htable : k'.table = k.table)
    (hshape : ∀ p, k'.store.shape? p = k.store.shape? p) : KeepsTo W k k' :=
  .of_live (fun _ hq => htable ▸ hq) fun p _ => hshape p

theorem KeepsTo.mono {W' : Pid → Prop} (h : KeepsTo W k k') (hW : ∀ q, W q → W' q) : KeepsTo W' k k' where
  elsewhere p hp := h.elsewhere p fun q hq hl => (hp q hq hl).imp_left fun hn hw => hn (hW q hw)
  removed := h.removed

theorem Confined.mono {W' : Pid → Prop} (h : Confined W k k') (hW : ∀ q, W q → W' q) :
    Confined W' k k' :=
  ⟨h.toKeepsTo.mono hW, h.dir, h.seats, h.handles⟩

/-- The same processes have the same backing handles. -/
def SameSeats (k k' : Kernel Volume) : Prop :=
  ∀ q, (k'.table.process? q).map Process.backing = (k.table.process? q).map Process.backing

theorem SameSeats.seat (h : SameSeats k k') {q : Pid} {r : Process} (hr : k.table.process? q = some r) :
    ∃ r', k'.table.process? q = some r' ∧ r'.backing = r.backing := by
  have hq := h q
  rw [hr, Option.map_some, Option.map_eq_some_iff] at hq
  exact hq

theorem SameSeats.symm (h : SameSeats k k') : SameSeats k' k :=
  fun q => (h q).symm

theorem SameSeats.isLive (h : SameSeats k k') (q : Pid) (hq : k.table.isLive q) : k'.table.isLive q := by
  obtain ⟨r, hr⟩ := Table.isLive_iff.mp hq
  obtain ⟨r', hr', -⟩ := h.seat hr
  exact Table.isLive_iff.mpr ⟨r', hr'⟩

theorem Confined.of_seats (hdir : k'.settings.tmpDir = k.settings.tmpDir) (hseats : SameSeats k k')
    (hhandles : k'.store.handles ⊆ k.store.handles)
    (helsewhere : ∀ p, (∀ q, k.backingPath q = p → k.table.isLive q → ¬W q) →
      k'.store.shape? p = k.store.shape? p) : Confined W k k' where
  toKeepsTo := .of_live hseats.isLive helsewhere
  dir := hdir
  seats hr' := by
    obtain ⟨r, hr, he⟩ := hseats.symm.seat hr'
    exact ⟨r, hr, he.symm⟩
  handles := hhandles

/-- Where the table does not change either, there is only the storage to look at. -/
theorem Confined.of_store (hdir : k'.settings.tmpDir = k.settings.tmpDir) (htable : k'.table = k.table)
    (hhandles : k'.store.handles ⊆ k.store.handles)
    (hshape : ∀ p, k'.store.shape? p = k.store.shape? p) : Confined W k k' :=
  .of_seats hdir (fun _ => by rw [htable]) hhandles fun p _ => hshape p

theorem Confined.trans (c : Custody l k) (c' : Custody l k') (h₁ : Confined W k k')
    (h₂ : Confined W k' k'') : Confined W k k'' := by
  have hpath := backingPath_congr h₁.dir
  have hlive {q : Pid} (hq : k'.table.isLive q) : k.table.isLive q := by
    obtain ⟨r', hr'⟩ := Table.isLive_iff.mp hq
    obtain ⟨r, hr, _⟩ := h₁.seats hr'
    exact Table.isLive_iff.mpr ⟨r, hr⟩
  have hlive' {q : Pid} (hq : k''.table.isLive q) : k'.table.isLive q := by
    obtain ⟨r', hr'⟩ := Table.isLive_iff.mp hq
    obtain ⟨r, hr, _⟩ := h₂.seats hr'
    exact Table.isLive_iff.mpr ⟨r, hr⟩
  refine ⟨⟨fun p hp => ?_, fun {q r} hr hgone hhome => ?_⟩, h₂.dir.trans h₁.dir, fun {q r''} hr'' => ?_,
    fun e he => h₁.handles (h₂.handles he)⟩
  · refine (h₂.elsewhere p fun q hq hq' => ?_).trans (h₁.elsewhere p fun q hq hq' => ?_)
    · exact hp q (by rw [← hpath]; exact hq) (hlive hq')
    · exact (hp q hq hq').imp_right hlive'
  · cases hq' : k'.table.process? q with
    | some r' =>
      obtain ⟨r₀, hr₀, hbacking⟩ := h₁.seats hq'
      cases hr.symm.trans hr₀
      have hhome' : k'.store.pathOf? r'.backing = some (k'.backingPath q) := by
        have hhere : k.store.pathOf? r.backing = some (l.home q) := c.backing_path hr
        have hthere : k'.store.pathOf? r'.backing = some (l.home q) := c'.backing_path hq'
        rw [hpath, hthere, ← hhere, hhome]
      have hend := h₂.removed hq' hgone hhome'
      rw [hpath, hbacking] at hend
      exact hend.imp_right fun ⟨g, hg, hopen⟩ => ⟨g, hg, h₁.handles hopen⟩
    | none =>
      refine (h₁.removed hr hq' hhome).imp_left fun hnone => ?_
      -- Nobody touches the place of a process that has gone.
      have hstill := h₂.elsewhere (k.backingPath q) fun q₁ hq₁ hlive₁ => by
        rw [hpath] at hq₁
        rw [backingPath_inj hq₁, Table.isLive, hq'] at hlive₁
        cases hlive₁
      rw [← Volume.shape?_eq_none, hstill, Volume.shape?_eq_none]
      exact hnone
  · obtain ⟨r', hr', he'⟩ := h₂.seats hr''
    obtain ⟨r, hr, he⟩ := h₁.seats hr'
    exact ⟨r, hr, he'.trans he⟩

instance (l : Ledger) (W : Pid → Prop) : IsPreorder (Kernel Volume) (ConfinedIn l W) where
  refl _ c := ⟨c, .of_store rfl rfl (List.Subset.refl _) fun _ => rfl⟩
  trans _ _ _ h₁ h₂ c := by
    obtain ⟨c', hc'⟩ := h₁ c
    obtain ⟨c'', hc''⟩ := h₂ c'
    exact ⟨c'', hc'.trans c c' hc''⟩

/-! ## What changes no shape -/

/-- Reading and writing files leaves all confined. -/
theorem Quiet.confinedIn (h : Quiet k k') (hhandles : k'.store.handles ⊆ k.store.handles)
    (hshape : ∀ p, k'.store.shape? p = k.store.shape? p) : ConfinedIn l W k k' := fun c =>
  ⟨c.quiet h, .of_store (by rw [h.rest]) (by rw [h.rest]) hhandles hshape⟩

theorem load_confinedIn {loaded : Except Fault Loaded} (h : k.load pid = (loaded, k')) :
    ConfinedIn l W k k' :=
  (quiet_of_load h).confinedIn ((load_store h).1 ▸ List.Subset.refl _)
    (Volume.shape?_of_nodes (load_store h).2)

theorem save_confinedIn (k : Kernel Volume) (self : Loaded) : ConfinedIn l W k (k.save self).2 :=
  (save_quiet k self).confinedIn
    (fun _ he => (Volume.handles_write k.store self.backing 0 self.state.toBlock) ▸ he)
    (k.store.shape?_write self.backing 0 self.state.toBlock)

theorem note_confinedIn (k : Kernel Volume) (e : Event) : ConfinedIn l W k (k.note e) := fun c =>
  ⟨c.note e, .of_store rfl rfl (List.Subset.refl _) fun _ => rfl⟩

theorem setStatus_confinedIn (k : Kernel Volume) (pid : Pid) (status : Status) :
    ConfinedIn l W k (k.onTable (·.setStatus pid status)) := fun c =>
  ⟨c.setStatus pid status, .of_seats rfl (fun q => Table.backing_modify _ pid q fun _ => rfl)
    (List.Subset.refl _) fun _ _ => rfl⟩

/-! ## Endings -/

theorem bury_confinedIn {p : Process} (hp : k.table.process? pid = some p) (status : UInt16) :
    ConfinedIn l W k (k.bury pid p status) := by
  intro c
  refine ⟨c.bury hp status, ?_⟩
  obtain ⟨s, hs, hnodes, hhandles⟩ : ∃ s : Volume, (k.bury pid p status).store =
      ((s.close p.backing).delete (k.backingPath pid)).2 ∧ s.nodes = k.store.nodes ∧
        s.handles ⊆ k.store.handles := by
    unfold bury releaseProgram
    dsimp only
    split
    · exact ⟨k.store, rfl, rfl, List.Subset.refl _⟩
    · exact ⟨k.store.close p.program, rfl, rfl, Volume.handles_close _ _⟩
  have hdelete := (s.close p.backing).delete_onlyAt (k.backingPath pid)
  have hback {q : Pid} {r : Process} (hr : (k.bury pid p status).table.process? q = some r) :
      q ≠ pid ∧ k.table.process? q = some r := by
    rw [bury_table] at hr
    exact Table.process?_vacate_cases hr
  refine ⟨⟨fun x hx => ?_, fun {q r} hr hgone hhome => ?_⟩,
    congrArg Settings.tmpDir (ruled_bury k pid p status).settings, fun hr => ⟨_, (hback hr).2, rfl⟩,
    fun e he => ?_⟩
  · have hne : x ≠ k.backingPath pid := by
      rintro rfl
      obtain ⟨r, hr⟩ := Table.isLive_iff.mp (hx pid rfl (Table.isLive_iff.mpr ⟨p, hp⟩)).2
      exact (hback hr).1 rfl
    rw [hs, hdelete.shape? hne]
    exact Volume.shape?_of_nodes hnodes x
  · have hq : q = pid := by
      by_contra hne
      rw [bury_table, Table.process?_vacate_of_ne hne, hr] at hgone
      cases hgone
    subst hq
    cases hp.symm.trans hr
    by_cases hopen : (s.close p.backing).isOpen (k.backingPath q)
    · obtain ⟨⟨g, x⟩, hg, hx⟩ := List.any_eq_true.mp hopen
      obtain ⟨hne, hg⟩ := Index.mem_of_mem_erase hg
      cases of_decide_eq_true hx
      exact .inr ⟨g, hne, hhandles hg⟩
    · have hfile : ((s.close p.backing).content? (k.backingPath q)).isSome := by
        have hbehind : (k.store.behind? p.backing).isSome := c.backing_file hp
        rw [Volume.behind?, hhome, Option.bind_some] at hbehind
        have hsame : (s.close p.backing).content? (k.backingPath q) =
            k.store.content? (k.backingPath q) := by
          rw [Volume.content?, Volume.content?, Volume.node?, Volume.node?, ← hnodes]
          rfl
        rw [hsame]
        exact hbehind
      left
      rw [hs]
      exact Volume.node?_delete_file hfile hopen
  · rw [hs, hdelete.handles] at he
    exact hhandles (Volume.handles_close s _ he)

theorem killWithin_confinedIn (depth : Nat) (k : Kernel Volume) (pid : Pid) (status : UInt16) :
    ConfinedIn l W k (killWithin depth k pid status) :=
  killWithin_keeps_of (R := ConfinedIn l W) (fun _ _ _ _ hl => load_confinedIn hl)
    (fun _ _ _ k₁ _ hl => trans_of (ConfinedIn l W) (load_confinedIn hl) (save_confinedIn k₁ _))
    (fun k e _ => note_confinedIn k e) (fun k pid => setStatus_confinedIn k pid .active)
    (fun _ _ _ status hp => bury_confinedIn hp status) depth k pid status

theorem kill_confinedIn (k : Kernel Volume) (pid : Pid) (status : UInt16) :
    ConfinedIn l W k (k.kill pid status).2 :=
  killWithin_confinedIn maxProcesses k pid status

theorem fault_confinedIn (k : Kernel Volume) (pid : Pid) (f : Fault) :
    ConfinedIn l W k (k.fault pid f) :=
  trans_of (ConfinedIn l W) (note_confinedIn k _) (kill_confinedIn _ pid exitFault)

end Kernel

end CoopKernel
