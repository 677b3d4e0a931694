import CoopKernel.Proofs.Relocating.Turn

/-!
# Which files a step resizes or deletes

A step changes the shape of the volume at the path for the process whose turn it is, at the path for the one
that it kills or sends a signal to, and at the paths for those that end. The data region of whoever is still
there afterwards grew, if it did, at the path for that process. A process that is made changes the shape at
its own path alone.
-/

namespace CoopKernel

variable {α : Type} {l : Ledger}

/-! ## Working on a process -/

namespace Turn

variable {t t' : Turn Volume} {W : Pid → Prop}

/-- The process is loaded with the path that the settings tell now, and it is there. -/
structure Placed (t : Turn Volume) : Prop where
  path : t.self.backingPath = t.kernel.backingPath t.self.pid
  live : t.kernel.table.isLive t.self.pid

theorem Sited.placed (h : Sited t t') (hplaced : t.Placed) : t'.Placed := by
  have hdir : t'.kernel.settings.tmpDir = t.kernel.settings.tmpDir :=
    congrArg Settings.tmpDir h.kernel.settings
  refine ⟨?_, ?_⟩
  · rw [Kernel.backingPath_congr hdir, h.backingPath, hplaced.path, h.self]
  · have hlive := h.seats.isLive _ hplaced.live
    rw [h.self]
    exact hlive

/-- Work of a process changes the shape at the path for it. -/
theorem Sited.shape? (h : Sited t t') (hplaced : t.Placed) {p : Path}
    (hp : ∀ q, t.kernel.backingPath q = p → t.kernel.table.isLive q → q ≠ t.self.pid) :
    t'.kernel.store.shape? p = t.kernel.store.shape? p := by
  refine h.elsewhere p ?_
  rintro rfl
  exact hp t.self.pid hplaced.path.symm hplaced.live rfl

theorem Sited.keepsTo (h : Sited t t') (hplaced : t.Placed) (hself : W t.self.pid) :
    Kernel.KeepsTo W t.kernel t'.kernel :=
  .of_live h.seats.isLive fun _ hp => h.shape? hplaced fun q hq hl he => hp q hq hl (he ▸ hself)

theorem Rooted.confined (h : Rooted t t') (hplaced : t.Placed) (hself : W t.self.pid) :
    Kernel.Confined W t.kernel t'.kernel :=
  .of_seats (congrArg Settings.tmpDir h.kernel.settings) h.seats (h.handles ▸ List.Subset.refl _)
    fun _ hp => h.shape? hplaced fun q hq hl he => hp q hq hl (he ▸ hself)

end Turn

namespace Kernel

variable {k k' k₁ : Kernel Volume} {pid : Pid} {self : Loaded} {act : Attempt Volume α}

theorem placed_of_load (h : k.load pid = (.ok self, k₁)) : Turn.Placed ⟨k₁, self⟩ ∧ self.pid = pid := by
  obtain ⟨p, hp, hself⟩ := load_ok h
  have hrest := (quiet_of_load h).rest
  have hdir : k₁.settings.tmpDir = k.settings.tmpDir := by rw [hrest]
  have htable : k₁.table = k.table := by rw [hrest]
  have hpid : self.pid = pid := by rw [hself]
  have hpath : self.backingPath = k.backingPath pid := by rw [hself]
  refine ⟨⟨?_, ?_⟩, hpid⟩
  · exact hpath.trans (by rw [hpid, backingPath_congr hdir])
  · exact Table.isLive_iff.mpr ⟨p, by rw [htable, hpid]; exact hp⟩

/-- Work on a process that is loaded for it is confined to that process and those that end of it. -/
theorem withLoaded_confinedIn (hin : Turn.Inward act) (hact : Works Turn.Rooted (fun _ => True) act) :
    ConfinedIn l (· = pid) k (k.withLoaded fault pid act).2 := by
  refine withLoaded_keeps_of (fun _ _ hl => load_confinedIn hl) (fun self k₁ hl => ?_)
    fun k f => fault_confinedIn k pid f
  obtain ⟨hplaced, hpid⟩ := placed_of_load hl
  have hcustody := Custody.inward (l := l) hin ⟨k₁, self⟩
  have hdone {t : Turn Volume} (hrooted : Turn.Rooted ⟨k₁, self⟩ t) (hc : Stays (Custody l) k₁ t.kernel) :
      ConfinedIn l (· = pid) k t.kernel :=
    trans_of (ConfinedIn l _) (load_confinedIn hl) fun c => ⟨hc c, hrooted.confined hplaced hpid⟩
  have hwork := hact ⟨k₁, self⟩
  cases ha : act ⟨k₁, self⟩ with
  | ok a t =>
    rw [ha] at hwork
    rw [after_ok ha] at hcustody
    exact trans_of (ConfinedIn l _) (hdone hwork hcustody) (save_confinedIn t.kernel t.self)
  | error f t =>
    rw [ha] at hwork
    rw [after_error ha] at hcustody
    exact hdone hwork.2 hcustody

theorem sendSignal_confinedIn (k : Kernel Volume) (pid : Pid) (signal : Signal) :
    ConfinedIn l (· = pid) k (k.sendSignal pid signal).2 := by
  unfold sendSignal
  split
  · exact withLoaded_confinedIn (Turn.deliver_inward signal) (Turn.deliver_rooted signal)
  · exact refl_of (ConfinedIn l _) k

/-- The data region that is kept of a process grew, if it did, at the path for the process. -/
def Regrown (pid : Pid) (k k' : Kernel Volume) : Prop :=
  ∀ ⦃r s s'⦄, k.table.process? pid = some r → k'.table.isLive pid → k.store.kept? r.backing = some s →
    k'.store.kept? r.backing = some s' →
    k.store.Grown (k.backingPath pid) s.dataLength k'.store s'.dataLength

theorem Regrown.refl (pid : Pid) (k : Kernel Volume) : Regrown pid k k := by
  intro r s s' _ _ hs hs'
  cases hs.symm.trans hs'
  exact .of_shape rfl

/-- Who survives being worked on is kept with the data region that the work left. -/
theorem withLoaded_regrown (c : Custody l k) (hin : Turn.Inward act)
    (hact : Works Turn.Rooted (fun _ => True) act) (henv : Keeps Turn.Composed act) :
    Regrown pid k (k.withLoaded fault pid act).2 := by
  intro r s s' hr hlive hs hs'
  obtain ⟨self, k₁, a, t, hl, ha, hsave⟩ := withLoaded_survives hlive
  obtain ⟨hplaced, hpid⟩ := placed_of_load hl
  obtain ⟨p, hp, hself⟩ := load_ok hl
  cases hr.symm.trans hp
  obtain ⟨content, hcontent⟩ := Option.isSome_iff_exists.mp (c.backing_file hr)
  obtain ⟨hkept, hargs⟩ := VolumeBacked.kept?_of_load hcontent (load_state hl hr)
  have hstate : self.state = s := Option.some.inj (hkept.symm.trans hs)
  have hrooted := hact ⟨k₁, self⟩
  have henv := (henv ⟨k₁, self⟩).env
  have hcustody := Custody.inward hin ⟨k₁, self⟩ (c.quiet (quiet_of_load hl))
  rw [ha] at hrooted
  rw [after_ok ha] at hcustody henv
  have hrooted : Turn.Rooted ⟨k₁, self⟩ t := hrooted
  -- What was saved has the length that the region had in memory.
  have hbacking : t.self.backing = r.backing := by
    rw [hrooted.self, hself]
  have hargs' : t.self.state.env.argCount.toNat ≤ maxArguments := by
    rw [henv]
    exact hargs
  obtain ⟨r', hr', hbacking'⟩ := hrooted.seats.seat (k := k₁) (by rw [(quiet_of_load hl).rest]; exact hr)
  obtain ⟨content', hcontent'⟩ := Option.isSome_iff_exists.mp (hcustody.backing_file hr')
  have hsaved : ∃ v, t.self.state.save t.kernel.store t.self.backing = (true, v) ∧
      (k.withLoaded fault pid act).2.store = v := by
    unfold save at hsave
    obtain ⟨hdone, hkernel⟩ := Prod.ext_iff.mp hsave
    exact ⟨_, Prod.ext hdone rfl, by rw [← hkernel]⟩
  obtain ⟨v, hsaved, hv⟩ := hsaved
  rw [hbacking, ← hbacking'] at hsaved
  have hkept' := VolumeBacked.kept?_of_save hcontent' hargs' hsaved
  have hlength : s'.dataLength = t.self.state.dataLength := by
    rw [hbacking', ← hv] at hkept'
    rw [Option.some.inj (hs'.symm.trans hkept'), Snapshot.stored_dataLength]
  have hshape : ∀ x, (k.withLoaded fault pid act).2.store.shape? x = t.kernel.store.shape? x := by
    intro x
    rw [hv, ← show _ = v from congrArg Prod.snd hsaved]
    exact t.kernel.store.shape?_write _ _ _ x
  have hgrown : k₁.store.Grown self.backingPath self.state.dataLength t.kernel.store
      t.self.state.dataLength := hrooted.grown
  have hpath : self.backingPath = k.backingPath pid := by rw [hself]
  rw [hpath, hstate] at hgrown
  rw [hlength]
  exact Volume.Grown.trans (.of_shape (Volume.shape?_of_nodes (load_store hl).2 _))
    (hgrown.trans (.of_shape (hshape _)))

theorem sendSignal_regrown (c : Custody l k) (pid : Pid) (signal : Signal) :
    Regrown pid k (k.sendSignal pid signal).2 := by
  unfold sendSignal
  split
  · exact withLoaded_regrown c (Turn.deliver_inward signal) (Turn.deliver_rooted signal)
      (Turn.deliver_composed signal).keeps
  · exact Regrown.refl pid k

/-! ## Making a process -/

/-- Nobody ended, and the shape of the volume changed at most at the path for a process to be. -/
structure OnlyMakes (next? : Option Pid) (k k' : Kernel Volume) : Prop where
  live : ∀ q, k.table.isLive q → k'.table.isLive q
  elsewhere : ∀ p, (∀ q, next? = some q → k.backingPath q ≠ p) → k'.store.shape? p = k.store.shape? p

theorem OnlyMakes.of_store {next? : Option Pid} (htable : k'.table = k.table)
    (hshape : ∀ p, k'.store.shape? p = k.store.shape? p) : OnlyMakes next? k k' :=
  ⟨fun _ hq => htable ▸ hq, fun p _ => hshape p⟩

/-- Outside of a path, the shape is the same. -/
def SameBut (path : Path) (v w : Volume) : Prop :=
  ∀ p, path ≠ p → w.shape? p = v.shape? p

instance (path : Path) : IsPreorder Volume (SameBut path) where
  refl _ _ _ := rfl
  trans _ _ _ h₁ h₂ p hp := (h₂ p hp).trans (h₁ p hp)

theorem makeBacking_sameBut (k : Kernel Volume) (pid : Pid) (state : Snapshot) (data : Bytes) :
    SameBut (k.backingPath pid) k.store (k.makeBacking pid state data).2.store := by
  have hcreated : SameBut (k.backingPath pid) k.store
      (k.store.create (k.backingPath pid) (Snapshot.blockSize + data.size)).2 :=
    fun p hp => (k.store.create_onlyAt _ _).shape? hp.symm
  have hfilled : SameBut (k.backingPath pid) _ (k.makeBacking pid state data).2.store := makeBacking_keeps
    (fun v p _ => v.shape?_openPath _ p) (fun v h p _ => v.shape?_write h 0 state.toBlock p)
    (fun v h p _ => v.shape?_write h _ data p) (fun v h p _ => v.shape?_close h p)
    fun v _ hp => (v.delete_onlyAt _).shape? hp.symm
  exact trans_of (SameBut _) hcreated hfilled

/-- A process takes the slot for which the backing file was made. -/
theorem OnlyMakes.of_occupied {made : Kernel Volume} (hslot : k.table.firstFree? = some pid)
    (htable : made.table = k.table) (hstore : SameBut (k.backingPath pid) k.store made.store)
    (program backing : Handle) (e : Event) :
    OnlyMakes (some pid) k ((made.onTable (·.occupy pid program backing)).note e) where
  live q hq := by
    obtain ⟨r, hr⟩ := Table.isLive_iff.mp hq
    have hne : q ≠ pid := by
      rintro rfl
      rw [Table.process?_of_firstFree? hslot] at hr
      cases hr
    refine Table.isLive_iff.mpr ⟨r, (Table.process?_occupy_of_ne hne).trans ?_⟩
    rw [htable]
    exact hr
  elsewhere p hp := hstore p (hp pid rfl)

theorem fork_onlyMakes (k : Kernel Volume) (parent : Loaded) :
    OnlyMakes k.table.firstFree? k (k.fork parent).2 := by
  have hread := k.store.shape?_read parent.backing Snapshot.blockSize parent.state.dataLength.toNat
  unfold fork
  cases hslot : k.table.firstFree? with
  | none => exact .of_store rfl fun _ => rfl
  | some pid =>
    rcases hr : Storage.read k.store parent.backing Snapshot.blockSize parent.state.dataLength.toNat with
      ⟨data, s⟩
    rw [show (k.store.read _ _ _).2 = s from congrArg Prod.snd hr] at hread
    simp only [hr]
    split
    · exact .of_store rfl hread
    · have hsame := makeBacking_sameBut { k with store := s } pid (parent.state.setReg Reg.result 0) data
      have htable := makeBacking_table { k with store := s } pid (parent.state.setReg Reg.result 0) data
      have hmade : SameBut (k.backingPath pid) k.store _ := fun p hp => (hsame p hp).trans (hread p)
      split
      · next hm =>
        rw [hm] at htable hmade
        exact ⟨fun _ hq => htable ▸ hq, fun p hp => hmade p (hp pid rfl)⟩
      · next hm =>
        rw [hm] at htable hmade
        exact .of_occupied hslot htable hmade _ _ _

theorem spawn_onlyMakes (k : Kernel Volume) (program : String) :
    OnlyMakes k.table.firstFree? k (k.spawn program).2 := by
  have hopened := k.store.shape?_openPath (Path.ofText program)
  unfold spawn
  split
  · exact .of_store rfl fun _ => rfl
  · cases hslot : k.table.firstFree? with
    | none => exact .of_store rfl fun _ => rfl
    | some pid =>
      dsimp only
      split
      · exact .of_store rfl fun _ => rfl
      · rcases ho : Storage.openPath k.store (Path.ofText program) with ⟨_ | h, s⟩
        · rw [show (k.store.openPath _).2 = s from congrArg Prod.snd ho] at hopened
          exact .of_store rfl hopened
        · rw [show (k.store.openPath _).2 = s from congrArg Prod.snd ho] at hopened
          have hsame := makeBacking_sameBut { k with store := s } pid (k.initialState (Path.ofText program))
            #[]
          have htable := makeBacking_table { k with store := s } pid (k.initialState (Path.ofText program))
            #[]
          have hmade : SameBut (k.backingPath pid) k.store _ := fun p hp => (hsame p hp).trans (hopened p)
          dsimp only
          split
          · next hm =>
            rw [hm] at htable hmade
            exact ⟨fun _ hq => htable ▸ hq, fun p hp => hmade p (hp pid rfl)⟩
          · next hm =>
            rw [hm] at htable hmade
            exact .of_occupied hslot htable hmade _ _ _

end Kernel

/-! ## Calls on processes -/

namespace Turn

open Kernel (Confined ConfinedIn Regrown)

variable {t t' t'' : Turn Volume} {target? : Option Pid}

/-- Nothing happened but that files were read and the process was counted. -/
structure Still (t t' : Turn Volume) : Prop where
  seats : Kernel.SameSeats t.kernel t'.kernel
  handles : t'.kernel.store.handles = t.kernel.store.handles
  nodes : t'.kernel.store.nodes = t.kernel.store.nodes
  length : t'.self.state.dataLength = t.self.state.dataLength

instance : IsPreorder (Turn Volume) Still where
  refl _ := ⟨fun _ => rfl, rfl, rfl, rfl⟩
  trans _ _ _ h₁ h₂ := ⟨fun q => (h₂.seats q).trans (h₁.seats q), h₂.handles.trans h₁.handles,
    h₂.nodes.trans h₁.nodes, h₂.length.trans h₁.length⟩

theorem Still.kept? (h : Still t t') (g : Handle) : t'.kernel.store.kept? g = t.kernel.store.kept? g := by
  have hcontent : t'.kernel.store.content? = t.kernel.store.content? := by
    funext p
    rw [Volume.content?, Volume.content?, Volume.node?, Volume.node?, h.nodes]
  refine Volume.kept?_congr ?_
  rw [Volume.behind?, Volume.behind?, Volume.pathOf?, Volume.pathOf?, h.handles, hcontent]

theorem atCall_still (t : Turn Volume) : Still t t.atCall := by
  have hread (a : UInt16) : Keeps Still (access (AddressSpace.fetch a) : Attempt Volume Instr) :=
    access_keeps (AddressSpace.fetch_keeps AddressSpace.readFile_untouched (fun _ _ => ⟨rfl, rfl, rfl⟩) a)
      fun _ _ hs => ⟨fun _ => rfl, hs.handles, hs.nodes, congrArg AddressSpace.dataLength hs.rest⟩
  have hfetch : Keeps Still (fetch : Attempt Volume Instr) := by
    refine .bind .get fun t => .bind (hread _) fun instr => ?_
    refine .bind (.modify fun _ => ⟨fun _ => rfl, rfl, rfl, rfl⟩) fun _ => ?_
    refine .bind (.modify fun t₁ => ?_) fun _ => .pure _
    exact ⟨fun q => Table.backing_modify _ t.self.pid q fun _ => rfl, rfl, rfl, rfl⟩
  have hnote : Still (after fetch t) t.atCall := ⟨fun _ => rfl, rfl, rfl, rfl⟩
  exact trans_of Still (hfetch t) hnote

/-- What a call does that is aimed at a process or at none: it is confined to the caller, the target and those
that end, and the data regions of caller and target grew, if they did, at the paths for them. -/
structure Ranging (target? : Option Pid) (t t' : Turn Volume) : Prop where
  confined : Confined (fun q => q = t.self.pid ∨ target? = some q) t.kernel t'.kernel
  self : t'.self.pid = t.self.pid ∧ t'.self.backingPath = t.self.backingPath
  grown : t'.kernel.table.isLive t.self.pid → Grown t t'
  regrown : ∀ q, target? = some q → q ≠ t.self.pid → Regrown q t.kernel t'.kernel

theorem Rooted.ranging (h : Rooted t t') (hplaced : t.Placed)
    (htarget : ∀ q, target? = some q → q = t.self.pid) : Ranging target? t t' where
  confined := h.confined hplaced (.inl rfl)
  self := ⟨by rw [h.self], h.backingPath⟩
  grown _ := h.grown
  regrown q hq hne := absurd (htarget q hq) hne

theorem ranging_refl (target? : Option Pid) (t : Turn Volume) : Ranging target? t t where
  confined := .of_store rfl rfl (List.Subset.refl _) fun _ => rfl
  self := ⟨rfl, rfl⟩
  grown _ := .of_shape rfl
  regrown q _ _ := Regrown.refl q t.kernel

/-- The kernel works on the target only. -/
theorem ranging_others (h : InCustody l t) (hplaced : t.Placed) {target : Pid} (hne : target ≠ t.self.pid)
    {k' : Kernel Volume} (hc : ConfinedIn l (· = target) t.kernel k')
    (hregrown : Regrown target t.kernel k') : Ranging (some target) t { t with kernel := k' } where
  confined := (hc h.custody).2.mono fun q hq => .inr (congrArg some hq.symm)
  self := ⟨rfl, rfl⟩
  grown hlive := by
    refine .of_shape ((hc h.custody).2.elsewhere _ fun q hq _ => ?_)
    rw [hplaced.path] at hq
    cases Kernel.backingPath_inj hq
    exact ⟨Ne.symm hne, hlive⟩
  regrown := by
    rintro _ ⟨⟩ _
    exact hregrown

/-- The process ends. -/
theorem ranging_killed (h : InCustody l t) (status : UInt16)
    (htarget : ∀ q, target? = some q → q = t.self.pid) :
    Ranging target? t { t with kernel := (t.kernel.kill t.self.pid status).2 } where
  confined := (Kernel.kill_confinedIn t.kernel t.self.pid status h.custody).2
  self := ⟨rfl, rfl⟩
  grown hlive := absurd hlive (t.kernel.not_isLive_kill t.self.pid status)
  regrown q hq hne := absurd (htarget q hq) hne

theorem exit_ranging (h : InCustody l t) (status : UInt16) :
    Ranging none t (after (exit status : InTurn Volume Reply) t) :=
  ranging_killed h status nofun

theorem Ranging.trans (h₁ : Ranging target? t t') (h₂ : Ranging target? t' t'') (c : Custody l t.kernel)
    (c' : Custody l t'.kernel) (hregrown : ∀ q, target? = some q → q ≠ t.self.pid →
      Regrown q t.kernel t''.kernel) : Ranging target? t t'' := by
  have hback {q : Pid} (hq : t''.kernel.table.isLive q) : t'.kernel.table.isLive q := by
    obtain ⟨r'', hr''⟩ := Table.isLive_iff.mp hq
    obtain ⟨r', hr', -⟩ := h₂.confined.seats hr''
    exact Table.isLive_iff.mpr ⟨r', hr'⟩
  refine ⟨?_, ⟨h₂.self.1.trans h₁.self.1, h₂.self.2.trans h₁.self.2⟩, fun hlive => ?_, hregrown⟩
  · have hconfined := h₂.confined
    rw [h₁.self.1] at hconfined
    exact h₁.confined.trans c c' hconfined
  · have hgrown := h₂.grown
    rw [h₁.self.1] at hgrown
    exact (h₁.grown (hback hlive)).trans (hgrown hlive) h₁.self.2

theorem killCall_ranging (h : InCustody l t) (hplaced : t.Placed) (number : UInt16) :
    Ranging (Pid.ofNat? number.toNat) t (after (killCall number : InTurn Volume Reply) t) := by
  refine Ensures.after (P := (· = t)) ?_ rfl
  unfold killCall
  refine .get_bind fun _ he => ?_
  rw [he]
  dsimp only
  cases Pid.ofNat? number.toNat with
  | none => exact .pure fun _ he => he ▸ ranging_refl none _
  | some target =>
    dsimp only
    split
    · exact .pure fun _ he => he ▸ ranging_refl _ _
    · split
      · next hself =>
        have htarget : ∀ q, some target = some q → q = t.self.pid := by
          rintro _ ⟨⟩
          exact hself
        have hwords : Ensures (· = t) (lastWords : Attempt Volume Bool)
            (fun _ t' => InCustody l t' ∧ Rooted t t') fun _ => Ranging (some target) t := by
          intro _ he
          rw [he]
          have hcustody := InCustody.of_inward lastWords_inward t h
          have hrooted := lastWords_rooted t
          cases hw : (lastWords : Attempt Volume Bool) t with
          | ok handled t₁ =>
            rw [hw] at hcustody hrooted
            exact ⟨hcustody, hrooted⟩
          | error f t₁ =>
            rw [hw] at hrooted
            exact (show Rooted t t₁ from hrooted.2).ranging hplaced htarget
        have hlifted : Ensures (· = t) (monadLift (lastWords : Attempt Volume Bool) : InTurn Volume Bool)
            (fun _ t' => InCustody l t' ∧ Rooted t t') fun _ => Ranging (some target) t :=
          Ensures.adaptExcept (f := TurnEnd.faulted) hwords
        refine .bind hlifted fun handled => ?_
        split
        · exact .pure fun _ hc => hc.2.ranging hplaced htarget
        · rintro t₁ ⟨hc, hrooted⟩
          have hpid : t₁.self.pid = t.self.pid := by rw [hrooted.self]
          have hkilled := ranging_killed hc exitKilled (hpid ▸ htarget)
          rw [hpid] at hkilled
          exact (hrooted.ranging hplaced htarget).trans hkilled h.custody hc.custody
            fun q hq hne => absurd (htarget q hq) hne
      · next hne =>
        let worked := if t.kernel.table.isLive target then
            ((t.kernel.withLoaded Kernel.fault target lastWords).1.getD true,
              (t.kernel.withLoaded Kernel.fault target lastWords).2)
          else (false, t.kernel)
        have hconfined : ConfinedIn l (· = target) t.kernel worked.2 := by
          unfold worked
          split
          · exact Kernel.withLoaded_confinedIn lastWords_inward lastWords_rooted
          · exact refl_of (ConfinedIn l _) _
        have hregrown : Regrown target t.kernel worked.2 := by
          unfold worked
          split
          · exact Kernel.withLoaded_regrown h.custody lastWords_inward lastWords_rooted
              lastWords_composed.keeps
          · exact Regrown.refl _ _
        refine .bind (Q := fun _ t' => t' = { t with kernel := worked.2 }) (by rintro _ rfl; rfl)
          fun handled => ?_
        split
        · rintro _ rfl
          exact ranging_others h hplaced hne
            (trans_of (ConfinedIn l _) hconfined (Kernel.kill_confinedIn worked.2 target exitKilled))
            fun _ _ _ _ hlive => absurd hlive (worked.2.not_isLive_kill target exitKilled)
        · exact .pure fun _ he => he ▸ ranging_others h hplaced hne hconfined hregrown

theorem sendSignal_ranging (h : InCustody l t) (hplaced : t.Placed) (number signal : UInt16) :
    Ranging (Pid.ofNat? number.toNat) t (after (sendSignal number signal : InTurn Volume Reply) t) := by
  refine Ensures.after (P := (· = t)) ?_ rfl
  unfold sendSignal
  cases Signal.ofNat? signal.toNat with
  | none => exact .pure fun _ he => he ▸ ranging_refl _ _
  | some s =>
    cases Pid.ofNat? number.toNat with
    | none => exact .pure fun _ he => he ▸ ranging_refl _ _
    | some target =>
      refine .get_bind fun _ he => ?_
      rw [he]
      split
      · next hself =>
        have hranging {t' : Turn Volume} (hrooted : Rooted t t') : Ranging (some target) t t' := by
          refine hrooted.ranging hplaced ?_
          rintro _ ⟨⟩
          exact hself
        refine .bind (Q := fun _ => Ranging (some target) t) (.adaptExcept ?_) fun _ => .pure fun _ => id
        intro _ he
        rw [he]
        exact (deliver_rooted s t).mono (fun _ _ => hranging) fun _ _ hr => hranging hr.2
      · next hne =>
        refine .bind (Q := fun _ => Ranging (some target) t) ?_ fun _ => .pure fun _ => id
        intro _ he
        rw [he]
        exact ranging_others h hplaced hne (t.kernel.sendSignal_confinedIn target s)
          (Kernel.sendSignal_regrown h.custody target s)

/-! ## Steps -/

/-- A call comes to what its answer comes to. -/
theorem Ranging.step (h : InCustody l t) (hplaced : t.Placed) {call : Syscall} {args : CallArgs}
    (hcall : t.call? = some (call, args))
    (hanswer : Ranging target? t.atCall (after (answer call args : InTurn Volume Reply) t.atCall)) :
    Ranging target? t (after Turn.step t) := by
  have hrooted : Rooted t t.atCall := indifferent_rooted.atCall hcall
  have hstill := atCall_still t
  have hplain : Plain t t.atCall := domestic_plain.atCall addCount_plain called_plain hcall
  have hpid : t.atCall.self.pid = t.self.pid := by rw [hrooted.self]
  have hdir : t.atCall.kernel.settings.tmpDir = t.kernel.settings.tmpDir := by rw [hrooted.kernel]
  have hpath := Kernel.backingPath_congr hdir
  -- Putting the result into its register concerns neither files nor the data region.
  have hdone : Ranging target? t.atCall (after Turn.step t) := by
    rw [after, (step_call_cases hcall).2.2, ← after]
    cases ha : (answer call args : InTurn Volume Reply) t.atCall with
    | error e t' =>
      rw [after_bind_error ha]
      rw [after_error ha] at hanswer
      exact hanswer
    | ok reply t' =>
      rw [after_bind_ok ha]
      rw [after_ok ha] at hanswer
      cases reply <;> exact ⟨hanswer.confined, hanswer.self, hanswer.grown, hanswer.regrown⟩
  refine ⟨?_, ⟨hdone.self.1.trans hpid, hdone.self.2.trans hrooted.backingPath⟩, fun hlive => ?_,
    fun q hq hne => ?_⟩
  · have hconfined := hdone.confined
    rw [hpid] at hconfined
    exact (hrooted.confined hplaced (.inl rfl)).trans h.custody (h.plain hplain).custody hconfined
  · rw [← hpid] at hlive
    exact hrooted.grown.trans (hdone.grown hlive) hrooted.backingPath
  · intro r s s' hr hlive hs hs'
    obtain ⟨r₁, hr₁, hbacking⟩ := hstill.seats.seat hr
    rw [← hstill.kept? r.backing] at hs
    rw [← hbacking] at hs hs'
    have hgrown := hdone.regrown q hq (by rw [hpid]; exact hne) hr₁ hlive hs hs'
    rw [hpath] at hgrown
    exact Volume.Grown.trans (.of_shape (Volume.shape?_of_nodes hstill.nodes _)) hgrown

end Turn

end CoopKernel
