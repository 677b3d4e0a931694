import CoopKernel.Proofs.Custody.Basic

/-!
# Custody while processes come and go

The kernel's own operations keep the books balanced: a process that ends takes its files with it, a
process that is made gets files of its own, and one that changes its program gives up the old one.
-/

namespace CoopKernel

open Storage (Edits)

variable {σ : Type} [Storage σ] [VolumeBacked σ] {l : Ledger} {k : Kernel σ}

namespace Custody

/-! ## Endings -/

/-- Releasing a program closes it exactly if nobody else runs it. -/
theorem released {pid : Pid} {h : Handle} (hl : h ∉ l.loans)
    (hshared : k.table.UsedByOther pid h → Custody l k)
    (halone : ¬k.table.UsedByOther pid h → Custody (l.lend h) k) :
    Custody l (k.releaseProgram pid h) := by
  unfold Kernel.releaseProgram
  split
  · next hu => exact hshared (Table.usedByOther_iff.mp hu)
  · next hu => exact (halone fun hu' => hu (Table.usedByOther_iff.mpr hu')).closed_loan hl

theorem bury (c : Custody l k) {pid : Pid} {p : Process} (hp : k.table.process? pid = some p)
    (status : UInt16) : Custody l (k.bury pid p status) := by
  have hother : ∀ g, (k.onTable (·.vacate pid status)).table.UsedByOther pid g ↔
      k.table.UsedByOther pid g :=
    Table.usedByOther_congr fun q hne => Table.process?_vacate_of_ne hne
  have hprogram : p.program ∉ (l.lend p.backing).loans := by
    intro hl
    rcases Ledger.mem_lend.mp hl with he | hl
    · exact c.backing_apart hp hp he.symm
    · exact (c.loan_apart hl hp).1 rfl
  have hreleased : Custody (l.lend p.backing)
      ((k.onTable (·.vacate pid status)).releaseProgram pid p.program) := by
    refine released hprogram ?_ ?_
    · intro hu
      rw [hother] at hu
      refine c.vacated hp status ?_ rfl
      intro h
      rw [Ledger.mem_lend]
      constructor
      · rintro (rfl | hl)
        · exact .inr (.inl rfl)
        · exact .inl hl
      · rintro (hl | rfl | ⟨rfl, hn⟩)
        · exact .inr hl
        · exact .inl rfl
        · exact absurd hu hn
    · intro hu
      rw [hother] at hu
      refine c.vacated hp status ?_ rfl
      intro h
      rw [Ledger.mem_lend, Ledger.mem_lend]
      constructor
      · rintro (rfl | rfl | hl)
        · exact .inr (.inr ⟨rfl, hu⟩)
        · exact .inr (.inl rfl)
        · exact .inl hl
      · rintro (hl | rfl | ⟨rfl, _⟩)
        · exact .inr (.inr hl)
        · exact .inr (.inl rfl)
        · exact .inl rfl
  have hclosed := hreleased.closed_loan fun hl => (c.loan_apart hl hp).2 rfl
  have hdeleted := hclosed.edited (.single (.delete _ (k.backingPath pid)))
  unfold Kernel.bury
  have hpath : ∀ g : Kernel σ, g.settings = k.settings → g.backingPath pid = k.backingPath pid :=
    fun g hg => by unfold Kernel.backingPath; rw [hg]
  dsimp only
  rw [hpath _ (by unfold Kernel.releaseProgram; split <;> rfl)]
  exact hdeleted.note _

theorem killWithin (c : Custody l k) (depth : Nat) (pid : Pid) (status : UInt16) :
    Custody l (Kernel.killWithin depth k pid status) :=
  Kernel.killWithin_keeps (R := Stays (Custody l)) (fun _ _ h c => c.quiet h) (fun _ e _ c => c.note e)
    (fun _ pid c => c.setStatus pid .active) (fun _ _ _ s hp c => c.bury hp s) depth k pid status c

theorem kill (c : Custody l k) (pid : Pid) (status : UInt16) : Custody l (k.kill pid status).2 :=
  c.killWithin maxProcesses pid status

theorem fault (c : Custody l k) (pid : Pid) (f : Fault) : Custody l (k.fault pid f) :=
  (c.note _).kill pid exitFault

/-! ## Signals -/

/-- Work that makes the process active at most leaves the books balanced. -/
theorem inward {α : Type} {act : Attempt σ α} (hact : Turn.Inward act) (t : Turn σ) :
    Stays (Custody l) t.kernel (after act t).kernel :=
  hact.kernel (fun _ _ h c => c.quiet h) (fun _ e _ c => c.note e)
    (fun _ c => c.setStatus t.self.pid .active) rfl

theorem withLoaded {α : Type} (c : Custody l k) {pid : Pid} {act : Attempt σ α}
    (hact : Turn.Inward act) : Custody l (k.withLoaded Kernel.fault pid act).2 :=
  Kernel.withLoaded_keeps (R := Stays (Custody l)) (fun _ _ h c => c.quiet h)
    (fun t _ => inward hact t) (fun _ f c => c.fault pid f) k c

theorem sendSignal (c : Custody l k) (pid : Pid) (signal : Signal) :
    Custody l (k.sendSignal pid signal).2 := by
  unfold Kernel.sendSignal
  split
  · exact c.withLoaded (Turn.deliver_inward signal)
  · exact c

/-! ## Beginnings -/

/-- A new backing file is on loan, and is where it was made. -/
def Backed (l : Ledger) (path : Path) (k : Kernel σ) : Except SpawnError Handle → Prop
  | .error _ => Custody l k
  | .ok h => h ∉ l.loans ∧ Custody (l.lend h) k ∧ Storage.pathOf? k.store h = some path ∧
    ((VolumeBacked.volume k.store).behind? h).isSome

theorem makeBacking {k' : Kernel σ} (c : Custody l k) {pid : Pid} {state : Snapshot} {data : Bytes}
    {made : Except SpawnError Handle} (hm : k.makeBacking pid state data = (made, k')) :
    k'.table = k.table ∧ Backed l (k.backingPath pid) k' made := by
  unfold Kernel.makeBacking at hm
  have c₁ := c.edited (.single (.create k.store (k.backingPath pid) (Snapshot.blockSize + data.size)))
  rcases hc : Storage.create k.store (k.backingPath pid) (Snapshot.blockSize + data.size) with
    ⟨created, s₁⟩
  rw [hc] at c₁
  simp only [hc] at hm
  split at hm
  · cases hm
    exact ⟨rfl, c₁⟩
  · next hcreated =>
    rcases ho : Storage.openPath s₁ (k.backingPath pid) with ⟨_ | h, s₂⟩
    · simp only [ho] at hm
      cases hm
      have c₂ := (c₁.opened_none ho).edited (.single (.delete s₂ (k.backingPath pid)))
      exact ⟨rfl, c₂⟩
    · simp only [ho] at hm
      have c₂ := c₁.opened ho
      have hnew := c₁.not_lent ho
      have hpath : Storage.pathOf? s₂ h = some (k.backingPath pid) := by
        rw [(VolumeBacked.openPath_some ho).2.2, if_pos rfl]
      have hfile : ((VolumeBacked.volume s₂).behind? h).isSome := by
        rw [VolumeBacked.openPath_behind ho, if_pos rfl]
        rw [Bool.not_eq_true', Bool.not_eq_false] at hcreated
        exact VolumeBacked.create_content (hcreated ▸ hc)
      have e₃ : Edits s₂ (state.save s₂ h).2 := .single (.write s₂ h 0 state.toBlock)
      rcases hs : state.save s₂ h with ⟨saved, s₃⟩
      rw [hs] at e₃
      simp only [hs] at hm
      -- Whether or not the data is written too, the storage is edited and nothing else.
      have hkey : ∀ (written : Bool) (s₄ : σ), Edits s₂ s₄ →
          (if written then ((.ok h, { k with store := s₄ }) : Except SpawnError Handle × Kernel σ)
            else
              (.error .storage,
                { k with store := (Storage.delete (Storage.close s₄ h) (k.backingPath pid)).2 })) =
              (made, k') →
          k'.table = k.table ∧ Backed l (k.backingPath pid) k' made := by
        intro written s₄ e₄ hw
        have c₄ := c₂.edited e₄
        cases written with
        | true =>
          cases hw
          refine ⟨rfl, hnew, c₄, ?_, (VolumeBacked.steady_edits e₄).files h hfile⟩
          rw [← hpath]
          exact VolumeBacked.pathOf?_edits e₄ h
        | false =>
          cases hw
          have c₅ := (c₄.closed_loan hnew).edited
            (.single (.delete (Storage.close s₄ h) (k.backingPath pid)))
          exact ⟨rfl, c₅⟩
      cases saved with
      | true => exact hkey _ _ (e₃.trans (.single (.write s₃ h Snapshot.blockSize data))) hm
      | false => exact hkey _ _ e₃ hm

/-- The books balance after a process was to be made, and it is on record where its backing file is if
it was. -/
def Made (l : Ledger) (home : Pid → Path) : Except SpawnError Pid × Kernel σ → Prop
  | (.ok pid, k) => Custody (l.settle pid (home pid)) k
  | (.error _, k) => Custody l k

/-- What a spawned process needs is off loan again when it has its slot. -/
theorem spawn (c : Custody l k) (program : String) : Made l k.backingPath (k.spawn program) := by
  unfold Kernel.spawn
  split
  · exact c
  · cases hfree : k.table.firstFree? with
    | none => exact c
    | some pid =>
      dsimp only
      split
      · exact c
      · rcases ho : Storage.openPath k.store (Path.ofText program) with ⟨_ | h, s⟩
        · exact c.opened_none ho
        · dsimp only
          have c₁ := c.opened ho
          have hnew := c.not_lent ho
          rcases hm : ({ k with store := s } : Kernel σ).makeBacking pid
            (k.initialState (Path.ofText program)) #[] with ⟨_ | backing, k₂⟩
          · exact (c₁.makeBacking hm).2.closed_loan hnew
          · obtain ⟨htable, hnew₂, c₂, hpath, hfile⟩ := c₁.makeBacking hm
            have hslot : k₂.table.process? pid = none := by
              rw [htable]
              exact Table.process?_of_firstFree? hfree
            have hne : h ≠ backing := fun he => hnew₂ (Ledger.mem_lend.mpr (.inl he.symm))
            have c₃ := c₂.occupied hslot (Ledger.mem_lend.mpr (.inl rfl)) hpath
              (k.base?_backingPath pid) hfile hne
              (.inl (Ledger.mem_lend.mpr (.inr (Ledger.mem_lend.mpr (.inl rfl)))))
            have c₄ : Custody (l.settle pid (k.backingPath pid)) _ :=
              c₃.of_home (fun g => ?_) fun _ => rfl
            · exact c₄.note (.spawned pid (Path.ofText program))
            simp only [Ledger.mem_settle, Ledger.mem_repay, Ledger.mem_lend]
            constructor
            · intro hg
              exact ⟨⟨.inr (.inr hg), fun he => hnew (he ▸ hg)⟩,
                fun he => hnew₂ (Ledger.mem_lend.mpr (.inr (he ▸ hg)))⟩
            · rintro ⟨⟨hg | hg | hg, hn⟩, hb⟩
              · exact absurd hg hb
              · exact absurd hg hn
              · exact hg

/-- The copy of a process shares the program of the original, which nobody closes for that. -/
theorem fork (c : Custody l k) {parent : Loaded} {q : Pid} {r : Process}
    (hr : k.table.process? q = some r) (hprogram : r.program = parent.program) :
    Made l k.backingPath (k.fork parent) := by
  unfold Kernel.fork
  cases hfree : k.table.firstFree? with
  | none => exact c
  | some pid =>
    dsimp only
    have c₁ := c.edited
      (.single (.read k.store parent.backing Snapshot.blockSize parent.state.dataLength.toNat))
    split
    · exact c₁
    · rcases hm : ({ k with store :=
          (Storage.read k.store parent.backing Snapshot.blockSize parent.state.dataLength.toNat).2 } :
          Kernel σ).makeBacking pid (parent.state.setReg Reg.result 0)
          (Storage.read k.store parent.backing Snapshot.blockSize parent.state.dataLength.toNat).1 with
        ⟨_ | backing, k₂⟩
      · exact (c₁.makeBacking hm).2
      · obtain ⟨htable, hnew, c₂, hpath, hfile⟩ := c₁.makeBacking hm
        have hslot : k₂.table.process? pid = none := by
          rw [htable]
          exact Table.process?_of_firstFree? hfree
        have hr₂ : k₂.table.process? q = some r := by
          rw [htable]
          exact hr
        have hloan := Ledger.mem_lend.mpr (.inl rfl : backing = backing ∨ backing ∈ l.loans)
        have hne : parent.program ≠ backing := by
          rw [← hprogram]
          exact (c₂.loan_apart hloan hr₂).1
        have c₃ := c₂.occupied hslot hloan hpath (k.base?_backingPath pid) hfile hne
          (.inr ⟨q, r, hr₂, hprogram⟩)
        have c₄ : Custody (l.settle pid (k.backingPath pid)) _ :=
          c₃.of_home (fun g => ?_) fun _ => rfl
        · exact c₄.note (.forked parent.pid pid)
        simp only [Ledger.mem_settle, Ledger.mem_repay, Ledger.mem_lend]
        constructor
        · intro hg
          refine ⟨⟨.inr hg, ?_⟩, fun he => hnew (he ▸ hg)⟩
          intro he
          exact (c.loan_apart hg hr).1 (hprogram.trans he.symm)
        · rintro ⟨⟨hg | hg, _⟩, hb⟩
          · exact absurd hg hb
          · exact hg

/-! ## Changing the program -/

/-- A process that changes its program takes the new one over and releases the old one. -/
theorem replaced (c : Custody (l.lend h) k) (hl : h ∉ l.loans) {pid : Pid} {p : Process}
    (hp : k.table.process? pid = some p) :
    Custody l ((k.onTable (·.setProgram pid h)).releaseProgram pid p.program) := by
  have hother : ∀ g, (k.onTable (·.setProgram pid h)).table.UsedByOther pid g ↔
      k.table.UsedByOther pid g :=
    Table.usedByOther_congr fun q hne => Table.process?_modify_of_ne hne
  have hloan := Ledger.mem_lend.mpr (.inl rfl : h = h ∨ h ∈ l.loans)
  have hold : p.program ∉ l.loans := fun hm =>
    (c.loan_apart (Ledger.mem_lend.mpr (.inr hm)) hp).1 rfl
  have hne : p.program ≠ h := (c.loan_apart hloan hp).1
  refine released hold ?_ ?_
  · intro hu
    rw [hother] at hu
    refine c.reprogrammed hp hloan ?_ rfl
    intro g
    rw [Ledger.mem_lend]
    constructor
    · intro hg
      exact .inl ⟨.inr hg, fun he => hl (he ▸ hg)⟩
    · rintro (⟨rfl | hg, hn⟩ | ⟨rfl, hn⟩)
      · exact absurd rfl hn
      · exact hg
      · exact absurd hu hn
  · intro hu
    rw [hother] at hu
    refine c.reprogrammed hp hloan ?_ rfl
    intro g
    rw [Ledger.mem_lend, Ledger.mem_lend]
    constructor
    · rintro (rfl | hg)
      · exact .inr ⟨rfl, hu⟩
      · exact .inl ⟨.inr hg, fun he => hl (he ▸ hg)⟩
    · rintro (⟨rfl | hg, hn⟩ | ⟨rfl, _⟩)
      · exact absurd rfl hn
      · exact .inr hg
      · exact .inl rfl

end Custody

end CoopKernel
