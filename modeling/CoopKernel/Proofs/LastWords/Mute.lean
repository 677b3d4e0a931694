import CoopKernel.Proofs.LastWords.Fate

/-!
# Processes without last words

A process is mute if it is alive, its snapshot can be read and it has no handler for being killed. Whatever else
happens, it is mute as long as it lives and nobody changes its backing file, but for one thing: in its own turn it
can register a handler. A step that kills it is the end of it.
-/

namespace CoopKernel

variable {l : Ledger} {k k' : Kernel Volume} {pid q : Pid} {p : Process} {self : Loaded}

namespace Kernel

/-- A process is alive and can be read, and has no handler for being killed. -/
def Mute (q : Pid) (k : Kernel Volume) : Prop :=
  ∃ p s, k.table.process? q = some p ∧ k.kept? p.backing = some s ∧ s.handler .suicide = 0

/-- What is kept is read from a block that is there. -/
theorem block_of_kept? {h : Handle} {s : Snapshot} (hkept : k.kept? h = some s) : ∃ content,
    k.store.behind? h = some content ∧ Snapshot.blockSize ≤ content.size ∧
      Snapshot.ofBlock (content.slice 0 Snapshot.blockSize) = .ok s := by
  obtain ⟨content, hc, hs⟩ := Option.bind_eq_some_iff.mp hkept
  cases hblock : Snapshot.ofBlock (content.slice 0 Snapshot.blockSize) with
  | error f =>
    rw [hblock] at hs
    cases hs
  | ok s' =>
    rw [hblock] at hs
    obtain rfl : s' = s := Option.some.inj hs
    refine ⟨content, hc, ?_, hblock⟩
    unfold Snapshot.ofBlock at hblock
    split at hblock
    · cases hblock
    · next hsize =>
      rw [Bytes.size_slice, Bytes.room] at hsize
      omega

/-- What was written over the block in a file is kept there. -/
theorem kept?_of_written {h : Handle} {content : Bytes} {s : Snapshot} (hsize : Snapshot.blockSize ≤ content.size)
    (hfew : s.env.argCount.toNat ≤ maxArguments)
    (hb : k.store.behind? h = some (content.overwrite 0 s.toBlock.toList)) : k.kept? h = some s.stored := by
  have hkept : k.kept? h = (k.store.behind? h).bind fun content =>
      (Snapshot.ofBlock (content.slice 0 Snapshot.blockSize)).toOption := rfl
  rw [hkept, hb, Option.bind_some, slice_overwrite_toBlock hsize, Snapshot.ofBlock_toBlock hfew]
  rfl

namespace Mute

theorem isLive (h : k.Mute q) : k.table.isLive q := by
  obtain ⟨p, _, hp, -⟩ := h
  exact Table.isLive_iff.mpr ⟨p, hp⟩

theorem legible (h : k.Mute q) : k.Legible q := by
  obtain ⟨p, s, hp, hkept, -⟩ := h
  obtain ⟨content, hc, hsize, hs⟩ := block_of_kept? hkept
  exact ⟨p, content, s, hp, hc, hsize, hs⟩

/-- A process that is saved without a handler is mute. -/
theorem of_save (c : Custody l k) (hp : k.table.process? self.pid = some p) (hbacking : p.backing = self.backing)
    (hfew : self.state.env.argCount.toNat ≤ maxArguments) (hh : self.state.handler .suicide = 0)
    (hs : k.save self = (true, k')) : k'.Mute self.pid := by
  obtain ⟨content, hc⟩ := Option.isSome_iff_exists.mp (c.backing_file hp)
  rcases hsave : self.state.save k.store self.backing with ⟨done, s⟩
  simp only [save, hsave] at hs
  obtain ⟨rfl, rfl⟩ := Prod.mk.inj hs
  rw [← hbacking] at hsave
  refine ⟨p, self.state.stored, hp, VolumeBacked.kept?_of_save hc hfew hsave, ?_⟩
  rw [Snapshot.stored_handler]
  exact hh

/-- It is loaded without a handler. -/
theorem load (c : Custody l k) (h : k.Mute q) : ∃ self, k.load q = (.ok self, k) ∧ self.pid = q ∧
    self.state.handler .suicide = 0 ∧ self.state.env.argCount.toNat ≤ maxArguments := by
  obtain ⟨self, hl⟩ := h.legible.load
  obtain ⟨p, s, hp, hkept, hh⟩ := h
  obtain ⟨content, hc⟩ := Option.isSome_iff_exists.mp (c.backing_file hp)
  obtain ⟨hloaded, hfew⟩ := VolumeBacked.kept?_of_load hc (load_state hl hp)
  obtain ⟨_, -, hself⟩ := load_ok hl
  obtain rfl : self.state = s := Option.some.inj (hloaded.symm.trans hkept)
  exact ⟨self, hl, by rw [hself], hh, hfew⟩

end Mute

/-- That a process is mute lasts. -/
theorem mute_lasts (q : Pid) : Lasts q (Mute q) where
  live h := h.isLive
  same {k k' p} h hp hp' hb := by
    obtain ⟨r, s, hr, hkept, hh⟩ := h
    obtain rfl : p = r := Option.some.inj (hp.symm.trans hr)
    obtain ⟨count, hp'⟩ := hp'
    exact ⟨_, s, hp', (Volume.kept?_congr hb).trans hkept, hh⟩
  kill {l k pid} c h hne status := by
    have hlegible := c.legible_kill h.legible hne status
    obtain ⟨p, s, hp, hkept, hh⟩ := h
    obtain ⟨content, hc, hsize, hs⟩ := block_of_kept? hkept
    cases (kill_aftermath c pid status).share hne hp with
    | spared hp' hb => exact ⟨p, s, hp', (Volume.kept?_congr hb).trans hkept, hh⟩
    | roused target deadline result content' s' hw hf ht hp' hb ho hb' =>
      obtain rfl : content' = content := Option.some.inj (hb.symm.trans hc)
      obtain rfl : s' = s := Except.ok.inj (ho.symm.trans hs)
      have hloaded := Snapshot.argCount_of_ofBlock ho
      have hfew : (s'.setReg Reg.result result).env.argCount.toNat ≤ maxArguments := hloaded
      refine ⟨_, _, hp', kept?_of_written hsize hfew hb', ?_⟩
      rw [Snapshot.stored_handler]
      exact hh
    | lost target deadline result hw hf ht hd hlost => exact absurd hlegible.isLive (Fallout.not_live_of_free hd)

/-- A process that survives a signal is as mute as before. -/
theorem Mute.sendSignal (c : Custody l k) (h : k.Mute q) {signal : Signal}
    (hlive : (k.sendSignal q signal).2.table.isLive q) : (k.sendSignal q signal).2.Mute q := by
  obtain ⟨self, hl, rfl, hh, hfew⟩ := h.load c
  obtain ⟨p, -, hp, -⟩ := h
  have hsent := sendSignal_of_live hp signal
  rw [hsent] at hlive ⊢
  obtain ⟨self', k₁, handled, t, hl', ha, hs⟩ := withLoaded_survives hlive
  obtain ⟨rfl, rfl⟩ : self = self' ∧ k = k₁ := by
    rw [hl] at hl'
    obtain ⟨hself, hk⟩ := Prod.mk.inj hl'
    exact ⟨Except.ok.inj hself, hk⟩
  obtain ⟨p', hp', hself⟩ := load_ok hl
  obtain rfl : p = p' := Option.some.inj (hp.symm.trans hp')
  have hbacking : p.backing = self.backing := by rw [hself]
  have hhandlers := (Turn.deliver_handlers signal).keeps ⟨k, self⟩ .suicide
  have ct := Custody.inward (Turn.deliver_inward signal) ⟨k, self⟩ c
  rw [after_ok ha] at hhandlers ct
  have hclear : t.self.state.handler .suicide = 0 := (hhandlers.resolve_right id).trans hh
  rcases Turn.deliver_ok (t := ⟨k, self⟩) hp ha with ⟨-, rfl⟩ | ⟨-, hentered⟩
  · exact .of_save c hp hbacking hfew hclear hs
  · have hactive : t.kernel.table.process? t.self.pid = some { p with status := .active } := by
      rw [hentered.table, hentered.pid]
      exact Table.process?_modify_self hp
    have hsaved := of_save ct hactive (hbacking.trans hentered.backing.symm) (by rw [hentered.env]; exact hfew)
      hclear hs
    rw [hentered.pid] at hsaved
    exact hsaved

end Kernel

end CoopKernel
