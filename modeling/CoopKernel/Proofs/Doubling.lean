import CoopKernel.Proofs.Backing.Making
import CoopKernel.Proofs.LoadedBack
import CoopKernel.Proofs.Outliving.Legible

/-!
# Copies

When a process calls for a copy of itself, what it is at that moment is partly in memory and partly in its file:
its block is still the one that its turn began with, and its data region is up to date. The copy gets a block made
of the one and the bytes of the other, and when the turn ends, which it does at once, there is no telling the two
apart but by the result of the call.
-/

namespace CoopKernel

open Volume (OnlyAt Spares)

/-! ## A copy is made -/

/-- What is known of a copy when it is made. -/
structure Kernel.Copies (k : Kernel Volume) (parent : Loaded) (child : Pid) (backing : Handle) (data : Bytes)
    (k' : Kernel Volume) : Prop where
  free : k.table.process? child = none
  table : k'.table = k.table.occupy child parent.program backing
  read : data = (k.store.read parent.backing Snapshot.blockSize parent.state.dataLength.toNat).1
  size : data.size = parent.state.dataLength.toNat
  path : k'.store.pathOf? backing = some (k.backingPath child)
  content : k'.store.behind? backing = some (newContent (parent.state.setReg Reg.result 0) data)

theorem Kernel.fork_ok {k k' : Kernel Volume} {parent : Loaded} {child : Pid}
    (h : k.fork parent = (.ok child, k')) : ∃ backing data, k.Copies parent child backing data k' := by
  unfold fork at h
  cases hslot : k.table.firstFree? with
  | none =>
    rw [hslot] at h
    cases h
  | some pid =>
    rcases hr : Storage.read k.store parent.backing Snapshot.blockSize parent.state.dataLength.toNat with ⟨data, s⟩
    simp only [hslot, hr] at h
    split at h
    · cases h
    · next hsize =>
      rcases hm : ({ k with store := s } : Kernel Volume).makeBacking pid (parent.state.setReg Reg.result 0) data
        with ⟨_ | backing, k₂⟩
      · rw [hm] at h
        cases h
      · rw [hm] at h
        cases h
        obtain ⟨hrest, hpath, hcontent⟩ := makeBacking_ok hm
        refine ⟨backing, data, {
          free := Table.process?_of_firstFree? hslot
          table := ?_
          read := (congrArg Prod.fst hr).symm
          size := not_not.mp hsize
          path := hpath
          content := hcontent }⟩
        rw [hrest]
        rfl

/-- A process in whose file there is the block of a snapshot is known by what is stored of that. -/
theorem Kernel.snapshot?_of_toBlock {k : Kernel Volume} {pid : Pid} {p : Process} {content : Bytes} {s : Snapshot}
    (hp : k.table.process? pid = some p) (hc : k.store.behind? p.backing = some content)
    (hsize : Snapshot.blockSize ≤ content.size) (hblock : content.slice 0 Snapshot.blockSize = s.toBlock)
    (hargs : s.env.argCount.toNat ≤ maxArguments) : (k.snapshot? pid).1 = some s.stored := by
  have hload := load_eq hp hc hsize
  rw [hblock, Snapshot.ofBlock_toBlock hargs] at hload
  rw [snapshot?, hload]
  rfl

/-- What is stored of a snapshot does not depend on what was in a register before it was set. -/
theorem Snapshot.stored_setReg_setReg (s : Snapshot) (r : Reg) (value value' : UInt16) :
    (s.setReg r value).stored.setReg r value' = (s.setReg r value').stored := by
  simp only [stored, setReg, Registers.write, Vector.set_set]

/-! ## At the end of the turn -/

/-- In a kernel, a process has a copy that was made of it in the turn: they agree down to the result of the call
for that and to the bytes of their data regions, run the same program and have files of their own, and the other
processes are as they were. -/
structure Turn.Doubles (t : Turn Volume) (child : Pid) (p r : Process) (k : Kernel Volume) : Prop where
  new : t.kernel.table.process? child = none
  parent : k.table.process? t.self.pid = some p
  copy : k.table.process? child = some r
  program : p.program = t.self.program ∧ r.program = t.self.program
  backing : k.store.pathOf? p.backing ≠ k.store.pathOf? r.backing
  kept : (k.snapshot? t.self.pid).1 = some (t.self.state.setReg Reg.result child.word).stored
  copied : (k.snapshot? child).1 = (k.snapshot? t.self.pid).1.map (·.setReg Reg.result 0)
  size : (k.store.behind? r.backing).map Array.size = some (Snapshot.blockSize + t.self.state.dataLength.toNat)
  data : ∀ i < t.self.state.dataLength.toNat,
    (k.store.behind? r.backing).bind (·[Snapshot.blockSize + i]?) = t.space.dataByte? i
  others : ∀ {q r'}, q ≠ t.self.pid → t.kernel.table.process? q = some r' → k.table.process? q = some r' ∧
    k.store.pathOf? r'.backing = t.kernel.store.pathOf? r'.backing ∧
    k.store.behind? r'.backing = t.kernel.store.behind? r'.backing

/-- A process that called for a copy, and can be saved, has one at the end of its turn. -/
theorem InCustody.doubles {l : Ledger} {t : Turn Volume} (hc : InCustody l t)
    (hargs : t.self.state.env.argCount.toNat ≤ maxArguments) (hroom : t.space.HasBlock) {child : Pid}
    {k : Kernel Volume} (hfork : t.kernel.fork t.self = (.ok child, k)) :
    ∃ p r, t.Doubles child p r (Kernel.endTurn
      ⟨k, { t.self with state := t.self.state.setReg Reg.result child.word }⟩ (some .yielded)) := by
  obtain ⟨p, hp, -, hprogram, hbacking⟩ := hc.seated
  obtain ⟨g, data, hmade⟩ := Kernel.fork_ok hfork
  have hcustody := hc.custody.fork hp hprogram
  rw [hfork] at hcustody
  obtain ⟨content, hspace, hsize⟩ := hroom
  have hfrom : t.kernel.store.behind? t.self.backing = some content := hspace
  have hcontent : t.kernel.store.behind? p.backing = some content := hbacking ▸ hfrom
  -- The files of those who were there before are as they were.
  have hrecord : ∀ {q r}, t.kernel.table.process? q = some r → k.table.process? q = some r := by
    have hmaking := t.kernel.fork_making t.self
    rw [hfork] at hmaking
    exact fun {_ _} hr => hmaking.process? hr
  have hspared : ∀ {q r}, t.kernel.table.process? q = some r →
      k.store.pathOf? r.backing = t.kernel.store.pathOf? r.backing ∧
      k.store.behind? r.backing = t.kernel.store.behind? r.backing := by
    intro q r hr
    have hs := Kernel.fork_spares (hc.custody.backing_open hr) (fun pid hnone =>
      hc.custody.home_ne_backingPath hr (Table.ne_of_free hr hnone)) t.self
    rw [hfork] at hs
    exact ⟨hs.path, hs.behind? (hc.custody.backing_path hr)⟩
  have hchild : k.table.process? child = some { program := t.self.program, backing := g } := by
    rw [hmade.table]
    exact Table.process?_occupy_self
  have hne : t.self.pid ≠ child := Table.ne_of_free hp hmade.free
  -- The parent is saved to its own file, and nothing happens to any other.
  let self : Loaded := { t.self with state := t.self.state.setReg Reg.result child.word }
  have hcontent' : k.store.behind? self.backing = some content := by
    rw [show self.backing = p.backing from hbacking.symm, (hspared hp).2]
    exact hcontent
  have hend : Kernel.endTurn ⟨k, self⟩ (some .yielded) = k.saved self :=
    Kernel.endTurn_of_hasBlock ⟨content, hcontent', hsize⟩
  have hpaths : ∀ h, (k.saved self).store.pathOf? h = k.store.pathOf? h := (Volume.steady_write _ _ _ _).paths
  have hapart : ∀ {q r}, k.table.process? q = some r → q ≠ t.self.pid →
      (k.saved self).store.behind? r.backing = k.store.behind? r.backing := by
    intro q r hr hq
    refine Volume.behind?_write_of_ne _ _ _ ?_
    rw [show self.backing = p.backing from hbacking.symm]
    exact Custody.backing_paths hcustody (hrecord hp) hr (Ne.symm hq)
  have hfile : (k.saved self).store.behind? g = some (newContent (t.self.state.setReg Reg.result 0) data) :=
    (hapart hchild (Ne.symm hne)).trans hmade.content
  have hkept : ((k.saved self).snapshot? t.self.pid).1 =
      some (t.self.state.setReg Reg.result child.word).stored := by
    have hbehind := Kernel.saved_behind (k := k) hcontent'
    rw [show self.backing = p.backing from hbacking.symm] at hbehind
    exact Kernel.snapshot?_of_toBlock (k := k.saved self) (hrecord hp) hbehind
      (by rw [Bytes.size_overwrite]; exact hsize) (Kernel.slice_overwrite_toBlock hsize self.state) hargs
  rw [hend]
  refine ⟨p, { program := t.self.program, backing := g }, {
    new := hmade.free
    parent := hrecord hp
    copy := hchild
    program := ⟨hprogram, rfl⟩
    backing := ?_
    kept := hkept
    copied := ?_
    size := ?_
    data := fun i hi => ?_
    others := fun hq hr => ⟨hrecord hr, (hpaths _).trans (hspared hr).1,
      (hapart (hrecord hr) hq).trans (hspared hr).2⟩ }⟩
  · rw [hpaths, hpaths]
    exact Custody.backing_paths hcustody (hrecord hp) hchild hne
  · rw [hkept, Option.map_some, Snapshot.stored_setReg_setReg]
    exact Kernel.snapshot?_of_toBlock (k := k.saved self) hchild hfile
      (by rw [size_newContent]; exact Nat.le_add_right _ _) slice_newContent hargs
  · rw [hfile]
    exact congrArg some (size_newContent.trans (congrArg (Snapshot.blockSize + ·) hmade.size))
  · have hread : data = content.slice Snapshot.blockSize t.self.state.dataLength.toNat := by
      rw [hmade.read, Volume.read_behind hfrom]
    have hi' : i < t.space.dataLength.toNat := hi
    rw [hfile, Option.bind_some, data_newContent (hmade.size ▸ hi), hread, Bytes.getElem?_slice, if_pos hi,
      AddressSpace.dataByte?, if_pos hi', hspace, Option.bind_some]

/-! ## Runs -/

/-- Whatever a process did before it calls for a copy of itself in a run, and whatever is at the path where the copy
is to be kept: if there is a copy made, and the file of the process still has room for a block, the turn ends and
leaves the two alike. -/
theorem fork_copies_exactly {v : Volume} {settings : Settings} {entropy : UInt64} {calls : List (HostCall Volume)}
    (h : HostCall.allSpare (Kernel.new v settings entropy) calls) {t : Turn Volume}
    (ht : .stepped t ∈ HostCall.courseAll (Kernel.new v settings entropy) calls) {args : CallArgs}
    (hcall : t.call? = some (.fork, args)) {child : Pid} {k : Kernel Volume}
    (hfork : t.atCall.kernel.fork t.atCall.self = (.ok child, k)) (hroom : t.atCall.space.HasBlock) :
    ∃ t', Turn.step t = .error .yielded t' ∧
      ∃ p r, t.atCall.Doubles child p r (Kernel.endTurn t' (some .yielded)) := by
  obtain ⟨l, hcustody⟩ := HostCall.inCustody_of_stepped h ht
  have hc : InCustody l t.atCall :=
    hcustody.plain (Turn.domestic_plain.atCall Turn.addCount_plain Turn.called_plain hcall)
  have hargs := (Turn.atCall_composed hcall).equipped.args (HostCall.few_of_stepped ht)
  refine ⟨_, ?_, hc.doubles hargs hroom hfork⟩
  have hanswer := Turn.fork_eq t.atCall
  rw [hfork] at hanswer
  rw [(Turn.step_call_cases hcall).2.2]
  exact bind_of_error hanswer

/-- A program that writes a byte and calls for a copy of itself. -/
def copiedProgram : Bytes :=
  #[0xDA, 0x80, 0x01, 0x12, 0xD0, 0x04, 0xC1]

/-- A kernel with that program. -/
def copyingKernel : Kernel Volume :=
  Kernel.new ((Volume.empty.mkdir (Path.ofText "/tmp")).2.addFile (Path.ofText "/bin/a") copiedProgram).2 {}

/-- The next step calls for a copy of a process that has written a one, whose file has room for a block, and there is
a copy made. -/
def Turn.copiesAfterWrite (t : Turn Volume) : Bool :=
  t.call?.any (fun c => c.1 = .fork) && t.atCall.space.dataByte? 1 = some 1 &&
    (t.atCall.space.store.behind? t.atCall.space.data).any (fun content => Snapshot.blockSize ≤ content.size) &&
    ((t.atCall.kernel.fork t.atCall.self).1 matches .ok _)

theorem fork_copies_exactly_after_write :
    let calls := [.spawn "/bin/a", .tick]
    HostCall.allSpare copyingKernel calls ∧ ∃ t args child k t' p r,
      .stepped t ∈ HostCall.courseAll copyingKernel calls ∧ t.call? = some (.fork, args) ∧
      t.atCall.kernel.fork t.atCall.self = (.ok child, k) ∧ t.atCall.space.HasBlock ∧
      t.atCall.space.dataByte? 1 = some 1 ∧ Turn.step t = .error .yielded t' ∧
      t.atCall.Doubles child p r (Kernel.endTurn t' (some .yielded)) := by
  intro calls
  have hspare : HostCall.allSpare copyingKernel calls := by decide +kernel
  obtain ⟨t, ht, hkind⟩ := HostCall.exists_stepped copyingKernel calls Turn.copiesAfterWrite (by decide +kernel)
  simp only [Turn.copiesAfterWrite, Bool.and_eq_true, Option.any_eq_true, decide_eq_true_eq] at hkind
  obtain ⟨⟨⟨⟨⟨_, args⟩, hcall, rfl⟩, hbyte⟩, hroom⟩, hmade⟩ := hkind
  rcases hfork : t.atCall.kernel.fork t.atCall.self with ⟨_ | child, k⟩
  · rw [hfork] at hmade
    cases hmade
  · obtain ⟨t', hstep, p, r, hdoubles⟩ := fork_copies_exactly hspare ht hcall hfork hroom
    exact ⟨hspare, t, args, child, k, t', p, r, ht, hcall, hfork, hroom, hbyte, hstep, hdoubles⟩

/-- A program that cuts the file at the path behind its instructions, calls for a copy of itself and does nothing
more. -/
def shrinkingProgram : Bytes :=
  #[0xD8, 0x01, 0x06, 0xD1, 0x11, 0xC1, 0xD0, 0x04, 0xC1, 0xC0, 0xC0, 0xC0, 0xC0, 0xC0, 0xC0, 0xC0, 0xC0,
    0x2F, 0x74, 0x6D, 0x70, 0x2F, 0x70, 0x72, 0x6F, 0x63, 0x30, 0x00]

/-- A kernel with that program. -/
def shrinkingKernel : Kernel Volume :=
  Kernel.new ((Volume.empty.mkdir (Path.ofText "/tmp")).2.addFile (Path.ofText "/bin/a") shrinkingProgram).2 {}

/-- The next step calls for a copy of a process, which is made, and lives on while the process dies at the end of its
turn. -/
def Turn.leavesCopyBehind (t : Turn Volume) : Bool :=
  t.call?.any (fun c => c.1 = .fork) &&
    match t.atCall.kernel.fork t.atCall.self, step t with
    | (.ok child, _), .error .yielded t' =>
      (Kernel.endTurn t' (some .yielded)).table.slot t.self.pid = .free (some exitFault) &&
        (Kernel.endTurn t' (some .yielded)).table.isLive child
    | _, _ => false

/-- A process that has cut its own backing file has a copy made, and dies because it cannot be saved. -/
theorem fork_outlives_original :
    ∃ t args child k t', .stepped t ∈ HostCall.courseAll shrinkingKernel [.spawn "/bin/a", .tick] ∧
      t.call? = some (.fork, args) ∧ t.atCall.kernel.fork t.atCall.self = (.ok child, k) ∧
      Turn.step t = .error .yielded t' ∧
      (Kernel.endTurn t' (some .yielded)).table.slot t.self.pid = .free (some exitFault) ∧
      (Kernel.endTurn t' (some .yielded)).table.isLive child := by
  obtain ⟨t, ht, hkind⟩ := HostCall.exists_stepped shrinkingKernel [.spawn "/bin/a", .tick]
    Turn.leavesCopyBehind (by decide +kernel)
  simp only [Turn.leavesCopyBehind, Bool.and_eq_true, Option.any_eq_true, decide_eq_true_eq] at hkind
  obtain ⟨⟨⟨_, args⟩, hcall, rfl⟩, hkind⟩ := hkind
  split at hkind <;> [skip; cases hkind]
  next child k t' hfork hstep =>
  simp only [Bool.and_eq_true, decide_eq_true_eq] at hkind
  exact ⟨t, args, child, k, t', ht, hcall, hfork, hstep, hkind⟩

end CoopKernel
