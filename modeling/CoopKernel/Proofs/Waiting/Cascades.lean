import CoopKernel.Proofs.Custody.Run
import CoopKernel.Proofs.Snapshot.Codec
import CoopKernel.Proofs.Waiting.Aftermath

/-!
# Cascades in a run

What a cascade of deaths leaves behind, whenever in a run it begins and whichever calls of the storage are
refused. The shares that everybody gets out of it are told in terms of the snapshots that are kept.
-/

namespace CoopKernel

/-! ## Blocks that the kernel wrote -/

namespace Snapshot

/-- A snapshot that came back of a block comes back with a register set after it was written over the block. -/
theorem ofBlock_overwrite {content : Bytes} {s snapshot : Snapshot}
    (hwritten : content.slice 0 blockSize = s.toBlock)
    (hblock : ofBlock (content.slice 0 blockSize) = .ok snapshot) (r : Reg) (value : UInt16) :
    ofBlock ((content.overwrite 0 (snapshot.setReg r value).toBlock.toList).slice 0 blockSize) =
      .ok (snapshot.setReg r value) := by
  have hfew : s.env.argCount.toNat ≤ maxArguments := by
    rw [← getD_argCount, ← hwritten]
    exact ((exists_ofBlock_iff _).mp ⟨snapshot, hblock⟩).2
  rw [hwritten, ofBlock_toBlock hfew] at hblock
  cases hblock
  have hroom : content.room 0 (s.stored.setReg r value).toBlock.size =
      (s.stored.setReg r value).toBlock.size := by
    rw [size_toBlock, ← Bytes.size_slice, hwritten, size_toBlock]
  have hover := Bytes.slice_overwrite content 0 (s.stored.setReg r value).toBlock hroom
  rw [size_toBlock] at hover
  have hargs : (s.stored.setReg r value).env.argCount.toNat ≤ maxArguments := by
    rw [setReg, stored_argCount]
    exact hfew
  rw [hover, ofBlock_toBlock hargs, stored_setReg, stored_stored]

end Snapshot

variable {σ : Type} [Storage σ] [VolumeBacked σ]

namespace Kernel

/-- The state block of every process that waits for the end of another is one that the kernel writes. -/
def BlocksWritten (k : Kernel σ) : Prop :=
  ∀ {pid p target deadline}, k.table.process? pid = some p → p.status = .waitingForExit target deadline →
    ∃ content snapshot, k.behind? p.backing = some content ∧
      content.slice 0 Snapshot.blockSize = Snapshot.toBlock snapshot

/-- A process that was waiting goes on with a result: in its snapshot only the result register changed, and
its data region did not. -/
structure GoesOnWith (k k' : Kernel σ) (pid : Pid) (p : Process) (result : UInt16) : Prop where
  active : k'.table.process? pid = some { p with status := .active }
  kept : ∃ snapshot, k.kept? p.backing = some snapshot ∧
    k'.kept? p.backing = some (snapshot.setReg Reg.result result)
  data : ∀ i, Snapshot.blockSize ≤ i →
    (k'.behind? p.backing).bind (·[i]?) = (k.behind? p.backing).bind (·[i]?)

/-- A process that was waiting died of being woken in a cascade: when its turn to be woken came, it was as
before the cascade, and loading it, or saving it with the result, failed. -/
structure DiesOfWaking (k : Kernel σ) (first : Pid) (status : UInt16) (k' : Kernel σ) (pid : Pid) (p : Process)
    (result : UInt16) : Prop where
  dead : k'.table.slot pid = .free (some exitFault)
  cause : ∃ k₁ failure, k.Attempts first status k₁ pid result ∧ k₁.table.process? pid = some p ∧
    k₁.behind? p.backing = k.behind? p.backing ∧ k₁.wakeFailure? pid result = some failure

/-- The status with which a process ends in a cascade. -/
def cascadeStatus (first : Pid) (status : UInt16) (pid : Pid) : UInt16 :=
  if pid = first then status else exitFault

/-- What is left by the cascade that begins with the death of a process. -/
structure CascadeLeaves (k : Kernel σ) (first : Pid) (status : UInt16) (k' : Kernel σ) : Prop where
  free : ∀ {pid status}, k.table.slot pid = .free status → k'.table.slot pid = .free status
  fallen : ∀ {pid}, Falls k k' first pid → k'.table.slot pid = .free (some (cascadeStatus first status pid))
  dead : ∀ {pid}, k.table.isLive pid → ¬k'.table.isLive pid → Falls k k' first pid
  waiter : ∀ {pid p target deadline}, pid ≠ first → k.table.process? pid = some p →
    p.status = .waitingForExit target deadline → Falls k k' first target →
    k.GoesOnWith k' pid p (cascadeStatus first status target) ∨
      k.DiesOfWaking first status k' pid p (cascadeStatus first status target)
  others : ∀ {pid p}, pid ≠ first → k.table.process? pid = some p →
    (∀ target deadline, p.status = .waitingForExit target deadline → ¬Falls k k' first target) →
    k'.table.process? pid = some p ∧ k'.behind? p.backing = k.behind? p.backing
  awaited : ∀ {pid target deadline}, k'.Awaits pid target deadline → ¬Falls k k' first target

open Fallout (not_live_of_free)

variable {k : Kernel σ} {l : Ledger} {pid : Pid} {status : UInt16}

/-- Whoever falls in a cascade ends with the status that comes with it. -/
theorem slot_of_falls {k' : Kernel σ} (h : Aftermath (k.Attempts pid status) pid k k')
    (hend : k'.table.slot pid = .free (some status)) {q : Pid} (hf : Falls k k' pid q) :
    k'.table.slot q = .free (some (cascadeStatus pid status q)) := by
  by_cases hq : q = pid
  · subst hq
    rw [cascadeStatus, if_pos rfl]
    exact hend
  · rw [cascadeStatus, if_neg hq]
    cases hf with
    | first => exact absurd rfl hq
    | next _ hw hd =>
      obtain ⟨p, hp, -⟩ := hw
      cases h.share hq hp with
      | spared hp' => exact absurd (Table.isLive_iff.mpr ⟨_, hp'⟩) hd
      | roused _ _ _ _ _ _ _ _ hp' => exact absurd (Table.isLive_iff.mpr ⟨_, hp'⟩) hd
      | lost _ _ _ _ _ _ hd' => exact hd'

omit [Storage σ] [VolumeBacked σ] in
/-- Whoever falls was alive. -/
theorem live_of_falls {k' : Kernel σ} (hl : k.table.isLive pid) {q : Pid} (hf : Falls k k' pid q) :
    k.table.isLive q := by
  cases hf with
  | first => exact hl
  | next _ hw =>
    obtain ⟨p, hp, -⟩ := hw
    exact Table.isLive_iff.mpr ⟨p, hp⟩

/-- A process whose state block was written over with a register set goes on with that. -/
theorem goesOnWith {k' : Kernel σ} {p : Process} {content : Bytes} {s snapshot : Snapshot} {result : UInt16}
    (hp : k'.table.process? pid = some { p with status := .active })
    (hb : k.behind? p.backing = some content) (hs : content.slice 0 Snapshot.blockSize = s.toBlock)
    (ho : Snapshot.ofBlock (content.slice 0 Snapshot.blockSize) = .ok snapshot)
    (hb' : k'.behind? p.backing =
      some (content.overwrite 0 (snapshot.setReg Reg.result result).toBlock.toList)) :
    k.GoesOnWith k' pid p result := by
  refine ⟨hp, ⟨snapshot, ?_, ?_⟩, fun i hi => ?_⟩
  · have hkept : k.kept? p.backing = (k.behind? p.backing).bind fun content =>
        (Snapshot.ofBlock (content.slice 0 Snapshot.blockSize)).toOption := rfl
    rw [hkept, hb, Option.bind_some, ho]
    rfl
  · have hkept : k'.kept? p.backing = (k'.behind? p.backing).bind fun content =>
        (Snapshot.ofBlock (content.slice 0 Snapshot.blockSize)).toOption := rfl
    rw [hkept, hb', Option.bind_some, Snapshot.ofBlock_overwrite hs ho]
    rfl
  · have hbehind : ¬(0 ≤ i ∧ i < 0 + (snapshot.setReg Reg.result result).toBlock.toList.length ∧
        i < content.size) := by
      rw [Array.length_toList, Snapshot.size_toBlock]
      omega
    rw [hb, hb', Option.bind_some, Option.bind_some, Bytes.getElem?_overwrite, if_neg hbehind]

/-- Nobody is left waiting for somebody who fell. -/
theorem not_awaits_of_falls (c : Custody l k) (hl : k.table.isLive pid) {q target : Pid}
    {deadline : Option UInt32} (hf : Falls k (k.kill pid status).2 pid target)
    (hdead : ¬(k.kill pid status).2.table.isLive target) : ¬(k.kill pid status).2.Awaits q target deadline := by
  intro ha
  rcases (kill_fallout c pid status).1.awaited ha hdead with ⟨-, hbefore⟩ | hnobody
  · exact hbefore (live_of_falls hl hf)
  · exact hnobody

theorem cascadeLeaves_of_kill (c : Custody l k) (hblocks : k.BlocksWritten) (hl : k.table.isLive pid)
    (status : UInt16) : k.CascadeLeaves pid status (k.kill pid status).2 := by
  have haftermath := kill_aftermath c pid status
  obtain ⟨p, hp⟩ := Table.isLive_iff.mp hl
  have hend : (k.kill pid status).2.table.slot pid = .free (some status) := killWithin_ends hp 15 status
  have hslot {q : Pid} := @slot_of_falls _ _ _ k pid status _ haftermath hend q
  have hstatus {q : Pid} {s : UInt16} (hf : Falls k (k.kill pid status).2 pid q)
      (hs : (k.kill pid status).2.table.slot q = .free (some s)) : s = cascadeStatus pid status q := by
    rw [hslot hf] at hs
    cases hs
    rfl
  have hgone {q target : Pid} {deadline : Option UInt32} (hf : Falls k (k.kill pid status).2 pid target) :
      ¬(k.kill pid status).2.Awaits q target deadline :=
    not_awaits_of_falls c hl hf (not_live_of_free (hslot hf))
  refine ⟨haftermath.free, hslot, fun {q} hlive hdead => ?_, fun {q r target deadline} hq hr hw hf => ?_,
    fun {q r} hq hr hnone => ?_, fun {q target deadline} ha hf => hgone hf ha⟩
  · by_cases hq : q = pid
    · subst hq
      exact .first hdead
    · obtain ⟨r, hr⟩ := Table.isLive_iff.mp hlive
      cases haftermath.share hq hr with
      | spared hr' => exact absurd (Table.isLive_iff.mpr ⟨_, hr'⟩) hdead
      | roused _ _ _ _ _ _ _ _ hr' => exact absurd (Table.isLive_iff.mpr ⟨_, hr'⟩) hdead
      | lost _ _ _ hw hf => exact .next hf ⟨r, hr, hw⟩ hdead
  · cases haftermath.share hq hr with
    | spared hr' => exact absurd ⟨r, hr', hw⟩ (hgone hf)
    | roused t d s content snapshot hw' hf' hs hr' hb ho hb' =>
      rw [hw] at hw'
      cases hw'
      obtain rfl := hstatus hf hs
      obtain ⟨content', written, hcontent, hwritten⟩ := hblocks hr hw
      rw [hb] at hcontent
      cases hcontent
      exact .inl (goesOnWith hr' hb hwritten ho hb')
    | lost t d s hw' hf' hs hd hc =>
      rw [hw] at hw'
      cases hw'
      obtain rfl := hstatus hf hs
      exact .inr ⟨hd, hc⟩
  · cases haftermath.share hq hr with
    | spared hr' hb => exact ⟨hr', hb⟩
    | roused t d s content snapshot hw hf => exact absurd hf (hnone t d hw)
    | lost t d s hw hf => exact absurd hf (hnone t d hw)

end Kernel

/-! ## Whenever in a run -/

namespace HostCall

/-- What a run passes through is in custody. -/
theorem PassesThrough.custody {s : σ} {settings : Settings} {entropy : UInt64} {calls : List (HostCall σ)}
    {k : Kernel σ} (h : PassesThrough (Kernel.new s settings entropy) calls k)
    (hspare : allSpare (Kernel.new s settings entropy) calls) : ∃ l, Custody l k := by
  obtain ⟨halong, hlast⟩ := Custody.upkeep.run (Custody.start s settings entropy) hspare
  rcases h with ⟨m, hm, rfl⟩ | rfl
  · obtain ⟨before, later, hsplit⟩ := List.append_of_mem hm
    rw [hsplit] at halong
    have hknown := halong.at_split
    cases m with
    | obeyed | resumed | stepped | ended => exact ⟨_, hknown.1⟩
    | counted => exact ⟨_, hknown⟩
  · exact ⟨_, hlast⟩

end HostCall

/-- The first process waits for the second, which runs in a circle. -/
def waitingKernel : Kernel (Faulty Volume) :=
  .new ⟨(((Volume.empty.addFile (Path.ofText "/a") #[0xD1, 0x01, 0xD0, 0x06, 0xC1]).2.addFile
    (Path.ofText "/b") #[0xD7, 0x00]).2.mkdir (Path.ofText "/tmp")).2, fun _ _ => false, 0⟩ { budget := 3 }

/-- When it does so, the host has all writing refused. -/
def waitingCalls : List (HostCall (Faulty Volume)) :=
  [.spawn "/a", .spawn "/b", .tick, .edit (.refuse fun _ call => call matches .write _)]

/-- The kernel that the second process is killed in. -/
def waitingEnd : Kernel (Faulty Volume) := HostCall.runAll waitingKernel waitingCalls

/-- The snapshot of the process that waits. -/
def waitingSnapshot : Snapshot where
  regs := #v[6, 1, 0, 0, 0, 0, 0, 5]
  env := { workDir := "/", searchPath := "/bin", stdio := ⟨0⟩, argCount := 1 }

theorem waitingEnd_blocksWritten : waitingEnd.BlocksWritten := by
  have hall : Pid.all.all (fun pid => (waitingEnd.table.process? pid).all fun p =>
      p.status matches .active || (waitingEnd.behind? p.backing).any fun content =>
        content.slice 0 Snapshot.blockSize = waitingSnapshot.toBlock) := by
    decide +kernel
  intro pid p target deadline hp hw
  have hpid := List.all_eq_true.mp hall pid (Table.mem_all pid)
  rw [hp, Option.all_some, hw, Bool.false_or] at hpid
  obtain ⟨content, hcontent, hwritten⟩ := (Option.any_eq_true _ _).mp hpid
  exact ⟨content, waitingSnapshot, hcontent, of_decide_eq_true hwritten⟩

end CoopKernel
