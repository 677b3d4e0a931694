import CoopKernel.Proofs.Custody.Neighbours
import CoopKernel.Proofs.Limiting.Step

/-!
# Data regions within a bound all through a run

As long as the limit stays within a bound, a data region comes to be longer only by the arguments that a
process leaves itself when it exchanges its program, or when somebody tampers with a backing file. In a run
in which that does not happen, every living process has a data region within the bound whenever the host gets
to see the kernel, whatever is stored, copied to memory, signalled, spawned or forked in between.
-/

namespace CoopKernel

variable {l : Ledger} {bound : UInt16}

/-! ## Between turns -/

namespace HostCall

/-- The host sets no limit beyond the bound, and does not change the backing file of a living process. -/
def keepsLimit (bound : UInt16) (k : Kernel Volume) : HostCall Volume → Bool
  | configure settings => settings.ramLimit ≤ bound
  | edit change => k.table.live.all fun pid => (k.table.process? pid).all fun p =>
      (change.apply k.store).behind? p.backing = k.store.behind? p.backing
  | _ => true

end HostCall

namespace Kernel.Frugal

variable {k : Kernel Volume}

theorem countTick (h : k.Frugal l bound) : k.countTick.Frugal l bound :=
  h.modest (modest_countTick k) h.custody.countTick rfl

/-- A process that is loaded has a data region within the bound. -/
theorem openTurn (h : k.Frugal l bound) (pid : Pid) (why : Resumption) :
    match k.openTurn pid why with
    | .error k' => k'.Frugal l bound
    | .ok t => t.Frugal l bound ∧ t.Seated := by
  have hcustody := h.custody.openTurn pid why
  unfold Kernel.openTurn at hcustody ⊢
  rcases hl : k.load pid with ⟨f | self, k₁⟩
  · have hloaded := h.modest (modest_load hl) (h.custody.quiet (quiet_of_load hl)) rfl
    exact hloaded.fault pid f
  · obtain ⟨hloaded, hlength⟩ := h.load hl
    rw [hl] at hcustody
    cases why with
    | ready => exact ⟨⟨hloaded.setStatus pid .active, hlength⟩, hcustody.seated⟩
    | result value => exact ⟨⟨(hloaded.note _).setStatus pid .active, hlength⟩, hcustody.seated⟩

/-- A process that goes on is saved, and dies if that fails. -/
theorem endTurn {t : Turn Volume} {how : Option TurnEnd}
    (h : match how with
      | none => t.Frugal l bound
      | some e => t.Leaving l bound e) : (Kernel.endTurn t how).Frugal l bound := by
  have hsaved (ht : t.Frugal l bound) : (Kernel.endTurn t none).Frugal l bound := by
    have hsave := ht.kernel.save ht.length
    rcases Kernel.endTurn_none_cases t with ⟨-, hend⟩ | ⟨-, hend⟩
    · rw [hend]
      exact hsave
    · rw [hend]
      exact hsave.fault _ _
  cases how with
  | none => exact hsaved h
  | some e =>
    cases e with
    | yielded | blocked => exact hsaved ⟨h.1, h.2 rfl⟩
    | exited => exact h.1
    | faulted f => exact h.1.fault _ f
    | overflowed => exact ⟨h.1.custody.endTurn (some .overflowed), h.1.limit, h.1.files⟩

/-- A call of the host that keeps the limit and backing files. -/
theorem obeyed (h : k.Frugal l bound) {call : HostCall Volume} (hdirect : call.isDirect)
    (hspares : call.spares k) (hkeeps : call.keepsLimit bound k) :
    (call.run k).Frugal (l.record (.obeyed k call)) bound := by
  have c := h.custody.obeyed hdirect hspares
  cases call with
  | tick | runUntilIdle => cases hdirect
  | spawn program =>
    have hmade := h.makes (k.spawn_makes program) (h.custody.spawn program)
    simp only [Ledger.record, HostCall.run]
    rcases hr : k.spawn program with ⟨_ | pid, k'⟩
    · rw [hr] at hmade
      exact hmade
    · rw [hr] at hmade
      exact hmade
  | kill pid status => exact h.kill pid status
  | sendSignal pid signal => exact h.sendSignal pid signal
  | inspect pid => exact h.modest (modest_load rfl) c rfl
  | setClock clock => exact ⟨c, h.limit, h.files⟩
  | configure settings => exact ⟨c, of_decide_eq_true hkeeps, h.files⟩
  | openPath path =>
    have hhome : (l.record (.obeyed k (.openPath path))).home = l.home := by
      unfold Ledger.record
      dsimp only
      split <;> rfl
    exact h.modest (modest_store (k.store.modest_openPath path)) c hhome
  | close handle => exact h.modest (modest_store (k.store.modest_close handle)) c rfl
  | edit change =>
    refine ⟨c, h.limit, fun {q content} hq hcontent => h.files hq ?_⟩
    obtain ⟨p, hp⟩ := Table.isLive_iff.mp hq
    have hold : k.store.pathOf? p.backing = some (l.home q) := h.custody.backing_path hp
    have hnew : (change.apply k.store).pathOf? p.backing = some (l.home q) := c.backing_path hp
    simp only [HostCall.keepsLimit, List.all_eq_true, Table.mem_live] at hkeeps
    have hsame := hkeeps q ⟨p, hp⟩
    rw [show k.table.process? q = some p from hp, Option.all_some, decide_eq_true_eq, Volume.behind?,
      Volume.behind?, hold, hnew, Option.bind_some, Option.bind_some] at hsame
    exact hsame.symm.trans hcontent

end Kernel.Frugal

/-! ## Runs -/

namespace Moment

/-- The limit is kept within the bound, nobody writes to the backing file of a living process, and whoever
exchanges its program takes no more arguments than fit. -/
def keepsLimit (bound : UInt16) : Moment Volume → Bool
  | obeyed k call => call.keepsLimit bound k
  | stepped t => t.writesElsewhere && t.argumentsFit bound
  | _ => true

/-- Besides the ledger, it is recorded whether the limit was kept. -/
def recordLimit (bound : UInt16) (h : Ledger × Prop) (m : Moment Volume) : Ledger × Prop :=
  (h.1.record m, h.2 ∧ m.keepsLimit bound)

theorem foldl_recordLimit (ms : List (Moment Volume)) (h : Ledger × Prop) :
    (ms.foldl (recordLimit bound) h).2 ↔ h.2 ∧ ms.all (keepsLimit bound) := by
  induction ms generalizing h with
  | nil => simp
  | cons m ms ih =>
    rw [List.foldl_cons, ih, recordLimit, and_assoc, List.all_cons, Bool.and_eq_true]

end Moment

open Moment (recordLimit) in
theorem limit_upkeep : Upkeep (recordLimit bound) (fun h k => h.2 → k.Frugal h.1 bound)
    fun how h t => h.2 →
      match how with
      | none => t.Frugal h.1 bound ∧ t.Seated
      | some e => t.Leaving h.1 bound e where
  obeyed := by
    rintro h k call ⟨hI, hdirect, hspares⟩ ⟨hok, hkeeps⟩
    exact (hI hok).obeyed hdirect hspares hkeeps
  counted hI hok := (hI hok.1).countTick
  resumed := by
    rintro h k pid why ⟨hI, -⟩
    cases ho : k.openTurn pid why with
    | error k' =>
      rintro ⟨hok, -⟩
      have hopen := (hI hok).openTurn pid why
      rw [ho] at hopen
      exact hopen
    | ok t =>
      rintro ⟨hok, -⟩
      have hopen := (hI hok).openTurn pid why
      rw [ho] at hopen
      exact hopen
  stepped := by
    intro h t hJ
    cases hs : Turn.step t with
    | ok _ t' =>
      rintro ⟨hok, hkeeps⟩
      obtain ⟨helsewhere, hfit⟩ := Bool.and_eq_true_iff.mp hkeeps
      obtain ⟨hfrugal, hseated⟩ := hJ hok
      have hstep := hfrugal.step hseated helsewhere hfit
      have hcustody := InCustody.step ⟨hfrugal.kernel.custody, hseated⟩
      rw [hs] at hstep hcustody
      exact ⟨hstep, hcustody.seated⟩
    | error e t' =>
      rintro ⟨hok, hkeeps⟩
      obtain ⟨helsewhere, hfit⟩ := Bool.and_eq_true_iff.mp hkeeps
      obtain ⟨hfrugal, hseated⟩ := hJ hok
      have hstep := hfrugal.step hseated helsewhere hfit
      rw [hs] at hstep
      exact hstep
  ended := by
    rintro h t how hJ ⟨hok, -⟩
    refine Kernel.Frugal.endTurn ?_
    cases how with
    | none => exact (hJ hok).1
    | some e => exact hJ hok

/-- In the beginning there is nobody whose data region could be too long. -/
theorem Kernel.frugal_new (v : Volume) {settings : Settings} (entropy : UInt64)
    (hlimit : settings.ramLimit ≤ bound) :
    (Kernel.new v settings entropy).Frugal (Ledger.start v) bound := by
  refine ⟨Custody.start v settings entropy, hlimit, fun hq => ?_⟩
  rw [Table.isLive, Kernel.process?_new] at hq
  cases hq

/-- In every state between the calls of the host, the data region of every living process is within the bound
that the limit never passed, whatever was stored, copied to memory, pushed for a signal, forked or spawned, as
long as nobody wrote to backing files and no program was exchanged with more arguments than that. -/
theorem HostCall.data_regions_within_limit (v : Volume) (settings : Settings) (entropy : UInt64)
    (bound : UInt16) (calls : List (HostCall Volume))
    (hspare : allSpare (Kernel.new v settings entropy) calls) (hlimit : settings.ramLimit ≤ bound)
    (hkeeps : (courseAll (Kernel.new v settings entropy) calls).all (Moment.keepsLimit bound))
    {pid : Pid} {p : Process} {s : Snapshot}
    (hp : (runAll (Kernel.new v settings entropy) calls).table.process? pid = some p)
    (hs : (runAll (Kernel.new v settings entropy) calls).store.kept? p.backing = some s) :
    s.dataLength ≤ bound := by
  have hstart : True → (Kernel.new v settings entropy).Frugal (Ledger.start v) bound :=
    fun _ => Kernel.frugal_new v entropy hlimit
  have hrun := (limit_upkeep.run (h := (Ledger.start v, True)) hstart hspare).2
  exact (hrun ((Moment.foldl_recordLimit _ _).mpr ⟨trivial, hkeeps⟩)).kept hp hs

/-- A program that exchanges itself for the one at `/b`. -/
def exchangingProgram : Bytes :=
  #[0xD0, 0x05, 0xD1, 0x05, 0xC1, 0x2F, 0x62, 0x00]

/-- A kernel with the program and one for it to be exchanged for, and with a limit on data regions. -/
def exchangingKernel (limit : UInt16) : Kernel Volume :=
  Kernel.new (((Volume.empty.mkdir (Path.ofText "/tmp")).2.addFile (Path.ofText "/a")
    exchangingProgram).2.addFile (Path.ofText "/b") #[0xD7, 0x00]).2 { budget := 3, ramLimit := limit }

/-- The program is started and run for a turn. -/
def exchangingCalls : List (HostCall Volume) :=
  [.spawn "/a", .tick]

/-- The path of the new program takes three bytes with its NUL, for which there is room within twenty. -/
theorem HostCall.exchanged_within_limit :
    allSpare (exchangingKernel 20) exchangingCalls ∧
      (courseAll (exchangingKernel 20) exchangingCalls).all (Moment.keepsLimit 20) ∧
      ∃ p s, (runAll (exchangingKernel 20) exchangingCalls).table.process? 0 = some p ∧
        (runAll (exchangingKernel 20) exchangingCalls).store.kept? p.backing = some s ∧
        s.dataLength = 3 ∧ s.dataLength ≤ 20 := by
  have hspare : allSpare (exchangingKernel 20) exchangingCalls := by decide +kernel
  have hchecked : (courseAll (exchangingKernel 20) exchangingCalls).all (Moment.keepsLimit 20) = true ∧
      (((runAll (exchangingKernel 20) exchangingCalls).table.process? 0).any fun p =>
        ((runAll (exchangingKernel 20) exchangingCalls).store.kept? p.backing).any fun s =>
          s.dataLength = 3) = true := by
    decide +kernel
  obtain ⟨hkeeps, hkept⟩ := hchecked
  obtain ⟨p, hp, hkept⟩ := (Option.any_eq_true _ _).mp hkept
  obtain ⟨s, hs, hlength⟩ := (Option.any_eq_true _ _).mp hkept
  exact ⟨hspare, hkeeps, p, s, hp, hs, of_decide_eq_true hlength,
    data_regions_within_limit _ _ _ 20 _ hspare (UInt16.le_refl _) hkeeps hp hs⟩

/-- There is no room within two, and nobody asks. -/
theorem HostCall.exchanged_beyond_limit :
    allSpare (exchangingKernel 2) exchangingCalls ∧
      (exchangingKernel 2).settings.ramLimit = 2 ∧
      ((courseAll (exchangingKernel 2) exchangingCalls).all fun m => m.turn?.all Turn.writesElsewhere) ∧
      ((runAll (exchangingKernel 2) exchangingCalls).table.process? 0).any fun p =>
        ((runAll (exchangingKernel 2) exchangingCalls).store.kept? p.backing).any fun s =>
          s.dataLength = 3 := by
  decide +kernel

end CoopKernel
