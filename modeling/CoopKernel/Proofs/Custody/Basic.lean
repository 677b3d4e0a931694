import CoopKernel.Proofs.Cascade
import CoopKernel.Proofs.Path
import CoopKernel.Proofs.Run
import CoopKernel.Proofs.Step
import Mathlib.Tactic.ByContra

/-!
# Custody of handles

Every handle that is open has somebody to answer for it. The kernel keeps the program and the backing
file of every living process open, and closes each when nobody needs it any more; the other handles
are on loan to the host or to programs, which close them by themselves. `Ledger` is what an onlooker
has to write down to tell the loans, and `Custody` says that the books balance.

While a process is made, what the kernel has just opened belongs to nobody yet. It is treated as lent
for that time.
-/

namespace CoopKernel

open Storage (Edits)

/-- What is on record about handles. -/
structure Ledger where
  /-- The handles that are open on account of the host or of a program. -/
  loans : List Handle
  /-- The path that the backing file of the last process in a slot was made under. -/
  home : Pid → Path

namespace Ledger

/-- Puts a handle on loan. -/
def lend (h : Handle) (l : Ledger) : Ledger :=
  { l with loans := h :: l.loans }

/-- Takes a handle off loan. -/
def repay (h : Handle) (l : Ledger) : Ledger :=
  { l with loans := l.loans.filter (· ≠ h) }

/-- Records where a new process has its backing file. -/
def settle (pid : Pid) (path : Path) (l : Ledger) : Ledger :=
  { l with home := fun q => if q = pid then path else l.home q }

@[simp] theorem mem_lend {h g : Handle} {l : Ledger} : g ∈ (l.lend h).loans ↔ g = h ∨ g ∈ l.loans :=
  List.mem_cons

@[simp] theorem mem_repay {h g : Handle} {l : Ledger} :
    g ∈ (l.repay h).loans ↔ g ∈ l.loans ∧ g ≠ h := by
  simp only [repay, List.mem_filter, decide_eq_true_eq]

@[simp] theorem mem_settle {g : Handle} {pid : Pid} {path : Path} {l : Ledger} :
    g ∈ (l.settle pid path).loans ↔ g ∈ l.loans :=
  Iff.rfl

end Ledger

variable {σ : Type} [Storage σ] [VolumeBacked σ]

/-- The books balance: the files of living processes are open, each backing file is a file that belongs
to one process alone and is where it was made, under the name that is its own, loans are open and apart
from those, and there is nothing else open. -/
structure Custody (l : Ledger) (k : Kernel σ) : Prop where
  program_open : ∀ {pid p}, k.table.process? pid = some p → (Storage.pathOf? k.store p.program).isSome
  backing_path : ∀ {pid p}, k.table.process? pid = some p →
    Storage.pathOf? k.store p.backing = some (l.home pid)
  backing_name : ∀ {pid p}, k.table.process? pid = some p → (l.home pid).base? = some pid.fileName
  backing_file : ∀ {pid p}, k.table.process? pid = some p →
    ((VolumeBacked.volume k.store).behind? p.backing).isSome
  backing_unique : ∀ {pid q p r}, k.table.process? pid = some p → k.table.process? q = some r →
    p.backing = r.backing → pid = q
  backing_apart : ∀ {pid q p r}, k.table.process? pid = some p → k.table.process? q = some r →
    p.backing ≠ r.program
  loan_open : ∀ {h}, h ∈ l.loans → (Storage.pathOf? k.store h).isSome
  loan_apart : ∀ {h pid p}, h ∈ l.loans → k.table.process? pid = some p →
    p.program ≠ h ∧ p.backing ≠ h
  accounted : ∀ {h}, (Storage.pathOf? k.store h).isSome →
    h ∈ l.loans ∨ ∃ pid p, k.table.process? pid = some p ∧ (p.program = h ∨ p.backing = h)

namespace Custody

variable {l : Ledger} {k k' : Kernel σ}

theorem backing_open (c : Custody l k) {pid : Pid} {p : Process}
    (hp : k.table.process? pid = some p) : (Storage.pathOf? k.store p.backing).isSome := by
  rw [c.backing_path hp]
  rfl

/-- Different processes are kept at different paths. -/
theorem backing_paths (c : Custody l k) {pid q : Pid} {p r : Process}
    (hp : k.table.process? pid = some p) (hr : k.table.process? q = some r) (hne : pid ≠ q) :
    Storage.pathOf? k.store p.backing ≠ Storage.pathOf? k.store r.backing := by
  intro he
  rw [c.backing_path hp, c.backing_path hr] at he
  have hname := c.backing_name hp
  rw [Option.some.inj he, c.backing_name hr] at hname
  exact hne (Pid.fileName_inj (Option.some.inj hname)).symm

/-- Only the handles that processes hold and what is open matter. -/
theorem of_same (c : Custody l k)
    (hback : ∀ {pid p'}, k'.table.process? pid = some p' → ∃ p, k.table.process? pid = some p ∧
      p.program = p'.program ∧ p.backing = p'.backing)
    (hforth : ∀ {pid p}, k.table.process? pid = some p → ∃ p', k'.table.process? pid = some p' ∧
      p'.program = p.program ∧ p'.backing = p.backing)
    (hs : Volume.Steady (VolumeBacked.volume k.store) (VolumeBacked.volume k'.store)) :
    Custody l k' := by
  have hpath : ∀ h, Storage.pathOf? k'.store h = Storage.pathOf? k.store h := by
    intro h
    rw [VolumeBacked.pathOf?, VolumeBacked.pathOf?]
    exact hs.paths h
  exact {
    program_open := fun h' => by
      obtain ⟨p, hp, hprogram, _⟩ := hback h'
      rw [hpath, ← hprogram]
      exact c.program_open hp
    backing_path := fun h' => by
      obtain ⟨p, hp, _, hbacking⟩ := hback h'
      rw [hpath, ← hbacking]
      exact c.backing_path hp
    backing_name := fun h' => by
      obtain ⟨p, hp, _, _⟩ := hback h'
      exact c.backing_name hp
    backing_file := fun h' => by
      obtain ⟨p, hp, _, hbacking⟩ := hback h'
      rw [← hbacking]
      exact hs.files _ (c.backing_file hp)
    backing_unique := fun h₁ h₂ he => by
      obtain ⟨p, hp, _, hp₂⟩ := hback h₁
      obtain ⟨r, hr, _, hr₂⟩ := hback h₂
      exact c.backing_unique hp hr (by rw [hp₂, hr₂, he])
    backing_apart := fun h₁ h₂ => by
      obtain ⟨p, hp, _, hp₂⟩ := hback h₁
      obtain ⟨r, hr, hr₁, _⟩ := hback h₂
      rw [← hp₂, ← hr₁]
      exact c.backing_apart hp hr
    loan_open := fun hl => by
      rw [hpath]
      exact c.loan_open hl
    loan_apart := fun hl h' => by
      obtain ⟨p, hp, hprogram, hbacking⟩ := hback h'
      rw [← hprogram, ← hbacking]
      exact c.loan_apart hl hp
    accounted := fun ho => by
      rw [hpath] at ho
      rcases c.accounted ho with hl | ⟨pid, p, hp, hu⟩
      · exact .inl hl
      · obtain ⟨p', hp', hprogram, hbacking⟩ := hforth hp
        exact .inr ⟨pid, p', hp', by rw [hprogram, hbacking]; exact hu⟩ }

/-- Where nobody lives, nothing is on record to hold. -/
theorem of_home {l' : Ledger} (c : Custody l k) (hloans : ∀ h, h ∈ l'.loans ↔ h ∈ l.loans)
    (hhome : ∀ {pid p}, k.table.process? pid = some p → l'.home pid = l.home pid) : Custody l' k where
  program_open := c.program_open
  backing_path hp := by
    rw [hhome hp]
    exact c.backing_path hp
  backing_name hp := by
    rw [hhome hp]
    exact c.backing_name hp
  backing_file := c.backing_file
  backing_unique := c.backing_unique
  backing_apart := c.backing_apart
  loan_open hl := c.loan_open ((hloans _).mp hl)
  loan_apart hl := c.loan_apart ((hloans _).mp hl)
  accounted ho := (c.accounted ho).imp_left (hloans _).mpr

/-! ## Changes to the table alone -/

theorem modify (c : Custody l k) {pid : Pid} {f : Process → Process}
    (hf : ∀ p, (f p).program = p.program ∧ (f p).backing = p.backing) :
    Custody l (k.onTable (·.modify pid f)) := by
  refine c.of_same (fun {q p'} hp' => ?_) (fun {q p} hp => ?_) (refl_of Volume.Steady _)
  · rcases Table.process?_modify_cases hp' with ⟨rfl, p, hp, rfl⟩ | ⟨_, hp⟩
    · exact ⟨p, hp, (hf p).1.symm, (hf p).2.symm⟩
    · exact ⟨p', hp, rfl, rfl⟩
  · by_cases hq : q = pid
    · subst hq
      exact ⟨f p, Table.process?_modify_self hp, (hf p).1, (hf p).2⟩
    · exact ⟨p, (Table.process?_modify_of_ne hq).trans hp, rfl, rfl⟩

theorem setStatus (c : Custody l k) (pid : Pid) (status : Status) :
    Custody l (k.onTable (·.setStatus pid status)) :=
  c.modify fun _ => ⟨rfl, rfl⟩

theorem of_resetCounts (c : Custody l k) (ht : k'.table.resetCounts = k.table.resetCounts)
    (hs : Volume.Steady (VolumeBacked.volume k.store) (VolumeBacked.volume k'.store)) :
    Custody l k' := by
  refine c.of_same (fun hp' => ?_) (fun hp => ?_) hs
  · obtain ⟨count, hp⟩ := Table.process?_of_resetCounts ht.symm hp'
    exact ⟨_, hp, rfl, rfl⟩
  · obtain ⟨count, hp'⟩ := Table.process?_of_resetCounts ht hp
    exact ⟨_, hp', rfl, rfl⟩

theorem note (c : Custody l k) (e : Event) : Custody l (k.note e) :=
  c.of_resetCounts rfl (refl_of Volume.Steady _)

/-! ## Changes of holders -/

/-- When a process leaves its slot, its backing file is on loan, and so is its program unless
somebody else runs it. -/
theorem vacated {l' : Ledger} (c : Custody l k) {pid : Pid} {p : Process}
    (hp : k.table.process? pid = some p) (status : UInt16)
    (hloans : ∀ h, h ∈ l'.loans ↔ h ∈ l.loans ∨ h = p.backing ∨
      h = p.program ∧ ¬k.table.UsedByOther pid h)
    (hhome : l'.home = l.home) : Custody l' (k.onTable (·.vacate pid status)) := by
  have hback : ∀ {q r}, (k.onTable (·.vacate pid status)).table.process? q = some r →
      q ≠ pid ∧ k.table.process? q = some r := Table.process?_vacate_cases
  exact {
    program_open := fun h => c.program_open (hback h).2
    backing_path := fun h => by
      rw [hhome]
      exact c.backing_path (hback h).2
    backing_name := fun h => by
      rw [hhome]
      exact c.backing_name (hback h).2
    backing_file := fun h => c.backing_file (hback h).2
    backing_unique := fun h₁ h₂ => c.backing_unique (hback h₁).2 (hback h₂).2
    backing_apart := fun h₁ h₂ => c.backing_apart (hback h₁).2 (hback h₂).2
    loan_open := fun hl => by
      rcases (hloans _).mp hl with hl | rfl | ⟨rfl, _⟩
      · exact c.loan_open hl
      · exact c.backing_open hp
      · exact c.program_open hp
    loan_apart := fun {h q r} hl hr => by
      obtain ⟨hne, hr⟩ := hback hr
      rcases (hloans _).mp hl with hl | rfl | ⟨rfl, hnot⟩
      · exact c.loan_apart hl hr
      · exact ⟨fun he => c.backing_apart hp hr he.symm, fun he => hne (c.backing_unique hr hp he)⟩
      · exact ⟨fun he => hnot ⟨q, r, hne, hr, .inl he⟩, fun he => hnot ⟨q, r, hne, hr, .inr he⟩⟩
    accounted := fun {h} ho => by
      rcases c.accounted ho with hl | ⟨q, r, hr, hu⟩
      · exact .inl ((hloans h).mpr (.inl hl))
      · by_cases hother : k.table.UsedByOther pid h
        · obtain ⟨q, r, hne, hr, hu⟩ := hother
          exact .inr ⟨q, r, (Table.process?_vacate_of_ne hne).trans hr, hu⟩
        · have hq : q = pid := by
            by_contra hne
            exact hother ⟨q, r, hne, hr, hu⟩
          subst hq
          rw [hp] at hr
          cases hr
          left
          rcases hu with rfl | rfl
          · exact (hloans _).mpr (.inr (.inr ⟨rfl, hother⟩))
          · exact (hloans _).mpr (.inr (.inl rfl)) }

/-- When a process takes a slot, its files are off loan. The program can also be one that a living
process runs. -/
theorem occupied (c : Custody l k) {pid : Pid} {program backing : Handle} {path : Path}
    (hfree : k.table.process? pid = none) (hb : backing ∈ l.loans)
    (hpath : Storage.pathOf? k.store backing = some path)
    (hname : path.base? = some pid.fileName)
    (hfile : ((VolumeBacked.volume k.store).behind? backing).isSome) (hne : program ≠ backing)
    (hprogram : program ∈ l.loans ∨ ∃ q r, k.table.process? q = some r ∧ r.program = program) :
    Custody (((l.repay program).repay backing).settle pid path)
      (k.onTable (·.occupy pid program backing)) := by
  have hback : ∀ {q r}, (k.onTable (·.occupy pid program backing)).table.process? q = some r →
      q = pid ∧ r = { program, backing } ∨ q ≠ pid ∧ k.table.process? q = some r :=
    Table.process?_occupy_cases
  have hforth : ∀ {q r}, k.table.process? q = some r →
      (k.onTable (·.occupy pid program backing)).table.process? q = some r := by
    intro q r hr
    have hq : q ≠ pid := by
      rintro rfl
      rw [hfree] at hr
      cases hr
    exact (Table.process?_occupy_of_ne hq).trans hr
  have hbacking : ∀ {q r}, k.table.process? q = some r → r.program ≠ backing ∧ r.backing ≠ backing :=
    fun hr => c.loan_apart hb hr
  have hapart : ∀ {q r}, k.table.process? q = some r → r.backing ≠ program := by
    intro q r hr
    rcases hprogram with hl | ⟨q', r', hr', rfl⟩
    · exact (c.loan_apart hl hr).2
    · exact c.backing_apart hr hr'
  exact {
    program_open := fun h => by
      rcases hback h with ⟨_, rfl⟩ | ⟨_, hr⟩
      · rcases hprogram with hl | ⟨q', r', hr', rfl⟩
        · exact c.loan_open hl
        · have hopen := c.program_open hr'
          exact hopen
      · exact c.program_open hr
    backing_path := fun {q r} h => by
      rcases hback h with ⟨rfl, rfl⟩ | ⟨hq, hr⟩
      · simp only [Ledger.settle, if_true]
        exact hpath
      · simp only [Ledger.settle, if_neg hq]
        exact c.backing_path hr
    backing_name := fun {q r} h => by
      rcases hback h with ⟨rfl, rfl⟩ | ⟨hq, hr⟩
      · simp only [Ledger.settle, if_true]
        exact hname
      · simp only [Ledger.settle, if_neg hq]
        exact c.backing_name hr
    backing_file := fun {q r} h => by
      rcases hback h with ⟨rfl, rfl⟩ | ⟨hq, hr⟩
      · exact hfile
      · exact c.backing_file hr
    backing_unique := fun h₁ h₂ he => by
      rcases hback h₁ with ⟨rfl, rfl⟩ | ⟨_, hr₁⟩ <;> rcases hback h₂ with ⟨rfl, rfl⟩ | ⟨_, hr₂⟩
      · rfl
      · exact absurd he.symm (hbacking hr₂).2
      · exact absurd he (hbacking hr₁).2
      · exact c.backing_unique hr₁ hr₂ he
    backing_apart := fun h₁ h₂ he => by
      rcases hback h₁ with ⟨rfl, rfl⟩ | ⟨_, hr₁⟩ <;> rcases hback h₂ with ⟨rfl, rfl⟩ | ⟨_, hr₂⟩
      · exact hne he.symm
      · exact (hbacking hr₂).1 he.symm
      · exact hapart hr₁ he
      · exact c.backing_apart hr₁ hr₂ he
    loan_open := fun hl => by
      simp only [Ledger.mem_settle, Ledger.mem_repay] at hl
      exact c.loan_open hl.1.1
    loan_apart := fun hl h => by
      simp only [Ledger.mem_settle, Ledger.mem_repay] at hl
      rcases hback h with ⟨_, rfl⟩ | ⟨_, hr⟩
      · exact ⟨Ne.symm hl.1.2, Ne.symm hl.2⟩
      · exact c.loan_apart hl.1.1 hr
    accounted := fun {h} ho => by
      by_cases hp : h = program
      · exact .inr ⟨pid, _, Table.process?_occupy_self, .inl hp.symm⟩
      · by_cases hb' : h = backing
        · exact .inr ⟨pid, _, Table.process?_occupy_self, .inr hb'.symm⟩
        · rcases c.accounted ho with hl | ⟨q, r, hr, hu⟩
          · simp only [Ledger.mem_settle, Ledger.mem_repay]
            exact .inl ⟨⟨hl, hp⟩, hb'⟩
          · exact .inr ⟨q, r, hforth hr, hu⟩ }

/-- When a process changes its program, the new one is off loan, and the old one is on loan unless
somebody else runs it. -/
theorem reprogrammed {l' : Ledger} (c : Custody l k) {pid : Pid} {p : Process} {program : Handle}
    (hp : k.table.process? pid = some p) (hl : program ∈ l.loans)
    (hloans : ∀ h, h ∈ l'.loans ↔ h ∈ l.loans ∧ h ≠ program ∨
      h = p.program ∧ ¬k.table.UsedByOther pid h)
    (hhome : l'.home = l.home) : Custody l' (k.onTable (·.setProgram pid program)) := by
  have hback : ∀ {q r}, (k.onTable (·.setProgram pid program)).table.process? q = some r →
      q = pid ∧ r = { p with program } ∨ q ≠ pid ∧ k.table.process? q = some r := by
    intro q r h
    rcases Table.process?_modify_cases h with ⟨rfl, p', hp', rfl⟩ | hother
    · rw [hp] at hp'
      cases hp'
      exact .inl ⟨rfl, rfl⟩
    · exact .inr hother
  have hself : (k.onTable (·.setProgram pid program)).table.process? pid =
      some { p with program } := Table.process?_modify_self hp
  have hforth : ∀ {q r}, q ≠ pid → k.table.process? q = some r →
      (k.onTable (·.setProgram pid program)).table.process? q = some r :=
    fun hne hr => (Table.process?_modify_of_ne hne).trans hr
  have hfresh : ∀ {q r}, k.table.process? q = some r → r.program ≠ program ∧ r.backing ≠ program :=
    fun hr => c.loan_apart hl hr
  exact {
    program_open := fun h => by
      rcases hback h with ⟨_, rfl⟩ | ⟨_, hr⟩
      · exact c.loan_open hl
      · exact c.program_open hr
    backing_path := fun h => by
      rw [hhome]
      rcases hback h with ⟨rfl, rfl⟩ | ⟨_, hr⟩
      · have hpath := c.backing_path hp
        exact hpath
      · exact c.backing_path hr
    backing_name := fun h => by
      rw [hhome]
      rcases hback h with ⟨rfl, rfl⟩ | ⟨_, hr⟩
      · exact c.backing_name hp
      · exact c.backing_name hr
    backing_file := fun h => by
      rcases hback h with ⟨rfl, rfl⟩ | ⟨_, hr⟩
      · have hfile := c.backing_file hp
        exact hfile
      · exact c.backing_file hr
    backing_unique := fun h₁ h₂ he => by
      rcases hback h₁ with ⟨rfl, rfl⟩ | ⟨_, hr₁⟩ <;> rcases hback h₂ with ⟨rfl, rfl⟩ | ⟨_, hr₂⟩
      · rfl
      · exact c.backing_unique hp hr₂ he
      · exact c.backing_unique hr₁ hp he
      · exact c.backing_unique hr₁ hr₂ he
    backing_apart := fun h₁ h₂ => by
      rcases hback h₁ with ⟨rfl, rfl⟩ | ⟨_, hr₁⟩ <;> rcases hback h₂ with ⟨rfl, rfl⟩ | ⟨_, hr₂⟩
      · exact (hfresh hp).2
      · have hapart := c.backing_apart hp hr₂
        exact hapart
      · exact (hfresh hr₁).2
      · exact c.backing_apart hr₁ hr₂
    loan_open := fun hm => by
      rcases (hloans _).mp hm with ⟨hm, _⟩ | ⟨rfl, _⟩
      · exact c.loan_open hm
      · exact c.program_open hp
    loan_apart := fun {h q r} hm h' => by
      rcases (hloans _).mp hm with ⟨hm, hne⟩ | ⟨rfl, hnot⟩ <;>
        rcases hback h' with ⟨rfl, rfl⟩ | ⟨hq, hr⟩
      · exact ⟨Ne.symm hne, (c.loan_apart hm hp).2⟩
      · exact c.loan_apart hm hr
      · have hapart := c.backing_apart hp hp
        exact ⟨(hfresh hp).1.symm, hapart⟩
      · exact ⟨fun he => hnot ⟨q, r, hq, hr, .inl he⟩, fun he => hnot ⟨q, r, hq, hr, .inr he⟩⟩
    accounted := fun {h} ho => by
      by_cases he : h = program
      · exact .inr ⟨pid, _, hself, .inl he.symm⟩
      · rcases c.accounted ho with hm | ⟨q, r, hr, hu⟩
        · exact .inl ((hloans h).mpr (.inl ⟨hm, he⟩))
        · by_cases hother : k.table.UsedByOther pid h
          · obtain ⟨q, r, hne, hr, hu⟩ := hother
            exact .inr ⟨q, r, hforth hne hr, hu⟩
          · have hq : q = pid := by
              by_contra hne
              exact hother ⟨q, r, hne, hr, hu⟩
            subst hq
            rw [hp] at hr
            cases hr
            rcases hu with rfl | rfl
            · exact .inl ((hloans _).mpr (.inr ⟨rfl, hother⟩))
            · exact .inr ⟨q, _, hself, .inr rfl⟩ }

/-! ## Changes to the storage alone -/

theorem plain (c : Custody l k) (h : Kernel.Plain k k') : Custody l k' :=
  c.of_resetCounts h.table (VolumeBacked.steady_edits h.edits)

theorem quiet (c : Custody l k) (h : Kernel.Quiet k k') : Custody l k' :=
  c.plain h.plain

theorem edited (c : Custody l k) {s : σ} (h : Edits k.store s) : Custody l { k with store := s } :=
  c.quiet ⟨rfl, h⟩

/-! ## Opening and closing -/

/-- What was just opened is on loan. -/
theorem opened (c : Custody l k) {p : Path} {h : Handle} {s : σ}
    (ho : Storage.openPath k.store p = (some h, s)) : Custody (l.lend h) { k with store := s } := by
  obtain ⟨_, hfree, hpath⟩ := VolumeBacked.openPath_some ho
  have hne : ∀ {g}, (Storage.pathOf? k.store g).isSome → h ≠ g := by
    rintro g hg rfl
    rw [hfree] at hg
    cases hg
  have hkeep : ∀ {g}, (Storage.pathOf? k.store g).isSome →
      Storage.pathOf? s g = Storage.pathOf? k.store g := fun hg => by rw [hpath, if_neg (hne hg)]
  exact {
    program_open := fun hp => by
      rw [hkeep (c.program_open hp)]
      exact c.program_open hp
    backing_path := fun hp => by
      rw [hkeep (c.backing_open hp)]
      exact c.backing_path hp
    backing_name := c.backing_name
    backing_file := fun hp => by
      rw [VolumeBacked.openPath_behind ho, if_neg (hne (c.backing_open hp))]
      exact c.backing_file hp
    backing_unique := c.backing_unique
    backing_apart := c.backing_apart
    loan_open := fun hl => by
      rcases Ledger.mem_lend.mp hl with rfl | hl
      · rw [hpath, if_pos rfl]
        rfl
      · rw [hkeep (c.loan_open hl)]
        exact c.loan_open hl
    loan_apart := fun hl hp => by
      rcases Ledger.mem_lend.mp hl with rfl | hl
      · exact ⟨(hne (c.program_open hp)).symm, (hne (c.backing_open hp)).symm⟩
      · exact c.loan_apart hl hp
    accounted := fun {g} hg => by
      rw [hpath] at hg
      by_cases he : h = g
      · exact .inl (Ledger.mem_lend.mpr (.inl he.symm))
      · rw [if_neg he] at hg
        exact (c.accounted hg).imp_left fun hl => Ledger.mem_lend.mpr (.inr hl) }

/-- Opening that gives out no handle changes nothing. -/
theorem opened_none (c : Custody l k) {p : Path} {s : σ}
    (ho : Storage.openPath k.store p = (none, s)) : Custody l { k with store := s } :=
  c.of_resetCounts rfl (VolumeBacked.openPath_none ho)

/-- Whatever no process holds can be closed, and is no loan any more. -/
theorem closed (c : Custody l k) {h : Handle}
    (hh : ∀ {pid p}, k.table.process? pid = some p → p.program ≠ h ∧ p.backing ≠ h) :
    Custody (l.repay h) { k with store := Storage.close k.store h } := by
  have hkeep : ∀ {g}, g ≠ h →
      Storage.pathOf? (Storage.close k.store h) g = Storage.pathOf? k.store g := fun hg => by
    rw [VolumeBacked.pathOf?_close, if_neg (Ne.symm hg)]
  exact {
    program_open := fun hp => by
      rw [hkeep (hh hp).1]
      exact c.program_open hp
    backing_path := fun hp => by
      rw [hkeep (hh hp).2]
      exact c.backing_path hp
    backing_name := c.backing_name
    backing_file := fun hp => by
      rw [VolumeBacked.behind?_close _ (hh hp).2.symm]
      exact c.backing_file hp
    backing_unique := c.backing_unique
    backing_apart := c.backing_apart
    loan_open := fun hl => by
      obtain ⟨hl, hne⟩ := Ledger.mem_repay.mp hl
      rw [hkeep hne]
      exact c.loan_open hl
    loan_apart := fun hl => c.loan_apart (Ledger.mem_repay.mp hl).1
    accounted := fun {g} hg => by
      rw [VolumeBacked.pathOf?_close] at hg
      split at hg
      · cases hg
      · next hne =>
        exact (c.accounted hg).imp_left fun hl => Ledger.mem_repay.mpr ⟨hl, Ne.symm hne⟩ }

/-- What was lent for a time is closed again. -/
theorem closed_loan {h : Handle} (c : Custody (l.lend h) k) (hl : h ∉ l.loans) :
    Custody l { k with store := Storage.close k.store h } := by
  have hclosed := c.closed fun hp => c.loan_apart (Ledger.mem_lend.mpr (.inl rfl)) hp
  refine hclosed.of_home ?_ fun _ => rfl
  intro g
  rw [Ledger.mem_repay, Ledger.mem_lend]
  constructor
  · intro hg
    exact ⟨.inr hg, fun he => hl (he ▸ hg)⟩
  · rintro ⟨rfl | hg, hne⟩
    · exact absurd rfl hne
    · exact hg

/-- A handle that is given out now is not on loan yet. -/
theorem not_lent (c : Custody l k) {p : Path} {h : Handle} {s : σ}
    (ho : Storage.openPath k.store p = (some h, s)) : h ∉ l.loans := by
  intro hl
  have hopen := c.loan_open hl
  rw [(VolumeBacked.openPath_some ho).2.1] at hopen
  cases hopen

end Custody

end CoopKernel
