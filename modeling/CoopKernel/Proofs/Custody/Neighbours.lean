import CoopKernel.Proofs.Backing.Step
import CoopKernel.Proofs.Custody.Run

/-!
# File calls and the files of others

Whatever a process does to files by system calls, the other processes keep their places in the table and
their files open: there is no closing what a living process holds, and no deleting what is open. What is
in a backing file is another matter. A backing file is at a path like any other, so that a process can
open that of another and write to it, or cut it. Those two ways are the only ones: a file call that does
neither leaves the backing file of every other process as it is, byte for byte.
-/

namespace CoopKernel

open Volume (OnlyAt Spares)

/-! ## Memory -/

namespace AddressSpace

/-- Besides what the memory of the process is kept in, no file changes, and nothing is opened or closed. -/
structure Secluded (s s' : AddressSpace Volume) : Prop where
  data : s'.data = s.data
  dataPath : s'.dataPath = s.dataPath
  path : ∀ h, s'.store.pathOf? h = s.store.pathOf? h
  content : ∀ p, p ≠ s.dataPath → s.store.pathOf? s.data ≠ some p →
    s'.store.content? p = s.store.content? p

instance : IsPreorder (AddressSpace Volume) Secluded where
  refl _ := ⟨rfl, rfl, fun _ => rfl, fun _ _ _ => rfl⟩
  trans _ _ _ h₁ h₂ := by
    refine ⟨h₂.data.trans h₁.data, h₂.dataPath.trans h₁.dataPath,
      fun h => (h₂.path h).trans (h₁.path h), fun p hpath hdata => ?_⟩
    have hdata' := hdata
    rw [← h₁.path, ← h₁.data] at hdata'
    exact (h₂.content p (by rwa [h₁.dataPath]) hdata').trans (h₁.content p hpath hdata)

theorem Secluded.of_store_eq {s s' : AddressSpace Volume} (hdata : s'.data = s.data)
    (hpath : s'.dataPath = s.dataPath) (hstore : s'.store = s.store) : Secluded s s' :=
  ⟨hdata, hpath, fun _ => by rw [hstore], fun _ _ _ => by rw [hstore]⟩

theorem readFile_secluded (h : Handle) (offset count : Nat) :
    Keeps Secluded (readFile h offset count : Access Volume Bytes) :=
  fun s => ⟨rfl, rfl, fun g => (s.store.spares_read (h := g) (p := s.dataPath) h offset count).path,
    fun p _ _ => (s.store.spares_read (h := h) (p := p) h offset count).content⟩

/-- Secluded work goes on being so. -/
theorem Secluded.ensures {s : AddressSpace Volume} {α : Type} {act : Access Volume α}
    (h : Keeps Secluded act) : Ensures (Secluded s) act (fun _ => Secluded s) fun _ => Secluded s :=
  .of_keeps h fun _ _ hr hs => trans_of Secluded hs hr

theorem writeFile_secluded {s : AddressSpace Volume} {h : Handle} (hdata : h = s.data) (offset : Nat)
    (bytes : Bytes) : Ensures (Secluded s) (writeFile h offset bytes : Access Volume Nat)
      (fun _ => Secluded s) fun _ => Secluded s := by
  intro s' hs
  have hown' : h = s'.data := hdata.trans hs.data.symm
  subst hown'
  refine trans_of Secluded hs (?_ : Secluded s' { s' with store := (s'.store.write s'.data offset bytes).2 })
  cases hown : s'.store.pathOf? s'.data with
  | none =>
    refine .of_store_eq rfl rfl ?_
    rw [Volume.write, hown]
  | some own =>
    have honly := Volume.write_onlyAt hown offset bytes
    refine ⟨rfl, rfl, honly.pathOf?, fun p _ hp => ?_⟩
    exact (honly.spares (h := s'.data) fun he => hp (by rw [hown, he])).content

theorem resizeData_secluded (length : Nat) : Keeps Secluded (resizeData length : Access Volume Bool) := by
  intro s
  have honly := s.store.resize_onlyAt s.dataPath (Snapshot.blockSize + length)
  exact ⟨rfl, rfl, honly.pathOf?, fun p hp _ => (honly.spares (h := s.data) hp).content⟩

theorem firstThatFits_secluded (lengths : List Nat) :
    Keeps Secluded (firstThatFits lengths : Access Volume (Option Nat)) := by
  induction lengths with
  | nil => exact .pure _
  | cons length rest ih =>
    refine .bind (resizeData_secluded length) fun fits => ?_
    split
    · exact .pure _
    · exact ih

theorem grow_secluded (s : AddressSpace Volume) (a : UInt16) (i : Nat) :
    Ensures (Secluded s) (grow a i : Access Volume Unit) (fun _ => Secluded s) fun _ => Secluded s := by
  unfold grow
  refine .get_bind fun s' hs => ?_
  split
  · exact .throw_bind fun _ => id
  · refine .bind (Secluded.ensures (firstThatFits_secluded _)) fun length => ?_
    cases length with
    | none => exact .throw fun _ => id
    | some length =>
      have hdraw : Keeps Secluded (drawFill (length - s'.dataLength.toNat) : Access Volume _) :=
        .modifyGet fun _ => .of_store_eq rfl rfl rfl
      refine .bind (Secluded.ensures hdraw) fun fill => ?_
      have hset : Keeps Secluded (modify fun s : AddressSpace Volume =>
          { s with dataLength := UInt16.ofNat length } : Access Volume PUnit) :=
        .modify fun _ => .of_store_eq rfl rfl rfl
      cases fill with
      | none => exact Secluded.ensures hset
      | some fill => exact .bind (writeFile_secluded hs.data _ _) fun _ => Secluded.ensures hset

theorem write_secluded (a : UInt16) (b : UInt8) : Keeps Secluded (write a b : Access Volume Unit) := by
  intro s
  have hput {s' : AddressSpace Volume} (hs : Secluded s s') (i : Nat) : Ensures (Secluded s) (do
      let count ← writeFile s'.data (Snapshot.blockSize + i) #[b]
      if count ≠ 1 then throw .storage : Access Volume Unit) (fun _ => Secluded s)
        fun _ => Secluded s := by
    refine .bind (writeFile_secluded hs.data _ _) fun count => ?_
    split
    · exact .throw fun _ => id
    · exact .pure fun _ => id
  have hwrite : Ensures (Secluded s) (write a b : Access Volume Unit) (fun _ => Secluded s)
      fun _ => Secluded s := by
    unfold write
    split
    · exact .throw fun _ => id
    · unfold writeData
      refine .get_bind fun s' hs => ?_
      split
      · exact .bind (grow_secluded s a _) fun _ => hput hs _
      · exact hput hs _
  exact hwrite.after (refl_of Secluded s)

theorem tame_secluded : Tame (σ := Volume) Secluded fun _ => True where
  toReadable := readable readFile_secluded fun _ _ => .of_store_eq rfl rfl rfl
  write a b := .of_keeps (write_secluded a b) fun _ => trivial

end AddressSpace

/-- A process other than the one whose turn it is: its place in the table, where its files are and, where
that is asked, what is in its backing file. -/
structure Neighbour where
  /-- The process whose turn it is. -/
  worker : Pid
  pid : Pid
  entry : Process
  program : Path
  home : Path
  content : Option Bytes

namespace Neighbour

/-- The process is in its place and has its files, and the process whose turn it is has its own elsewhere. -/
structure LivesBy (n : Neighbour) (t : Turn Volume) : Prop where
  seat : t.kernel.table.process? n.pid = some n.entry
  program : t.kernel.store.pathOf? n.entry.program = some n.program
  backing : t.kernel.store.pathOf? n.entry.backing = some n.home
  content : ∀ c, n.content = some c → t.kernel.store.content? n.home = some c
  turn : t.self.pid = n.worker
  apart : n.pid ≠ n.worker
  worker : ∃ p, t.kernel.table.process? t.self.pid = some p ∧ p.backing = t.self.backing
  workplace : ∃ own, t.kernel.store.pathOf? t.self.backing = some own ∧ own ≠ n.home
  growth : t.self.backingPath ≠ n.home

namespace LivesBy

variable {n : Neighbour} {t : Turn Volume}

/-- The handles that the kernel holds for the two processes. -/
def Held (n : Neighbour) (t : Turn Volume) (g : Handle) : Prop :=
  g = n.entry.program ∨ g = n.entry.backing ∨ g = t.self.backing

theorem isOpen (h : n.LivesBy t) {g : Handle} (hg : Held n t g) :
    (t.kernel.store.pathOf? g).isSome := by
  obtain ⟨own, hown, -⟩ := h.workplace
  rcases hg with rfl | rfl | rfl
  · rw [h.program]
    rfl
  · rw [h.backing]
    rfl
  · rw [hown]
    rfl

theorem isHeld (h : n.LivesBy t) {g : Handle} (hg : Held n t g) :
    ∃ pid p, t.kernel.table.process? pid = some p ∧ (p.program = g ∨ p.backing = g) := by
  obtain ⟨p, hp, hbacking⟩ := h.worker
  rcases hg with rfl | rfl | rfl
  · exact ⟨_, _, h.seat, .inl rfl⟩
  · exact ⟨_, _, h.seat, .inr rfl⟩
  · exact ⟨_, p, hp, .inr hbacking⟩

/-- The storage does something that closes none of those handles and leaves the backing file alone. -/
theorem stored (h : n.LivesBy t) {s : Volume}
    (hpath : ∀ g, Held n t g → s.pathOf? g = t.kernel.store.pathOf? g)
    (hcontent : n.content.isSome → s.content? n.home = t.kernel.store.content? n.home) :
    n.LivesBy { t with kernel := { t.kernel with store := s } } where
  seat := h.seat
  program := (hpath _ (.inl rfl)).trans h.program
  backing := (hpath _ (.inr (.inl rfl))).trans h.backing
  content c hc := (hcontent (by rw [hc]; rfl)).trans (h.content c hc)
  turn := h.turn
  apart := h.apart
  worker := h.worker
  workplace := by
    obtain ⟨own, hown, hne⟩ := h.workplace
    exact ⟨own, (hpath _ (.inr (.inr rfl))).trans hown, hne⟩
  growth := h.growth

/-- Only the storage, the table and which process it is matter. -/
theorem congr (h : n.LivesBy t) {t' : Turn Volume} (hstore : t'.kernel.store = t.kernel.store)
    (hother : t'.kernel.table.process? n.pid = t.kernel.table.process? n.pid)
    (hself : ∀ p, t.kernel.table.process? t.self.pid = some p →
      ∃ p', t'.kernel.table.process? t.self.pid = some p' ∧ p'.backing = p.backing)
    (hloaded : t'.self = { t.self with
      program := t'.self.program, state := t'.self.state, window := t'.self.window }) :
    n.LivesBy t' := by
  have hpid : t'.self.pid = t.self.pid := by rw [hloaded]
  have hbacking : t'.self.backing = t.self.backing := by rw [hloaded]
  have hpath : t'.self.backingPath = t.self.backingPath := by rw [hloaded]
  obtain ⟨p, hp, hb⟩ := h.worker
  obtain ⟨p', hp', hb'⟩ := hself p hp
  exact {
    seat := hother.trans h.seat
    program := by rw [hstore]; exact h.program
    backing := by rw [hstore]; exact h.backing
    content := by rw [hstore]; exact h.content
    turn := hpid.trans h.turn
    apart := h.apart
    worker := ⟨p', by rw [hpid]; exact hp', by rw [hbacking, hb', hb]⟩
    workplace := by rw [hstore, hbacking]; exact h.workplace
    growth := by rw [hpath]; exact h.growth }

/-! ## Work at home -/

theorem setSpace (h : n.LivesBy t) {s : AddressSpace Volume}
    (hpath : ∀ g, s.store.pathOf? g = t.kernel.store.pathOf? g)
    (hcontent : n.content.isSome → s.store.content? n.home = t.kernel.store.content? n.home) :
    n.LivesBy (t.setSpace s) :=
  (h.stored (fun g _ => hpath g) hcontent).congr rfl rfl (fun p hp => ⟨p, hp, rfl⟩) rfl

theorem domestic (n : Neighbour) :
    Turn.Domestic AddressSpace.Secluded (Stays n.LivesBy) fun _ => True where
  memory := AddressSpace.tame_secluded
  space t s hs h := by
    obtain ⟨own, hown, hne⟩ := h.workplace
    refine h.setSpace hs.path fun _ => hs.content n.home (Ne.symm h.growth) fun he => ?_
    exact hne (Option.some.inj (hown.symm.trans he))
  glance t g offset count h :=
    h.stored (fun g' _ => (t.kernel.store.spares_read (h := g') (p := n.home) g offset count).path)
      fun _ => (t.kernel.store.spares_read (h := g) (p := n.home) g offset count).content
  window t w h := h.congr rfl rfl (fun p hp => ⟨p, hp, rfl⟩) rfl
  state t s _ _ _ h := h.congr rfl rfl (fun p hp => ⟨p, hp, rfl⟩) rfl
  handler t _ _ _ h := h.congr rfl rfl (fun p hp => ⟨p, hp, rfl⟩) rfl
  stdio t g h := h.congr rfl rfl (fun p hp => ⟨p, hp, rfl⟩) rfl

theorem note (h : n.LivesBy t) (e : Event) : n.LivesBy { t with kernel := t.kernel.note e } :=
  h.congr rfl rfl (fun p hp => ⟨p, hp, rfl⟩) rfl

/-- The process whose turn it is is counted or put to sleep. -/
theorem modified (h : n.LivesBy t) {f : Process → Process} (hf : ∀ p, (f p).backing = p.backing) :
    n.LivesBy { t with kernel := t.kernel.onTable (·.modify n.worker f) } :=
  h.congr rfl (Table.process?_modify_of_ne h.apart)
    (fun p hp => ⟨f p, by rw [h.turn] at hp ⊢; exact Table.process?_modify_self hp, hf p⟩) rfl

theorem fetch : Keeps (Stays n.LivesBy) (Turn.fetch : Attempt Volume Instr) := by
  have hfetch : Ensures n.LivesBy (Turn.fetch : Attempt Volume Instr) (fun _ => n.LivesBy)
      fun _ => n.LivesBy := by
    unfold Turn.fetch
    refine .get_bind fun t h => ?_
    refine .bind (.of_keeps ((domestic n).access ((domestic n).memory.fetch _)).keeps
      fun _ _ hs => hs) fun instr => ?_
    refine .bind (.of_keeps ((domestic n).advance _).keeps fun _ _ hs => hs) fun _ => ?_
    refine .bind (.modify fun t' h' => ?_) fun _ => .pure fun _ => id
    rw [h.turn]
    exact h'.modified fun _ => rfl
  exact hfetch.keeps

/-! ## System calls on files -/

theorem readCall (g : Handle) (offset buffer length : UInt16) :
    Keeps (Stays n.LivesBy) (Turn.readCall g offset buffer length : InTurn Volume Reply) := by
  have hd := domestic n
  unfold Turn.readCall
  refine .bind (Turn.lift_works (hd.ask _)).keeps fun gone => ?_
  split
  · exact .pure _
  · refine .bind (Turn.lift_works (hd.ask _)).keeps fun ready => ?_
    split
    · intro t h
      have hback := (hd.state t (t.self.state.setReg Reg.ip (t.self.state.reg Reg.ip - 1)) rfl rfl rfl) h
      have hasleep := hback.modified (f := fun p => { p with status := .waitingToRead g }) fun _ => rfl
      rw [← h.turn] at hasleep
      exact hasleep.note _
    · exact .bind (Turn.lift_works (hd.access (hd.memory.receive _ _ _ _))).keeps fun _ => .pure _

theorem openCall (address : UInt16) :
    Keeps (Stays n.LivesBy) (Turn.openCall address : Attempt Volume Reply) := by
  refine ((domestic n).openCall (fun p => .modifyGet fun t h => ?_) address).keeps
  exact h.stored (fun g hg => (Volume.spares_openPath (p := n.home) p (h.isOpen hg)).path)
    fun _ => (Volume.spares_openPath p (h.isOpen (.inr (.inl rfl)))).content

/-- What a living process holds is not closed. -/
theorem closeCall (g : Handle) :
    Keeps (Stays n.LivesBy) (Turn.closeCall g : Attempt Volume Reply) := by
  have hclose : Ensures n.LivesBy (Turn.closeCall g : Attempt Volume Reply) (fun _ => n.LivesBy)
      fun _ => n.LivesBy := by
    unfold Turn.closeCall
    refine .get_bind_eq fun t h => ?_
    dsimp only
    split
    · next hunused =>
      have hne {g' : Handle} (hg : Held n t g') : g ≠ g' := by
        rintro rfl
        obtain ⟨pid, p, hp, hused⟩ := h.isHeld hg
        simp only [Bool.not_eq_true', List.any_eq_false, Table.mem_live, Table.uses_iff] at hunused
        exact hunused pid ⟨p, hp⟩ ⟨p, hp, hused⟩
      rintro t' rfl
      exact h.stored (fun g' hg => (Volume.spares_close (p := n.home) (hne hg)).path) fun _ => rfl
    · exact .pure fun _ he => he ▸ h
  exact hclose.keeps

theorem deleteCall (address : UInt16) :
    Keeps (Stays n.LivesBy) (Turn.deleteCall address : Attempt Volume Reply) := by
  refine ((domestic n).deleteCall (fun p => .modifyGet fun t h => ?_) address).keeps
  exact h.stored (fun g _ => (t.kernel.store.delete_onlyAt p).pathOf? g) fun _ =>
    (Volume.spares_delete p h.backing).content

/-- Writing does not reach the backing file through a handle that is open for something else. -/
theorem writeCall (g : Handle) (offset buffer length : UInt16) :
    Ensures (fun t => n.LivesBy t ∧ (n.content.isSome → t.kernel.store.pathOf? g ≠ some n.home))
      (Turn.writeCall g offset buffer length : Attempt Volume Reply) (fun _ => n.LivesBy)
      fun _ => n.LivesBy := by
  have hsend := (AddressSpace.readable_aimed g).send (AddressSpace.writeFile_aimed g) offset.toNat
    buffer length.toNat
  unfold Turn.writeCall
  refine .bind (Q := fun _ => n.LivesBy) ?_ fun _ => .pure fun _ => id
  rintro t ⟨h, hg⟩
  have hwork := Turn.access_works
    (R := fun t t' => ∃ s, t' = t.setSpace s ∧ AddressSpace.Aimed g t.space s)
    hsend (fun t s hs => ⟨s, rfl, hs⟩) t
  have hspace {s : AddressSpace Volume} (hs : AddressSpace.Aimed g t.space s) :
      n.LivesBy (t.setSpace s) :=
    h.setSpace hs.path fun hc => hs.content n.home (hg hc)
  refine hwork.mono ?_ ?_
  · rintro _ _ ⟨s, rfl, hs⟩
    exact hspace hs
  · rintro f _ ⟨-, s, rfl, hs⟩
    exact hspace hs

/-- Resizing does not reach the backing file by a path that is not its own. -/
theorem resizeCall (address size : UInt16) :
    Ensures (fun t => n.LivesBy t ∧ (n.content.isSome → t.pathAt? address ≠ some n.home))
      (Turn.resizeCall address size : Attempt Volume Reply) (fun _ => n.LivesBy)
      fun _ => n.LivesBy := by
  have hchange {x : Path} {t : Turn Volume} {s : Volume} (h : n.LivesBy t)
      (hx : n.content.isSome → x ≠ n.home) (hs : OnlyAt x t.kernel.store s) :
      n.LivesBy { t with kernel := { t.kernel with store := s } } :=
    h.stored (fun g _ => hs.pathOf? g) fun hc =>
      (hs.spares (h := n.entry.backing) (Ne.symm (hx hc))).content
  unfold Turn.resizeCall
  refine .bind (Q := fun found t => n.LivesBy t ∧
    ∀ x, found = some x → n.content.isSome → x ≠ n.home) ?_ fun found => ?_
  · rintro t ⟨h, hx⟩
    have hread := (domestic n).readPath address t
    cases hr : (Turn.readPath address : Attempt Volume (Option Path)) t with
    | error f t' =>
      rw [hr] at hread
      exact hread.2 h
    | ok found t' =>
      rw [hr] at hread
      refine ⟨hread h, fun x hfound hc he => hx hc ?_⟩
      rw [Turn.pathAt?, hr, ← he]
      exact hfound
  · split
    · exact .pure fun _ h => h.1
    · next x =>
      refine .bind (Q := fun _ t => n.LivesBy t ∧ (n.content.isSome → x ≠ n.home)) ?_ fun there => ?_
      · exact .get_bind fun _ _ => .pure fun _ h => ⟨h.1, h.2 x rfl⟩
      · split
        · exact .bind (.modifyGet fun t h => hchange h.1 h.2 (t.kernel.store.resize_onlyAt x _))
            fun _ => .pure fun _ => id
        · exact .bind (.modifyGet fun t h => hchange h.1 h.2 (t.kernel.store.create_onlyAt x _))
            fun _ => .pure fun _ => id

/-- A file call that is not aimed at the backing file spares it. -/
theorem answer {call : Syscall} (hfiles : 256 ≤ call.number ∧ call.number ≤ 267) (args : CallArgs) :
    Ensures (fun t => n.LivesBy t ∧ (n.content.isSome → t.target? call args ≠ some n.home))
      (Turn.answer call args : InTurn Volume Reply) (fun _ => n.LivesBy) fun _ => n.LivesBy := by
  have hkept {act : InTurn Volume Reply} (hact : Keeps (Stays n.LivesBy) act) :
      Ensures (fun t => n.LivesBy t ∧ (n.content.isSome → t.target? call args ≠ some n.home)) act
        (fun _ => n.LivesBy) fun _ => n.LivesBy :=
    (Ensures.of_keeps hact fun _ _ hs h => hs h).mono (fun _ h => h.1) (fun _ _ => id) fun _ _ => id
  cases hd : call.isDomestic with
  | true => exact hkept ((domestic n).answer hd args fun _ _ _ => trivial).keeps
  | false =>
    cases call
    case read => exact hkept (readCall _ _ _ _)
    case write => exact .adaptExcept (writeCall ⟨args.a⟩ _ _ _)
    case openFile => exact hkept ((openCall _).adaptExcept _)
    case close => exact hkept ((closeCall _).adaptExcept _)
    case resizeFile => exact .adaptExcept (resizeCall args.a _)
    case delete => exact hkept ((deleteCall _).adaptExcept _)
    all_goals first | (cases hd; done) | exact absurd hfiles (by decide)

/-- So does a step that does such a call. -/
theorem step (h : n.LivesBy t) {call : Syscall} {args : CallArgs} (hcall : t.call? = some (call, args))
    (hfiles : 256 ≤ call.number ∧ call.number ≤ 267)
    (htarget : n.content.isSome → t.atCall.target? call args ≠ some n.home) :
    n.LivesBy (after Turn.step t) := by
  obtain ⟨⟨t₁, hf⟩, -, hstep⟩ := Turn.step_call_cases hcall
  have hat : n.LivesBy t.atCall := by
    have hfetched := fetch t h
    exact hfetched.note _
  have hanswer : Ensures (fun t' => n.LivesBy t' ∧ (n.content.isSome →
      t'.target? call args ≠ some n.home)) (Turn.answer call args >>= Turn.conclude : InTurn Volume Unit)
      (fun _ => n.LivesBy) fun _ => n.LivesBy := by
    refine .bind (answer hfiles args) fun reply => ?_
    cases reply with
    | none => exact .pure fun _ => id
    | some result => exact .modify fun _ h => (domestic n).state _ _ rfl rfl rfl h
  have hafter := hanswer.after ⟨hat, htarget⟩
  rwa [after, ← hstep, ← after] at hafter

end LivesBy

end Neighbour

/-! ## In a run -/

namespace Kernel

/-- A process is loaded the same from the same file. -/
theorem load_congr {k k' : Kernel Volume} {pid : Pid} {p : Process} {content : Bytes}
    (hp : k.table.process? pid = some p) (hp' : k'.table.process? pid = some p)
    (hc : k.store.behind? p.backing = some content) (hc' : k'.store.behind? p.backing = some content)
    (hdir : k'.settings.tmpDir = k.settings.tmpDir) : (k'.load pid).1 = (k.load pid).1 := by
  have hpath : k'.backingPath pid = k.backingPath pid := by
    rw [Kernel.backingPath, Kernel.backingPath, hdir]
  have hread (v : Volume) (hv : v.behind? p.backing = some content) :
      Storage.read v p.backing 0 Snapshot.blockSize = (content.slice 0 Snapshot.blockSize, v) :=
    Volume.read_behind hv 0 Snapshot.blockSize
  have hloaded : (Snapshot.load k'.store p.backing).1 = (Snapshot.load k.store p.backing).1 := by
    simp only [Snapshot.load, hread _ hc, hread _ hc']
    split <;> rfl
  simp only [load, hp, hp', hpath]
  rw [hloaded]
  cases (Snapshot.load k.store p.backing).1 <;> rfl

end Kernel

/-- A turn begins with the path that the settings tell for the backing file. -/
theorem Kernel.openTurn_growth {k : Kernel Volume} {pid : Pid} {why : Resumption} {t : Turn Volume}
    (h : k.openTurn pid why = .ok t) : t.self.backingPath = t.kernel.backingPath t.self.pid := by
  unfold openTurn at h
  rcases hload : k.load pid with ⟨_ | self, k'⟩
  · rw [hload] at h
    cases h
  · obtain ⟨p, -, hself⟩ := load_ok hload
    have hgrowth : self.backingPath = k'.backingPath self.pid := by
      rw [hself, backingPath, backingPath, (quiet_of_load hload).rest]
    rw [hload] at h
    cases why <;> cases h <;> exact hgrowth

/-- A step leaves it at that. -/
theorem Turn.step_growth :
    Keeps (Stays fun t : Turn Volume => t.self.backingPath = t.kernel.backingPath t.self.pid) step := by
  intro t hgrowth
  have hsettled := step_settled t
  rw [hsettled.self, hgrowth, Kernel.backingPath, Kernel.backingPath, hsettled.kernel]

/-- In every turn, the backing file of the process grows at the path that the settings tell for it. -/
theorem HostCall.placed_of_stepped {k : Kernel Volume} {calls : List (HostCall Volume)} {t : Turn Volume}
    (ht : .stepped t ∈ courseAll k calls) : t.self.backingPath = t.kernel.backingPath t.self.pid :=
  holds_of_stepped (P := fun t => t.self.backingPath = t.kernel.backingPath t.self.pid) Kernel.openTurn_growth
    Turn.step_growth ht

/-- The file of a process is not where that of another number would be. -/
theorem Custody.home_ne_backingPath {l : Ledger} {k : Kernel Volume} (c : Custody l k) {pid q : Pid}
    {r : Process} (hr : k.table.process? q = some r) (hne : q ≠ pid) : l.home q ≠ k.backingPath pid := by
  intro he
  have hname := c.backing_name hr
  rw [he, Kernel.base?_backingPath] at hname
  exact hne (Pid.fileName_inj (Option.some.inj hname)).symm

/-- The file of a process is neither that of another one, nor where that of another one would grow. -/
theorem Custody.home_apart {l : Ledger} {k : Kernel Volume} (c : Custody l k) {pid q : Pid} {p r : Process}
    (hp : k.table.process? pid = some p) (hr : k.table.process? q = some r) (hne : q ≠ pid) :
    ∃ home, k.store.pathOf? r.backing = some home ∧ home ≠ k.backingPath pid ∧
      k.store.pathOf? p.backing ≠ some home := by
  refine ⟨l.home q, c.backing_path hr, c.home_ne_backingPath hr hne, fun he => ?_⟩
  exact c.backing_paths hp hr (Ne.symm hne) (he.trans (c.backing_path hr).symm)

/-- Beside a process that sits in its place, every other one lives. -/
theorem InCustody.livesBy {l : Ledger} {t : Turn Volume} (h : InCustody l t)
    (hplace : t.self.backingPath = t.kernel.backingPath t.self.pid) {q : Pid} {r : Process}
    (hq : q ≠ t.self.pid) (hr : t.kernel.table.process? q = some r) :
    ∃ program home content, t.kernel.store.behind? r.backing = some content ∧
      ∀ c, c = none ∨ c = some content → Neighbour.LivesBy ⟨t.self.pid, q, r, program, home, c⟩ t := by
  have hc := h.custody
  obtain ⟨p, hp, -, -, hbacking⟩ := h.seated
  obtain ⟨program, hprogram⟩ := Option.isSome_iff_exists.mp (hc.program_open hr)
  obtain ⟨content, hcontent⟩ : ∃ content, t.kernel.store.behind? r.backing = some content :=
    Option.isSome_iff_exists.mp (hc.backing_file hr)
  obtain ⟨home, hhome, hgrowth, hown⟩ := hc.home_apart hp hr hq
  obtain ⟨own, hpath⟩ : ∃ own, t.kernel.store.pathOf? p.backing = some own := ⟨_, hc.backing_path hp⟩
  have hbehind : t.kernel.store.content? home = some content := by
    rwa [Volume.behind?, hhome] at hcontent
  refine ⟨program, home, content, hcontent, fun c hcases => {
    seat := hr
    program := hprogram
    backing := hhome
    content := ?_
    turn := rfl
    apart := hq
    worker := ⟨p, hp, hbacking⟩
    workplace := ⟨own, hbacking ▸ hpath, ?_⟩
    growth := ?_ }⟩
  · rintro c' (rfl : c = some c')
    rcases hcases with hnone | hsome
    · cases hnone
    · exact hbehind.trans hsome.symm
  · rintro (rfl : own = home)
    exact hown hpath
  · rintro (he : t.self.backingPath = home)
    exact hgrowth (he.symm.trans hplace)

/-- A process takes a step in the course of a run. -/
theorem livesBy_of_stepped {v : Volume} {settings : Settings} {entropy : UInt64}
    {calls : List (HostCall Volume)} (h : HostCall.allSpare (Kernel.new v settings entropy) calls)
    {t : Turn Volume} (ht : .stepped t ∈ HostCall.courseAll (Kernel.new v settings entropy) calls)
    {q : Pid} {r : Process} (hq : q ≠ t.self.pid) (hr : t.kernel.table.process? q = some r) :
    ∃ program home content, t.kernel.store.behind? r.backing = some content ∧
      ∀ c, c = none ∨ c = some content → Neighbour.LivesBy ⟨t.self.pid, q, r, program, home, c⟩ t := by
  obtain ⟨l, hc⟩ := HostCall.inCustody_of_stepped h ht
  exact hc.livesBy (HostCall.placed_of_stepped ht) hq hr

/-- Whatever a process does by the calls on files, every other process keeps its place, and its program
and its backing file stay open. The backing file stays as it is as well, so that the process is loaded
the same in its next turn, unless the call writes to what is open for it or resizes what is at its
path. -/
theorem file_calls_spare_neighbours (v : Volume) (settings : Settings) (entropy : UInt64)
    (calls : List (HostCall Volume)) (h : HostCall.allSpare (Kernel.new v settings entropy) calls)
    {t : Turn Volume} (ht : .stepped t ∈ HostCall.courseAll (Kernel.new v settings entropy) calls)
    {call : Syscall} {args : CallArgs} (hcall : t.call? = some (call, args))
    (hfiles : 256 ≤ call.number ∧ call.number ≤ 267) {q : Pid} {r : Process} (hq : q ≠ t.self.pid)
    (hr : t.kernel.table.process? q = some r) :
    let t' := after Turn.step t
    t'.kernel.table.process? q = some r ∧
    (∃ program, t.kernel.store.pathOf? r.program = some program ∧
      t'.kernel.store.pathOf? r.program = some program) ∧
    (∃ home, t.kernel.store.pathOf? r.backing = some home ∧
      t'.kernel.store.pathOf? r.backing = some home ∧
      (t.atCall.target? call args ≠ some home →
        (∃ content, t.kernel.store.behind? r.backing = some content ∧
          t'.kernel.store.behind? r.backing = some content) ∧
        (t'.kernel.load q).1 = (t.kernel.load q).1)) := by
  obtain ⟨program, home, content, hcontent, hlives⟩ := livesBy_of_stepped h ht hq hr
  have hopen := hlives none (.inl rfl)
  have hopen' := hopen.step hcall hfiles nofun
  refine ⟨hopen'.seat, ⟨program, hopen.program, hopen'.program⟩, home, hopen.backing, hopen'.backing,
    fun htarget => ?_⟩
  have hkept := (hlives _ (.inr rfl)).step hcall hfiles fun _ => htarget
  have hcontent' : (after Turn.step t).kernel.store.behind? r.backing = some content := by
    rw [Volume.behind?, hkept.backing]
    exact hkept.content content rfl
  have hdir := congrArg (·.settings.tmpDir) (Turn.step_settled t).kernel
  exact ⟨⟨content, hcontent, hcontent'⟩, Kernel.load_congr hr hkept.seat hcontent hcontent'
    hdir⟩

/-- A program that closes the handle of the backing file of the second process, is refused, and stores a
byte there. -/
def meddlingProgram : Bytes :=
  #[0xD8, 0x01, 0x03, 0xD1, 0x04, 0xC1, 0xD8, 0x01, 0x01, 0xD1, 0x04, 0xD2, 0x0B, 0xD3, 0x15, 0xD4, 0x01,
    0xC1, 0xD0, 0x00, 0xC1, 0x2A]

/-- A program that does nothing but set a register. -/
def idlingProgram : Bytes :=
  #[0xD7, 0x00]

/-- A kernel with room for both programs in its storage. -/
def meddledKernel : Kernel Volume :=
  Kernel.new (((Volume.empty.mkdir (Path.ofText "/tmp")).2.addFile (Path.ofText "/bin/a")
    meddlingProgram).2.addFile (Path.ofText "/bin/b") idlingProgram).2 { budget := 16 }

/-- The two programs are run side by side. -/
def meddledCalls : List (HostCall Volume) :=
  [.spawn "/bin/a", .spawn "/bin/b", .tick]

theorem allSpare_meddledCalls : HostCall.allSpare meddledKernel meddledCalls = true := by
  decide +kernel

/-- The first process closes the handle of the backing file of the second, to no effect. -/
theorem closing_spares_neighbour :
    HostCall.allSpare meddledKernel meddledCalls ∧
    ∃ t args r, .stepped t ∈ HostCall.courseAll meddledKernel meddledCalls ∧
      t.call? = some (.close, args) ∧ r.backing = ⟨args.a⟩ ∧ t.self.pid = 0 ∧
      t.kernel.table.process? 1 = some r ∧
      (after Turn.step t).kernel.table.process? 1 = some r ∧
      (∃ home, (after Turn.step t).kernel.store.pathOf? r.backing = some home) ∧
      ((after Turn.step t).kernel.load 1).1 = (t.kernel.load 1).1 := by
  obtain ⟨t, ht, hkind⟩ := HostCall.exists_stepped meddledKernel meddledCalls
    (fun t => t.self.pid = 0 && t.call?.any (fun (call, args) => call = .close &&
      (t.kernel.table.process? 1).any fun r => r.backing = ⟨args.a⟩)) (by decide +kernel)
  simp only [Bool.and_eq_true, Option.any_eq_true, decide_eq_true_eq] at hkind
  obtain ⟨hpid, ⟨call, args⟩, hcall, rfl, r, hr, hbacking⟩ := hkind
  obtain ⟨hseat, -, home, -, hopen, hkept⟩ := file_calls_spare_neighbours _ _ _ _ allSpare_meddledCalls
    ht hcall (by decide) (q := 1) (by rw [hpid]; decide) hr
  exact ⟨allSpare_meddledCalls, t, args, r, ht, hcall, hbacking, hpid, hr, hseat, ⟨home, hopen⟩,
    (hkept nofun).2⟩

/-- The first process writes to the backing file of the second, which finds another value in a register in
its next turn. -/
theorem writing_reaches_neighbour :
    HostCall.allSpare meddledKernel meddledCalls ∧
    ∃ t args r, .stepped t ∈ HostCall.courseAll meddledKernel meddledCalls ∧
      t.call? = some (.write, args) ∧ r.backing = ⟨args.a⟩ ∧ t.self.pid = 0 ∧
      t.kernel.table.process? 1 = some r ∧
      (after Turn.step t).kernel.store.behind? r.backing ≠ t.kernel.store.behind? r.backing ∧
      (t.kernel.load 1).1.toOption.map (·.state.reg 5) = some 0 ∧
      ((after Turn.step t).kernel.load 1).1.toOption.map (·.state.reg 5) = some 42 := by
  obtain ⟨t, ht, hkind⟩ := HostCall.exists_stepped meddledKernel meddledCalls
    (fun t => t.self.pid = 0 && t.call?.any (fun (call, args) => call = .write &&
      (t.kernel.table.process? 1).any fun r => r.backing = ⟨args.a⟩ &&
        (after Turn.step t).kernel.store.behind? r.backing ≠ t.kernel.store.behind? r.backing &&
        (t.kernel.load 1).1.toOption.map (·.state.reg 5) = some 0 &&
        ((after Turn.step t).kernel.load 1).1.toOption.map (·.state.reg 5) = some 42))
    (by decide +kernel)
  simp only [Bool.and_eq_true, Option.any_eq_true, decide_eq_true_eq] at hkind
  obtain ⟨hpid, ⟨call, args⟩, hcall, rfl, r, hr, ⟨⟨hbacking, hchange⟩, hbefore⟩, hafter⟩ := hkind
  exact ⟨allSpare_meddledCalls, t, args, r, ht, hcall, hbacking, hpid, hr, hchange, hbefore, hafter⟩

end CoopKernel
