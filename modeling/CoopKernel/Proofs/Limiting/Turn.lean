import CoopKernel.Proofs.Backing.Step
import CoopKernel.Proofs.Limiting.Files

/-!
# How long the data region of a process at work is

A process that stores bytes, by itself or by a system call that copies something to its memory, has a data
region within the limit afterwards if it had one before. One that exchanges its program starts over with the
arguments for it, however long these are. Neither makes a file tell a greater length than before, unless it
writes to it by a system call.
-/

namespace CoopKernel

variable {bound : UInt16}

/-! ## Memory -/

namespace AddressSpace

variable {s s' : AddressSpace Volume}

/-- No file tells of a longer region, and the data region is within the bound if it was and the limit is. -/
structure Modest (bound : UInt16) (s s' : AddressSpace Volume) : Prop where
  limit : s'.limit = s.limit
  store : s.store.Modest bound s'.store
  length : s.limit ≤ bound → s.dataLength ≤ bound → s'.dataLength ≤ bound

instance (bound : UInt16) : IsPreorder (AddressSpace Volume) (Modest bound) where
  refl s := ⟨rfl, refl_of (Volume.Modest bound) s.store, fun _ => id⟩
  trans _ _ _ h₁ h₂ := by
    refine ⟨h₂.limit.trans h₁.limit, trans_of (Volume.Modest bound) h₁.store h₂.store, ?_⟩
    intro hlimit hlength
    exact h₂.length (h₁.limit ▸ hlimit) (h₁.length hlimit hlength)

/-- Where the length of the data region stays, only the files matter. -/
theorem Modest.of_store (hlimit : s'.limit = s.limit) (hlength : s'.dataLength = s.dataLength)
    (hstore : s.store.Modest bound s'.store) : Modest bound s s' :=
  ⟨hlimit, hstore, fun _ h => hlength ▸ h⟩

theorem Untouched.modest (h : Untouched s s') : Modest bound s s' :=
  .of_store (by rw [h.rest]) (by rw [h.rest]) (.of_nodes h.nodes)

theorem writeFile_modest (h : Handle) (i : Nat) (bytes : Bytes) :
    Keeps (Modest bound) (writeFile h (Snapshot.blockSize + i) bytes : Access Volume Nat) :=
  fun s => .of_store rfl rfl (s.store.modest_write_data h (Nat.le_add_right _ i) bytes)

theorem resizeData_modest (length : Nat) : Keeps (Modest bound) (resizeData length : Access Volume Bool) :=
  fun s => .of_store rfl rfl (s.store.modest_resize s.dataPath _)

theorem Resized.modest {length : Nat} (h : Resized length s s') : s.store.Modest bound s'.store := by
  intro p content' hc
  right
  by_cases hp : p = s.dataPath
  · subst hp
    rw [h.content] at hc
    obtain ⟨content, hold, rfl⟩ := Option.map_eq_some_iff.mp hc
    exact ⟨content, hold, Snapshot.lengthIn_resize content _⟩
  · refine ⟨content', ?_, UInt16.le_refl _⟩
    rw [Volume.content?, ← h.store.nodes p hp]
    exact hc

theorem Filled.modest (h : Filled s s') : s.store.Modest bound s'.store := by
  rcases h.store with hstore | ⟨i, fill, hstore⟩
  · rw [hstore]
    exact refl_of (Volume.Modest bound) s.store
  · rw [hstore]
    exact s.store.modest_write_data s.data (Nat.le_add_right _ i) fill

theorem grow_modest (a : UInt16) (i : Nat) : Keeps (Modest bound) (grow a i : Access Volume Unit) := by
  intro s
  rcases after_grow s a i with hsame | ⟨length, hlength, s₁, s₂, -, hresized, hfilled, hgrown⟩
  · exact hsame.modest
  · rw [hgrown]
    refine ⟨?_, trans_of (Volume.Modest bound) hresized.modest hfilled.modest, ?_⟩
    · rw [hfilled.rest, hresized.rest]
    · intro hlimit _
      rw [UInt16.le_iff_toNat_le] at hlimit ⊢
      have hmod : (UInt16.ofNat length).toNat = length % 65536 := UInt16.toNat_ofNat'
      have hle := Nat.mod_le length 65536
      simp only [hmod]
      omega

theorem tame_modest : Tame (σ := Volume) (Modest bound) fun _ => True where
  toReadable := readable (fun h offset count s => (readFile_untouched h offset count s).modest)
    fun _ _ => .of_store rfl rfl (refl_of (Volume.Modest bound) _)
  write := write_works (fun _ _ => trivial) (fun h i bytes => .of_keeps (writeFile_modest h i bytes) fun _ => trivial)
    fun a i => .of_keeps (grow_modest a i) fun _ => trivial

end AddressSpace

/-! ## The kernel and the process -/

/-- No file tells of a longer region, nobody came, and the limit is the same. -/
structure Kernel.Modest (bound : UInt16) (k k' : Kernel Volume) : Prop where
  limit : k'.settings.ramLimit = k.settings.ramLimit
  live : ∀ q, k'.table.isLive q → k.table.isLive q
  store : k.store.Modest bound k'.store

instance (bound : UInt16) : IsPreorder (Kernel Volume) (Kernel.Modest bound) where
  refl k := ⟨rfl, fun _ => id, refl_of (Volume.Modest bound) k.store⟩
  trans _ _ _ h₁ h₂ := ⟨h₂.limit.trans h₁.limit, fun q => h₁.live q ∘ h₂.live q,
    trans_of (Volume.Modest bound) h₁.store h₂.store⟩

theorem Table.isLive_modify (t : Table) (pid q : Pid) (f : Process → Process) :
    (t.modify pid f).isLive q = t.isLive q := by
  rw [isLive, isLive, process?_modify]
  split
  · exact Option.isSome_map
  · rfl

namespace Kernel

variable {k : Kernel Volume}

theorem modest_store {s : Volume} (h : k.store.Modest bound s) : Modest bound k { k with store := s } :=
  ⟨rfl, fun _ => id, h⟩

theorem modest_modify (k : Kernel Volume) (pid : Pid) (f : Process → Process) :
    Modest bound k (k.onTable (·.modify pid f)) := by
  refine ⟨rfl, fun q hq => ?_, refl_of (Volume.Modest bound) _⟩
  rw [← Table.isLive_modify k.table pid q f]
  exact hq

theorem modest_note (k : Kernel Volume) (e : Event) : Modest bound k (k.note e) :=
  ⟨rfl, fun _ => id, refl_of (Volume.Modest bound) _⟩

theorem modest_releaseProgram (k : Kernel Volume) (pid : Pid) (h : Handle) :
    Modest bound k (k.releaseProgram pid h) := by
  unfold releaseProgram
  split
  · exact refl_of (Modest bound) k
  · exact modest_store (k.store.modest_close h)

end Kernel

namespace Turn

variable {t t' : Turn Volume}

/-- What happens to the kernel is modest, whatever happens to the process. -/
def Modest (bound : UInt16) (t t' : Turn Volume) : Prop :=
  Kernel.Modest bound t.kernel t'.kernel

instance (bound : UInt16) : IsPreorder (Turn Volume) (Modest bound) where
  refl t := refl_of (Kernel.Modest bound) t.kernel
  trans _ _ _ h₁ h₂ := trans_of (Kernel.Modest bound) h₁ h₂

/-- Besides, the data region is within the bound if it was and the limit is. -/
structure Limited (bound : UInt16) (t t' : Turn Volume) : Prop where
  kernel : Kernel.Modest bound t.kernel t'.kernel
  length : t.kernel.settings.ramLimit ≤ bound → t.self.state.dataLength ≤ bound →
    t'.self.state.dataLength ≤ bound

instance (bound : UInt16) : IsPreorder (Turn Volume) (Limited bound) where
  refl t := ⟨refl_of (Kernel.Modest bound) t.kernel, fun _ => id⟩
  trans _ _ _ h₁ h₂ := by
    refine ⟨trans_of (Kernel.Modest bound) h₁.kernel h₂.kernel, fun hlimit hlength => ?_⟩
    exact h₂.length (h₁.kernel.limit ▸ hlimit) (h₁.length hlimit hlength)

/-- Where the length of the data region stays, only the kernel matters. -/
theorem Limited.of_kernel (hkernel : Kernel.Modest bound t.kernel t'.kernel)
    (hlength : t'.self.state.dataLength = t.self.state.dataLength) : Limited bound t t' :=
  ⟨hkernel, fun _ h => hlength ▸ h⟩

/-- Something happens to the process alone. -/
theorem Limited.within {self : Loaded} (hlength : self.state.dataLength = t.self.state.dataLength) :
    Limited bound t { t with self } :=
  .of_kernel (refl_of (Kernel.Modest bound) t.kernel) hlength

theorem indifferent_limited :
    Indifferent (σ := Volume) (AddressSpace.Modest bound) (Limited bound) fun _ => True where
  memory := AddressSpace.tame_modest
  space _ _ hs := ⟨⟨rfl, fun _ => id, hs.store⟩, hs.length⟩
  glance t h offset count := .of_kernel (Kernel.modest_store (t.kernel.store.modest_read h offset count)) rfl
  window _ _ := .within rfl
  state _ _ _ hlength _ := .within hlength
  handler _ _ _ _ := .within rfl
  stdio _ _ := .within rfl
  status t pid _ := .of_kernel (t.kernel.modest_modify pid _) rfl
  count t pid := .of_kernel (t.kernel.modest_modify pid _) rfl
  note t e _ := .of_kernel (t.kernel.modest_note e) rfl

/-! ## System calls -/

theorem opening_limited : Opening (σ := Volume) (Limited bound) where
  opened t p := .of_kernel (Kernel.modest_store (t.kernel.store.modest_openPath p)) rfl
  closed t h := .of_kernel (Kernel.modest_store (t.kernel.store.modest_close h)) rfl
  env _ _ := .within rfl

/-- Work that has the storage do something is limited if that is modest. -/
theorem act_limited {α : Type} {action : Volume → α × Volume} (h : ∀ v, Volume.Modest bound v (action v).2) :
    Works (Limited bound) (fun _ => True) (act action : Attempt Volume α) :=
  .modifyGet fun t => .of_kernel (Kernel.modest_store (h t.kernel.store)) rfl

end Turn

namespace Syscall

/-- The call starts nobody, ends nobody and signals nobody, changes no program, and does not write to a file by
a handle. -/
def isLimited (call : Syscall) : Bool :=
  call.isInPlace || call = resizeFile || call = delete

end Syscall

namespace Turn

theorem answer_limited {call : Syscall} (h : call.isLimited) (args : CallArgs) :
    Works (Limited bound) (fun _ => True) (answer call args : InTurn Volume Reply) := by
  cases hplace : call.isInPlace with
  | true =>
    exact (indifferent_limited.answerInPlace opening_limited hplace args fun _ _ _ => trivial).mono (fun _ _ => id)
      fun _ _ => trivial
  | false =>
    have hlift {act : Attempt Volume Reply} (hact : Works (Limited bound) (fun _ => True) act) :
        Works (Limited bound) (fun _ => True) (monadLift act : InTurn Volume Reply) :=
      (lift_works hact).mono (fun _ _ => id) fun _ _ => trivial
    cases call
    case resizeFile => exact hlift (indifferent_limited.resizeCall
      (fun p => act_limited fun v => v.modest_resize p _) (fun p => act_limited fun v => v.modest_create p _) _)
    case delete => exact hlift (indifferent_limited.deleteCall (fun p => act_limited fun v => v.modest_delete p) _)
    all_goals first | (cases hplace; done) | simp [Syscall.isLimited, hplace] at h

theorem indifferent_modest :
    Indifferent (σ := Volume) (AddressSpace.Modest bound) (Modest bound) fun _ => True :=
  indifferent_limited.mono fun _ _ => Limited.kernel

theorem exchanging_modest : Exchanging (σ := Volume) (Modest bound) fun _ => True where
  opened t p := Kernel.modest_store (t.kernel.store.modest_openPath p)
  program t pid _ old :=
    trans_of (Kernel.Modest bound) (t.kernel.modest_modify pid _) (Kernel.modest_releaseProgram _ pid old)
  restart t _ _ _ _ := refl_of (Kernel.Modest bound) t.kernel
  resize length := indifferent_modest.access
    (.of_keeps (AddressSpace.resizeData_modest length) fun _ => trivial)
  write h bytes := indifferent_modest.access
    (.of_keeps (AddressSpace.writeFile_modest h 0 bytes) fun _ => trivial)

end Turn

end CoopKernel
