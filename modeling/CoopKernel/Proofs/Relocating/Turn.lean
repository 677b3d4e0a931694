import CoopKernel.Proofs.Relocating.Ending

/-!
# Which files a process at work resizes

A process at work has its data region extended at the path that was computed when it was loaded. Whatever it
does, this is the only path at which it changes the shape of the volume, unless it asks for the file at a path
to be resized or deleted, makes a process, or has processes end.
-/

namespace CoopKernel

namespace Turn

variable {α : Type} {t t' t'' : Turn Volume}

/-! ## The only path -/

/-- The shape of the volume changed at the path for the process at most, and everybody has the backing handle
that it had. -/
structure Sited (t t' : Turn Volume) : Prop extends Settled t t' where
  seats : Kernel.SameSeats t.kernel t'.kernel
  elsewhere : ∀ p, p ≠ t.self.backingPath → t'.kernel.store.shape? p = t.kernel.store.shape? p

instance : IsPreorder (Turn Volume) Sited where
  refl t := ⟨refl_of Settled t, fun _ => rfl, fun _ _ => rfl⟩
  trans t t' t'' h₁ h₂ := by
    have helsewhere := h₂.elsewhere
    rw [show t'.self.backingPath = t.self.backingPath by rw [h₁.self]] at helsewhere
    exact ⟨trans_of Settled h₁.toSettled h₂.toSettled, fun q => (h₂.seats q).trans (h₁.seats q),
      fun p hp => (helsewhere p hp).trans (h₁.elsewhere p hp)⟩

/-- The data region of the process grew, if it did, where it is told to. -/
def Grown (t t' : Turn Volume) : Prop :=
  t.kernel.store.Grown t.self.backingPath t.self.state.dataLength t'.kernel.store
    t'.self.state.dataLength

theorem Grown.trans (h₁ : Grown t t') (h₂ : Grown t' t'') (hpath : t'.self.backingPath = t.self.backingPath) :
    Grown t t'' := by
  rw [Grown, hpath] at h₂
  exact Volume.Grown.trans h₁ h₂

/-- The shape of the volume changed at the path for the process at most, and only to make room for the data
region. -/
structure Sized (t t' : Turn Volume) : Prop extends Sited t t' where
  grown : Grown t t'

theorem Sited.backingPath (h : Sited t t') : t'.self.backingPath = t.self.backingPath := by
  rw [h.self]

instance : IsPreorder (Turn Volume) Sized where
  refl t := ⟨refl_of Sited t, .of_shape rfl⟩
  trans _ _ _ h₁ h₂ :=
    ⟨trans_of Sited h₁.toSited h₂.toSited, h₁.grown.trans h₂.grown h₁.backingPath⟩

/-- Besides, nothing was opened or closed. -/
structure Rooted (t t' : Turn Volume) : Prop extends Sized t t' where
  handles : t'.kernel.store.handles = t.kernel.store.handles

instance : IsPreorder (Turn Volume) Rooted where
  refl t := ⟨refl_of Sized t, rfl⟩
  trans _ _ _ h₁ h₂ := ⟨trans_of Sized h₁.toSized h₂.toSized, h₂.handles.trans h₁.handles⟩

/-- Where the shape of the volume stays and the process keeps its data region, the process is rooted. -/
theorem Rooted.of_shape (hsettled : Settled t t') (hseats : Kernel.SameSeats t.kernel t'.kernel)
    (hlength : t'.self.state.dataLength = t.self.state.dataLength)
    (hhandles : t'.kernel.store.handles = t.kernel.store.handles)
    (hshape : ∀ p, t'.kernel.store.shape? p = t.kernel.store.shape? p) : Rooted t t' :=
  ⟨⟨⟨hsettled, hseats, fun p _ => hshape p⟩, .inl ⟨hlength, hshape _⟩⟩, hhandles⟩

/-- The process changes, but for its backing file and the length of its data region. -/
theorem Rooted.within {self : Loaded} (hself : self = { t.self with
      program := self.program, state := self.state, window := self.window })
    (hlength : self.state.dataLength = t.self.state.dataLength) : Rooted t { t with self } :=
  .of_shape ⟨rfl, hself⟩ (fun _ => rfl) hlength rfl fun _ => rfl

theorem indifferent_rooted :
    Indifferent (σ := Volume) AddressSpace.Sized Rooted fun _ => True where
  memory := AddressSpace.tame_sized
  space _ _ hs := ⟨⟨⟨⟨rfl, rfl⟩, fun _ => rfl, hs.elsewhere⟩, hs.grown⟩, hs.handles⟩
  glance t h offset count := .of_shape ⟨rfl, rfl⟩ (fun _ => rfl) rfl
    (t.kernel.store.handles_read h offset count) (t.kernel.store.shape?_read h offset count)
  window _ _ := .within rfl rfl
  state _ _ _ hlength _ := .within rfl hlength
  handler _ _ _ _ := .within rfl rfl
  stdio _ _ := .within rfl rfl
  status _ pid _ := .of_shape ⟨rfl, rfl⟩ (fun q => Table.backing_modify _ pid q fun _ => rfl) rfl rfl
    fun _ => rfl
  count _ pid := .of_shape ⟨rfl, rfl⟩ (fun q => Table.backing_modify _ pid q fun _ => rfl) rfl rfl
    fun _ => rfl
  note _ _ _ := .of_shape ⟨rfl, rfl⟩ (fun _ => rfl) rfl rfl fun _ => rfl

theorem indifferent_sized : Indifferent (σ := Volume) AddressSpace.Sized Sized fun _ => True :=
  Indifferent.mono indifferent_rooted fun _ _ => Rooted.toSized

theorem indifferent_sited : Indifferent (σ := Volume) AddressSpace.Sized Sited fun _ => True :=
  Indifferent.mono indifferent_sized fun _ _ => Sized.toSited

/-- Opening and closing leave the shape as it is. -/
theorem Sized.stored (t : Turn Volume) {s : Volume} (hshape : ∀ p, s.shape? p = t.kernel.store.shape? p) :
    Sized t { t with kernel := { t.kernel with store := s } } :=
  ⟨⟨⟨rfl, rfl⟩, fun _ => rfl, fun p _ => hshape p⟩, .of_shape (hshape _)⟩

/-! ## System calls -/

theorem opening_sized : Opening (σ := Volume) Sized where
  opened t p := .stored t (t.kernel.store.shape?_openPath p)
  closed t h := .stored t (t.kernel.store.shape?_close h)
  env _ _ := ⟨⟨⟨rfl, rfl⟩, fun _ => rfl, fun _ _ => rfl⟩, .of_shape rfl⟩

theorem answer_sized {call : Syscall} (h : call.isInPlace) (args : CallArgs) :
    Works Sized (fun _ => True) (answer call args : InTurn Volume Reply) :=
  (Indifferent.answerInPlace indifferent_sized opening_sized h args fun _ _ _ => trivial).mono
    (fun _ _ => id) fun _ _ => trivial

theorem writeCall_sized (h : Handle) (offset buffer length : UInt16) :
    Works Sized (fun _ => True) (writeCall h offset buffer length : Attempt Volume Reply) :=
  Domestic.writeCall (Indifferent.toDomestic indifferent_sized)
    (fun _ _ => .of_keeps (AddressSpace.writeFile_sized _ _ _) fun _ => trivial) _ _ _

/-- A process that exchanges its program starts over with a data region of another length, whatever it was
before. -/
theorem exchanging_sited : Exchanging (σ := Volume) Sited fun _ => True where
  opened t p := (Sized.stored t (t.kernel.store.shape?_openPath p)).toSited
  program t pid program old := by
    have htable : ((t.kernel.onTable (·.setProgram pid program)).releaseProgram pid old).table =
        t.kernel.table.setProgram pid program := by
      unfold Kernel.releaseProgram
      split <;> rfl
    refine ⟨⟨trans_of Kernel.Ruled (Kernel.ruled_onTable _ _) (Kernel.ruled_releaseProgram _ _ _), rfl⟩,
      fun q => ?_, fun p _ => ?_⟩
    · rw [htable]
      exact Table.backing_modify _ pid q fun _ => rfl
    · unfold Kernel.releaseProgram
      split <;> rfl
  restart _ _ _ _ _ := ⟨⟨rfl, rfl⟩, fun _ => rfl, fun _ _ => rfl⟩
  resize length := access_works (A := fun s s' : AddressSpace Volume => ∀ p, p ≠ s.dataPath →
      s'.store.shape? p = s.store.shape? p)
    (fun s _ hp => (s.store.resize_onlyAt s.dataPath _).shape? hp)
    fun _ _ hs => ⟨⟨rfl, rfl⟩, fun _ => rfl, hs⟩
  write h bytes := indifferent_sited.access (.of_keeps (AddressSpace.writeFile_sized h _ bytes) fun _ => trivial)

theorem execCall_sited (args : CallArgs) :
    Works Sited (fun _ => True) (execCall args : InTurn Volume Reply) :=
  (Indifferent.execCall indifferent_sited exchanging_sited args).mono (fun _ _ => id) fun _ _ => trivial

theorem deliver_rooted (signal : Signal) : Works Rooted (fun _ => True) (deliver signal : Attempt Volume Bool) :=
  Indifferent.deliver indifferent_rooted signal

theorem lastWords_rooted : Works Rooted (fun _ => True) (lastWords : Attempt Volume Bool) :=
  Indifferent.lastWords indifferent_rooted trivial

end Turn

end CoopKernel
