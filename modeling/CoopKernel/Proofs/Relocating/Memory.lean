import CoopKernel.Proofs.Footprint
import CoopKernel.Proofs.Storage.Shape

/-!
# Growing where one is told to

A data region is extended by resizing the file at the path that the address space tells, whatever is behind
the handle of the backing file. Nothing else that an access does changes the shape of the volume, so that
afterwards either the region and the file at that path are as long as they were, or the file has just the
room that the region needs.
-/

namespace CoopKernel

/-- A data region is as long as it was and so is the file at a path, or the file has the length that the
region needs. -/
def Volume.Grown (path : Path) (v : Volume) (length : UInt16) (v' : Volume) (length' : UInt16) : Prop :=
  (length' = length ∧ v'.shape? path = v.shape? path) ∨
    v'.length? path = some (Snapshot.blockSize + length'.toNat)

namespace Volume.Grown

variable {path : Path} {v v' v'' : Volume} {length length' length'' : UInt16}

theorem trans (h₁ : Grown path v length v' length') (h₂ : Grown path v' length' v'' length'') :
    Grown path v length v'' length'' := by
  rcases h₂ with ⟨hlength₂, hshape₂⟩ | hfile
  · rcases h₁ with ⟨hlength₁, hshape₁⟩ | hfile
    · exact .inl ⟨hlength₂.trans hlength₁, hshape₂.trans hshape₁⟩
    · exact .inr (by rw [hlength₂, Volume.length?_congr hshape₂]; exact hfile)
  · exact .inr hfile

/-- Where the file stays as long as it is, the region can only stay so, too. -/
theorem of_shape (hshape : v'.shape? path = v.shape? path) : Grown path v length v' length :=
  .inl ⟨rfl, hshape⟩

end Volume.Grown

namespace AddressSpace

variable {s s' : AddressSpace Volume}

/-- The shape of the volume changed at the path of the backing file at most, and there the file has the
length that the data region needs, unless both are as before. -/
structure Sized (s s' : AddressSpace Volume) : Prop where
  dataPath : s'.dataPath = s.dataPath
  handles : s'.store.handles = s.store.handles
  elsewhere : ∀ p, p ≠ s.dataPath → s'.store.shape? p = s.store.shape? p
  grown : s.store.Grown s.dataPath s.dataLength s'.store s'.dataLength

instance : IsPreorder (AddressSpace Volume) Sized where
  refl _ := ⟨rfl, rfl, fun _ _ => rfl, .of_shape rfl⟩
  trans s s₁ s₂ h₁ h₂ := by
    have helsewhere := h₂.elsewhere
    have hgrown := h₂.grown
    rw [h₁.dataPath] at helsewhere hgrown
    exact ⟨h₂.dataPath.trans h₁.dataPath, h₂.handles.trans h₁.handles,
      fun p hp => (helsewhere p hp).trans (h₁.elsewhere p hp), h₁.grown.trans hgrown⟩

/-- Where the shape of the volume and the length of the data region stay, nothing has grown. -/
theorem Sized.of_shape (hpath : s'.dataPath = s.dataPath) (hlength : s'.dataLength = s.dataLength)
    (hhandles : s'.store.handles = s.store.handles)
    (hshape : ∀ p, s'.store.shape? p = s.store.shape? p) : Sized s s' :=
  ⟨hpath, hhandles, fun p _ => hshape p, .inl ⟨hlength, hshape _⟩⟩

theorem Untouched.sized (h : Untouched s s') : Sized s s' :=
  .of_shape (by rw [h.rest]) (by rw [h.rest]) h.handles (Volume.shape?_of_nodes h.nodes)

theorem writeFile_sized (h : Handle) (offset : Nat) (bytes : Bytes) :
    Keeps Sized (writeFile h offset bytes : Access Volume Nat) :=
  fun s => .of_shape rfl rfl (s.store.handles_write h offset bytes) (s.store.shape?_write h offset bytes)

/-- The file has the first length for which resizing it succeeds. -/
theorem firstThatFits_length {lengths : List Nat} {length : Nat}
    (h : firstThatFits lengths s = .ok (some length) s') :
    s'.store.length? s'.dataPath = some (Snapshot.blockSize + length) := by
  induction lengths generalizing s with
  | nil => cases h
  | cons first rest ih =>
    have hresize : resizeData first s = .ok
      (s.store.resize s.dataPath (Snapshot.blockSize + first)).1
      { s with store := (s.store.resize s.dataPath (Snapshot.blockSize + first)).2 } := rfl
    unfold firstThatFits at h
    rw [bind_of_ok hresize] at h
    rcases s.store.resize_cases s.dataPath (Snapshot.blockSize + first) with hr | ⟨content, _, hr⟩
    · rw [hr] at h
      exact ih h
    · rw [hr] at h
      cases h
      have hfile (v : Volume) (p : Path) : (v.put p
          (.file (content.resize (Snapshot.blockSize + length)))).length? p =
          some (Snapshot.blockSize + length) := by
        rw [Volume.length?, Volume.content?_put, if_pos rfl]
        exact congrArg some (Bytes.size_resize _ _)
      exact hfile _ _

theorem Filled.shape? (h : Filled s s') (p : Path) : s'.store.shape? p = s.store.shape? p := by
  rcases h.store with hstore | ⟨i, fill, hstore⟩
  · rw [hstore]
  · rw [hstore]
    exact s.store.shape?_write _ _ _ p

theorem Filled.handles (h : Filled s s') : s'.store.handles = s.store.handles := by
  rcases h.store with hstore | ⟨i, fill, hstore⟩
  · rw [hstore]
  · rw [hstore]
    exact s.store.handles_write _ _ _

theorem grow_sized (a : UInt16) (i : Nat) : Keeps Sized (grow a i : Access Volume Unit) := by
  intro s
  rcases after_grow s a i with hsame | ⟨length, hlimit, s₁, s₂, hf, hresized, hfilled, hgrown⟩
  · exact hsame.sized
  · have hfile := firstThatFits_length hf
    have hpath : s₁.dataPath = s.dataPath := by rw [hresized.rest]
    have hpath₂ : s₂.dataPath = s₁.dataPath := by rw [hfilled.rest]
    have hnat : (UInt16.ofNat length).toNat = length := by
      have hlt := s.limit.toNat_lt
      rw [UInt16.toNat_ofNat']
      exact Nat.mod_eq_of_lt (by omega)
    rw [hgrown]
    refine ⟨hpath₂.trans hpath, hfilled.handles.trans hresized.store.handles, fun p hp => ?_, .inr ?_⟩
    · exact (hfilled.shape? p).trans (hresized.store.shape? hp)
    -- What is filled in lies within the file.
    · rw [hpath] at hfile
      exact (Volume.length?_congr (hfilled.shape? _)).trans (hnat.symm ▸ hfile)

theorem write_sized (a : UInt16) (b : UInt8) : Keeps Sized (write a b : Access Volume Unit) :=
  (write_works (E := fun _ => True) (fun _ _ => trivial)
    (fun h _ bytes => .of_keeps (writeFile_sized h _ bytes) fun _ => trivial)
    (fun a i => .of_keeps (grow_sized a i) fun _ => trivial) a b).keeps

theorem tame_sized : Tame (σ := Volume) Sized fun _ => True where
  toReadable := readable (fun h offset count s => (readFile_untouched h offset count s).sized)
    fun _ _ => .of_shape rfl rfl rfl fun _ => rfl
  write a b := .of_keeps (write_sized a b) fun _ => trivial

end AddressSpace

end CoopKernel
