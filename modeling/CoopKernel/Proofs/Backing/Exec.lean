import CoopKernel.Proofs.Backing.Calls

/-!
# Backing files and the exchange of programs

A process that exchanges its program has its file cut or extended to its arguments, which take little room:
a path is about as long as the texts that it is made of, and those are short. If the file cannot be resized
or written, the process ends.
-/

namespace CoopKernel

open Volume (OnlyAt Spares)

/-! ## How long things are -/

namespace Text

theorem length_fields (separator : Char) (cs : List Char) :
    ∀ part ∈ fields separator cs, part.length ≤ cs.length := by
  induction cs with
  | nil =>
    intro part hpart
    rw [List.mem_singleton.mp hpart]
  | cons c cs ih =>
    intro part hpart
    unfold fields at hpart
    split at hpart
    · rw [List.mem_singleton.mp hpart]
      exact Nat.succ_le_succ (Nat.zero_le _)
    · next first rest hfields =>
      have hfirst := ih first (hfields ▸ List.mem_cons_self)
      have hrest : ∀ part ∈ rest, part.length ≤ cs.length := fun part hp =>
        ih part (hfields ▸ List.mem_cons_of_mem first hp)
      rw [List.length_cons]
      split at hpart
      · rcases List.mem_cons.mp hpart with rfl | hpart
        · exact Nat.zero_le _
        · rcases List.mem_cons.mp hpart with rfl | hpart
          · omega
          · have hlength := hrest part hpart
            omega
      · rcases List.mem_cons.mp hpart with rfl | hpart
        · rw [List.length_cons]
          omega
        · have hlength := hrest part hpart
          omega

end Text

/-- Where a program is looked for is about as long as its name and a directory. -/
theorem Environment.length_candidates {env : Environment} (hwork : env.workDir.toList.length ≤ Snapshot.textSize)
    (hsearch : env.searchPath.toList.length ≤ Snapshot.textSize) {name : String} {path : Path}
    (hpath : path ∈ env.candidates name) :
    path.chars.length ≤ Snapshot.textSize + name.toList.length + 2 := by
  have hresolve := Path.length_chars_resolve env.workDir name
  unfold candidates at hpath
  split at hpath
  · rw [List.mem_singleton.mp hpath]
    have htext := Path.length_chars_ofText name
    omega
  · split at hpath
    · rw [List.mem_singleton.mp hpath]
      omega
    · rcases List.mem_cons.mp hpath with rfl | hpath
      · omega
      · obtain ⟨dir, hdir, rfl⟩ := List.mem_map.mp hpath
        obtain ⟨part, hpart, rfl⟩ := List.mem_map.mp hdir
        have hfields := Text.length_fields _ _ part (List.mem_filter.mp hpart).1
        have hfound := Path.length_chars_resolve (String.ofList part) name
        rw [String.toList_ofList] at hfound
        omega

/-- A text that is accepted as a path is short. -/
theorem Path.length_of_accepts {chars : List Char} (h : Path.accepts (String.ofList chars)) :
    (String.ofList chars).toList.length ≤ Path.maxSize := by
  have hsize := (Utf8.length_encode (String.ofList chars).toList).1
  simp only [Path.accepts, Bool.and_eq_true, decide_eq_true_eq] at h
  exact Nat.le_trans hsize h.1.2

namespace Arguments

variable {args : List (List UInt8)} {most : Nat}

theorem length_layout (start : Nat) (h : ∀ arg ∈ args, arg.length < most) :
    (layout start args).data.length ≤ args.length * most ∧
      ∀ offset ∈ (layout start args).offsets, offset ≤ start + args.length * most := by
  induction args generalizing start with
  | nil => exact ⟨Nat.zero_le _, nofun⟩
  | cons arg args ih =>
    have harg := h arg List.mem_cons_self
    obtain ⟨hdata, hoffsets⟩ := ih (start + arg.length + 1) fun a ha =>
      h a (List.mem_cons_of_mem arg ha)
    have hmul : (args.length + 1) * most = args.length * most + most := Nat.succ_mul _ _
    simp only [layout, List.length_append, List.length_cons, hmul]
    refine ⟨by omega, fun offset ho => ?_⟩
    rcases List.mem_cons.mp ho with rfl | ho
    · omega
    · have hoffset := hoffsets offset ho
      omega

/-- What a program is started with takes little room. -/
theorem layout_small (hcount : args.length ≤ maxArguments) (hshort : ∀ arg ∈ args, arg.length < 0x400) :
    (layout 0 args).data.length < 0x10000 ∧ ∀ offset ∈ (layout 0 args).offsets, offset < 0x7000 := by
  obtain ⟨hdata, hoffsets⟩ := length_layout 0 hshort
  have hroom : args.length * 0x400 ≤ 4 * 0x400 := Nat.mul_le_mul_right _ hcount
  refine ⟨by omega, fun offset ho => ?_⟩
  have hoffset := hoffsets offset ho
  omega

theorem compact_offsetVector {a : Arguments} (h : ∀ offset ∈ a.offsets, offset < 0x7000) (n : Nat)
    (offset : UInt16) (ho : a.offsetVector[n]? = some offset) : offset.toNat < 0x7000 := by
  rw [offsetVector, Vector.getElem?_ofFn] at ho
  split at ho
  · cases ho
    have hlow : a.offsets.getD n 0 < 0x7000 := by
      rw [List.getD_eq_getElem?_getD]
      cases hn : a.offsets[n]? with
      | none => decide
      | some o => exact h o (List.mem_of_getElem? hn)
    rw [UInt16.toNat_ofNat']
    exact Nat.lt_of_le_of_lt (Nat.mod_le _ _) hlow
  · cases ho

end Arguments

theorem AddressSpace.length_readText {a : UInt16} {count : Nat} {s s' : AddressSpace Volume}
    {text : List UInt8} (h : AddressSpace.readText a count s = .ok text s') : text.length ≤ count := by
  induction count generalizing a s text with
  | zero =>
    cases h
    exact Nat.le_refl 0
  | succ count ih =>
    unfold AddressSpace.readText at h
    cases hread : AddressSpace.read a s with
    | error f s₁ =>
      rw [bind_of_error hread] at h
      cases h
    | ok b s₁ =>
      rw [bind_of_ok hread] at h
      split at h
      · cases h
        exact Nat.zero_le _
      · obtain ⟨rest, hrest, rfl⟩ := bind_pure_ok.mp h
        exact Nat.succ_le_succ (ih hrest)

namespace Turn

/-- The process is on duty, but for the length of its file. -/
structure Poised (t : Turn Volume) : Prop where
  sound : Sound (Demands.strict.set t.self.pid none) t.kernel
  seat : ∃ p, t.kernel.table.process? t.self.pid = some p ∧ p.backing = t.self.backing
  place : t.self.backingPath = t.kernel.backingPath t.self.pid
  neat : t.self.state.env.Neat
  active : ∀ p, t.kernel.table.process? t.self.pid = some p → p.status = .active

namespace Poised

variable {t : Turn Volume}

theorem onDuty (h : t.Poised) (hfits : t.space.Fits) : t.OnDuty :=
  ⟨⟨h.sound, h.seat, h.place, hfits, h.neat⟩, h.active⟩

theorem leaves (h : t.Poised) {f : Fault} (hf : f ≠ .corruptState) : Leaves (.faulted f) t :=
  ⟨hf, h.sound⟩

/-- Something happens to the file of the process, or to none. -/
theorem stored (h : t.Poised) {s : Volume} (hs : OnlyAt t.self.backingPath t.kernel.store s) :
    Poised { t with kernel := { t.kernel with store := s } } where
  sound := by
    refine h.sound.onlyAt hs fun {pid p P} hp hP he => ?_
    rw [h.place] at he
    rw [Kernel.backingPath_inj he, Demands.set_self] at hP
    cases hP
  seat := h.seat
  place := h.place
  neat := h.neat
  active := h.active

/-- The handle of the process is for its own file, or for none. -/
theorem path (h : t.Poised) : t.kernel.store.pathOf? t.self.backing = some t.self.backingPath ∨
    t.kernel.store.pathOf? t.self.backing = none := by
  obtain ⟨p, hp, hbacking⟩ := h.seat
  cases hpath : t.kernel.store.pathOf? t.self.backing with
  | none => exact .inr rfl
  | some path =>
    have hhome := h.sound.home hp (hbacking ▸ hpath)
    rw [h.place, hhome]
    exact .inl rfl

end Poised

namespace OnDuty

variable {t : Turn Volume}

/-! ## Reading what is to be run -/

theorem readText (address : UInt16) :
    Ensures OnDuty (Turn.readText address : Attempt Volume (List UInt8))
      (fun text t => t.OnDuty ∧ text.length ≤ textLimit) fun f => Leaves (.faulted f) := by
  intro t h
  have hread := domestic.readText address t
  cases hr : (Turn.readText address : Attempt Volume (List UInt8)) t with
  | error f t' =>
    rw [hr] at hread
    exact ⟨hread.1, (hread.2 h).sound⟩
  | ok text t' =>
    rw [hr] at hread
    refine ⟨hread h, ?_⟩
    unfold Turn.readText access at hr
    split at hr
    · next hspace =>
      cases hr
      exact AddressSpace.length_readText hspace
    · cases hr

theorem readArguments (addresses : List UInt16) :
    Ensures OnDuty (Turn.readArguments addresses : Attempt Volume (List (List UInt8)))
      (fun args t => t.OnDuty ∧ ∀ arg ∈ args, arg.length ≤ textLimit)
      fun f => Leaves (.faulted f) := by
  induction addresses with
  | nil => exact .pure fun _ h => ⟨h, nofun⟩
  | cons address rest ih =>
    unfold Turn.readArguments
    split
    · exact ih
    · refine .bind (readText address) fun text => ?_
      rintro t ⟨h, htext⟩
      have hrest : Ensures OnDuty (do
          return text :: (← Turn.readArguments rest) : Attempt Volume (List (List UInt8)))
          (fun args t => t.OnDuty ∧ ∀ arg ∈ args, arg.length ≤ textLimit)
          fun f => Leaves (.faulted f) := by
        refine .bind ih fun args => .pure fun t h => ⟨h.1, fun arg harg => ?_⟩
        rcases List.mem_cons.mp harg with rfl | harg
        · exact htext
        · exact h.2 arg harg
      exact hrest t h

theorem openProgram (name : List UInt8) :
    Ensures OnDuty (Turn.openProgram name : Attempt Volume (Option (Path × Handle)))
      (fun found t => t.OnDuty ∧ ∀ path program, found = some (path, program) →
        path.chars.length ≤ 0x81) fun f => Leaves (.faulted f) := by
  unfold Turn.openProgram
  split
  · exact .pure fun _ h => ⟨h, nofun⟩
  · next chars _ =>
    dsimp only
    split
    · exact .pure fun _ h => ⟨h, nofun⟩
    · next haccepts =>
      refine .get_bind_eq fun t h => ?_
      split
      · exact .pure fun _ he => ⟨he ▸ h, nofun⟩
      · next path hfound =>
        rintro t' rfl
        refine ⟨h.opened path, fun path' program he => ?_⟩
        obtain ⟨handle, -, hpath⟩ := Option.map_eq_some_iff.mp he
        cases hpath
        rw [Bool.not_eq_true', Bool.not_eq_false] at haccepts
        have hname := Path.length_of_accepts haccepts
        have hlength := Environment.length_candidates h.neat.workDir h.neat.searchPath
          (List.mem_of_find?_eq_some hfound)
        simp only [Path.maxSize, Snapshot.textSize] at hname hlength
        omega

/-! ## Taking over a program -/

/-- The process has taken over the program, and the file is to hold the arguments. -/
theorem retold (h : t.OnDuty) (program : Handle) {count : Nat} (hcount : count ≤ maxArguments)
    {layout : Arguments} (hoffsets : ∀ offset ∈ layout.offsets, offset < 0x7000) (window : Window) :
    Poised ⟨(t.kernel.onTable (·.setProgram t.self.pid program)).releaseProgram t.self.pid
        t.self.program,
      { t.self with program, window, state := t.self.state.restart count layout }⟩ := by
  have htable : ((t.kernel.onTable (·.setProgram t.self.pid program)).releaseProgram t.self.pid
      t.self.program).table = t.kernel.table.setProgram t.self.pid program := by
    unfold Kernel.releaseProgram
    split <;> rfl
  have hruled : Kernel.Ruled t.kernel
      ((t.kernel.onTable (·.setProgram t.self.pid program)).releaseProgram t.self.pid
        t.self.program) :=
    trans_of Kernel.Ruled (Kernel.ruled_onTable _ _) (Kernel.ruled_releaseProgram _ _ _)
  obtain ⟨p, hp, hbacking⟩ := h.seat
  have hp' := Table.process?_modify_self (f := fun p => { p with program }) hp
  have hset : Sound (Demands.strict.set t.self.pid none)
      (t.kernel.onTable (·.setProgram t.self.pid program)) :=
    h.sound.modified fun _ => ⟨rfl, .inl rfl⟩
  refine ⟨hset.released t.self.program, ⟨{ p with program }, ?_, hbacking⟩, ?_, ?_, ?_⟩
  · rw [htable]
    exact hp'
  · have hsettings := congrArg Kernel.settings hruled
    rw [h.place, Kernel.backingPath, Kernel.backingPath, hsettings]
  · have hfew : (UInt8.ofNat count).toNat ≤ maxArguments := by
      rw [UInt8.toNat_ofNat']
      exact Nat.le_trans (Nat.mod_le _ _) hcount
    exact ⟨hfew, Arguments.compact_offsetVector hoffsets, h.neat.workDir, h.neat.searchPath⟩
  · intro q hq
    rw [htable] at hq
    cases hq.symm.trans hp'
    exact h.active p hp

end OnDuty

/-- The file of the process has the length that its data region is to have. -/
def Resized (t : Turn Volume) : Prop :=
  t.kernel.store.length? t.self.backingPath =
    some (Snapshot.blockSize + t.self.state.dataLength.toNat)

namespace Poised

variable {t : Turn Volume}

/-- The file is resized, or the attempt changes nothing for the process. -/
theorem resizeData (backing : Handle) (length : Nat) :
    Ensures (fun t => t.Poised ∧ t.self.backing = backing ∧ t.self.state.dataLength.toNat = length)
      (access (AddressSpace.resizeData length) : Attempt Volume Bool)
      (fun done t => t.Poised ∧ t.self.backing = backing ∧ (done = true → t.Resized))
      fun f => Leaves (.faulted f) := by
  rintro t ⟨h, hbacking, hlength⟩
  rcases hr : t.kernel.store.resize t.self.backingPath (Snapshot.blockSize + length) with ⟨done, s⟩
  have honly : OnlyAt t.self.backingPath t.kernel.store s := by
    have hresize := t.kernel.store.resize_onlyAt t.self.backingPath (Snapshot.blockSize + length)
    rw [hr] at hresize
    exact hresize
  have haccess : access (AddressSpace.resizeData length) t =
      .ok done { t with kernel := { t.kernel with store := s } } := by
    have hstore : Storage.resize t.kernel.store t.self.backingPath (Snapshot.blockSize + length) =
      (done, s) := hr
    simp only [access, AddressSpace.resizeData, space, hstore]
    rfl
  rw [haccess]
  refine ⟨h.stored honly, hbacking, fun hdone => ?_⟩
  rcases t.kernel.store.resize_cases t.self.backingPath (Snapshot.blockSize + length) with
    hrefused | ⟨content, _, hput⟩
  · rw [hr, hdone] at hrefused
    cases hrefused
  · rw [hr] at hput
    cases hput
    have hfile (v : Volume) : (v.put t.self.backingPath
        (.file (content.resize (Snapshot.blockSize + length)))).length? t.self.backingPath =
        some (Snapshot.blockSize + length) := by
      rw [Volume.length?, Volume.content?_put, if_pos rfl]
      exact congrArg some (Bytes.size_resize _ _)
    refine (hfile _).trans ?_
    rw [hlength]

/-- Where something of the arguments is written to the file, it is the own file. -/
theorem writeFile {data : Bytes} (hpos : 0 < data.size) (backing : Handle) :
    Ensures (fun t => t.Poised ∧ t.self.backing = backing ∧ t.Resized)
      (access (AddressSpace.writeFile backing Snapshot.blockSize data) : Attempt Volume Nat)
      (fun count t => t.Poised ∧ (count = data.size → t.OnDuty)) fun f => Leaves (.faulted f) := by
  rintro t ⟨h, rfl, hresized⟩
  rcases h.path with hpath | hpath
  · have honly := Volume.write_onlyAt hpath Snapshot.blockSize data
    have hpoised := h.stored honly
    refine ⟨hpoised, fun _ => hpoised.onDuty ⟨(honly.pathOf? _).trans hpath, ?_⟩⟩
    obtain ⟨content, hc, hsize⟩ := Option.map_eq_some_iff.mp hresized
    have hbehind : t.kernel.store.behind? t.self.backing = some content := by
      rw [Volume.behind?, hpath]
      exact hc
    have hwritten := (Volume.write_behind hbehind Snapshot.blockSize data).2
    rw [Volume.behind?, honly.pathOf?, hpath, Option.bind_some] at hwritten
    refine (congrArg (Option.map Array.size) hwritten).trans ?_
    rw [Option.map_some, Bytes.size_overwrite, hsize]
    rfl
  · have hnone : t.kernel.store.write t.self.backing Snapshot.blockSize data = (0, t.kernel.store) := by
      unfold Volume.write
      rw [hpath]
    have hwrite : access (AddressSpace.writeFile t.self.backing Snapshot.blockSize data) t =
        .ok 0 (t.setSpace t.space) := by
      have hstore : Storage.write t.kernel.store t.self.backing Snapshot.blockSize data =
        (0, t.kernel.store) := hnone
      simp only [access, AddressSpace.writeFile, space, hstore]
    rw [hwrite]
    exact ⟨h, fun hzero => absurd hzero.symm (by omega)⟩

end Poised

namespace OnDuty

theorem replaceProgram {path : Path} (hpath : path.chars.length ≤ 0x81) (program : Handle)
    {args : List (List UInt8)} (hargs : ∀ arg ∈ args, arg.length ≤ textLimit) :
    Ensures OnDuty (Turn.replaceProgram path program args : Attempt Volume Unit) (fun _ => OnDuty)
      fun f => Leaves (.faulted f) := by
  unfold Turn.replaceProgram
  refine .get_bind_eq fun t h => ?_
  dsimp only
  have hcount : ((Utf8.encode path.chars :: args).take maxArguments).length ≤ maxArguments := by
    rw [List.length_take]
    exact Nat.min_le_left _ _
  have hshort : ∀ text ∈ (Utf8.encode path.chars :: args).take maxArguments,
      text.length < 0x400 := by
    intro text htext
    rcases List.mem_cons.mp (List.mem_of_mem_take htext) with rfl | htext
    · have hencode := (Utf8.length_encode path.chars).2
      omega
    · have hlimit : text.length ≤ 64 := hargs text htext
      omega
  obtain ⟨hdata, hoffsets⟩ := Arguments.layout_small hcount hshort
  have hpos : 0 < (Arguments.layout 0 ((Utf8.encode path.chars :: args).take
      maxArguments)).data.length := by
    rw [maxArguments, List.take_succ_cons, Arguments.layout]
    dsimp only
    rw [List.length_append, List.length_cons]
    omega
  have hpoised := h.retold program hcount hoffsets Window.closed
  generalize Arguments.layout 0 ((Utf8.encode path.chars :: args).take maxArguments) = layout at *
  have hwrite : Ensures (fun t' => t'.Poised ∧ t'.self.backing = t.self.backing ∧ t'.Resized) (do
      let count ← access (AddressSpace.writeFile t.self.backing Snapshot.blockSize
        layout.data.toArray)
      if count ≠ layout.data.length then throw .storage
      Turn.note (.executes t.self.pid path) : Attempt Volume Unit) (fun _ => OnDuty)
      fun f => Leaves (.faulted f) := by
    refine .bind (Poised.writeFile hpos t.self.backing) fun count => ?_
    split
    · exact .throw_bind fun _ h => h.1.leaves nofun
    · next hwritten =>
      exact .modify fun _ h => (h.2 (not_not.mp hwritten)).note fun _ => nofun
  have hresize : Ensures (fun t' => t'.Poised ∧ t'.self.backing = t.self.backing ∧
      t'.self.state.dataLength.toNat = layout.data.length) (do
      if !(← access (AddressSpace.resizeData layout.data.length)) then throw .storage
      let count ← access (AddressSpace.writeFile t.self.backing Snapshot.blockSize
        layout.data.toArray)
      if count ≠ layout.data.length then throw .storage
      Turn.note (.executes t.self.pid path) : Attempt Volume Unit) (fun _ => OnDuty)
      fun f => Leaves (.faulted f) := by
    refine .bind (Poised.resizeData t.self.backing layout.data.length) fun done => ?_
    cases done with
    | false => exact .throw_bind fun _ h => h.1.leaves nofun
    | true => exact hwrite.mono (fun _ h => ⟨h.1, h.2.1, h.2.2 rfl⟩) (fun _ _ => id) fun _ _ => id
  rintro t' rfl
  exact hresize _ ⟨hpoised, rfl, Nat.mod_eq_of_lt hdata⟩

theorem exec (name : List UInt8) {args : List (List UInt8)} (hargs : ∀ arg ∈ args, arg.length ≤ textLimit) :
    Ensures OnDuty (Turn.exec name args : Attempt Volume Bool) (fun _ => OnDuty)
      fun f => Leaves (.faulted f) := by
  unfold Turn.exec
  refine .bind (openProgram name) fun found => ?_
  cases found with
  | none => exact .pure fun _ h => h.1
  | some opened =>
    obtain ⟨path, program⟩ := opened
    rintro t ⟨h, hpath⟩
    exact Ensures.bind (replaceProgram (hpath path program rfl) program hargs)
      (fun _ => .pure fun _ => id) t h

theorem execCall (args : CallArgs) :
    Ensures OnDuty (Turn.execCall args : InTurn Volume Reply) (fun _ => OnDuty) Leaves := by
  unfold Turn.execCall
  refine .bind (Ensures.adaptExcept (readText args.a)) fun name => ?_
  refine .bind (Ensures.adaptExcept ((readArguments _).mono (fun _ h => h.1) (fun _ _ => id)
    fun _ _ => id)) fun arguments => ?_
  rintro t ⟨h, harguments⟩
  have hexec : Ensures OnDuty (do
      if ← (Turn.exec name arguments : Attempt Volume Bool) then throw .yielded
      return some 0 : InTurn Volume Reply) (fun _ => OnDuty) Leaves := by
    refine .bind (Ensures.adaptExcept (exec name harguments)) fun done => ?_
    split
    · exact .throw_bind fun _ h => h.toTended
    · exact .pure fun _ => id
  exact hexec t h

end OnDuty

end Turn

end CoopKernel
