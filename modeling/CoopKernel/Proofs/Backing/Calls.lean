import CoopKernel.Proofs.Backing.Making

/-!
# Backing files during a turn

The process whose turn it is keeps its own file in order and never touches that of another, as long as it
does not write to one by path or handle. How its turn may end is told by `Turn.Leaves`.
-/

namespace CoopKernel

open AddressSpace (Contained)
open Volume (Spares)

namespace Demands

theorem set_set (D : Demands) (pid : Pid) (P Q : Option (Bytes → Prop)) :
    (D.set pid P).set pid Q = D.set pid Q := by
  funext q
  unfold set
  split <;> rfl

end Demands

namespace Turn

/-- The process whose turn it is is at work and active, and everybody else's file is proper. -/
structure OnDuty (t : Turn Volume) : Prop extends t.Tended Demands.strict where
  active : ∀ p, t.kernel.table.process? t.self.pid = some p → p.status = .active

/-- What is known where a turn ends before its budget is used up. -/
def Leaves : TurnEnd → Turn Volume → Prop
  | .yielded, t | .blocked, t => t.Tended Demands.strict
  | .exited, t => Sound Demands.strict t.kernel
  | .faulted f, t => f ≠ .corruptState ∧ Sound (Demands.strict.set t.self.pid none) t.kernel
  | .overflowed, _ => False

variable {α : Type}

theorem leaves_of_fault {e : TurnEnd} {t : Turn Volume} (he : OnFault (· ≠ .corruptState) e)
    (h : t.OnDuty) : Leaves e t := by
  cases e with
  | faulted f => exact ⟨he, h.sound⟩
  | yielded | blocked | exited | overflowed => exact he.elim

namespace OnDuty

variable {t : Turn Volume}

/-! ## Work on others -/

/-- The kernel works on others. Meanwhile the file of the process is to stay as it is. -/
theorem others (h : t.OnDuty) {k : Kernel Volume} (hruled : Kernel.Ruled t.kernel k)
    (hseat : ∀ p, Stays (Kernel.Undisturbed t.self.pid p) t.kernel k)
    (hsound : ∀ D : Demands, D.Total → (∀ q, q ≠ t.self.pid → D q = some Proper) →
      Sound D t.kernel → Sound D k) : OnDuty { t with kernel := k } := by
  obtain ⟨content, hc, -⟩ := h.fits.content
  obtain ⟨p, hp, hbacking⟩ := h.seat
  have hactive := h.active p hp
  have hplace := h.place
  have hpath := h.path
  let D := Demands.strict.set t.self.pid (some (· = content))
  have hD : D t.self.pid = some (· = content) := Demands.strict.set_self _ _
  have hfree : D.set t.self.pid none = Demands.strict.set t.self.pid none := Demands.set_set _ _ _ _
  have hbefore : Sound D t.kernel := by
    have hrest : Sound (D.set t.self.pid none) t.kernel := hfree ▸ h.sound
    refine hrest.of_set_none fun {q P} hq hP => ?_
    have hsame : q = p := Option.some.inj (hq.symm.trans hp)
    rw [hD] at hP
    cases hP
    refine ⟨⟨?_, content, ?_, rfl⟩, .inr (hsame ▸ hactive)⟩
    · rw [hsame, hbacking, ← hplace]
      exact hpath
    · rw [← hplace]
      exact hc
  have hafter : Sound D k := hsound D (Demands.strict_total.set _ _)
    (fun q hq => Demands.strict.set_of_ne hq _) hbefore
  have hp' : k.table.process? t.self.pid = some p :=
    (hseat p ⟨hp, fun _ _ he => by rw [hactive] at he; cases he⟩).1
  obtain ⟨hpath', content', hc', he⟩ := hafter.kept hp' hD
  have hdir : k.settings.tmpDir = t.kernel.settings.tmpDir := by rw [hruled]
  have hplace' : k.backingPath t.self.pid = t.self.backingPath := by
    rw [hplace, Kernel.backingPath, Kernel.backingPath, hdir]
  have hspares : Spares t.self.backing t.self.backingPath t.kernel.store k.store := by
    refine ⟨?_, ?_⟩
    · rw [← hbacking, hpath', hbacking, hpath, hplace']
    · have hbefore : t.kernel.store.content? t.self.backingPath = some content := hc
      rw [hbefore, ← hplace', hc', he]
  refine ⟨h.toTended.others ?_ ⟨p, hp', hbacking⟩ hdir hspares, fun q hq => ?_⟩
  · rw [← hfree]
    exact hafter.set_none _
  · exact Option.some.inj (hq.symm.trans hp') ▸ hactive

theorem onOther {act : Attempt Volume α} {target : Pid} (h : t.OnDuty) (hne : target ≠ t.self.pid)
    (hlive : t.kernel.table.isLive target) (hin : Inward act)
    (hact : ∀ D : Demands, Works (Stays (Turn.Tended D)) (· ≠ .corruptState) act)
    (hsettled : Keeps Settled act) :
    OnDuty { t with kernel := (t.kernel.withLoaded Kernel.fault target act).2 } := by
  refine h.others (Kernel.governed_ruled.withLoaded hin _ target)
    (fun _ => Kernel.undisturbed_withLoaded hin hne) fun D hD hothers hs => ?_
  obtain ⟨r, hr⟩ := Table.isLive_iff.mp hlive
  exact hs.withLoaded hD hr (hothers target hne) (hact D) hsettled

theorem killOther (h : t.OnDuty) {target : Pid} (hne : target ≠ t.self.pid) (status : UInt16) :
    OnDuty { t with kernel := (t.kernel.kill target status).2 } :=
  h.others (Kernel.ruled_kill _ target status) (fun _ => Kernel.undisturbed_kill hne status)
    fun _ hD _ hs => (hs.set_none target).kill hD status

theorem forked (h : t.OnDuty) : OnDuty { t with kernel := (t.kernel.fork t.self).2 } := by
  refine h.others (Kernel.ruled_fork _ t.self) (fun _ => Kernel.undisturbed_fork)
    fun D hD hothers hs => hs.fork hD (fun {q} hq => hothers q ?_) h.neat
  rintro rfl
  obtain ⟨p, hp, -⟩ := h.seat
  rw [hp] at hq
  cases hq

/-! ## At home -/

theorem domestic : Domestic Contained (Stays OnDuty) (· ≠ .corruptState) where
  memory := AddressSpace.tame_contained
  space _ _ hs h := ⟨(Tended.domestic _).space _ _ hs h.toTended, h.active⟩
  glance _ g offset count h := ⟨(Tended.domestic _).glance _ g offset count h.toTended, h.active⟩
  window _ w h := ⟨(Tended.domestic _).window _ w h.toTended, h.active⟩
  state _ s henv hlength hhandlers h :=
    ⟨(Tended.domestic _).state _ s henv hlength hhandlers h.toTended, h.active⟩
  handler _ signal address hset h :=
    ⟨(Tended.domestic _).handler _ signal address hset h.toTended, h.active⟩
  stdio _ g h := ⟨(Tended.domestic _).stdio _ g h.toTended, h.active⟩

theorem lift {act : Attempt Volume α} (h : Works (Stays OnDuty) (· ≠ .corruptState) act) :
    Ensures OnDuty (monadLift act : InTurn Volume α) (fun _ => OnDuty) Leaves := by
  intro t ht
  refine (lift_works h t).mono (fun _ _ hr => hr ht) fun e t' hr => leaves_of_fault hr.1 (hr.2 ht)

/-- The storage does something that leaves all backing files as they are. -/
theorem stored (h : t.OnDuty) {s : Volume}
    (hsound : Sound (Demands.strict.set t.self.pid none) { t.kernel with store := s })
    (hspares : Spares t.self.backing t.self.backingPath t.kernel.store s) :
    OnDuty { t with kernel := { t.kernel with store := s } } :=
  ⟨h.toTended.others hsound h.seat rfl hspares, h.active⟩

theorem note (h : t.OnDuty) {e : Event} (he : ∀ pid, e ≠ .faulted pid .corruptState) :
    OnDuty { t with kernel := t.kernel.note e } :=
  ⟨h.toTended.note he, h.active⟩

theorem addCount (h : t.OnDuty) (pid : Pid) :
    OnDuty { t with kernel := t.kernel.onTable (·.addCount pid) } := by
  refine ⟨h.toTended.addCount pid, fun p hp => ?_⟩
  rcases Table.process?_modify_cases hp with ⟨hpid, q, hq, rfl⟩ | ⟨_, hq⟩
  · exact h.active q (hpid ▸ hq)
  · exact h.active p hq

/-- Everybody's file is open. -/
theorem backing_open (h : t.OnDuty) {pid : Pid} {p : Process}
    (hp : t.kernel.table.process? pid = some p) : (t.kernel.store.pathOf? p.backing).isSome := by
  by_cases hpid : pid = t.self.pid
  · subst hpid
    obtain ⟨q, hq, hbacking⟩ := h.seat
    have hpath := h.path
    rw [Option.some.inj (hp.symm.trans hq), hbacking, hpath]
    rfl
  · rw [(h.sound.kept hp (Demands.strict.set_of_ne hpid none)).path]
    rfl

theorem opened (h : t.OnDuty) (q : Path) :
    OnDuty { t with kernel := { t.kernel with store := (t.kernel.store.openPath q).2 } } := by
  have hpath := h.path
  exact h.stored (h.sound.opened q h.backing_open)
    (Volume.spares_openPath q (by rw [hpath]; rfl))

theorem deleted (h : t.OnDuty) (q : Path) :
    OnDuty { t with kernel := { t.kernel with store := (t.kernel.store.delete q).2 } } :=
  h.stored (h.sound.deleted q) (Volume.spares_delete q h.path)

/-- A handle that nobody keeps a file by can be closed. -/
theorem closed (h : t.OnDuty) {g : Handle}
    (hg : ∀ {pid p}, t.kernel.table.process? pid = some p → g ≠ p.backing) :
    OnDuty { t with kernel := { t.kernel with store := t.kernel.store.close g } } := by
  obtain ⟨p, hp, hbacking⟩ := h.seat
  exact h.stored (h.sound.closed fun hp _ => hg hp) (Volume.spares_close (hbacking ▸ hg hp))

/-! ## System calls -/

theorem exit (status : UInt16) :
    Ensures OnDuty (Turn.exit status : InTurn Volume Reply) (fun _ => OnDuty) Leaves :=
  fun _ h => h.sound.kill Demands.strict_total status

theorem fork : Ensures OnDuty (Turn.fork : InTurn Volume Reply) (fun _ => OnDuty) Leaves := by
  intro t h
  have hforked := h.forked
  rcases hf : t.kernel.fork t.self with ⟨made, k⟩
  rw [hf] at hforked
  have hset : ∀ {k : Kernel Volume} (result : UInt16), OnDuty { t with kernel := k } →
      Leaves .yielded ⟨k, { t.self with state := t.self.state.setReg Reg.result result }⟩ :=
    fun result h => h.toTended.within rfl rfl h.neat
  cases made with
  | ok child =>
    simp only [Turn.fork, onKernel, bind, EStateM.bind, get_run, hf]
    exact hset child.word hforked
  | error e =>
    simp only [Turn.fork, onKernel, bind, EStateM.bind, get_run, hf]
    exact hset noProcess (hforked.note (e := .forkFailed t.self.pid e) fun _ => Event.noConfusion)

theorem waitPid (target timeout : UInt16) :
    Ensures OnDuty (Turn.waitPid target timeout : InTurn Volume Reply) (fun _ => OnDuty) Leaves := by
  unfold Turn.waitPid
  refine .get_bind_eq fun t h => ?_
  dsimp only
  split
  · exact .pure fun _ he => he ▸ h
  · split
    · exact .pure fun _ he => he ▸ h
    · rintro t' rfl
      exact (h.toTended.setStatus _).note fun _ => nofun

theorem readCall (g : Handle) (offset buffer length : UInt16) :
    Ensures OnDuty (Turn.readCall g offset buffer length : InTurn Volume Reply) (fun _ => OnDuty)
      Leaves := by
  unfold Turn.readCall
  refine .bind (lift (domestic.ask _)) fun gone => ?_
  split
  · exact .pure fun _ => id
  · refine .bind (lift (domestic.ask _)) fun ready => ?_
    split
    · refine .get_bind_eq fun t h => ?_
      rintro t' rfl
      have hback : Turn.Tended Demands.strict { t' with self := { t'.self with
          state := t'.self.state.setReg Reg.ip (t'.self.state.reg Reg.ip - 1) } } :=
        h.toTended.within rfl rfl h.neat
      exact (hback.setStatus (.waitingToRead g)).note fun _ => nofun
    · exact .bind (lift (domestic.access (domestic.memory.receive _ _ _ _))) fun _ => .pure fun _ => id

theorem openCall (address : UInt16) :
    Works (Stays OnDuty) (· ≠ .corruptState) (Turn.openCall address : Attempt Volume Reply) :=
  domestic.openCall (fun _ => .modifyGet fun _ h => h.opened _) address

theorem closeCall (g : Handle) :
    Ensures OnDuty (Turn.closeCall g : Attempt Volume Reply) (fun _ => OnDuty) fun _ _ => False := by
  unfold Turn.closeCall
  refine .get_bind_eq fun t h => ?_
  dsimp only
  split
  · next hunused =>
    rintro t' rfl
    refine h.closed fun {pid p} hp he => ?_
    simp only [Bool.not_eq_true', List.any_eq_false, Table.mem_live, Table.uses_iff] at hunused
    exact hunused pid ⟨p, hp⟩ ⟨p, hp, .inr he.symm⟩
  · exact .pure fun _ he => he ▸ h

theorem deleteCall (address : UInt16) :
    Works (Stays OnDuty) (· ≠ .corruptState) (Turn.deleteCall address : Attempt Volume Reply) :=
  domestic.deleteCall (fun _ => .modifyGet fun _ h => h.deleted _) address

/-- Work that may make the process active leaves it on duty. -/
theorem of_inward {act : Attempt Volume α} (hin : Inward act)
    (h : Works (Stays (Turn.Tended Demands.strict)) (· ≠ .corruptState) act) :
    Works (Stays OnDuty) (· ≠ .corruptState) act := by
  intro t
  have hwork := h t
  have hstays := hin t.self.pid (fun t' => t'.self.pid = t.self.pid ∧
      ∀ p, t'.kernel.table.process? t'.self.pid = some p → p.status = .active)
    (fun _ h => h.1)
    (fun t₁ t₂ hq h => by
      have hpid : t₂.self.pid = t₁.self.pid := by rw [hq.self]
      have htable : t₂.kernel.table = t₁.kernel.table := by rw [hq.kernel.rest]
      rw [htable, hpid]
      exact h)
    (fun _ _ _ h => h)
    (fun t₁ h => by
      refine ⟨h.1, fun p hp => ?_⟩
      rcases Table.process?_modify_cases hp with ⟨_, q, hq, rfl⟩ | ⟨hne, _⟩
      · rfl
      · exact absurd h.1 hne) t
  cases ha : act t with
  | ok a t' =>
    rw [ha] at hwork hstays
    exact fun hduty => ⟨hwork hduty.toTended, (hstays ⟨rfl, hduty.active⟩).2⟩
  | error f t' =>
    rw [ha] at hwork hstays
    exact ⟨hwork.1, fun hduty => ⟨hwork.2 hduty.toTended, (hstays ⟨rfl, hduty.active⟩).2⟩⟩

theorem killCall (number : UInt16) :
    Ensures OnDuty (Turn.killCall number : InTurn Volume Reply) (fun _ => OnDuty) Leaves := by
  unfold Turn.killCall
  refine .get_bind_eq fun t h => ?_
  dsimp only
  split
  · exact .pure fun _ he => he ▸ h
  · next target _ =>
    split
    · exact .pure fun _ he => he ▸ h
    · split
      · next hself =>
        have hwords : Ensures (· = t) (monadLift (Turn.lastWords : Attempt Volume Bool) :
            InTurn Volume Bool) (fun _ t' => t'.OnDuty ∧ t'.self.pid = t.self.pid) Leaves := by
          rintro t' rfl
          have hwork := lift (of_inward lastWords_inward (Tended.lastWords _)) t' h
          have hself := ((lift_composed lastWords_composed).keeps t').self
          cases hr : (monadLift (Turn.lastWords : Attempt Volume Bool) : InTurn Volume Bool) t' with
          | ok handled t₁ =>
            rw [hr] at hwork
            rw [after_ok hr] at hself
            exact ⟨hwork, by rw [hself]⟩
          | error e t₁ =>
            rw [hr] at hwork
            exact hwork
        refine .bind hwords fun handled => ?_
        split
        · exact .pure fun _ h => h.1
        · rintro t' ⟨h', hpid⟩
          have hkilled := h'.sound.kill Demands.strict_total exitKilled
          rw [hpid] at hkilled
          exact hkilled
      · next hne =>
        refine .bind (Q := fun _ t' => OnDuty t' ∧ target ≠ t'.self.pid) ?_ fun handled => ?_
        · rintro t' rfl
          have hworked : OnDuty { t' with kernel := (if t'.kernel.table.isLive target then
              ((t'.kernel.withLoaded Kernel.fault target Turn.lastWords).1.getD true,
                (t'.kernel.withLoaded Kernel.fault target Turn.lastWords).2)
              else (false, t'.kernel)).2 } := by
            split
            · next hlive =>
              exact h.onOther hne hlive lastWords_inward Tended.lastWords
                fun t => (lastWords_composed.keeps t).toSettled
            · exact h
          exact ⟨hworked, hne⟩
        · split
          · exact fun t' h' => h'.1.killOther h'.2 exitKilled
          · exact .pure fun _ h' => h'.1

theorem sendSignal (number signal : UInt16) :
    Ensures OnDuty (Turn.sendSignal number signal : InTurn Volume Reply) (fun _ => OnDuty) Leaves := by
  unfold Turn.sendSignal
  split
  · exact .pure fun _ => id
  · split
    · exact .pure fun _ => id
    · next s _ _ target _ =>
      refine .get_bind_eq fun t h => ?_
      split
      · have hdeliver := lift (of_inward (deliver_inward s) (Tended.deliver _ s))
        exact .bind (hdeliver.mono (fun _ he => he ▸ h) (fun _ _ => id) fun _ _ => id) fun _ =>
          .pure fun _ => id
      · next hne =>
        refine .bind (Q := fun _ => OnDuty) ?_ fun _ => .pure fun _ => id
        rintro t' rfl
        have hsent : OnDuty { t' with kernel := (t'.kernel.sendSignal target s).2 } := by
          refine h.others (Kernel.ruled_sendSignal _ target s)
            (fun _ => Kernel.undisturbed_sendSignal hne s) fun D hD hothers hs => ?_
          exact hs.sendSignal hD (hothers target hne) s
        exact hsent

end OnDuty

end Turn

end CoopKernel
