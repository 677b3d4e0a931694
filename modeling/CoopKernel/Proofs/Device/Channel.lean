import CoopKernel.Device.Channel
import CoopKernel.Proofs.Device.Traffic

/-!
# A channel device keeps the order of its bytes

Whatever turns the reader, the writer and the device take, the bytes on the way to the device stay in the order of the
source, and so do those on the way to the writer: each way conserves its bytes by every move.
-/

namespace CoopKernel.Channel

/-- A device whose reader has the given bytes, and whose writer stops on the byte after as many as `limit`. -/
def fresh (source : List UInt8) (limit : Option Nat) : Channel :=
  { source, limit }

/-! ## What comes out by a move -/

/-- What a move returns to those who read from the device. -/
def returned (c : Channel) : Move → List UInt8
  | .read => c.next?.toList
  | _ => []

/-- What a move brings into the device. -/
def written (c : Channel) : Move → List UInt8
  | .write b => if c.accepts then [b] else []
  | _ => []

/-- What a move hands to the writer, which may stop on it. -/
def handed (c : Channel) : Move → List UInt8
  | .serve => if c.stopped then [] else c.queue.take 1
  | _ => []

/-- The bytes that the moves ask the device to take. -/
def writes : List Move → List UInt8
  | [] => []
  | .write b :: moves => b :: writes moves
  | _ :: moves => writes moves

/-- What a writer with the given limit keeps of what it is handed. -/
def keeps : Option Nat → List UInt8 → List UInt8
  | none, bytes => bytes
  | some n, bytes => bytes.take n

/-- What is on its way to the device, the next byte first. -/
def pending (c : Channel) : List UInt8 :=
  c.slot.toList ++ c.hand.toList ++ c.source

variable {c : Channel}

theorem run_append (c : Channel) (moves more : List Move) : c.run (moves ++ more) = (c.run moves).run more :=
  List.foldl_append

/-! ## What a move does -/

/-- What a move does: nothing, if it is not possible, and then nothing comes out either. -/
inductive Moves (c : Channel) : Move → Channel → Prop
  | idle {m : Move} : m ≠ .close → returned c m = [] → written c m = [] → handed c m = [] → Moves c m c
  | take {b : UInt8} {source : List UInt8} : c.hand = none → c.source = b :: source →
      Moves c .take { c with hand := some b, source }
  | pass {b : UInt8} : c.hand = some b → c.slot = none → Moves c .pass { c with hand := none, slot := some b }
  | read {b : UInt8} : c.closed = false → c.slot = some b →
      Moves c .read { c with slot := none, readOut := c.readOut ++ [b] }
  | write (b : UInt8) : c.accepts = true →
      Moves c (.write b) { c with accepted := c.accepted ++ [b], queue := c.queue ++ [b] }
  | serve {b : UInt8} {queue : List UInt8} : c.stopped = false → c.queue = b :: queue → c.limit ≠ some 0 →
      Moves c .serve { c with queue, sink := c.sink ++ [b], limit := c.limit.map Nat.pred }
  | stop {b : UInt8} {queue : List UInt8} : c.stopped = false → c.queue = b :: queue → c.limit = some 0 →
      Moves c .serve { c with queue, stopped := true }
  | close : Moves c .close { c with closed := true }

theorem moves_move (c : Channel) (m : Move) : Moves c m (c.move m) := by
  cases m with
  | take =>
    unfold move
    dsimp only
    split
    next hhand hsource => exact .take hhand hsource
    next => exact .idle nofun rfl rfl rfl
  | pass =>
    unfold move
    dsimp only
    split
    next hhand hslot =>
      split
      · exact .idle nofun rfl rfl rfl
      · exact .pass hhand hslot
    next => exact .idle nofun rfl rfl rfl
  | read =>
    unfold move
    dsimp only
    split
    next hnext =>
      unfold next? at hnext
      split at hnext
      next => cases hnext
      next hopen => exact .read (Bool.eq_false_iff.mpr hopen) hnext
    next hnext => exact .idle nofun (by simp [returned, hnext]) rfl rfl
  | write b =>
    unfold move
    dsimp only
    split
    next haccepts => exact .write b haccepts
    next hrefuses => exact .idle nofun rfl (by simp [written, hrefuses]) rfl
  | serve =>
    unfold move
    dsimp only
    split
    next hstopped => exact .idle nofun rfl rfl (by simp [handed, hstopped])
    next hgoes =>
      have hgoes : c.stopped = false := Bool.eq_false_iff.mpr hgoes
      split
      next hqueue => exact .idle nofun rfl rfl (by simp [handed, hqueue])
      next hqueue hlimit => simpa [hlimit] using Moves.serve hgoes hqueue (by simp [hlimit])
      next hqueue hlimit => simpa [hlimit] using Moves.serve hgoes hqueue (by simp [hlimit])
      next hqueue hlimit => exact .stop hgoes hqueue hlimit
  | close => exact .close

variable {c' : Channel} {m : Move}

/-- Only who closes a device makes it closed. -/
theorem Moves.closed (h : Moves c m c') (hopen : c.closed = false) (hclose : m ≠ .close) : c'.closed = false := by
  cases h with
  | close => exact absurd rfl hclose
  | _ => exact hopen

theorem closed_run (hopen : c.closed = false) {moves : List Move} (hclose : .close ∉ moves) :
    (c.run moves).closed = false := by
  induction moves generalizing c with
  | nil => exact hopen
  | cons m moves ih =>
    rw [List.mem_cons, not_or] at hclose
    exact ih ((moves_move c m).closed hopen (Ne.symm hclose.1)) hclose.2

/-! ## From the source to the device -/

theorem Moves.pending (h : Moves c m c') : c.pending = returned c m ++ c'.pending := by
  cases h with
  | idle _ hreturned => simp [hreturned]
  | take hhand hsource => simp [returned, Channel.pending, hhand, hsource]
  | pass hhand hslot => simp [returned, Channel.pending, hhand, hslot]
  | read hopen hslot => simp [returned, next?, Channel.pending, hopen, hslot]
  | write | serve | stop | close => rfl

theorem Moves.readOut (h : Moves c m c') : c'.readOut = c.readOut ++ returned c m := by
  cases h with
  | idle _ hreturned => simp [hreturned]
  | read hopen hslot => simp [returned, next?, hopen, hslot]
  | take | pass | write | serve | stop | close => exact (List.append_nil _).symm

theorem pending_conserves : Conserves move pending (fun _ _ => []) returned := by
  intro c m
  rw [List.append_nil]
  exact (moves_move c m).pending

theorem readOut_conserves : Conserves move readOut returned fun _ _ => [] := by
  intro c m
  exact (moves_move c m).readOut.symm

/-- Nobody but a reader of the device, or who closes it, takes away the byte that waits. -/
theorem Moves.next? (h : Moves c m c') {b : UInt8} (hnext : c.next? = some b) (hread : m ≠ .read)
    (hclose : m ≠ .close) : c'.next? = some b := by
  cases h with
  | pass hhand hslot => simp [Channel.next?, hslot] at hnext
  | read => exact absurd rfl hread
  | close => exact absurd rfl hclose
  | idle | take | write | serve | stop => exact hnext

theorem next?_run {b : UInt8} (h : c.next? = some b) {moves : List Move} (hread : .read ∉ moves)
    (hclose : .close ∉ moves) : (c.run moves).next? = some b := by
  induction moves generalizing c with
  | nil => exact h
  | cons m moves ih =>
    rw [List.mem_cons, not_or] at hread hclose
    exact ih ((moves_move c m).next? h (Ne.symm hread.1) (Ne.symm hclose.1)) hread.2 hclose.2

theorem ready_eq_isSome_next? (c : Channel) : c.ready = c.next?.isSome := by
  unfold ready Channel.next?
  cases c.closed <;> rfl

theorem next?_eq_none_of_pending (h : c.pending = []) : c.next? = none := by
  have hslot : c.slot = none := by
    simp only [pending, List.append_eq_nil_iff, Option.toList_eq_nil_iff] at h
    exact h.1.1
  simp [Channel.next?, hslot]

/-- Three turns of the reader are enough for the next byte to wait. -/
theorem ready_of_pending (hopen : c.closed = false) (hpending : c.pending ≠ []) :
    (c.run [.pass, .take, .pass]).ready = true := by
  cases hslot : c.slot with
  | some b =>
    have hnext : c.next? = some b := by simp [next?, hopen, hslot]
    rw [ready_eq_isSome_next?, next?_run hnext (by simp) (by simp)]
    rfl
  | none =>
    cases hhand : c.hand with
    | some b =>
      have hnext : (c.move .pass).next? = some b := by simp [move, next?, hopen, hslot, hhand]
      have hready : ((c.move .pass).run [.take, .pass]).ready = true := by
        rw [ready_eq_isSome_next?, next?_run hnext (by simp) (by simp)]
        rfl
      exact hready
    | none =>
      cases hsource : c.source with
      | nil => simp [pending, hslot, hhand, hsource] at hpending
      | cons b source => simp [run, move, ready, hopen, hslot, hhand, hsource]

/-! ## From the device to the writer -/

theorem Moves.queue (h : Moves c m c') : c.queue ++ written c m = handed c m ++ c'.queue := by
  cases h with
  | idle _ _ hwritten hhanded => simp [hwritten, hhanded]
  | write b haccepts => simp [written, handed, haccepts]
  | serve hgoes hqueue => simp [written, handed, hgoes, hqueue]
  | stop hgoes hqueue => simp [written, handed, hgoes, hqueue]
  | take | pass | read | close => exact List.append_nil _

theorem Moves.accepted (h : Moves c m c') : c'.accepted = c.accepted ++ written c m := by
  cases h with
  | idle _ _ hwritten => simp [hwritten]
  | write b haccepts => simp [written, haccepts]
  | take | pass | read | serve | stop | close => exact (List.append_nil _).symm

theorem queue_conserves : Conserves move queue written handed := by
  intro c m
  exact (moves_move c m).queue

theorem accepted_conserves : Conserves move accepted written fun _ _ => [] := by
  intro c m
  exact (moves_move c m).accepted.symm

/-- What the writer keeps of a byte that it is handed now, and of others later. -/
theorem Moves.sink (h : Moves c m c') (later : List UInt8) :
    c'.sink ++ keeps c'.limit later = c.sink ++ keeps c.limit (handed c m ++ later) := by
  cases h with
  | idle _ _ _ hhanded => simp [hhanded]
  | serve hgoes hqueue hlimit =>
    rcases hn : c.limit with - | - | n
    · simp [handed, keeps, hgoes, hqueue]
    · exact absurd hn hlimit
    · simp [handed, keeps, hgoes, hqueue]
  | stop hgoes hqueue hlimit => simp [keeps, hlimit]
  | take | pass | read | write | close => rfl

theorem sink_run (c : Channel) (moves : List Move) :
    (c.run moves).sink = c.sink ++ keeps c.limit (along move handed c moves) := by
  induction moves generalizing c with
  | nil =>
    cases hlimit : c.limit with
    | none => simp [run, along, keeps]
    | some n => simp [run, along, keeps]
  | cons m moves ih =>
    rw [along, ← (moves_move c m).sink]
    exact ih (c.move m)

/-! ## Refusals -/

/-- A device that refuses bytes goes on to do so. -/
theorem Moves.refuses (h : Moves c m c') (hrefuses : c.accepts = false) : c'.accepts = false := by
  cases h with
  | write b haccepts => cases hrefuses.symm.trans haccepts
  | stop => simp [accepts]
  | close => simp [accepts]
  | idle | take | pass | read | serve => exact hrefuses

theorem along_written_of_refuses (h : c.accepts = false) (moves : List Move) : along move written c moves = [] := by
  induction moves generalizing c with
  | nil => rfl
  | cons m moves ih =>
    rw [along, ih ((moves_move c m).refuses h), List.append_nil]
    cases m with
    | write b => simp [written, h]
    | take | pass | read | serve | close => rfl

/-- What a device accepts is what it was asked to take up to some moment. -/
theorem along_written_prefix (c : Channel) (moves : List Move) : along move written c moves <+: writes moves := by
  induction moves generalizing c with
  | nil => exact List.prefix_rfl
  | cons m moves ih =>
    cases m with
    | write b =>
      cases haccepts : c.accepts with
      | false =>
        rw [along_written_of_refuses haccepts]
        exact List.nil_prefix
      | true =>
        simp only [along, written, haccepts, writes]
        exact List.prefix_cons_inj b |>.mpr (ih _)
    | take | pass | read | serve | close => exact ih _

/-! ## A writer that never stops -/

/-- The writer has not stopped and has no limit. -/
def Tireless (c : Channel) : Prop :=
  c.limit = none ∧ c.stopped = false

theorem Moves.tireless (h : Moves c m c') (htireless : c.Tireless) : c'.Tireless := by
  cases h with
  | serve => exact ⟨by simp [htireless.1], htireless.2⟩
  | stop _ _ hlimit => cases htireless.1.symm.trans hlimit
  | idle | take | pass | read | write | close => exact htireless

theorem tireless_run (h : c.Tireless) (moves : List Move) : (c.run moves).Tireless := by
  induction moves generalizing c with
  | nil => exact h
  | cons m moves ih => exact ih ((moves_move c m).tireless h)

/-- As long as it is open, a device in front of such a writer accepts every byte. -/
theorem along_written_of_tireless (h : c.Tireless) (hopen : c.closed = false) {moves : List Move}
    (hclose : .close ∉ moves) : along move written c moves = writes moves := by
  induction moves generalizing c with
  | nil => rfl
  | cons m moves ih =>
    rw [List.mem_cons, not_or] at hclose
    have hmove := moves_move c m
    rw [along, ih (hmove.tireless h) (hmove.closed hopen (Ne.symm hclose.1)) hclose.2]
    cases m with
    | write b => simp [written, accepts, hopen, h.2, writes]
    | take | pass | read | serve | close => rfl

/-- Each turn of such a writer takes a byte off the queue of a device that takes no more. -/
theorem Moves.served (h : Moves c m c') (htireless : c.Tireless) (hrefuses : c.accepts = false) :
    c'.queue = c.queue.drop ([m].count .serve) := by
  cases h with
  | idle _ _ _ hhanded =>
    by_cases hserve : m = .serve
    · subst hserve
      have hqueue : c.queue = [] := by simpa [handed, htireless.2] using hhanded
      simp [hqueue]
    · simp [hserve]
  | write b haccepts => cases hrefuses.symm.trans haccepts
  | serve _ hqueue => simp [hqueue]
  | stop _ _ hlimit => cases htireless.1.symm.trans hlimit
  | take | pass | read | close => simp

theorem queue_run_of_tireless (h : c.Tireless) (hrefuses : c.accepts = false) (moves : List Move) :
    (c.run moves).queue = c.queue.drop (moves.count .serve) := by
  induction moves generalizing c with
  | nil => rfl
  | cons m moves ih =>
    have hmove := moves_move c m
    calc
      (c.run (m :: moves)).queue = (c.move m).queue.drop (moves.count .serve) :=
        ih (hmove.tireless h) (hmove.refuses hrefuses)
      _ = c.queue.drop ([m].count .serve + moves.count .serve) := by
        rw [hmove.served h hrefuses, List.drop_drop]
      _ = c.queue.drop ((m :: moves).count .serve) := by
        rw [← List.count_append]
        rfl

/-! ## The whole device -/

/-- What comes out of a device along some moves, which start with the whole source before its reader. -/
structure InOrder (source : List UInt8) (limit : Option Nat) (moves : List Move) : Prop where
  /-- What the device returned is a front part of the source. -/
  returned_prefix : along move returned (fresh source limit) moves <+: source
  /-- The rest of the source is with the reader or waits to be read. -/
  conserved : along move returned (fresh source limit) moves ++ ((fresh source limit).run moves).pending = source
  readOut : ((fresh source limit).run moves).readOut = along move returned (fresh source limit) moves
  /-- A device that is ready returns a byte when it is next read, whatever reader and writer do until then. -/
  returned_of_ready : ((fresh source limit).run moves).ready = true → ∃ b, ∀ others, .read ∉ others →
    .close ∉ others → returned ((fresh source limit).run (moves ++ others)) .read = [b]
  /-- Behind the last byte of the source, the device never returns anything. -/
  returned_of_drained : along move returned (fresh source limit) moves = source → ∀ others,
    returned ((fresh source limit).run (moves ++ others)) .read = []
  /-- As long as it is open and has not returned the whole source, the device is ready again after some turns of its
  reader. -/
  ready_again : .close ∉ moves → along move returned (fresh source limit) moves ≠ source →
    ((fresh source limit).run (moves ++ [.pass, .take, .pass])).ready = true
  /-- What the writer was handed is a front part of what the device accepted. -/
  handed_prefix : along move handed (fresh source limit) moves <+: along move written (fresh source limit) moves
  accepted : ((fresh source limit).run moves).accepted = along move written (fresh source limit) moves
  /-- What the device accepted is a front part of what it was asked to take. -/
  written_prefix : along move written (fresh source limit) moves <+: writes moves
  sink : ((fresh source limit).run moves).sink = keeps limit (along move handed (fresh source limit) moves)
  /-- Once the device is closed, a writer that never stops is handed all that was written, after as many turns as bytes
  were still on their way. -/
  handed_all : limit = none → .close ∉ moves → ∀ others,
    ((fresh source limit).run moves).queue.length ≤ others.count .serve →
    along move handed (fresh source limit) (moves ++ .close :: others) = writes moves

/-- A channel device keeps the order of its bytes both ways, whatever turns it takes with its reader and its writer. -/
theorem channel_keeps_order (source : List UInt8) (limit : Option Nat) (moves : List Move) :
    InOrder source limit moves where
  returned_prefix := ⟨_, pending_conserves.drains (fresh source limit) moves⟩
  conserved := pending_conserves.drains (fresh source limit) moves
  readOut := readOut_conserves.fills (fresh source limit) moves
  returned_of_ready := by
    intro hready
    rw [ready_eq_isSome_next?] at hready
    obtain ⟨b, hnext⟩ := Option.isSome_iff_exists.mp hready
    refine ⟨b, ?_⟩
    intro others hread hclose
    rw [run_append, returned, next?_run hnext hread hclose]
    rfl
  returned_of_drained := by
    intro hdrained others
    have hpending : ((fresh source limit).run moves).pending = [] := by
      have htotal :
          along move returned (fresh source limit) moves ++ ((fresh source limit).run moves).pending = source :=
        pending_conserves.drains (fresh source limit) moves
      rw [hdrained] at htotal
      exact List.append_right_eq_self.mp htotal
    have hrest : along move returned ((fresh source limit).run moves) others ++
        (((fresh source limit).run moves).run others).pending = ((fresh source limit).run moves).pending :=
      pending_conserves.drains ((fresh source limit).run moves) others
    rw [hpending, List.append_eq_nil_iff, ← run_append] at hrest
    rw [returned, next?_eq_none_of_pending hrest.2]
    rfl
  ready_again := by
    intro hclose hrest
    have hpending : ((fresh source limit).run moves).pending ≠ [] := by
      intro hnone
      have htotal :
          along move returned (fresh source limit) moves ++ ((fresh source limit).run moves).pending = source :=
        pending_conserves.drains (fresh source limit) moves
      rw [hnone, List.append_nil] at htotal
      exact hrest htotal
    rw [run_append]
    exact ready_of_pending (closed_run rfl hclose) hpending
  handed_prefix := ⟨_, (queue_conserves.total (fresh source limit) moves).symm⟩
  accepted := accepted_conserves.fills (fresh source limit) moves
  written_prefix := along_written_prefix (fresh source limit) moves
  sink := sink_run (fresh source limit) moves
  handed_all := by
    intro hlimit hclose others hserved
    have hfresh : (fresh source limit).Tireless := ⟨hlimit, rfl⟩
    have hclosed := (moves_move _ .close).tireless (tireless_run hfresh moves)
    have hrefuses : (((fresh source limit).run moves).move .close).accepts = false := by
      simp [move, accepts]
    have hqueue : ((fresh source limit).run (moves ++ .close :: others)).queue = [] := by
      rw [run_append]
      exact (queue_run_of_tireless hclosed hrefuses others).trans (List.drop_eq_nil_of_le hserved)
    have hafter : along move written ((fresh source limit).run moves) (.close :: others) = [] :=
      along_written_of_refuses hrefuses others
    have hwritten : along move written (fresh source limit) (moves ++ .close :: others) = writes moves := by
      calc
        along move written (fresh source limit) (moves ++ .close :: others)
        _ = along move written (fresh source limit) moves ++
            along move written ((fresh source limit).run moves) (.close :: others) := along_append ..
        _ = writes moves := by rw [along_written_of_tireless hfresh rfl hclose, hafter, List.append_nil]
    have hhanded : [] ++ along move written (fresh source limit) (moves ++ .close :: others) =
        along move handed (fresh source limit) (moves ++ .close :: others) ++
          ((fresh source limit).run (moves ++ .close :: others)).queue :=
      queue_conserves.total (fresh source limit) (moves ++ .close :: others)
    rw [hqueue, hwritten, List.append_nil, List.nil_append] at hhanded
    exact hhanded.symm

/-- A reader that is a byte ahead, and a writer that stops on the second byte. -/
example : let moves := [.take, .pass, .take, .write 7, .read, .write 8, .serve, .pass, .serve, .write 9, .read]
    along move returned (fresh [1, 2] (some 1)) moves = [1, 2] ∧
      along move handed (fresh [1, 2] (some 1)) moves = [7, 8] ∧ ((fresh [1, 2] (some 1)).run moves).sink = [7] := by
  decide

end CoopKernel.Channel
