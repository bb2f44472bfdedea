/-
# A blocking queue with one consumer

Any number of producers write to a `RX_Q_BLOCK` queue that is not cyclic, in
calls that wait until there is room, and one consumer reads from it. A
producer that finds the queue full waits on the chain at `write_task`, and
each read wakes the first of them. The woken producer runs some time later
and then writes without looking at the queue again: by that time another
producer may have filled the slot that was freed for it, and the write
overwrites the oldest unread message.

`fifo_iff_resumesWithRoom` says that this is all that can go wrong: the
messages are delivered each once and in the order they were accepted if and
only if every woken producer goes on while the queue is not full. The
consumer's side needs no such condition, because nobody else takes the message
it was woken for; this is what the invariant `BlockInv` is about.
-/
import Rosx.QueueRun
import Rosx.QueueWait

namespace Rosx

open Linked

variable {n : ℕ}

/-- The parties: `c₀` reads, the others write. A woken producer is on no chain
but has its call still pending; the consumer is woken only once there is a
message for it. -/
structure Parties (m : ℕ) (c₀ : Fin n) (k : Kernel n) (phase : Fin n → QueuePhase) (lr lw : List (Fin n)) : Prop where
  waiting : Waiting k lr (fun _ : Unit => (k.queues m).writeTask) (fun _ => lw)
  writers : ∀ t ∈ lw, ∃ msg timed, phase t = .writing msg timed
  producers : ∀ t msg timed, phase t = .writing msg timed → t ≠ c₀ ∧ timed = false ∧ (k.tcb t).err = .osOk
  readers : ∀ t timed, phase t = .reading timed → t = c₀
  asleep : ∀ t, (k.queues m).readTask = some t → t ∉ lr ∧ ∃ timed, phase t = .reading timed
  woken : ∀ timed, phase c₀ = .reading timed → (k.queues m).readTask = none → (k.queues m).isEmpty = false

namespace Parties

variable {m : ℕ} {c₀ : Fin n} {k k' : Kernel n} {phase : Fin n → QueuePhase} {lr lw : List (Fin n)} {r : Ret}

/-- The running task is on no wait chain. -/
theorem ne_curr_of_mem (h : Parties m c₀ k phase lr lw) {t : Fin n} (ht : t ∈ lw) : t ≠ k.curr := by
  rintro rfl
  exact h.waiting.lists.notReady () _ ht h.waiting.curr

theorem ne_curr_of_asleep (h : Parties m c₀ k phase lr lw) {t : Fin n} (ht : (k.queues m).readTask = some t) :
    t ≠ k.curr := by
  rintro rfl
  exact (h.asleep _ ht).1 h.waiting.curr

theorem asleep_not_mem (h : Parties m c₀ k phase lr lw) {t : Fin n} (ht : (k.queues m).readTask = some t) :
    t ∉ lr ∧ t ∉ lw := by
  obtain ⟨hr, timed, hp⟩ := h.asleep t ht
  refine ⟨hr, fun hm => ?_⟩
  obtain ⟨msg, b, hw⟩ := h.writers t hm
  rw [hp] at hw
  cases hw

/-- The chain is about other tasks than the one that runs. -/
theorem writers_update (h : Parties m c₀ k phase lr lw) (p : QueuePhase) :
    ∀ t ∈ lw, ∃ msg timed, Function.update phase k.curr p t = .writing msg timed := by
  intro t ht
  rw [Function.update_of_ne (h.ne_curr_of_mem ht)]
  exact h.writers t ht

theorem asleep_update (h : Parties m c₀ k phase lr lw) (p : QueuePhase) :
    ∀ t, (k.queues m).readTask = some t → t ∉ lr ∧ ∃ timed, Function.update phase k.curr p t = .reading timed :=
  fun t ht => by
    rw [Function.update_of_ne (h.ne_curr_of_asleep ht)]
    exact h.asleep t ht

/-- A call that ends is neither a pending write nor a pending read. -/
theorem of_update_out {t u : Fin n} {p : QueuePhase} (hp : p ≠ .out)
    (h : Function.update phase u .out t = p) : t ≠ u ∧ phase t = p := by
  by_cases ht : t = u
  · subst ht
    rw [Function.update_self] at h
    exact absurd h.symm hp
  · rw [Function.update_of_ne ht] at h
    exact ⟨ht, h⟩

/-- A call returns without having done anything. -/
theorem returned (h : Parties m c₀ k phase lr lw) (hk : k' = k ∨ k' = k.enterCritical.exitCritical) :
    Parties m c₀ k' (Function.update phase k.curr .out) lr lw := by
  obtain rfl : k' = k := hk.elim id fun hk => hk.trans (enter_exit h.waiting.port)
  refine ⟨h.waiting, h.writers_update _, fun t msg timed ht => ?_, fun t timed ht => ?_, h.asleep_update _,
    fun timed ht => ?_⟩
  · exact h.producers t msg timed (of_update_out (by simp) ht).2
  · exact h.readers t timed (of_update_out (by simp) ht).2
  · exact h.woken timed (of_update_out (by simp) ht).2

/-- A producer writes its message. -/
theorem wrote (h : Parties m c₀ k phase lr lw) {msg : List UInt8}
    (he : writeCopy k.enterCritical m msg = .ok (r, k')) :
    ∃ lr', Parties m c₀ k' (Function.update phase k.curr .out) lr' lw := by
  obtain ⟨lr', hw, -, herr, hnone, hhead, -⟩ := h.waiting.wrote (m := m)
    (fun t ht => ⟨(h.asleep_not_mem ht).1, fun _ => (h.asleep_not_mem ht).2⟩) he
  have hring := (writeCopy_enter he).2.ring
  refine ⟨lr', hw.congr_heads fun _ => hhead, h.writers_update _, fun t msg timed ht => ?_, fun t timed ht => ?_,
    fun t ht => ?_, fun _ _ _ => ?_⟩
  · rw [herr]
    exact h.producers t msg timed (of_update_out (by simp) ht).2
  · exact h.readers t timed (of_update_out (by simp) ht).2
  · rw [hnone] at ht
    cases ht
  · exact (congrArg MsgQueue.isEmpty hring).trans (MsgQueue.isEmpty_pushed _)

/-- The consumer takes a message, and the first waiting producer is woken. -/
theorem took (h : Parties m c₀ k phase lr lw) (hc : k.curr = c₀)
    (he : readCopy k.enterCritical m = .ok (r, k')) :
    ∃ lr', Parties m c₀ k' (Function.update phase k.curr .out) lr' lw.tail := by
  obtain ⟨lr', hw, hm, herr, hsame⟩ : ∃ lr',
      Waiting k' lr' (fun _ : Unit => (k'.queues m).writeTask) (fun _ => lw.tail) ∧
      (∀ u, u ∈ lr' → u ∈ lw ∨ u ∈ lr) ∧ (∀ u, (k'.tcb u).err = (k.tcb u).err) ∧
      (k'.queues m).readTask = (k.queues m).readTask := by
    have hhead : Chain k.next (k.queues m).writeTask lw := h.waiting.lists.wait ()
    cases lw with
    | nil =>
      have hnone : (k.queues m).writeTask = none := hhead
      obtain ⟨hw, herr, hr, hn, -⟩ := h.waiting.took_of_none hnone he
      exact ⟨lr, hw.congr_heads fun _ => hn.trans hnone.symm, fun u hu => .inr hu, herr, hr⟩
    | cons t l =>
      obtain ⟨lr', hw, hm, herr, hr, hl⟩ := h.waiting.took_of_cons (i := ()) rfl rfl he
      exact ⟨lr', hw.single hl, fun u hu => ((hm u).mp hu).imp_left (by rintro rfl; exact List.mem_cons_self), herr, hr⟩
  refine ⟨lr', hw, fun t ht => h.writers_update _ t (List.mem_of_mem_tail ht), fun t msg timed ht => ?_,
    fun t timed ht => ?_, fun t ht => ?_, fun timed ht => ?_⟩
  · rw [herr]
    exact h.producers t msg timed (of_update_out (by simp) ht).2
  · exact h.readers t timed (of_update_out (by simp) ht).2
  · -- only a waiting producer has become ready
    rw [hsame] at ht
    obtain ⟨htr, htw⟩ := h.asleep_not_mem ht
    exact ⟨fun hm' => (hm t hm').elim htw htr, (h.asleep_update _ t ht).2⟩
  · rw [hc, Function.update_self] at ht
    cases ht

/-- A producer begins to wait. -/
theorem blockWriter (h : Parties m c₀ k phase lr lw) (hc : k.curr ≠ c₀) (msg : List UInt8) {tm : ℕ}
    (he : blockWriter k.enterCritical m 0 tm = .ok k') :
    Parties m c₀ k' (Function.update phase k.curr (.writing msg false)) (lr.erase k.curr) (lw ++ [k.curr]) := by
  obtain ⟨hw, herr, hsame, hhead⟩ := h.waiting.blockWriter (i := ()) rfl he
  have hring := (SameRing.blockWriter he).ring
  refine ⟨hw.single hhead, fun t ht => ?_, fun t msg' timed ht => ?_, fun t timed ht => ?_, fun t ht => ?_,
    fun timed ht hn => ?_⟩
  · rcases List.mem_append.mp ht with ht | ht
    · exact h.writers_update _ t ht
    · rw [List.mem_singleton.mp ht, Function.update_self]
      exact ⟨msg, false, rfl⟩
  · rw [herr]
    by_cases htc : t = k.curr
    · subst htc
      rw [Function.update_self, QueuePhase.writing.injEq] at ht
      exact ⟨hc, ht.2.symm, if_pos rfl⟩
    · rw [Function.update_of_ne htc] at ht
      rw [if_neg htc]
      exact h.producers t msg' timed ht
  · by_cases htc : t = k.curr
    · subst htc
      rw [Function.update_self] at ht
      cases ht
    · rw [Function.update_of_ne htc] at ht
      exact h.readers t timed ht
  · rw [hsame] at ht
    obtain ⟨htr, hp⟩ := h.asleep_update (.writing msg false) t ht
    exact ⟨fun hm => htr (List.mem_of_mem_erase hm), hp⟩
  · rw [hsame] at hn
    rw [Function.update_of_ne hc.symm] at ht
    exact (congrArg MsgQueue.isEmpty hring).trans (h.woken timed ht hn)

/-- The consumer begins to wait. -/
theorem blockReader (h : Parties m c₀ k phase lr lw) (hc : k.curr = c₀) (b : Bool) {timeout : ℤ} {tm : ℕ}
    (he : blockReader k.enterCritical m timeout tm = .ok k') :
    Parties m c₀ k' (Function.update phase k.curr (.reading b)) (lr.erase k.curr) lw := by
  obtain ⟨hw, herr, hsome, hhead, -⟩ := h.waiting.blockReader he
  refine ⟨hw.congr_heads fun _ => hhead, h.writers_update _, fun t msg timed ht => ?_, fun t timed ht => ?_,
    fun t ht => ?_, fun _ _ hn => ?_⟩
  · have htc : t ≠ k.curr := by
      rintro rfl
      rw [Function.update_self] at ht
      cases ht
    rw [Function.update_of_ne htc] at ht
    rw [herr t htc]
    exact h.producers t msg timed ht
  · by_cases htc : t = k.curr
    · exact htc.trans hc
    · rw [Function.update_of_ne htc] at ht
      exact h.readers t timed ht
  · rw [hsome] at ht
    obtain rfl := Option.some.inj ht
    exact ⟨h.waiting.lists.ready.nodup.not_mem_erase, b, Function.update_self ..⟩
  · rw [hsome] at hn
    cases hn

theorem dispatch (h : Parties m c₀ k phase lr lw) {t : Fin n} (ht : (k.tcb t).state.runnable = true) (p : Bool) :
    Parties m c₀ (k.dispatch t p) phase lr lw := by
  have hq := (OffQueue.dispatch k t p).queues
  refine ⟨(h.waiting.dispatch ht p).congr_heads fun _ => by rw [hq], h.writers, fun u msg timed hu => ?_,
    h.readers, ?_, ?_⟩
  · rw [Kernel.dispatch_tcb]
    exact h.producers u msg timed hu
  · rw [hq]
    exact h.asleep
  · rw [hq]
    exact h.woken

/-- A consumer that runs again finds a message. -/
theorem not_empty (h : Parties m c₀ k phase lr lw) {timed : Bool} (hp : phase k.curr = .reading timed) :
    (k.queues m).isEmpty = false := by
  have hc : k.curr = c₀ := h.readers _ _ hp
  apply h.woken timed (hc ▸ hp)
  cases hr : (k.queues m).readTask with
  | none => rfl
  | some t =>
    obtain ⟨-, timed', hp'⟩ := h.asleep t hr
    exact absurd ((h.readers t _ hp').trans hc.symm) (h.ne_curr_of_asleep hr)

end Parties

namespace QueueSys

/-- The calls of one consumer and of producers that wait until there is room,
which is what `rx_write_to_queue` does with the timeout 0. No timer of a read
expires. -/
def Single (c₀ : Fin n) (s : QueueSys n) : QueueCall n → Prop
  | .write _ timeout _ => s.k.curr ≠ c₀ ∧ timeout = 0
  | .read _ _ _ => s.k.curr = c₀
  | .expire _ => False
  | .resume | .dispatch _ _ => True

instance (c₀ : Fin n) (s : QueueSys n) : ∀ c, Decidable (s.Single c₀ c)
  | .write _ timeout _ => inferInstanceAs (Decidable (s.k.curr ≠ c₀ ∧ timeout = 0))
  | .read _ _ _ => inferInstanceAs (Decidable (s.k.curr = c₀))
  | .expire _ => inferInstanceAs (Decidable False)
  | .resume | .dispatch _ _ => inferInstanceAs (Decidable True)

/-- The steps of the consumer and the producers, in any order. -/
def BlockStep (m : ℕ) (c₀ : Fin n) (s : QueueSys n) (c : QueueCall n × Option Ret) (s' : QueueSys n) : Prop :=
  (s.Admissible c.1 ∧ s.Single c₀ c.1) ∧ s.exec m c.1 = .ok (c.2, s')

/-- A blocking queue, full or not, that nobody waits on yet; its unread
messages are the accepted ones that have not been delivered. -/
structure BlockStart (m : ℕ) (s : QueueSys n) : Prop where
  block : (s.k.queues m).block = true
  plain : (s.k.queues m).cyclic = false
  placed : ∃ h t, (s.k.queues m).Placed h t
  reader : (s.k.queues m).readTask = none
  writer : (s.k.queues m).writeTask = none
  ready : ∃ l, Chain s.k.next s.k.readyHead l ∧ ∀ t, t ∈ l ↔ (s.k.tcb t).state.runnable = true
  curr : (s.k.tcb s.k.curr).state.runnable = true
  port : s.k.port = {}
  phase : s.phase = fun _ => .out
  fifo : Fifo m s

/-- A woken producer does not go on while the queue is full. -/
def ResumesWithRoom (m : ℕ) (s : QueueSys n) (c : QueueCall n × Option Ret) : Prop :=
  match c.1, s.phase s.k.curr with
  | .resume, .writing _ _ => (s.k.queues m).isFull = false
  | _, _ => True

instance (m : ℕ) (s : QueueSys n) (c : QueueCall n × Option Ret) : Decidable (s.ResumesWithRoom m c) := by
  unfold ResumesWithRoom
  split <;> infer_instance

/-- The ring, and the parties around it. -/
structure BlockInv (m : ℕ) (c₀ : Fin n) (s : QueueSys n) : Prop where
  ring : RingInv m s
  plain : (s.k.queues m).cyclic = false
  parties : ∃ lr lw, Parties m c₀ s.k s.phase lr lw

section Block

variable {m : ℕ} {c₀ : Fin n} {s s' : QueueSys n} {c : QueueCall n} {r : Option Ret}

theorem BlockStart.inv (h : BlockStart m s) (c₀ : Fin n) : BlockInv m c₀ s := by
  obtain ⟨lr, hr, hrun⟩ := h.ready
  have hl : Waiting s.k lr (fun _ : Unit => (s.k.queues m).writeTask) (fun _ => []) := by
    refine ⟨⟨Relinked.refl _, Or.inl h.port, hr, fun _ => ?_, ?_, ?_⟩, h.port, hrun, (hrun _).mpr h.curr⟩
    · exact h.writer
    · simp
    · simp
  have hout : ∀ t, s.phase t = .out := fun t => by rw [h.phase]
  refine ⟨⟨h.placed, fun t msg timed ht => ?_⟩, h.plain, lr, [], hl, fun t ht => ?_, fun t msg timed ht => ?_,
    fun t timed ht => ?_, fun t ht => ?_, fun timed ht => ?_⟩
  · rw [hout] at ht; cases ht
  · cases ht
  · rw [hout] at ht; cases ht
  · rw [hout] at ht; cases ht
  · rw [h.reader] at ht; cases ht
  · rw [hout] at ht; cases ht

/-- What one step does to the parties. -/
theorem step_parties {lr lw : List (Fin n)} (h : Parties m c₀ s.k s.phase lr lw) (hst : BlockStep m c₀ s (c, r) s') :
    ∃ lr' lw', Parties m c₀ s'.k s'.phase lr' lw' := by
  obtain ⟨⟨ha, hs⟩, he⟩ := hst
  cases c with
  | write msg timeout tm =>
    obtain ⟨hc, rfl⟩ := hs
    obtain ⟨⟨r', k'⟩, h1, h2⟩ := bind_eq_ok.mp he
    obtain ⟨rfl, rfl⟩ := Prod.mk.inj (Except.ok.inj h2)
    rcases rxWriteToQueue_split h1 with ⟨-, x, rfl, hk⟩ | ⟨-, rfl, -, -, hk⟩ | ⟨-, hk, hr⟩
    · obtain ⟨lr', hp⟩ := h.wrote hk
      exact ⟨lr', lw, hp⟩
    · exact ⟨_, _, h.blockWriter hc msg hk⟩
    · rcases hr with ⟨rfl, -⟩ | ⟨rfl, -⟩
      · exact ⟨lr, lw, h.returned hk⟩
      · exact ⟨lr, lw, h.returned hk⟩
  | read size timeout tm =>
    obtain ⟨⟨r', k'⟩, h1, h2⟩ := bind_eq_ok.mp he
    obtain ⟨rfl, rfl⟩ := Prod.mk.inj (Except.ok.inj h2)
    rcases rxReadFromQueue_split h1 with ⟨-, x, rfl, hk⟩ | ⟨-, rfl, -, hk⟩ | ⟨-, hk, hr⟩
    · obtain ⟨lr', hp⟩ := h.took hs hk
      exact ⟨lr', _, hp⟩
    · exact ⟨_, _, h.blockReader hs _ hk⟩
    · rcases hr with ⟨rfl, -⟩ | ⟨rfl, -⟩ | ⟨rfl, -⟩
      · exact ⟨lr, lw, h.returned hk⟩
      · exact ⟨lr, lw, h.returned hk⟩
      · exact ⟨lr, lw, h.returned hk⟩
  | resume =>
    cases hp : s.phase s.k.curr with
    | out => exact absurd hp ha
    | writing msg timed =>
      simp only [exec, hp] at he
      obtain ⟨⟨r', k'⟩, h1, h2⟩ := bind_eq_ok.mp he
      obtain ⟨rfl, rfl⟩ := Prod.mk.inj (Except.ok.inj h2)
      rcases rxWriteToQueueResume_split h1 with ⟨-, hk⟩ | ⟨-, hk, -⟩
      · obtain ⟨lr', hp⟩ := h.wrote hk
        exact ⟨lr', lw, hp⟩
      · exact ⟨lr, lw, h.returned (.inr hk)⟩
    | reading timed =>
      simp only [exec, hp] at he
      obtain ⟨⟨r', k'⟩, h1, h2⟩ := bind_eq_ok.mp he
      obtain ⟨rfl, rfl⟩ := Prod.mk.inj (Except.ok.inj h2)
      rcases rxReadFromQueueResume_split h1 with ⟨-, hk⟩ | ⟨-, hk, -⟩
      · obtain ⟨lr', hp⟩ := h.took (h.readers _ _ hp) hk
        exact ⟨lr', _, hp⟩
      · exact ⟨lr, lw, h.returned (.inr hk)⟩
  | expire tm => exact hs.elim
  | dispatch t p =>
    obtain ⟨rfl, rfl⟩ := Prod.mk.inj (Except.ok.inj he)
    exact ⟨lr, lw, h.dispatch ha p⟩

theorem BlockStep.step (hst : BlockStep m c₀ s (c, r) s') : Step m s (c, r) s' := ⟨hst.1.1, hst.2⟩

theorem step_blockInv (h : BlockInv m c₀ s) (hst : BlockStep m c₀ s (c, r) s') : BlockInv m c₀ s' := by
  obtain ⟨lr, lw, hp⟩ := h.parties
  refine ⟨step_ringInv h.ring hst.step, ?_, step_parties hp hst⟩
  rw [(step_cases hst.step).flags.1]
  exact h.plain

/-- Only a woken producer can write to a full queue, and nobody reads from an
empty one. -/
theorem fifoSafe_iff_resumesWithRoom (h : BlockInv m c₀ s) (hst : BlockStep m c₀ s (c, r) s') :
    FifoSafe m s (c, r) ↔ ResumesWithRoom m s (c, r) := by
  obtain ⟨lr, lw, hp⟩ := h.parties
  obtain ⟨⟨ha, hs⟩, -⟩ := hst
  cases c with
  | write msg timeout tm =>
    refine iff_of_true ⟨fun hw => ?_, fun ht => by cases ht⟩ trivial
    have hf : writeFits s.k m msg.length = true := by
      by_contra hf
      exact hw (if_neg hf)
    simp only [writeFits, h.plain, Bool.and_eq_true, Bool.not_false, Bool.and_true, Bool.not_eq_true'] at hf
    exact hf.2
  | read size timeout tm =>
    refine iff_of_true ⟨fun hw => absurd rfl hw, fun ht => ?_⟩ trivial
    simp only [takes, readTakes, Bool.and_eq_true, Bool.not_eq_true'] at ht
    exact ht.2
  | resume =>
    cases hph : s.phase s.k.curr with
    | out => exact absurd hph ha
    | writing msg timed =>
      obtain ⟨-, rfl, herr⟩ := hp.producers _ _ _ hph
      have hw : s.written m .resume = some msg := by simp [written, hph, writeResumes, herr]
      have ht : s.takes m .resume = false := by simp [takes, hph]
      simp [FifoSafe, ResumesWithRoom, hw, ht, hph]
    | reading timed =>
      have hw : s.written m .resume = none := by simp [written, hph]
      have hne := hp.not_empty hph
      simp [FifoSafe, ResumesWithRoom, hw, hne, hph]
  | expire tm => exact hs.elim
  | dispatch t p => exact iff_of_true ⟨fun hw => absurd rfl hw, fun ht => by cases ht⟩ trivial

/-- **One consumer and producers that block.** From a blocking queue that is
not cyclic, in whatever order the consumer reads, the woken producers go on
and other producers write: the accepted messages are those delivered, in
order, and then the unread ones, in every state of the run, if and only if no
woken producer goes on while the queue is full. -/
theorem fifo_iff_resumesWithRoom (h : BlockStart m s) (c₀ : Fin n)
    {tr : List ((QueueCall n × Option Ret) × QueueSys n)} (hex : Run.Exec (BlockStep m c₀) s tr) :
    (∀ x ∈ Run.states s tr, Fifo m x) ↔ Run.Guarded (ResumesWithRoom m) s tr := by
  refine (hex.guarded_iff (fun s => BlockInv m c₀ s ∧ Fifo m s) (fun _ hx => hx.2)
    (fun x (_, _) _ hx hc hst => ⟨step_blockInv hx.1 hst, ?_⟩) (fun x (_, _) _ hx hc hst => ?_) ⟨h.inv c₀, h.fifo⟩).symm
  · exact step_fifo hx.1.ring hx.2 ((fifoSafe_iff_resumesWithRoom hx.1 hst).mpr hc) hst.step
  · exact step_not_fifo hx.1.ring hx.2 (fun hf => hc ((fifoSafe_iff_resumesWithRoom hx.1 hst).mp hf)) hst.step

end Block

/-- Two producers, a consumer, task 2, and a full queue of one block, that is
of two slots. Task 0 runs. -/
def fullQueue : QueueSys 3 where
  k := { Kernel.allReady 2 with
    mem := fun a => if a = 100 then 1 else if a = 101 then 2 else 0
    queues := fun _ => { start := 100, sizeOfBlock := 1, numOfBlocks := 1, head := 100, tail := 100, flag := 9#32 } }
  phase := fun _ => .out
  log := [.wrote [1], .wrote [2]]

theorem fullQueue_start : BlockStart 0 fullQueue where
  block := by decide
  plain := by decide
  placed := ⟨0, 0, by decide, rfl, rfl, by decide, by decide⟩
  reader := rfl
  writer := rfl
  ready := ⟨[0, 1, 2], by decide, by decide⟩
  curr := rfl
  port := rfl
  phase := rfl
  fifo := by decide +kernel

/-- Both producers wait for room. Each read of the consumer wakes one of them,
and it goes on before the next read. -/
theorem fifo_oneAfterAnother : BlockStart 0 fullQueue ∧ ∃ tr, Run.Exec (BlockStep 0 2) fullQueue tr ∧
    (Run.final fullQueue tr).log =
      [.wrote [1], .wrote [2], .got [1], .wrote [3], .got [2], .wrote [4], .got [3], .got [4]] ∧
    ∀ x ∈ Run.states fullQueue tr, Fifo 0 x := by
  refine ⟨fullQueue_start, ?_⟩
  obtain ⟨tr, hex, hp⟩ := Run.exists_exec
    (f := Run.attempt (fun s c => Admissible s c ∧ Single 2 s c) (exec 0)) (fun _ _ _ => Run.step_of_attempt)
    (s := fullQueue)
    [(.write [3] 0 0, none), (.write [4] 0 0, none), (.read 1 0 0, some ⟨.osOk, [1]⟩), (.dispatch 0 true, none),
      (.resume, some ⟨.osOk, []⟩), (.dispatch 2 true, none), (.read 1 5 9, some ⟨.osOk, [2]⟩),
      (.dispatch 1 true, none), (.resume, some ⟨.osOk, []⟩), (.dispatch 2 true, none),
      (.read 1 0 0, some ⟨.osOk, [3]⟩), (.read 1 0 0, some ⟨.osOk, [4]⟩)]
    (fun tr => decide ((Run.final fullQueue tr).log =
      [.wrote [1], .wrote [2], .got [1], .wrote [3], .got [2], .wrote [4], .got [3], .got [4]] ∧
      Run.Guarded (ResumesWithRoom 0) fullQueue tr)) (by decide +kernel)
  obtain ⟨hlog, hg⟩ := of_decide_eq_true hp
  exact ⟨tr, hex, hlog, (fifo_iff_resumesWithRoom fullQueue_start 2 hex).mpr hg⟩

/-- Task 0 waits for room and the consumer makes some; task 1 takes it, and
then task 0 goes on and overwrites the second message, which is never
delivered. -/
theorem woken_producer_overwrites : BlockStart 0 fullQueue ∧ ∃ tr, Run.Exec (BlockStep 0 2) fullQueue tr ∧
    (Run.final fullQueue tr).log = [.wrote [1], .wrote [2], .got [1], .wrote [4], .wrote [3], .got [3]] ∧
    (Run.final fullQueue tr).unread 0 = [] ∧ ¬ ∀ x ∈ Run.states fullQueue tr, Fifo 0 x := by
  refine ⟨fullQueue_start, ?_⟩
  obtain ⟨tr, hex, hp⟩ := Run.exists_exec
    (f := Run.attempt (fun s c => Admissible s c ∧ Single 2 s c) (exec 0)) (fun _ _ _ => Run.step_of_attempt)
    (s := fullQueue)
    [(.write [3] 0 0, none), (.dispatch 2 true, none), (.read 1 0 0, some ⟨.osOk, [1]⟩), (.dispatch 1 true, none),
      (.write [4] 0 0, some ⟨.osOk, []⟩), (.dispatch 0 true, none), (.resume, some ⟨.osOk, []⟩),
      (.dispatch 2 true, none), (.read 1 0 0, some ⟨.osOk, [3]⟩)]
    (fun tr => decide ((Run.final fullQueue tr).log =
      [.wrote [1], .wrote [2], .got [1], .wrote [4], .wrote [3], .got [3]] ∧
      (Run.final fullQueue tr).unread 0 = [] ∧ ¬ ∀ x ∈ Run.states fullQueue tr, Fifo 0 x)) (by decide +kernel)
  exact ⟨tr, hex, of_decide_eq_true hp⟩

end QueueSys

end Rosx
