/-
# Round robin among the tasks of one priority

The most urgent application tasks have equal priority `p` and never block. The
system threads, which are more urgent, run when a tick or a task wakes one of
them, and then block; less urgent tasks may become ready, but never run. A tick
comes while no system thread runs. What else the running task does is a step
that leaves the ready queue and its control blocks alone.

The turns are those of `Turns`: `Inv` says that the tasks of priority `p` stand
in the ready queue in the order of the turns, and that the ticks left of each
are what it still gets before the queue goes round. A task with no ticks has a
whole slice before it: it is reloaded when it is dispatched, or at once when no
other task takes over. A tick serves one unit (`step_spec`), all other steps
serve none.

`roundRobin_of_run` says that along every run the ticks are charged in turns of
a slice each, and that the tasks of other priorities keep their places.

Key definitions: `Robin.exec`, `Robin.charged`, `Robin.KeepsPlaces`, `Robin.Inv`.
-/
import Rosx.Tick
import Rosx.Lib.Run
import Rosx.Lib.Turns

namespace Rosx

open Linked

variable {n : ℕ}

/-- The tasks of the ready queue, in its order. -/
def Kernel.readyQueue (k : Kernel n) : List (Fin n) := nodes k.next n k.readyHead

/-- What the scheduler reads of a control block. -/
def Tcb.sched (c : Tcb n) : Option (Fin n) × TaskState × ℤ × ℤ × ℤ :=
  (c.next, c.state, c.prio, c.timeSlice, c.ticks)

/-- The ticks a task gets before its slice ends. -/
def Tcb.left (c : Tcb n) : ℤ := if c.ticks = 0 then c.timeSlice else c.ticks

/-- A step of a run: a tick, which may wake the reader of the event queue; the
running task makes a task ready, blocks, calls `rx_sched`, or does something
else. -/
inductive RobinCall (n : ℕ) where
  | tick (wakes : Option (Fin n))
  | wake (t : Fin n)
  | block
  | sched
  | other (k' : Kernel n)

namespace Robin

/-- What a step computes. A tick includes the reschedule that it requests. -/
def exec (k : Kernel n) : RobinCall n → Res (Kernel n)
  | .tick wakes => sigHandler k wakes
  | .wake t => (rxResumeTask k t).map (·.2)
  | .block => (rxSuspendTask k none).map (·.2)
  | .sched => rxSched k
  | .other k' => .ok k'

/-- Ticks find a task of priority `p` running. Suspended tasks of other
priorities are woken, system threads block. -/
def Admissible (p : ℤ) (k : Kernel n) : RobinCall n → Prop
  | .tick wakes => (k.tcb k.curr).prio = p ∧
      ∀ t, wakes = some t → (k.tcb t).state = .suspend ∧ (k.tcb t).prio ≠ p
  | .wake t => (k.tcb t).state = .suspend ∧ (k.tcb t).prio ≠ p
  | .block => (k.tcb k.curr).prio < p
  | .sched => True
  | .other k' => k'.readyHead = k.readyHead ∧ k'.curr = k.curr ∧ k'.needResched = k.needResched ∧
      ∀ t ∈ k.readyQueue, (k'.tcb t).sched = (k.tcb t).sched

def Step (p : ℤ) (k : Kernel n) (c : RobinCall n) (k' : Kernel n) : Prop := Admissible p k c ∧ exec k c = .ok k'

/-- The tasks the ticks of a run are charged to. -/
def charged : Kernel n → List (RobinCall n × Kernel n) → List (Fin n)
  | _, [] => []
  | k, (.tick _, k') :: tr => (if 0 < (k.tcb k.curr).timeSlice then [k.curr] else []) ++ charged k' tr
  | _, (_, k') :: tr => charged k' tr

/-- The number of ticks of a run. -/
def ticks : List (RobinCall n × Kernel n) → ℕ
  | [] => 0
  | (.tick _, _) :: tr => ticks tr + 1
  | _ :: tr => ticks tr

/-- The slices of the tasks. -/
def slices (k : Kernel n) (t : Fin n) : ℕ := (k.tcb t).timeSlice.toNat

/-- The tasks of other priorities on the ready queue. -/
def others (p : ℤ) (k : Kernel n) : List (Fin n) := k.readyQueue.filter fun t => (k.tcb t).prio ≠ p

/-- The task that a step puts on the ready queue or takes off it. -/
def moves (k : Kernel n) : RobinCall n → Option (Fin n)
  | .tick wakes => wakes
  | .wake t => some t
  | .block => some k.curr
  | .sched | .other _ => none

/-- All other tasks of other priorities stay where they were. -/
def KeepsPlaces (p : ℤ) (k : Kernel n) (c : RobinCall n) (k' : Kernel n) : Prop :=
  (others p k').filter (fun t => moves k c ≠ some t) = (others p k).filter fun t => moves k c ≠ some t

/-- The tasks `ts` have priority `p` and whole slices; the first of them runs.
They are the first on the ready queue, and the others there are less urgent. -/
structure Init (ts : List (Fin n)) (p : ℤ) (k : Kernel n) : Prop where
  ready : ∃ rest, Chain k.next k.readyHead (ts ++ rest) ∧ (∀ t ∈ rest, p < (k.tcb t).prio) ∧
    (rest.Pairwise fun a b => (k.tcb a).prio ≤ (k.tcb b).prio) ∧ ∀ t ∈ ts ++ rest, (k.tcb t).state.runnable = true
  curr : ts.head? = some k.curr
  prio : ∀ t ∈ ts, (k.tcb t).prio = p
  slice : ∀ t ∈ ts, 1 ≤ (k.tcb t).timeSlice ∧ (k.tcb t).ticks = (k.tcb t).timeSlice

/-! ### Lists in the same order -/

/-- But for the tasks of `S`, the lists are the same. -/
def SameOrder (S : Fin n → Prop) (l l' : List (Fin n)) : Prop :=
  ∀ q : Fin n → Bool, (∀ t, S t → q t = false) → l'.filter q = l.filter q

section SameOrder

variable {S S' : Fin n → Prop} {l l' l'' a b : List (Fin n)} {t : Fin n}

theorem SameOrder.refl (S : Fin n → Prop) (l : List (Fin n)) : SameOrder S l l := fun _ _ => rfl

theorem SameOrder.trans (h : SameOrder S l l') (h' : SameOrder S l' l'') : SameOrder S l l'' :=
  fun q hq => (h' q hq).trans (h q hq)

theorem SameOrder.mono (h : SameOrder S l l') (hS : ∀ t, S t → S' t) : SameOrder S' l l' :=
  fun q hq => h q fun t ht => hq t (hS t ht)

theorem sameOrder_insert (a b : List (Fin n)) (t : Fin n) : SameOrder (· = t) (a ++ b) (a ++ t :: b) := by
  intro q hq
  simp [List.filter_append, hq t rfl]

theorem sameOrder_erase (hl : l.Nodup) : SameOrder (· = t) l (l.erase t) := by
  intro q hq
  rw [hl.erase_eq_filter, List.filter_filter]
  apply List.filter_congr
  intro u _
  by_cases hu : u = t
  · subst hu; simp [hq u rfl]
  · simp [hu]

end SameOrder

/-! ### The invariant -/

/-- The ready queue `lr` has the tasks of priority `p` in the order of the turns
`x`, with the ticks of their turns left. -/
structure Shape (p : ℤ) (w : Fin n → ℕ) (x : Turns (Fin n)) (k : Kernel n) (lr : List (Fin n)) : Prop where
  chain : Chain k.next k.readyHead lr
  sorted : lr.Pairwise fun a b => (k.tcb a).prio ≤ (k.tcb b).prio
  runnable : ∀ t ∈ lr, (k.tcb t).state.runnable = true
  robin : (lr.filter fun t => (k.tcb t).prio = p) = x.queue
  slice : ∀ t ∈ x.queue, (k.tcb t).timeSlice = w t
  left : ∀ t ∈ x.queue, (k.tcb t).left = if x.queue.head? = some t then (x.left : ℤ) else w t
  valid : x.Valid w

/-- A system thread runs, or the task whose turn it is; then a more urgent task
on the ready queue has requested a reschedule. -/
structure Inv (p : ℤ) (w : Fin n → ℕ) (x : Turns (Fin n)) (k : Kernel n) (lr : List (Fin n)) : Prop
    extends Shape p w x k lr where
  curr : k.curr ∈ lr
  urgent : (k.tcb k.curr).prio ≤ p
  turn : (k.tcb k.curr).prio = p → x.queue.head? = some k.curr ∧ (k.tcb k.curr).ticks = x.left ∧
    (k.readyHead ≠ some k.curr → k.needResched = true)

section Shape

variable {p : ℤ} {w : Fin n → ℕ} {x : Turns (Fin n)} {k k' : Kernel n} {lr lr' : List (Fin n)} {t : Fin n}

theorem Shape.readyQueue (h : Shape p w x k lr) : k.readyQueue = lr := by
  exact h.chain.nodes_eq

theorem Shape.mem_queue (h : Shape p w x k lr) : t ∈ x.queue ↔ t ∈ lr ∧ (k.tcb t).prio = p := by
  rw [← h.robin, List.mem_filter, decide_eq_true_eq]

/-- The links and the states change, the tasks of priority `p` keep their order
and what is left of their slices. -/
theorem Shape.relink (h : Shape p w x k lr) (hc : Chain k'.next k'.readyHead lr')
    (hs : lr'.Pairwise fun a b => (k.tcb a).prio ≤ (k.tcb b).prio)
    (hrun : ∀ t ∈ lr', (k'.tcb t).state.runnable = true) (hprio : ∀ t ∈ lr', (k'.tcb t).prio = (k.tcb t).prio)
    (hslice : ∀ t ∈ lr', (k'.tcb t).timeSlice = (k.tcb t).timeSlice)
    (hleft : ∀ t ∈ lr', (k'.tcb t).left = (k.tcb t).left)
    (ho : (lr'.filter fun t => (k.tcb t).prio = p) = lr.filter fun t => (k.tcb t).prio = p) :
    Shape p w x k' lr' := by
  have hq : (lr'.filter fun t => (k'.tcb t).prio = p) = x.queue := by
    rw [← h.robin, ← ho]
    apply List.filter_congr
    intro t ht
    rw [hprio t ht]
  have hmem : ∀ t ∈ x.queue, t ∈ lr' := by
    intro t ht
    rw [← hq] at ht
    exact List.mem_of_mem_filter ht
  refine ⟨hc, ?_, hrun, hq, fun t ht => ?_, fun t ht => ?_, h.valid⟩
  · refine hs.imp_of_mem fun {a b} ha hb hab => ?_
    rw [hprio a ha, hprio b hb]
    exact hab
  · rw [hslice t (hmem t ht)]
    exact h.slice t ht
  · rw [hleft t (hmem t ht)]
    exact h.left t ht

/-- The head of the ready queue is at least as urgent as `p`; if it has priority
`p`, it is its turn. -/
theorem Shape.head (h : Shape p w x k lr) : ∃ t l, lr = t :: l ∧ k.readyHead = some t ∧ (k.tcb t).prio ≤ p ∧
    ((k.tcb t).prio = p → x.queue.head? = some t) := by
  obtain ⟨u, hu⟩ := List.exists_mem_of_ne_nil _ h.valid.queue
  obtain ⟨hul, hup⟩ := h.mem_queue.mp hu
  have hc := h.chain
  have hs := h.sorted
  have hr := h.robin
  cases lr with
  | nil => cases hul
  | cons t l =>
    refine ⟨t, l, rfl, hc.1, ?_, fun hp => ?_⟩
    · rcases List.mem_cons.mp hul with rfl | hul
      · exact hup.le
      · exact ((List.pairwise_cons.mp hs).1 u hul).trans_eq hup
    · rw [← hr, List.filter_cons_of_pos (by simpa using hp)]
      rfl

/-! ### Dispatch -/

theorem left_switchTcb (c : Tcb n) : (switchTcb c).left = c.left := by
  unfold Tcb.left switchTcb
  dsimp only
  split_ifs <;> omega

theorem ticks_switchTcb {c : Tcb n} (hs : c.timeSlice ≠ 0) : (switchTcb c).ticks = c.left := by
  simp only [Tcb.left, switchTcb, hs, ne_eq, not_false_eq_true, true_and]

/-- Whoever was running, `rx_sched` gives the processor to the head of the ready
queue, with the ticks of its turn. -/
theorem Shape.sched (h : Shape p w x k lr) :
    (k.readyHead = some k.curr ∧ rxSched k = .ok k) ∨
    ∃ k', rxSched k = .ok k' ∧ Inv p w x k' lr ∧ ∀ t, (k'.tcb t).prio = (k.tcb t).prio := by
  obtain ⟨t, l, hlr, hhead, hle, hturn⟩ := h.head
  by_cases hct : t = k.curr
  · subst hct
    refine Or.inl ⟨hhead, ?_⟩
    unfold rxSched
    rw [if_neg (by simp [hhead])]
  · right
    obtain ⟨k', hk⟩ := rxSched_ok hhead
    rcases rxSched_cases hk with ⟨-, hh⟩ | ⟨u, hu, -, hk'⟩
    · exact absurd (Option.some.inj (hhead.symm.trans hh)) hct
    · obtain rfl := Option.some.inj (hhead.symm.trans hu)
      have htcb : k'.tcb = Function.update k.tcb t (switchTcb (k.tcb t)) := by rw [hk']
      have hself : k'.tcb t = switchTcb (k.tcb t) := by rw [htcb, Function.update_self]
      have hother : ∀ u, u ≠ t → k'.tcb u = k.tcb u := fun u hu => by rw [htcb, Function.update_of_ne hu]
      have hkeep : ∀ {β : Type} (g : Tcb n → β), g (switchTcb (k.tcb t)) = g (k.tcb t) →
        ∀ u, g (k'.tcb u) = g (k.tcb u) := by
        intro β g hg u
        by_cases hu : u = t
        · subst hu; rw [hself, hg]
        · rw [hother u hu]
      have hnext : k'.next = k.next := funext (hkeep Tcb.next rfl)
      have hcurr : k'.curr = t := by rw [hk']
      have hready : k'.readyHead = some t := by rw [hk']; exact hhead
      have hprio := hkeep Tcb.prio rfl
      have hshape : Shape p w x k' lr := by
        refine h.relink ?_ h.sorted (fun u hu => ?_) (fun u _ => hprio u) (fun u _ => hkeep Tcb.timeSlice rfl u)
          (fun u _ => hkeep Tcb.left (left_switchTcb _) u) rfl
        · rw [hnext, hready, ← hhead]
          exact h.chain
        · by_cases hut : u = t
          · subst hut; rw [hself]; rfl
          · rw [hother u hut]
            exact h.runnable u hu
      refine ⟨k', hk, ⟨hshape, ?_, ?_, fun hp => ?_⟩, hprio⟩
      · rw [hcurr, hlr]
        exact List.mem_cons_self
      · rw [hcurr, hprio]
        exact hle
      · rw [hcurr] at hp ⊢
        rw [hprio] at hp
        have hx := hturn hp
        have htq : t ∈ x.queue := List.mem_of_head? hx
        refine ⟨hx, ?_, fun hne => absurd hready hne⟩
        have hpos := h.valid.weight t htq
        rw [hself, ticks_switchTcb (by rw [h.slice t htq]; omega), h.left t htq, if_pos hx]

/-! ### The ready queue -/

/-- The running task is the same, and so are the priorities and the slices. -/
structure Keeps (k k' : Kernel n) : Prop where
  curr : k'.curr = k.curr
  prio : ∀ t, (k'.tcb t).prio = (k.tcb t).prio
  slice : ∀ t, (k'.tcb t).timeSlice = (k.tcb t).timeSlice
  ticks : ∀ t, (k'.tcb t).ticks = (k.tcb t).ticks

theorem Keeps.refl (k : Kernel n) : Keeps k k := ⟨rfl, fun _ => rfl, fun _ => rfl, fun _ => rfl⟩

theorem Keeps.trans {k'' : Kernel n} (h : Keeps k k') (h' : Keeps k' k'') : Keeps k k'' :=
  ⟨h'.curr.trans h.curr, fun t => (h'.prio t).trans (h.prio t), fun t => (h'.slice t).trans (h.slice t),
    fun t => (h'.ticks t).trans (h.ticks t)⟩

theorem Keeps.left (h : Keeps k k') (t : Fin n) : (k'.tcb t).left = (k.tcb t).left := by
  unfold Tcb.left
  rw [h.ticks, h.slice]

theorem keeps_of_relinked (h : Relinked k k') : Keeps k k' :=
  ⟨h.curr, h.prio, fun t => by rw [h.tcb t], fun t => by rw [h.tcb t]⟩

theorem keeps_setState (k : Kernel n) (t : Fin n) (v : TaskState) : Keeps k (k.setState t v) :=
  ⟨rfl, fun u => k.setTcb_keeps t u Tcb.prio rfl, fun u => k.setTcb_keeps t u Tcb.timeSlice rfl,
    fun u => k.setTcb_keeps t u Tcb.ticks rfl⟩

/-- A suspended task of another priority becomes ready. -/
theorem Shape.add (h : Shape p w x k lr) (ht : (k.tcb t).state = .suspend) (hp : (k.tcb t).prio ≠ p) :
    ∃ k' lr', rxAddToReadyQ (k.setState t .ready) t = .ok (.osOk, k') ∧ Shape p w x k' lr' ∧
      SameOrder (· = t) lr lr' ∧ Keeps k k' ∧ (k.needResched = true → k'.needResched = true) ∧
      (k'.readyHead ≠ some k.curr → k'.needResched = true) := by
  have htl : t ∉ lr := by
    intro htl
    have := h.runnable t htl
    rw [ht] at this
    cases this
  have hstate : ∀ u, ((k.setState t .ready).tcb u).state = if u = t then .ready else (k.tcb u).state :=
    fun u => state_setState k t u .ready
  have hc1 : Chain (k.setState t .ready).next (k.setState t .ready).readyHead lr := by
    have hnext : (k.setState t .ready).next = k.next := funext fun u => k.setTcb_keeps t u Tcb.next rfl
    rw [hnext]
    exact h.chain
  obtain ⟨k', hadd, -, hq⟩ := rxAddToReadyQ_spec hc1 htl (by rw [hstate, if_pos rfl]; rfl)
  have hk : Keeps k k' := (keeps_setState k t .ready).trans (keeps_of_relinked hq.toRelinked)
  have hprio1 : (fun u => ((k.setState t .ready).tcb u).prio) = fun u => (k.tcb u).prio :=
    funext (keeps_setState k t .ready).prio
  obtain ⟨a, b, hab, hins, -⟩ := insertReady_split (fun u => (k.tcb u).prio) (k.tcb t).prio t lr h.sorted
  have hchain : Chain k'.next k'.readyHead (a ++ t :: b) := by
    have := hq.chain
    rw [hprio1, (keeps_setState k t .ready).prio t, hins] at this
    exact this
  have ho : SameOrder (· = t) lr (a ++ t :: b) := by
    rw [hab]
    exact sameOrder_insert a b t
  have hsorted : (a ++ t :: b).Pairwise fun u v => (k.tcb u).prio ≤ (k.tcb v).prio := by
    rw [← hins]
    exact @insertReady_sorted n (fun u => (k.tcb u).prio) _ _ h.sorted
  have hne : k.readyHead ≠ none := by
    obtain ⟨u, -, -, hhead, -⟩ := h.head
    simp [hhead]
  refine ⟨k', a ++ t :: b, hadd, ?_, ho, hk, fun hres => rxAddToReadyQ_needResched hadd hres, fun hh => ?_⟩
  · refine h.relink hchain hsorted (fun u hu => ?_) (fun u _ => hk.prio u) (fun u _ => hk.slice u)
      (fun u _ => hk.left u) (ho _ ?_)
    · rw [hq.state, hstate]
      split_ifs with hut
      · rfl
      · apply h.runnable u
        rw [hab]
        simpa [hut] using hu
    · rintro u rfl
      simpa using hp
  · apply rxAddToReadyQ_requests hadd hne
    rw [hk.curr]
    exact hh

/-- The task leaves the ready queue. -/
theorem Shape.remove (h : Shape p w x k lr) (ht : t ∈ lr) (hp : (k.tcb t).prio ≠ p) :
    ∃ k', rxRemoveFromReadyQ k t = .ok k' ∧ Shape p w x k' (lr.erase t) ∧ Keeps k k' := by
  obtain ⟨k', hrem, -, -, -, hq⟩ := rxRemoveFromReadyQ_mem h.chain ht
  have hk := keeps_of_relinked hq.toRelinked
  refine ⟨k', hrem, ?_, hk⟩
  refine h.relink hq.chain (h.sorted.sublist List.erase_sublist) (fun u hu => ?_) (fun u _ => hk.prio u)
    (fun u _ => hk.slice u) (fun u _ => hk.left u) (sameOrder_erase h.chain.nodup _ ?_)
  · rw [hq.state]
    exact h.runnable u (List.mem_of_mem_erase hu)
  · rintro u rfl
    simpa using hp

/-! ### The tick -/

variable {l : List (Fin n)}

/-- The ticks of the task whose turn it is change. -/
theorem Shape.setTicks {c : ℕ} {v : ℤ} (h : Shape p w x k lr) (hq : x.queue = t :: l)
    (hv : Tcb.left { k.tcb t with ticks := v } = c) (hvalid : Turns.Valid w ⟨t :: l, c⟩) :
    Shape p w ⟨t :: l, c⟩ (k.setTcb t { k.tcb t with ticks := v }) lr := by
  set k' := k.setTcb t { k.tcb t with ticks := v } with hk'
  have hself : k'.tcb t = { k.tcb t with ticks := v } := by simp [hk']
  have hprio : ∀ u, (k'.tcb u).prio = (k.tcb u).prio := fun u => k.setTcb_keeps t u Tcb.prio rfl
  refine ⟨?_, ?_, fun u hu => ?_, ?_, fun u hu => ?_, fun u hu => ?_, hvalid⟩
  · rw [show k'.next = k.next from funext fun u => k.setTcb_keeps t u Tcb.next rfl]
    exact h.chain
  · simp only [hprio]
    exact h.sorted
  · rw [show (k'.tcb u).state = (k.tcb u).state from k.setTcb_keeps t u Tcb.state rfl]
    exact h.runnable u hu
  · simp only [hprio]
    rw [h.robin, hq]
  · rw [show (k'.tcb u).timeSlice = (k.tcb u).timeSlice from k.setTcb_keeps t u Tcb.timeSlice rfl]
    exact h.slice u (by rw [hq]; exact hu)
  · by_cases hut : u = t
    · subst hut
      rw [hself, hv, if_pos List.head?_cons]
    · have hkeep : k'.tcb u = k.tcb u := by simp [hk', hut]
      have hleft := h.left u (by rw [hq]; exact hu)
      rw [hq, List.head?_cons, if_neg (by simpa using Ne.symm hut)] at hleft
      rw [hkeep, hleft, List.head?_cons, if_neg (by simpa using Ne.symm hut)]

/-- Put behind its peers in a sorted list, the head of the turns is the last of
them. -/
theorem filter_behind {prio : Fin n → ℤ} {a b : List (Fin n)} (hnd : lr.Nodup)
    (hrob : (lr.filter fun u => prio u = p) = t :: l) (hab : lr.erase t = a ++ b) (ht : prio t = p)
    (hb : ∀ u ∈ b, p < prio u) : ((a ++ t :: b).filter fun u => prio u = p) = l ++ [t] := by
  have hbp : (b.filter fun u => prio u = p) = [] := by
    rw [List.filter_eq_nil_iff]
    intro u hu
    have := hb u hu
    simp only [decide_eq_true_eq]
    omega
  have hndq : (t :: l).Nodup := hrob ▸ hnd.filter _
  have hap : (a.filter fun u => prio u = p) = l := by
    have : ((a ++ b).filter fun u => prio u = p) = l := by
      rw [← hab, hnd.erase_eq_filter, List.filter_comm, hrob, ← hndq.erase_eq_filter, List.erase_cons_head]
    rwa [List.filter_append, hbp, List.append_nil] at this
  rw [List.filter_append, List.filter_cons_of_pos (by simpa using ht), hbp, hap]

/-- At the start of a turn all tasks have whole slices. -/
theorem Shape.whole {u : Fin n} (h : Shape p w ⟨t :: l, w t⟩ k lr) (hu : u ∈ t :: l) : (k.tcb u).left = w u := by
  have hleft := h.left u hu
  split_ifs at hleft with hut
  · obtain rfl : t = u := Option.some.inj hut
    exact hleft
  · exact hleft

/-- The task whose turn ends goes behind the tasks of its priority. -/
theorem Shape.rotate (h : Shape p w ⟨t :: l, w t⟩ k lr) :
    ∃ k2 k3 lr', rxRemoveFromReadyQ k t = .ok k2 ∧ rxAddToReadyQ (k2.setState t .ready) t = .ok (.osOk, k3) ∧
      Shape p w ⟨l ++ [t], w (l.headD t)⟩ k3 lr' ∧ SameOrder (· = t) lr lr' ∧ Keeps k k3 ∧ k2.curr = k.curr := by
  obtain ⟨htl, htp⟩ := h.mem_queue.mp (List.mem_cons_self (a := t) (l := l))
  have hnd := h.chain.nodup
  obtain ⟨k2, hrem, -, -, -, hq2⟩ := rxRemoveFromReadyQ_mem h.chain htl
  have hk2 := keeps_of_relinked hq2.toRelinked
  have hk2' : Keeps k (k2.setState t .ready) := hk2.trans (keeps_setState k2 t .ready)
  have hstate : ∀ u, ((k2.setState t .ready).tcb u).state = if u = t then .ready else (k2.tcb u).state :=
    fun u => state_setState k2 t u .ready
  have hc2 : Chain (k2.setState t .ready).next (k2.setState t .ready).readyHead (lr.erase t) := by
    rw [show (k2.setState t .ready).next = k2.next from funext fun u => k2.setTcb_keeps t u Tcb.next rfl]
    exact hq2.chain
  obtain ⟨k3, hadd, -, hq3⟩ := rxAddToReadyQ_spec hc2 hnd.not_mem_erase (by rw [hstate, if_pos rfl]; rfl)
  have hk3 : Keeps k k3 := hk2'.trans (keeps_of_relinked hq3.toRelinked)
  have hprio2 : (fun u => ((k2.setState t .ready).tcb u).prio) = fun u => (k.tcb u).prio := funext hk2'.prio
  have hsorted : (lr.erase t).Pairwise fun u v => (k.tcb u).prio ≤ (k.tcb v).prio :=
    h.sorted.sublist List.erase_sublist
  obtain ⟨a, b, hab, hins, -, hb⟩ := insertReady_split (fun u => (k.tcb u).prio) p t (lr.erase t) hsorted
  have hchain : Chain k3.next k3.readyHead (a ++ t :: b) := by
    have := hq3.chain
    rw [hprio2, hk2'.prio t, htp, hins] at this
    exact this
  refine ⟨k2, k3, a ++ t :: b, hrem, hadd, ⟨hchain, ?_, fun u hu => ?_, ?_, fun u hu => ?_, fun u hu => ?_, ?_⟩, ?_, hk3,
    hk2.curr⟩
  · simp only [hk3.prio]
    rw [← hins, ← htp]
    exact @insertReady_sorted n (fun u => (k.tcb u).prio) _ _ hsorted
  · rw [hq3.state, hstate]
    split_ifs with hut
    · rfl
    · rw [hq2.state]
      apply h.runnable u
      apply List.mem_of_mem_erase
      rw [hab]
      simpa [hut] using hu
  · simp only [hk3.prio]
    exact filter_behind hnd h.robin hab htp hb
  · rw [hk3.slice]
    exact h.slice u (by simpa [or_comm] using hu)
  · rw [hk3.left, h.whole (by simpa [or_comm] using hu)]
    split_ifs with hhead
    · rw [Turns.head?_append_singleton] at hhead
      rw [Option.some.inj hhead]
    · rfl
  · exact h.valid.next_turn rfl
  · have h2 : SameOrder (· = t) (a ++ b) (a ++ t :: b) := sameOrder_insert a b t
    rw [← hab] at h2
    exact (sameOrder_erase hnd).trans h2

/-- Nobody takes over: the slice is reloaded at once. -/
theorem Shape.reload (h : Shape p w x k lr) (h0 : (k.tcb t).ticks = 0) :
    Shape p w x (k.setTcb t { k.tcb t with ticks := (k.tcb t).timeSlice, state := .running }) lr := by
  set c : Tcb n := { k.tcb t with ticks := (k.tcb t).timeSlice, state := .running } with hc
  have hleft : c.left = (k.tcb t).left := by
    simp only [Tcb.left, hc, h0, if_true]
    split_ifs <;> rfl
  refine h.relink ?_ h.sorted (fun u hu => ?_) (fun u _ => k.setTcb_keeps t u Tcb.prio rfl)
    (fun u _ => k.setTcb_keeps t u Tcb.timeSlice rfl) (fun u _ => k.setTcb_keeps t u Tcb.left hleft) rfl
  · rw [show (k.setTcb t c).next = k.next from funext fun u => k.setTcb_keeps t u Tcb.next rfl]
    exact h.chain
  · by_cases hut : u = t
    · subst hut; simp [hc]
    · simpa [hut] using h.runnable u hu

/-- **The tick serves one unit of the turn.** If the running task is not the
head of the ready queue then, a reschedule is requested. -/
theorem Shape.tick (h : Shape p w x k lr) (hx : x.queue.head? = some k.curr) (ht : (k.tcb k.curr).ticks = x.left)
    (hres : k.readyHead ≠ some k.curr → k.needResched = true) :
    ∃ k' lr', timeSliceTick k = .ok k' ∧ Shape p w (x.serve w) k' lr' ∧ SameOrder (· = k.curr) lr lr' ∧
      k'.curr = k.curr ∧ (∀ t, (k'.tcb t).prio = (k.tcb t).prio) ∧
      (k'.readyHead ≠ some k.curr → k'.needResched = true) ∧
      (k'.readyHead = some k.curr → (x.serve w).queue.head? = some k.curr ∧
        (k'.tcb k.curr).ticks = (x.serve w).left) := by
  obtain ⟨l, hq⟩ : ∃ l, x.queue = k.curr :: l := by
    obtain ⟨u, l, hq⟩ := h.valid.exists_head
    rw [hq] at hx
    exact ⟨l, by rw [hq, Option.some.inj hx]⟩
  have hmem : k.curr ∈ x.queue := by rw [hq]; exact List.mem_cons_self
  have hslice := h.slice k.curr hmem
  have hweight := h.valid.weight k.curr hmem
  have hpos := h.valid.pos
  set k1 := k.setTcb k.curr { k.tcb k.curr with ticks := (k.tcb k.curr).ticks - 1 } with hk1
  have hprio1 : ∀ u, (k1.tcb u).prio = (k.tcb u).prio := fun u => k.setTcb_keeps k.curr u Tcb.prio rfl
  have hself1 : k1.tcb k.curr = { k.tcb k.curr with ticks := (k.tcb k.curr).ticks - 1 } := by simp [hk1]
  unfold timeSliceTick
  dsimp only
  rw [if_pos (by omega), ← hk1]
  by_cases h1 : x.left = 1
  · -- the last tick of the slice: the task has none left, which counts as a whole slice
    have h0 : (k.tcb k.curr).ticks - 1 = 0 := by omega
    rw [if_pos h0, Turns.serve_last hq h1]
    have hvalid : Turns.Valid w ⟨k.curr :: l, w k.curr⟩ :=
      ⟨by simp, by rw [← hq]; exact h.valid.weight, hweight, fun u hu => by rw [Option.some.inj hu]⟩
    have hs1 : Shape p w ⟨k.curr :: l, w k.curr⟩ k1 lr := by
      apply h.setTicks hq _ hvalid
      simp only [Tcb.left, if_pos h0]
      exact hslice
    obtain ⟨k2, k3, lr', hrem, hadd, hs3, ho, hk3, hc2⟩ := hs1.rotate
    have hc1 : k1.curr = k.curr := rfl
    have hc3 : k3.curr = k.curr := hk3.curr
    rw [hc1] at hc2
    simp only [hc1, hrem, bind, Except.bind, hc2, hadd, hc3]
    split_ifs with hhead
    · -- another task is the head of the queue
      exact ⟨_, lr', rfl, ⟨hs3.chain, hs3.sorted, hs3.runnable, hs3.robin, hs3.slice, hs3.left, hs3.valid⟩, ho, rfl,
        fun u => (hk3.prio u).trans (hprio1 u), fun _ => rfl, fun hh => absurd hh.symm hhead⟩
    · -- nobody takes over: the slice is reloaded at once
      have hhead' : k3.readyHead = some k.curr := (not_not.mp hhead).symm
      have h03 : (k3.tcb k.curr).ticks = 0 := by rw [hk3.ticks, hself1]; exact h0
      have hturn : (l ++ [k.curr]).head? = some k.curr := by
        obtain ⟨u, -, -, hu, -, hturn⟩ := hs3.head
        obtain rfl := Option.some.inj (hhead'.symm.trans hu)
        apply hturn
        rw [hk3.prio, hprio1]
        exact (h.mem_queue.mp hmem).2
      refine ⟨_, lr', rfl, hs3.reload h03, ho, hc3, fun u => ?_, fun hne => absurd hhead' hne, fun _ => ⟨hturn, ?_⟩⟩
      · rw [← hprio1 u, ← hk3.prio u]
        exact k3.setTcb_keeps k.curr u Tcb.prio rfl
      · rw [Turns.head?_append_singleton] at hturn
        rw [Kernel.setTcb_tcb, Function.update_self, Option.some.inj hturn, ← hslice]
        show (k3.tcb k.curr).timeSlice = _
        rw [hk3.slice, hself1]
  · rw [if_neg (by omega), Turns.serve_next hq h1]
    have hvalid : Turns.Valid w ⟨k.curr :: l, x.left - 1⟩ := by
      rw [← Turns.serve_next hq h1]
      exact h.valid.serve
    refine ⟨k1, lr, rfl, h.setTicks hq ?_ hvalid, SameOrder.refl _ _, rfl, hprio1, hres, fun _ => ⟨rfl, ?_⟩⟩
    · simp only [Tcb.left]
      rw [if_neg (by omega)]
      omega
    · rw [hself1]
      show (k.tcb k.curr).ticks - 1 = ((x.left - 1 : ℕ) : ℤ)
      omega

/-- The reader of the event queue, if one is woken. -/
theorem Shape.notify (h : Shape p w x k lr) (hres : k.readyHead ≠ some k.curr → k.needResched = true)
    {wakes : Option (Fin n)} (hw : ∀ t, wakes = some t → (k.tcb t).state = .suspend ∧ (k.tcb t).prio ≠ p) :
    ∃ k' lr', notifyReader k wakes = .ok k' ∧ Shape p w x k' lr' ∧ SameOrder (fun t => wakes = some t) lr lr' ∧
      Keeps k k' ∧ (k'.readyHead ≠ some k.curr → k'.needResched = true) := by
  cases wakes with
  | none => exact ⟨k, lr, rfl, h, SameOrder.refl _ _, Keeps.refl k, hres⟩
  | some t =>
    obtain ⟨hst, hp⟩ := hw t rfl
    obtain ⟨k', lr', hadd, hs, ho, hk, -, hres'⟩ := h.add hst hp
    refine ⟨k', lr', ?_, hs, ho.mono fun u hu => by rw [hu], hk, hres'⟩
    simp only [notifyReader, hadd]
    rfl

/-- The end of the interrupt: the preempted task is ready. -/
theorem Shape.preempt (h : Shape p w x k lr) : Shape p w x (irqExit (Rosx.preempt k)) lr := by
  have hirq : ∀ k : Kernel n, Shape p w x k lr → Shape p w x (irqExit k) lr := fun k h =>
    ⟨h.chain, h.sorted, h.runnable, h.robin, h.slice, h.left, h.valid⟩
  apply hirq
  unfold Rosx.preempt
  split_ifs
  · have hk := keeps_setState { k with needResched := false } k.curr .ready
    refine h.relink ?_ h.sorted (fun u hu => ?_) (fun u _ => hk.prio u) (fun u _ => hk.slice u) (fun u _ => hk.left u) rfl
    · rw [show (({ k with needResched := false } : Kernel n).setState k.curr .ready).next = k.next from
        funext fun u => Kernel.setTcb_keeps { k with needResched := false } k.curr u Tcb.next rfl]
      exact h.chain
    · rw [state_setState]
      split_ifs
      · rfl
      · exact h.runnable u hu
  · exact h

theorem keeps_preempt (k : Kernel n) : Keeps k (irqExit (Rosx.preempt k)) := by
  have hirq : ∀ {k' : Kernel n}, Keeps k k' → Keeps k (irqExit k') := fun h => ⟨h.curr, h.prio, h.slice, h.ticks⟩
  apply hirq
  unfold Rosx.preempt
  split_ifs
  · have hk := keeps_setState { k with needResched := false } k.curr .ready
    exact ⟨hk.curr, hk.prio, hk.slice, hk.ticks⟩
  · exact Keeps.refl k

end Shape

/-! ### Steps -/

section Steps

variable {p : ℤ} {w : Fin n → ℕ} {x : Turns (Fin n)} {k k' : Kernel n} {lr : List (Fin n)} {t : Fin n}

/-- A tick, up to the end of the reschedule that it requests. -/
theorem Inv.tick (h : Inv p w x k lr) (hp : (k.tcb k.curr).prio = p) {wakes : Option (Fin n)}
    (hw : ∀ t, wakes = some t → (k.tcb t).state = .suspend ∧ (k.tcb t).prio ≠ p) :
    ∃ k' lr', sigHandler k wakes = .ok k' ∧ Inv p w (x.serve w) k' lr' ∧
      SameOrder (fun t => wakes = some t ∨ t = k.curr) lr lr' ∧ ∀ t, (k'.tcb t).prio = (k.tcb t).prio := by
  obtain ⟨hx, hticks, hres⟩ := h.turn hp
  set k0 : Kernel n := { irqEnter k with jiffies := (irqEnter k).jiffies + 1 } with hk0
  have hs0 : Shape p w x k0 lr := ⟨h.chain, h.sorted, h.runnable, h.robin, h.slice, h.left, h.valid⟩
  obtain ⟨k1, lr1, hnote, hs1, ho1, hk1, hres1⟩ := hs0.notify hres hw
  have hc1 : k1.curr = k.curr := hk1.curr
  obtain ⟨k2, lr2, htick, hs2, ho2, hc2, hprio2, hres2, hturn2⟩ := hs1.tick (by rw [hc1]; exact hx)
    (by rw [hc1, hk1.ticks]; exact hticks) (by rw [hc1]; exact hres1)
  rw [hc1] at hc2 ho2 hres2 hturn2
  have hprio : ∀ t, (k2.tcb t).prio = (k.tcb t).prio := fun t => (hprio2 t).trans (hk1.prio t)
  have ho : SameOrder (fun t => wakes = some t ∨ t = k.curr) lr lr2 :=
    (ho1.mono fun _ => Or.inl).trans (ho2.mono fun _ => Or.inr)
  have hirq : rxTimerTickIrqHandler (irqEnter k) wakes = .ok k2 := by
    unfold rxTimerTickIrqHandler
    rw [← hk0, hnote]
    exact htick
  unfold sigHandler
  simp only [hirq, bind, Except.bind]
  have hs3 := hs2.preempt
  have hk3 := keeps_preempt k2
  have hc3 : (irqExit (preempt k2)).curr = k.curr := hk3.curr.trans hc2
  have hprio3 : ∀ t, ((irqExit (preempt k2)).tcb t).prio = (k.tcb t).prio := fun t => (hk3.prio t).trans (hprio t)
  have hhead3 : (irqExit (preempt k2)).readyHead = k2.readyHead := by
    show (preempt k2).readyHead = _
    unfold preempt
    split_ifs <;> rfl
  -- the running task goes on if it is still the head of the ready queue
  have hstay : k2.readyHead = some k.curr → Inv p w (x.serve w) (irqExit (preempt k2)) lr2 := by
    intro hh
    obtain ⟨hx', hticks'⟩ := hturn2 hh
    refine ⟨hs3, ?_, ?_, fun _ => ?_⟩
    · rw [hc3]
      exact (hs2.mem_queue.mp (List.mem_of_head? hx')).1
    · rw [hc3, hprio3, hp]
    · rw [hc3, hhead3, hk3.ticks]
      exact ⟨hx', hticks', fun hne => absurd hh hne⟩
  split_ifs with hflag
  · rcases hs3.sched with ⟨hh, hk⟩ | ⟨k', hk, hinv, hpr⟩
    · rw [hhead3, hc3] at hh
      exact ⟨_, lr2, hk, hstay hh, ho, hprio3⟩
    · exact ⟨k', lr2, hk, hinv, ho, fun t => (hpr t).trans (hprio3 t)⟩
  · refine ⟨_, lr2, rfl, hstay ?_, ho, hprio3⟩
    by_contra hne
    exact hflag (hres2 hne)

/-- The running task makes a task of another priority ready. -/
theorem Inv.wake (h : Inv p w x k lr) (ht : (k.tcb t).state = .suspend) (hp : (k.tcb t).prio ≠ p) :
    ∃ k' lr', (rxResumeTask k t).map (·.2) = .ok k' ∧ Inv p w x k' lr' ∧ SameOrder (· = t) lr lr' ∧
      ∀ u, (k'.tcb u).prio = (k.tcb u).prio := by
  obtain ⟨k', lr', hadd, hs, ho, hk, -, hres⟩ := h.add ht hp
  refine ⟨k', lr', ?_, ⟨hs, ?_, ?_, fun hcp => ?_⟩, ho, hk.prio⟩
  · unfold rxResumeTask
    rw [if_neg (by simpa using ht), hadd]
    rfl
  · have hmem : k.curr ∈ lr'.filter fun u => u ≠ t := by
      rw [ho _ (by simp), List.mem_filter]
      refine ⟨h.curr, ?_⟩
      simp only [decide_eq_true_eq, ne_eq]
      rintro rfl
      have := h.runnable _ h.curr
      rw [ht] at this
      cases this
    rw [hk.curr]
    exact List.mem_of_mem_filter hmem
  · rw [hk.curr, hk.prio]
    exact h.urgent
  · rw [hk.curr] at hcp ⊢
    rw [hk.prio] at hcp
    obtain ⟨hx, hticks, -⟩ := h.turn hcp
    exact ⟨hx, by rw [hk.ticks, hticks], hres⟩

/-- A system thread blocks. -/
theorem Inv.block (h : Inv p w x k lr) (hp : (k.tcb k.curr).prio < p) :
    ∃ k' lr', (rxSuspendTask k none).map (·.2) = .ok k' ∧ Inv p w x k' lr' ∧ SameOrder (· = k.curr) lr lr' ∧
      ∀ u, (k'.tcb u).prio = (k.tcb u).prio := by
  obtain ⟨k1, hrem, hs1, hk1⟩ := h.remove h.curr hp.ne
  have hk2 := keeps_setState k1 k1.curr .suspend
  have hs2 : Shape p w x (k1.setState k1.curr .suspend) (lr.erase k.curr) := by
    refine hs1.relink ?_ hs1.sorted (fun u hu => ?_) (fun u _ => hk2.prio u) (fun u _ => hk2.slice u)
      (fun u _ => hk2.left u)
      rfl
    · rw [show (k1.setState k1.curr .suspend).next = k1.next from
        funext fun u => k1.setTcb_keeps k1.curr u Tcb.next rfl]
      exact hs1.chain
    · rw [state_setState, if_neg]
      · exact hs1.runnable u hu
      · rw [hk1.curr]
        rintro rfl
        exact h.chain.nodup.not_mem_erase hu
  have hc2 : (k1.setState k1.curr .suspend).curr = k.curr := hk2.curr.trans hk1.curr
  rcases hs2.sched with ⟨hh, -⟩ | ⟨k', hk, hinv, hprio⟩
  · -- the task that has left is not the head
    obtain ⟨u, l, hl, hu, -⟩ := hs2.head
    rw [hc2, hu] at hh
    obtain rfl := Option.some.inj hh
    exact absurd (hl ▸ List.mem_cons_self) h.chain.nodup.not_mem_erase
  · refine ⟨k', _, ?_, hinv, sameOrder_erase h.chain.nodup, fun u => ?_⟩
    · simp only [rxSuspendTask, hrem, bind, Except.bind, hk]
      rfl
    · rw [hprio, hk2.prio, hk1.prio]

theorem Inv.sched (h : Inv p w x k lr) :
    ∃ k', rxSched k = .ok k' ∧ Inv p w x k' lr ∧ ∀ u, (k'.tcb u).prio = (k.tcb u).prio := by
  rcases h.toShape.sched with ⟨-, hk⟩ | ⟨k', hk, hinv, hprio⟩
  · exact ⟨k, hk, h, fun _ => rfl⟩
  · exact ⟨k', hk, hinv, hprio⟩

/-- What the scheduler reads is the same. -/
theorem Inv.other (h : Inv p w x k lr) (hhead : k'.readyHead = k.readyHead) (hcurr : k'.curr = k.curr)
    (hres : k'.needResched = k.needResched) (htcb : ∀ t ∈ lr, (k'.tcb t).sched = (k.tcb t).sched) : Inv p w x k' lr := by
  have hkeep : ∀ t ∈ lr, (k'.tcb t).next = (k.tcb t).next ∧ (k'.tcb t).state = (k.tcb t).state ∧
      (k'.tcb t).prio = (k.tcb t).prio ∧ (k'.tcb t).timeSlice = (k.tcb t).timeSlice ∧
      (k'.tcb t).ticks = (k.tcb t).ticks := by
    intro t ht
    simpa only [Tcb.sched, Prod.mk.injEq] using htcb t ht
  obtain ⟨-, -, hprio, -, hticks⟩ := hkeep k.curr h.curr
  refine ⟨h.relink ?_ h.sorted (fun t ht => ?_) (fun t ht => (hkeep t ht).2.2.1) (fun t ht => (hkeep t ht).2.2.2.1)
    (fun t ht => ?_) rfl, ?_, ?_, fun hp => ?_⟩
  · rw [hhead]
    exact h.chain.congr fun t ht => (hkeep t ht).1
  · rw [(hkeep t ht).2.1]
    exact h.runnable t ht
  · unfold Tcb.left
    rw [(hkeep t ht).2.2.2.1, (hkeep t ht).2.2.2.2]
  · rw [hcurr]
    exact h.curr
  · rw [hcurr, hprio]
    exact h.urgent
  · rw [hcurr] at hp ⊢
    rw [hprio] at hp
    rw [hticks, hhead, hres]
    exact h.turn hp

/-- The turns after a step. -/
def turnsAfter (w : Fin n → ℕ) (x : Turns (Fin n)) : RobinCall n → Turns (Fin n)
  | .tick _ => x.serve w
  | .wake _ | .block | .sched | .other _ => x

/-- The tasks of other priorities keep their places, if but for the task that
moves and those of priority `p` the order stays. -/
theorem keepsPlaces_of_sameOrder {c : RobinCall n} {lr' : List (Fin n)} (hr : k.readyQueue = lr)
    (hr' : k'.readyQueue = lr')
    (ho : SameOrder (fun t => moves k c = some t ∨ (k.tcb t).prio = p) lr lr')
    (hprio : ∀ t ∈ lr', (k'.tcb t).prio = (k.tcb t).prio) : KeepsPlaces p k c k' := by
  unfold KeepsPlaces others
  rw [hr, hr', List.filter_filter, List.filter_filter]
  refine (List.filter_congr fun t ht => ?_).trans (ho _ fun t ht => ?_)
  · rw [hprio t ht]
  · rcases ht with ht | ht
    · simp [ht]
    · simp [ht]

/-- Every step that may be taken can be taken; a tick serves one unit, other
steps none, and the tasks of other priorities keep their places. -/
theorem Inv.step {c : RobinCall n} (h : Inv p w x k lr) (hadm : Admissible p k c) :
    ∃ k' lr', exec k c = .ok k' ∧ Inv p w (turnsAfter w x c) k' lr' ∧ KeepsPlaces p k c k' := by
  have hr := h.toShape.readyQueue
  cases c with
  | tick wakes =>
    obtain ⟨hp, hw⟩ := hadm
    obtain ⟨k', lr', hk, hinv, ho, hprio⟩ := h.tick hp hw
    refine ⟨k', lr', hk, hinv, keepsPlaces_of_sameOrder hr hinv.toShape.readyQueue (ho.mono ?_) fun t _ => hprio t⟩
    rintro t (ht | rfl)
    · exact Or.inl ht
    · exact Or.inr hp
  | wake t =>
    obtain ⟨k', lr', hk, hinv, ho, hprio⟩ := h.wake hadm.1 hadm.2
    refine ⟨k', lr', hk, hinv, keepsPlaces_of_sameOrder hr hinv.toShape.readyQueue (ho.mono ?_) fun t _ => hprio t⟩
    rintro u rfl
    exact Or.inl rfl
  | block =>
    obtain ⟨k', lr', hk, hinv, ho, hprio⟩ := h.block hadm
    refine ⟨k', lr', hk, hinv, keepsPlaces_of_sameOrder hr hinv.toShape.readyQueue (ho.mono ?_) fun t _ => hprio t⟩
    rintro u rfl
    exact Or.inl rfl
  | sched =>
    obtain ⟨k', hk, hinv, hprio⟩ := h.sched
    exact ⟨k', lr, hk, hinv, keepsPlaces_of_sameOrder hr hinv.toShape.readyQueue (SameOrder.refl _ _) fun t _ => hprio t⟩
  | other k' =>
    obtain ⟨hhead, hcurr, hres, htcb⟩ := hadm
    rw [hr] at htcb
    have hinv := h.other hhead hcurr hres htcb
    refine ⟨k', lr, rfl, hinv, keepsPlaces_of_sameOrder hr hinv.toShape.readyQueue (SameOrder.refl _ _) fun t ht => ?_⟩
    have hs := htcb t ht
    simp only [Tcb.sched, Prod.mk.injEq] at hs
    exact hs.2.2.1

/-- The same of a step that is taken. -/
theorem step_spec {c : RobinCall n} (h : ∃ x lr, Inv p w x k lr) (hst : Step p k c k') :
    (∃ x lr, Inv p w x k' lr) ∧ Step p k c k' ∧ KeepsPlaces p k c k' := by
  obtain ⟨x, lr, h⟩ := h
  obtain ⟨k1, lr', hk, hinv, hkeeps⟩ := h.step hst.1
  obtain rfl : k1 = k' := Except.ok.inj (hk.symm.trans hst.2)
  exact ⟨⟨_, lr', hinv⟩, hst, hkeeps⟩

end Steps

/-! ### Runs -/

section Runs

variable {p : ℤ} {w : Fin n → ℕ} {k : Kernel n}

/-- The ticks of a run are charged to the tasks whose turns they are. -/
theorem charged_eq_served {tr : List (RobinCall n × Kernel n)} (h : Run.Exec (Step p) k tr) {x : Turns (Fin n)}
    {lr : List (Fin n)} (hinv : Inv p w x k lr) : charged k tr = Turns.served w (ticks tr) x := by
  induction h generalizing x lr with
  | nil k => rfl
  | @cons k k' c tr hst _ ih =>
    obtain ⟨hadm, hex⟩ := hst
    obtain ⟨k1, lr', hk, hinv', -⟩ := hinv.step hadm
    obtain rfl : k1 = k' := Except.ok.inj (hk.symm.trans hex)
    cases c with
    | tick wakes =>
      obtain ⟨hx, -⟩ := hinv.turn hadm.1
      have hmem := List.mem_of_head? hx
      have hpos : 0 < (k.tcb k.curr).timeSlice := by
        rw [hinv.slice _ hmem]
        have := hinv.valid.weight _ hmem
        omega
      show (if 0 < (k.tcb k.curr).timeSlice then [k.curr] else []) ++ charged k1 tr = x.queue.head?.toList ++
        Turns.served w (ticks tr) (x.serve w)
      rw [if_pos hpos, hx, ih hinv']
      rfl
    | wake t => exact ih hinv'
    | block => exact ih hinv'
    | sched => exact ih hinv'
    | other k' => exact ih hinv'

theorem Init.inv {ts : List (Fin n)} (h : Init ts p k) : ∃ t l lr, ts = t :: l ∧
    Inv p (slices k) ⟨t :: l, slices k t⟩ k lr := by
  obtain ⟨rest, hchain, hless, hsorted, hrun⟩ := h.ready
  have hcurr := h.curr
  have hprio := h.prio
  have hslice := h.slice
  cases ts with
  | nil => cases hcurr
  | cons t l =>
    obtain rfl : t = k.curr := Option.some.inj hcurr
    have hw : ∀ u ∈ k.curr :: l, (k.tcb u).timeSlice = slices k u := by
      intro u hu
      have := (hslice u hu).1
      unfold slices
      omega
    have hleft : ∀ u ∈ k.curr :: l, (k.tcb u).left = slices k u := by
      intro u hu
      obtain ⟨h1, h2⟩ := hslice u hu
      unfold Tcb.left
      rw [if_neg (by omega), h2]
      exact hw u hu
    have hvalid : Turns.Valid (slices k) ⟨k.curr :: l, slices k k.curr⟩ := by
      have hpos : ∀ u ∈ k.curr :: l, 1 ≤ slices k u := by
        intro u hu
        have := (hslice u hu).1
        have := hw u hu
        omega
      exact ⟨by simp, hpos, hpos _ List.mem_cons_self, fun u hu => by rw [Option.some.inj hu]⟩
    refine ⟨k.curr, l, k.curr :: l ++ rest, rfl, ⟨hchain, ?_, hrun, ?_, hw, fun u hu => ?_, hvalid⟩, ?_, ?_,
      fun _ => ⟨rfl, ?_, ?_⟩⟩
    · rw [List.pairwise_append]
      refine ⟨List.Pairwise.imp_of_mem (fun ha hb _ => ?_)
        (List.pairwise_of_forall (R := fun _ _ => True) fun _ _ => trivial),
        hsorted, fun u hu v hv => ?_⟩
      · rw [hprio _ ha, hprio _ hb]
      · rw [hprio u hu]
        exact (hless v hv).le
    · rw [List.filter_append, List.filter_eq_self.mpr fun u hu => by simpa using hprio u hu,
        List.filter_eq_nil_iff.mpr fun u hu => by simpa using (hless u hu).ne', List.append_nil]
    · rw [hleft u hu]
      split_ifs with hhead
      · rw [Option.some.inj hhead]
      · rfl
    · simp
    · exact (hprio _ List.mem_cons_self).le
    · rw [(hslice _ List.mem_cons_self).2]
      exact hw _ List.mem_cons_self
    · intro hne
      exact absurd hchain.1 hne

/-- **Round robin.** The tasks `ts` of priority `p` run for a whole slice each, in
turns: the ticks of a run are charged as the cycle in which each task of `ts`
stands as many times as its slice is long says, over and over. The tasks of
other priorities keep their places in the ready queue, and no step faults. -/
theorem roundRobin_of_run {ts : List (Fin n)} (hi : Init ts p k) {tr : List (RobinCall n × Kernel n)}
    (h : Run.Exec (Step p) k tr) :
    (∀ i < ticks tr, (charged k tr)[i]? =
      (Turns.cycle (slices k) ts)[i % (Turns.cycle (slices k) ts).length]?) ∧
    Run.Exec (fun k c k' => Step p k c k' ∧ KeepsPlaces p k c k') k tr ∧
    ∀ y ∈ Run.states k tr, ∀ c, Admissible p y c → ∃ y', exec y c = .ok y' := by
  obtain ⟨t, l, lr, rfl, hinv⟩ := hi.inv
  have hex : ∃ x lr, Inv p (slices k) x k lr := ⟨_, lr, hinv⟩
  refine ⟨fun i hlt => ?_, ?_, fun y hy c hadm => ?_⟩
  · rw [charged_eq_served h hinv, Turns.getElem?_served hinv.valid hlt, Turns.plan_start]
  · exact h.of_guarded (fun k' => ∃ x lr, Inv p (slices k) x k' lr) (fun _ _ _ hs _ hst => step_spec hs hst)
      (Run.guarded_true k tr) hex
  · obtain ⟨x, lr', hy⟩ := h.invariant (fun k' => ∃ x lr, Inv p (slices k) x k' lr)
      (fun _ _ _ hs hst => (step_spec hs hst).1) hex y hy
    obtain ⟨y', -, hk, -⟩ := hy.step hadm
    exact ⟨y', hk⟩

end Runs

instance (p : ℤ) (k : Kernel n) : ∀ c, Decidable (Admissible p k c)
  | .tick wakes => inferInstanceAs (Decidable ((k.tcb k.curr).prio = p ∧
      ∀ t, wakes = some t → (k.tcb t).state = .suspend ∧ (k.tcb t).prio ≠ p))
  | .wake t => inferInstanceAs (Decidable ((k.tcb t).state = .suspend ∧ (k.tcb t).prio ≠ p))
  | .block => inferInstanceAs (Decidable ((k.tcb k.curr).prio < p))
  | .sched => inferInstanceAs (Decidable True)
  | .other k' => inferInstanceAs (Decidable (k'.readyHead = k.readyHead ∧ k'.curr = k.curr ∧
      k'.needResched = k.needResched ∧ ∀ t ∈ k.readyQueue, (k'.tcb t).sched = (k.tcb t).sched))

/-- The step as a function. -/
def step (p : ℤ) (k : Kernel n) (c : RobinCall n) : Option (Kernel n) :=
  if Admissible p k c then (exec k c).toOption else none

theorem step_of_eq (p : ℤ) (k : Kernel n) (c : RobinCall n) (k' : Kernel n) (h : step p k c = some k') :
    Step p k c k' := by
  unfold step at h
  split_ifs at h with hadm
  refine ⟨hadm, ?_⟩
  cases he : exec k c with
  | error e =>
    rw [he] at h
    cases h
  | ok k1 =>
    rw [he] at h
    rw [Option.some.inj h]

/-- Tasks 1 and 2 have slices of two and one ticks; the system thread 0 and the
task 4 are suspended, task 3 is ready and less urgent. -/
def twoTurns : Kernel 5 where
  tcb := fun t =>
    { prio := if t.val = 0 then 0 else if t.val ≤ 2 then 5 else t.val + 4
      origPrio := if t.val = 0 then 0 else if t.val ≤ 2 then 5 else t.val + 4
      state := if t.val = 1 then .running else if t.val = 2 ∨ t.val = 3 then .ready else .suspend
      timeSlice := if t.val = 1 then 2 else if t.val = 2 then 1 else 0
      ticks := if t.val = 1 then 2 else if t.val = 2 then 1 else 0
      next := if t.val = 1 then some 2 else if t.val = 2 then some 3 else none }
  curr := 1
  readyHead := some 1

theorem twoTurns_init : Init [1, 2] 5 twoTurns where
  ready := ⟨[3], by decide, by decide, by decide, by decide⟩
  curr := rfl
  prio := by decide
  slice := by decide

/-- The first tick wakes the system thread, which makes task 4 ready and
blocks; so does the last tick of the slice of task 2. -/
theorem roundRobin_twoTurns : Init [1, 2] 5 twoTurns ∧ ∃ tr, Run.Exec (Step 5) twoTurns tr ∧ ticks tr = 5 ∧
    charged twoTurns tr = [1, 1, 2, 1, 1] ∧
    (∀ i < 5, (charged twoTurns tr)[i]? =
      (Turns.cycle (slices twoTurns) [1, 2])[i % (Turns.cycle (slices twoTurns) [1, 2]).length]?) ∧
    Run.Exec (fun k c k' => Step 5 k c k' ∧ KeepsPlaces 5 k c k') twoTurns tr := by
  refine ⟨twoTurns_init, ?_⟩
  have hrun := Run.exists_exec (step_of_eq 5) (s := twoTurns)
    [.tick (some 0), .wake 4, .block, .tick none, .tick (some 0), .block, .tick none, .sched, .tick none]
    (fun tr => decide (ticks tr = 5 ∧ charged twoTurns tr = [1, 1, 2, 1, 1])) (by decide +kernel)
  obtain ⟨tr, hex, hp⟩ := hrun
  obtain ⟨hticks, hch⟩ := of_decide_eq_true hp
  obtain ⟨hcycle, hkeeps, -⟩ := roundRobin_of_run twoTurns_init hex
  rw [hticks] at hcycle
  exact ⟨tr, hex, hticks, hch, hcycle, hkeeps⟩

end Robin

end Rosx
