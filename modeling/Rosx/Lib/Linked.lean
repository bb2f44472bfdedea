/-
# Linked lists in a link function

A heap of nodes is a function `nx : α → Option α` (the `next` field of each
node, `none` for NULL). `Seg nx h l e` says that following `nx` from `h`
visits exactly the nodes `l` and arrives at `e`; `Chain nx h l` is a segment
that ends in NULL. A chain's list is determined by its head (`Chain.unique`),
so a chain never visits a node twice (`Chain.nodup`).

The walks a C program makes along such a list are `lastNode` (to the last
node) and `prevNode` (to the predecessor of a node). They run on fuel: a walk
that is still going after as many steps as there are nodes goes round a cycle.

Key theorems: `Chain.unique`, `Chain.nodup`, `Seg.update_of_notMem`,
`Chain.insertAfter`, `Chain.removeAfter`, `lastNode_eq`, `prevNode_eq`.
-/
import Mathlib.Data.List.Nodup
import Mathlib.Data.Fintype.Card

namespace Linked

variable {α : Type*}

/-- What stops a C function before it returns: it follows a NULL pointer, or
a walk never ends. -/
inductive Fault where
  | null
  | hang
  deriving DecidableEq, Repr

/-- The result of a computation that can fault. -/
abbrev Res (β : Type*) := Except Fault β

/-- A sequence returns if its first part returns and then the rest does. -/
theorem bind_eq_ok {β γ : Type*} {x : Res β} {f : β → Res γ} {c : γ} :
    (x.bind f) = .ok c ↔ ∃ b, x = .ok b ∧ f b = .ok c := by
  cases x <;> simp [Except.bind]

/-- It faults if its first part does, or if the rest does after it. -/
theorem bind_eq_error {β γ : Type*} {x : Res β} {f : β → Res γ} {e : Fault} :
    (x.bind f) = .error e ↔ x = .error e ∨ ∃ b, x = .ok b ∧ f b = .error e := by
  cases x <;> simp [Except.bind]

theorem map_eq_ok {β γ : Type*} {x : Res β} {f : β → γ} {c : γ} :
    x.map f = .ok c ↔ ∃ b, x = .ok b ∧ f b = c := by
  cases x <;> simp [Except.map]

/-- Following `nx` from `h` visits exactly `l` and arrives at `e`. -/
def Seg (nx : α → Option α) : Option α → List α → Option α → Prop
  | h, [], e => h = e
  | h, a :: l, e => h = some a ∧ Seg nx (nx a) l e

instance decidableSeg [DecidableEq α] (nx : α → Option α) : ∀ (h : Option α) (l : List α) (e : Option α),
    Decidable (Seg nx h l e)
  | h, [], e => inferInstanceAs (Decidable (h = e))
  | h, a :: l, e =>
    have := decidableSeg nx (nx a) l e
    inferInstanceAs (Decidable (h = some a ∧ Seg nx (nx a) l e))

/-- Following `nx` from `h` visits exactly `l` and then NULL. -/
abbrev Chain (nx : α → Option α) (h : Option α) (l : List α) : Prop := Seg nx h l none

@[simp] theorem seg_nil (nx : α → Option α) (h e : Option α) : Seg nx h [] e ↔ h = e := Iff.rfl

@[simp] theorem seg_cons (nx : α → Option α) (h e : Option α) (a : α) (l : List α) :
    Seg nx h (a :: l) e ↔ h = some a ∧ Seg nx (nx a) l e := Iff.rfl

theorem seg_append {nx : α → Option α} : ∀ {h : Option α} {l m : List α} {e : Option α},
    Seg nx h (l ++ m) e ↔ ∃ x, Seg nx h l x ∧ Seg nx x m e
  | h, [], m, e => by simp
  | h, a :: l, m, e => by simp [seg_append (l := l), and_assoc]

theorem Seg.head {nx : α → Option α} {h : Option α} {l : List α} (hl : Chain nx h l) : h = l.head? := by
  cases l with
  | nil => exact hl
  | cons a l => exact hl.1

/-- The link of a node is what follows it in the list. -/
theorem Chain.next_eq {nx : α → Option α} {h : Option α} {l m : List α} {a : α} (hl : Chain nx h (l ++ a :: m)) :
    nx a = m.head? := by
  obtain ⟨_, _, ha⟩ := seg_append.mp hl
  exact Seg.head ha.2

/-- The list of a chain is determined by its head. -/
theorem Chain.unique {nx : α → Option α} : ∀ {h : Option α} {l m : List α},
    Chain nx h l → Chain nx h m → l = m
  | _, [], [], _, _ => rfl
  | _, [], b :: m, hl, hm => by rw [hm.1] at hl; cases hl
  | _, a :: l, [], hl, hm => by rw [hl.1] at hm; cases hm
  | _, a :: l, b :: m, hl, hm => by
    obtain rfl : a = b := Option.some.inj (hl.1.symm.trans hm.1)
    rw [Chain.unique hl.2 hm.2]

/-- A chain starts with every segment from its head, and goes on from its end. -/
theorem Chain.of_seg {nx : α → Option α} : ∀ {h e : Option α} {a l : List α}, Seg nx h a e → Chain nx h l →
    ∃ m, l = a ++ m ∧ Chain nx e m
  | _, _, [], l, hs, hl => by
    have he : _ = _ := hs
    exact ⟨l, rfl, he ▸ hl⟩
  | _, _, x :: a, [], hs, hl => by
    have hn : _ = none := hl
    rw [hs.1] at hn
    cases hn
  | _, _, x :: a, y :: l, hs, hl => by
    obtain rfl : x = y := Option.some.inj (hs.1.symm.trans hl.1)
    obtain ⟨m, rfl, hm⟩ := Chain.of_seg hs.2 hl.2
    exact ⟨m, rfl, hm⟩

/-- A chain visits no node twice: from a second visit on it would visit the
same nodes again. -/
theorem Chain.nodup {nx : α → Option α} : ∀ {h : Option α} {l : List α}, Chain nx h l → l.Nodup
  | _, [], _ => List.nodup_nil
  | _, a :: l, hl => by
    refine List.nodup_cons.mpr ⟨fun ha => ?_, Chain.nodup hl.2⟩
    obtain ⟨s, t, rfl⟩ := List.append_of_mem ha
    obtain ⟨x, _, hx⟩ := seg_append.mp hl.2
    have h := congrArg List.length (Chain.unique hx.2 hl.2)
    simp at h
    omega

/-- Following `nx` from `h` arrives at `x`. -/
def Reaches (nx : α → Option α) (h : Option α) (x : α) : Prop := ∃ l, Seg nx h l (some x)

theorem Chain.reaches_iff {nx : α → Option α} {h : Option α} {l : List α} {x : α} (hl : Chain nx h l) :
    Reaches nx h x ↔ x ∈ l := by
  constructor
  · rintro ⟨a, ha⟩
    obtain ⟨m, rfl, hm⟩ := Chain.of_seg ha hl
    cases m with
    | nil => cases hm
    | cons y m =>
      obtain rfl : x = y := Option.some.inj hm.1
      simp
  · intro hx
    obtain ⟨a, b, rfl⟩ := List.append_of_mem hx
    obtain ⟨e, ha, hb⟩ := seg_append.mp hl
    exact ⟨a, hb.1 ▸ ha⟩

/-- The node behind a visited node is visited too. -/
theorem Chain.next_mem {nx : α → Option α} {h : Option α} {l : List α} {x y : α} (hl : Chain nx h l) (hx : x ∈ l)
    (hy : nx x = some y) : y ∈ l := by
  obtain ⟨a, ha⟩ := (Chain.reaches_iff hl).mpr hx
  apply (Chain.reaches_iff hl).mp
  exact ⟨a ++ [x], seg_append.mpr ⟨some x, ha, rfl, hy⟩⟩

/-- Only the links of the visited nodes matter. -/
theorem Seg.congr {nx nx' : α → Option α} : ∀ {h : Option α} {l : List α} {e : Option α},
    Seg nx h l e → (∀ a ∈ l, nx' a = nx a) → Seg nx' h l e
  | _, [], _, hl, _ => hl
  | _, a :: l, _, hl, hn => by
    refine ⟨hl.1, ?_⟩
    rw [hn a List.mem_cons_self]
    exact Seg.congr hl.2 fun b hb => hn b (List.mem_cons_of_mem _ hb)

section Update

variable [DecidableEq α]

theorem Seg.update_of_notMem {nx : α → Option α} {h e v : Option α} {l : List α} {x : α}
    (hl : Seg nx h l e) (hx : x ∉ l) : Seg (Function.update nx x v) h l e :=
  hl.congr fun _ ha => Function.update_of_ne (ne_of_mem_of_not_mem ha hx) _ _

/-- A node linked in front of the list. -/
theorem Chain.insertHead {nx : α → Option α} {h : Option α} {l : List α} {x : α}
    (hl : Chain nx h l) (hx : x ∉ l) : Chain (Function.update nx x h) (some x) (x :: l) := by
  refine ⟨rfl, ?_⟩
  rw [Function.update_self]
  exact hl.update_of_notMem hx

/-- A node linked in after `p`. -/
theorem Chain.insertAfter {nx : α → Option α} {h : Option α} {l m : List α} {p x : α}
    (hl : Chain nx h (l ++ p :: m)) (hx : x ∉ l ++ p :: m) :
    Chain (Function.update (Function.update nx x (nx p)) p (some x)) h (l ++ p :: x :: m) := by
  have hnd := hl.nodup
  rw [List.nodup_append] at hnd
  obtain ⟨-, hpm, hdis⟩ := hnd
  have hpl : p ∉ l := fun hp => hdis p hp p List.mem_cons_self rfl
  have hpm' : p ∉ m := (List.nodup_cons.mp hpm).1
  simp only [List.mem_append, List.mem_cons, not_or] at hx
  obtain ⟨e, he, hp⟩ := seg_append.mp hl
  refine seg_append.mpr ⟨e, (he.update_of_notMem hx.1).update_of_notMem hpl, hp.1, ?_⟩
  rw [Function.update_self]
  refine ⟨rfl, ?_⟩
  rw [Function.update_of_ne hx.2.1, Function.update_self]
  exact (hp.2.update_of_notMem hx.2.2).update_of_notMem hpm'

/-- A node linked in after the last one brings along what its own link leads to. -/
theorem Chain.appendLast {nx : α → Option α} {h : Option α} {l : List α} {p x : α}
    (hl : Chain nx h (l ++ [p])) (hx : x ∉ l ++ [p]) :
    Seg (Function.update nx p (some x)) h (l ++ [p] ++ [x]) (nx x) := by
  have hpl : p ∉ l := fun hp => (List.nodup_append.mp hl.nodup).2.2 _ hp _ List.mem_cons_self rfl
  simp only [List.mem_append, List.mem_cons, List.not_mem_nil, or_false, not_or] at hx
  obtain ⟨e, he, hp⟩ := seg_append.mp hl
  rw [List.append_assoc]
  refine seg_append.mpr ⟨e, he.update_of_notMem hpl, hp.1, ?_, ?_⟩
  · rw [Function.update_self]
  · exact Function.update_of_ne hx.2 _ _

/-- The node after `p` linked out. -/
theorem Chain.removeAfter {nx : α → Option α} {h : Option α} {l m : List α} {p x : α}
    (hl : Chain nx h (l ++ p :: x :: m)) : Chain (Function.update nx p (nx x)) h (l ++ p :: m) := by
  have hnd := hl.nodup
  rw [List.nodup_append] at hnd
  obtain ⟨-, hpm, hdis⟩ := hnd
  have hpl : p ∉ l := fun hp => hdis p hp p List.mem_cons_self rfl
  have hpm' : p ∉ m := fun hp => (List.nodup_cons.mp hpm).1 (List.mem_cons_of_mem _ hp)
  obtain ⟨e, he, hp⟩ := seg_append.mp hl
  refine seg_append.mpr ⟨e, he.update_of_notMem hpl, hp.1, ?_⟩
  rw [Function.update_self]
  exact hp.2.2.update_of_notMem hpm'

/-- The list cut off behind `p`. -/
theorem Chain.cutAfter {nx : α → Option α} {h : Option α} {l m : List α} {p : α} (hl : Chain nx h (l ++ p :: m)) :
    Chain (Function.update nx p none) h (l ++ [p]) := by
  have hpl : p ∉ l := fun hp => (List.nodup_append.mp hl.nodup).2.2 p hp p List.mem_cons_self rfl
  obtain ⟨e, he, hp⟩ := seg_append.mp hl
  exact seg_append.mpr ⟨e, he.update_of_notMem hpl, hp.1, Function.update_self ..⟩

end Update

/-- `while (a->next) a = a->next`: the last node from `a` on. -/
def lastNode (nx : α → Option α) : ℕ → α → Res α
  | 0, _ => .error .hang
  | f + 1, a =>
    match nx a with
    | none => .ok a
    | some b => lastNode nx f b

theorem lastNode_eq {nx : α → Option α} : ∀ {f : ℕ} {a : α} {l : List α},
    Chain nx (some a) (a :: l) → l.length < f → lastNode nx f a = .ok ((a :: l).getLast (by simp))
  | 0, _, _, _, hf => by omega
  | f + 1, a, [], hl, _ => by
    have : nx a = none := hl.2
    simp [lastNode, this]
  | f + 1, a, b :: l, hl, hf => by
    have hb : nx a = some b := hl.2.1
    have hl' : Chain nx (some b) (b :: l) := ⟨rfl, hl.2.2⟩
    simp only [lastNode, hb]
    rw [lastNode_eq hl' (by simpa using hf)]
    simp

/-- `while (a->next) { if (a == x) break; a = a->next; }`: the node `x`, or the
last one. -/
def lastNodeOr [DecidableEq α] (nx : α → Option α) (x : α) : ℕ → α → Res α
  | 0, _ => .error .hang
  | f + 1, a =>
    match nx a with
    | none => .ok a
    | some b => if a = x then .ok a else lastNodeOr nx x f b

theorem lastNodeOr_eq [DecidableEq α] {nx : α → Option α} {x : α} : ∀ {f : ℕ} {a : α} {l : List α},
    Chain nx (some a) (a :: l) → l.length < f →
    lastNodeOr nx x f a = .ok (if x ∈ a :: l then x else (a :: l).getLast (by simp))
  | 0, _, _, _, hf => by omega
  | f + 1, a, [], hl, _ => by
    have hn : nx a = none := hl.2
    by_cases hx : x = a
    · simp [lastNodeOr, hn, hx]
    · simp [lastNodeOr, hn, hx]
  | f + 1, a, b :: l, hl, hf => by
    have hb : nx a = some b := hl.2.1
    have hl' : Chain nx (some b) (b :: l) := ⟨rfl, hl.2.2⟩
    simp only [lastNodeOr, hb]
    by_cases hx : a = x
    · simp [hx]
    · rw [if_neg hx, lastNodeOr_eq hl' (by simpa using hf)]
      simp [Ne.symm hx]

/-- With more fuel the walk ends at the same node. -/
theorem lastNodeOr_mono [DecidableEq α] {nx : α → Option α} {x r : α} : ∀ {f g : ℕ} {a : α},
    lastNodeOr nx x f a = .ok r → f ≤ g → lastNodeOr nx x g a = .ok r
  | 0, _, _, h, _ => by cases h
  | f + 1, 0, _, _, hg => by omega
  | f + 1, g + 1, a, h, hg => by
    unfold lastNodeOr at h ⊢
    cases hn : nx a with
    | none => simpa [hn] using h
    | some b =>
      simp only [hn] at h ⊢
      split_ifs at h ⊢ with hx
      · exact h
      · exact lastNodeOr_mono h (by omega)

/-- `while (a->next) { if (a->next == x) break; a = a->next; }`: the node before
`x`, or the last one. -/
def nodeBefore [DecidableEq α] (nx : α → Option α) (x : α) : ℕ → α → Res α
  | 0, _ => .error .hang
  | f + 1, a =>
    match nx a with
    | none => .ok a
    | some b => if b = x then .ok a else nodeBefore nx x f b

theorem nodeBefore_eq [DecidableEq α] {nx : α → Option α} {x p : α} : ∀ {f : ℕ} {a : α} {l m : List α},
    Chain nx (some a) (l ++ p :: x :: m) → l.length < f → nodeBefore nx x f a = .ok p
  | 0, _, _, _, _, hf => by omega
  | f + 1, a, [], m, hl, _ => by
    obtain rfl : a = p := Option.some.inj hl.1
    have hb : nx a = some x := hl.2.1
    simp [nodeBefore, hb]
  | f + 1, a, b :: l, m, hl, hf => by
    obtain rfl : a = b := Option.some.inj hl.1
    have hnd := hl.nodup
    obtain ⟨c, l', hc⟩ : ∃ c l', l ++ p :: x :: m = c :: l' := by
      cases l with
      | nil => exact ⟨p, x :: m, rfl⟩
      | cons c l => exact ⟨c, l ++ p :: x :: m, rfl⟩
    have htail : Chain nx (nx a) (l ++ p :: x :: m) := hl.2
    have hb : nx a = some c := by
      rw [hc] at htail
      exact htail.1
    have hcx : c ≠ x := by
      rintro rfl
      have hnd' := (List.nodup_cons.mp hnd).2
      cases l with
      | nil =>
        obtain rfl : p = c := (List.cons.inj hc).1
        simp at hnd'
      | cons d l =>
        obtain rfl : d = c := (List.cons.inj hc).1
        simp at hnd'
    simp only [nodeBefore, hb, if_neg hcx]
    exact nodeBefore_eq (hb ▸ htail) (by simpa using hf)

/-- `while (a) a = a->next`. -/
def walkEnd (nx : α → Option α) : ℕ → Option α → Res Unit
  | _, none => .ok ()
  | 0, some _ => .error .hang
  | f + 1, some a => walkEnd nx f (nx a)

theorem walkEnd_eq {nx : α → Option α} : ∀ {f : ℕ} {h : Option α} {l : List α},
    Chain nx h l → l.length ≤ f → walkEnd nx f h = .ok ()
  | f, h, [], hl, _ => by
    have hn : h = none := hl
    rw [hn]
    cases f <;> rfl
  | 0, h, a :: l, _, hf => by simp at hf
  | f + 1, h, a :: l, hl, hf => by
    rw [hl.1, walkEnd]
    exact walkEnd_eq hl.2 (by simpa using hf)

/-- `while (b != x) { a = b; b = b->next; }`: the node before `x`, where `a`
is the node before `b`. -/
def prevNode [DecidableEq α] (nx : α → Option α) (x : α) : ℕ → α → Option α → Res α
  | 0, _, _ => .error .hang
  | _ + 1, _, none => .error .null
  | f + 1, a, some b => if b = x then .ok a else prevNode nx x f b (nx b)

theorem prevNode_eq [DecidableEq α] {nx : α → Option α} {x : α} : ∀ {f : ℕ} {a p : α} {b : Option α}
    {l m : List α}, Chain nx b (l ++ x :: m) → x ∉ l → (a :: l).getLast (by simp) = p →
    l.length < f → prevNode nx x f a b = .ok p
  | 0, _, _, _, _, _, _, _, _, hf => by omega
  | f + 1, a, p, b, [], m, hl, _, hp, _ => by
    rw [hl.1]
    simpa [prevNode] using hp
  | f + 1, a, p, b, c :: l, m, hl, hx, hp, hf => by
    rw [hl.1]
    have hc : c ≠ x := fun h => hx (h ▸ List.mem_cons_self)
    have hx' : x ∉ l := fun h => hx (List.mem_cons_of_mem _ h)
    simp only [prevNode, hc, if_false]
    exact prevNode_eq hl.2 hx' (by simpa using hp) (by simpa using hf)

/-- The nodes from `h` on, at most `f` of them. -/
def nodes (nx : α → Option α) : ℕ → Option α → List α
  | _, none => []
  | 0, some _ => []
  | f + 1, some a => a :: nodes nx f (nx a)

theorem nodes_eq {nx : α → Option α} : ∀ {f : ℕ} {h : Option α} {l : List α}, Chain nx h l → l.length ≤ f →
    nodes nx f h = l
  | f, h, [], hl, _ => by
    have hn : h = none := hl
    rw [hn]
    cases f <;> rfl
  | 0, h, a :: l, _, hf => by simp at hf
  | f + 1, h, a :: l, hl, hf => by
    rw [hl.1, nodes, nodes_eq hl.2 (by simpa using hf)]

/-- A list without repetition in a finite type is no longer than the type. -/
theorem Chain.length_le [Fintype α] {nx : α → Option α} {h : Option α} {l : List α}
    (hl : Chain nx h l) : l.length ≤ Fintype.card α :=
  hl.nodup.length_le_card

theorem Chain.length_le_fin {n : ℕ} {nx : Fin n → Option (Fin n)} {h : Option (Fin n)} {l : List (Fin n)}
    (hl : Chain nx h l) : l.length ≤ n := by
  have hlen := hl.length_le
  rwa [Fintype.card_fin] at hlen

/-- Over `Fin n` a walk of `n` steps passes the whole list. -/
theorem Chain.nodes_eq {n : ℕ} {nx : Fin n → Option (Fin n)} {h : Option (Fin n)} {l : List (Fin n)}
    (hl : Chain nx h l) : nodes nx n h = l :=
  Linked.nodes_eq hl hl.length_le_fin

end Linked
