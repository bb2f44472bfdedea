/-
# Doubly linked lists in two link functions

`BackLinks pv p l` says that the `prev` links of the nodes `l`, in order,
point to the node before, the first one's to `p`. `DChain nx pv h l` is a
chain with its back links, NULL before the head. The link updates of an
insertion and of a removal are given for each place in the list; removal in
the middle needs a node on both sides.

Code that removes a node behind the head by writing to both its neighbours
follows a NULL link if the node is the last one. `CanRemove l p` says, of the
list alone, when it does not, and `canRemoveAll_iff` when it does not for
several nodes one after the other.
-/
import Rosx.Lib.Linked

namespace Linked

variable {α : Type*}

/-- The `prev` links of `l`: each node's is the node before it, the first
one's is `p`. -/
def BackLinks (pv : α → Option α) : Option α → List α → Prop
  | _, [] => True
  | p, a :: l => pv a = p ∧ BackLinks pv (some a) l

/-- A doubly linked list from `h` with the nodes `l`. -/
structure DChain (nx pv : α → Option α) (h : Option α) (l : List α) : Prop where
  chain : Chain nx h l
  back : BackLinks pv none l

@[simp] theorem backLinks_nil (pv : α → Option α) (p : Option α) : BackLinks pv p [] ↔ True := Iff.rfl

@[simp] theorem backLinks_cons (pv : α → Option α) (p : Option α) (a : α) (l : List α) :
    BackLinks pv p (a :: l) ↔ pv a = p ∧ BackLinks pv (some a) l := Iff.rfl

theorem backLinks_append {pv : α → Option α} : ∀ {p : Option α} {l : List α} {a : α} {m : List α},
    BackLinks pv p (l ++ a :: m) ↔ BackLinks pv p (l ++ [a]) ∧ BackLinks pv (some a) m
  | p, [], a, m => by simp
  | p, b :: l, a, m => by
    simp only [List.cons_append, backLinks_cons, and_assoc]
    exact and_congr_right fun _ => backLinks_append

theorem BackLinks.of_append {pv : α → Option α} : ∀ {p : Option α} {l m : List α},
    BackLinks pv p (l ++ m) → BackLinks pv p l
  | _, [], _, _ => trivial
  | _, _ :: _, _, h => ⟨h.1, BackLinks.of_append h.2⟩

theorem BackLinks.congr {pv pv' : α → Option α} : ∀ {p : Option α} {l : List α},
    BackLinks pv p l → (∀ a ∈ l, pv' a = pv a) → BackLinks pv' p l
  | _, [], _, _ => trivial
  | _, a :: _, h, hn =>
    ⟨(hn a List.mem_cons_self).trans h.1, BackLinks.congr h.2 fun b hb => hn b (List.mem_cons_of_mem _ hb)⟩

theorem notMem_of_nodup_append {a b : List α} {s : α} (hnd : (a ++ s :: b).Nodup) : s ∉ a ∧ s ∉ b :=
  ⟨fun hs => (List.nodup_append.mp hnd).2.2 _ hs _ List.mem_cons_self rfl,
    (List.nodup_cons.mp (List.nodup_append.mp hnd).2.1).1⟩

section Update

variable [DecidableEq α] {nx pv : α → Option α} {h : Option α} {a b : List α} {q s x : α}

theorem BackLinks.update_of_notMem {p v : Option α} {l : List α} (hl : BackLinks pv p l) (hx : x ∉ l) :
    BackLinks (Function.update pv x v) p l :=
  hl.congr fun _ ha => Function.update_of_ne (ne_of_mem_of_not_mem ha hx) _ _

/-- A node `s` goes; the one after it gets its back link. -/
theorem BackLinks.remove : ∀ {p : Option α} {a : List α}, BackLinks pv p (a ++ s :: x :: b) → (a ++ s :: x :: b).Nodup →
    BackLinks (Function.update pv x (pv s)) p (a ++ x :: b)
  | p, [], hl, hnd => by
    obtain ⟨hs, -, hb⟩ := hl
    have hxb : x ∉ b := (List.nodup_cons.mp (List.nodup_cons.mp hnd).2).1
    exact ⟨by rw [Function.update_self, hs], hb.update_of_notMem hxb⟩
  | p, c :: a, hl, hnd => by
    obtain ⟨hc, hl⟩ := hl
    obtain ⟨hca, hnd⟩ := List.nodup_cons.mp hnd
    have hcx : c ≠ x := fun he => hca (by simp [he])
    exact ⟨by rwa [Function.update_of_ne hcx], BackLinks.remove hl hnd⟩

/-- A node in front of the head `s`. -/
theorem DChain.insertHead (hl : DChain nx pv (some s) (s :: b)) (hx : x ∉ s :: b) (hpv : pv x = none) :
    DChain (Function.update nx x (some s)) (Function.update pv s (some x)) (some x) (x :: s :: b) := by
  refine ⟨Chain.insertHead hl.chain hx, ?_, ?_, ?_⟩
  · rwa [Function.update_of_ne (List.ne_of_not_mem_cons hx)]
  · rw [Function.update_self]
  · exact hl.back.2.update_of_notMem (List.nodup_cons.mp hl.chain.nodup).1

/-- A node between `q` and `s`. -/
theorem DChain.insertBefore (hl : DChain nx pv h (a ++ q :: s :: b)) (hx : x ∉ a ++ q :: s :: b) :
    DChain (Function.update (Function.update nx x (some s)) q (some x))
      (Function.update (Function.update pv x (some q)) s (some x)) h (a ++ q :: x :: s :: b) := by
  have hnd := hl.chain.nodup
  have hq : nx q = some s := hl.chain.next_eq
  have hs := notMem_of_nodup_append (s := s) (a := a ++ [q]) (b := b) (by simpa using hnd)
  simp only [List.mem_append, List.mem_cons, List.not_mem_nil, or_false, not_or] at hs hx
  obtain ⟨⟨hsa, hsq⟩, hsb⟩ := hs
  obtain ⟨hxa, hxq, hxs, hxb⟩ := hx
  refine ⟨?_, backLinks_append.mpr ⟨?_, ?_, ?_, ?_⟩⟩
  · have := Chain.insertAfter (x := x) hl.chain (by simp [hxa, hxq, hxs, hxb])
    rwa [hq] at this
  · obtain ⟨hb1, -⟩ := backLinks_append.mp hl.back
    exact (hb1.update_of_notMem (by simp [hxa, hxq])).update_of_notMem (by simp [hsa, hsq])
  · rw [Function.update_of_ne hxs, Function.update_self]
  · rw [Function.update_self]
  · obtain ⟨-, -, hb2⟩ := backLinks_append.mp hl.back
    exact (hb2.update_of_notMem hxb).update_of_notMem hsb

/-- A node behind the last one, `s`. -/
theorem DChain.insertLast (hl : DChain nx pv h (a ++ [s])) (hx : x ∉ a ++ [s]) (hnx : nx x = none) :
    DChain (Function.update nx s (some x)) (Function.update pv x (some s)) h (a ++ [s, x]) := by
  have hs : nx s = none := hl.chain.next_eq
  refine ⟨?_, backLinks_append.mpr ⟨hl.back.update_of_notMem hx, ?_, trivial⟩⟩
  · have := Chain.insertAfter (x := x) hl.chain hx
    rwa [hs, ← hnx, Function.update_eq_self] at this
  · rw [Function.update_self]

/-- The head goes, its successor `x` becomes the head. -/
theorem DChain.removeHead (hl : DChain nx pv h (s :: x :: b)) :
    DChain nx (Function.update pv x none) (some x) (x :: b) := by
  have hb := BackLinks.remove (a := []) hl.back hl.chain.nodup
  rw [hl.back.1] at hb
  exact ⟨⟨rfl, hl.chain.2.2⟩, hb⟩

/-- A node `x` between `q` and `s` goes. -/
theorem DChain.removeMiddle (hl : DChain nx pv h (a ++ q :: x :: s :: b)) :
    DChain (Function.update nx q (some s)) (Function.update pv s (some q)) h (a ++ q :: s :: b) := by
  have hx : nx x = some s := by
    obtain ⟨_, _, hq⟩ := seg_append.mp hl.chain
    exact hq.2.2.1
  have hq : pv x = some q := (backLinks_append.mp hl.back).2.1
  have hchain := Chain.removeAfter hl.chain
  have hback := BackLinks.remove (a := a ++ [q]) (b := b) (by simpa using hl.back) (by simpa using hl.chain.nodup)
  rw [hx] at hchain
  rw [hq] at hback
  exact ⟨hchain, by simpa using hback⟩

end Update

/-- A middle node's back link. -/
theorem DChain.prev {nx pv : α → Option α} {h : Option α} {a b : List α} {q s : α}
    (hl : DChain nx pv h (a ++ q :: s :: b)) : pv s = some q :=
  (backLinks_append.mp hl.back).2.1

/-- Following `next` and then `prev` leads back. -/
theorem DChain.prev_of_next {nx pv : α → Option α} {h : Option α} {l : List α} {a b : α}
    (hl : DChain nx pv h l) (ha : a ∈ l) (hb : nx a = some b) : pv b = some a := by
  obtain ⟨s, t, rfl⟩ := List.append_of_mem ha
  have ht : t.head? = some b := hl.chain.next_eq.symm.trans hb
  obtain ⟨t, rfl⟩ : ∃ t', t = b :: t' := ⟨t.tail, List.eq_cons_of_mem_head? ht⟩
  exact hl.prev

/-! ### When a removal follows a NULL link -/

/-- A removal that writes to the nodes on both sides of an inner node, and
treats the head apart, follows no NULL link: the list is empty, or `p` is the
first of its nodes, or not the last. -/
def CanRemove (l : List α) (p : α) : Prop := l = [] ∨ p ∈ l ∧ (l.head? = some p ∨ l.getLast? ≠ some p)

instance [DecidableEq α] (l : List α) (p : α) : Decidable (CanRemove l p) :=
  inferInstanceAs (Decidable (l = [] ∨ p ∈ l ∧ (l.head? = some p ∨ l.getLast? ≠ some p)))

/-- In terms of the links: `p` is the head, or has a successor. -/
theorem DChain.canRemove_iff {nx pv : α → Option α} {h : Option α} {l : List α} {p : α} (hl : DChain nx pv h l)
    (hp : p ∈ l) : CanRemove l p ↔ h = some p ∨ nx p ≠ none := by
  have hhead : h = l.head? := Seg.head hl.chain
  have hlast : nx p = none ↔ l.getLast? = some p := by
    obtain ⟨a, b, rfl⟩ := List.append_of_mem hp
    rw [hl.chain.next_eq, List.head?_eq_none_iff]
    constructor
    · rintro rfl
      simp
    · intro hb
      have hnd := notMem_of_nodup_append hl.chain.nodup
      rcases List.eq_nil_or_concat' b with rfl | ⟨b, c, rfl⟩
      · rfl
      · rw [← List.cons_append, ← List.append_assoc, List.getLast?_concat] at hb
        exact absurd (by simp [Option.some.inj hb]) hnd.2
  rw [hhead, ne_eq, hlast]
  exact ⟨fun hc => (hc.resolve_left (List.ne_nil_of_mem hp)).2, fun hc => Or.inr ⟨hp, hc⟩⟩

/-- The last node is the first one only if there is no other. -/
theorem head?_eq_getLast? {l : List α} {z : α} (hl : l.Nodup) (hz : l.getLast? = some z) :
    l.head? = some z ↔ l = [z] := by
  refine ⟨fun hh => ?_, fun he => by rw [he]; rfl⟩
  obtain ⟨t, rfl⟩ : ∃ t, l = z :: t := ⟨l.tail, List.eq_cons_of_mem_head? hh⟩
  rcases List.eq_nil_or_concat' t with rfl | ⟨t, c, rfl⟩
  · rfl
  · rw [← List.cons_append, List.getLast?_concat] at hz
    exact absurd (by simp [Option.some.inj hz]) (List.nodup_cons.mp hl).1

section Several

variable [DecidableEq α]

/-- The nodes `ps` can be removed one after the other. -/
def CanRemoveAll : List α → List α → Prop
  | _, [] => True
  | l, p :: ps => CanRemove l p ∧ CanRemoveAll (l.erase p) ps

/-- The last node stays last when another one goes. -/
theorem getLast?_erase {l : List α} {p z : α} (hz : l.getLast? = some z) (hp : z ≠ p) :
    (l.erase p).getLast? = some z := by
  rcases List.eq_nil_or_concat' l with rfl | ⟨l, c, rfl⟩
  · cases hz
  · obtain rfl : c = z := by simpa using hz
    by_cases hm : p ∈ l
    · rw [List.erase_append_left _ hm]
      simp
    · rw [List.erase_append_right _ hm, List.erase_cons_tail (by simpa using hp)]
      simp

/-- Members of a list are removed without a fault if and only if its last node
is not among them, or goes last when no other is left. -/
theorem canRemoveAll_iff : ∀ {l ps : List α}, l.Nodup → ps.Nodup → (∀ p ∈ ps, p ∈ l) →
    (CanRemoveAll l ps ↔ ∀ z, l.getLast? = some z → z ∈ ps → ps.getLast? = some z ∧ ∀ a ∈ l, a ∈ ps)
  | l, [], _, _, _ => by simp [CanRemoveAll]
  | l, p :: ps, hl, hps, hsub => by
    have hp : p ∈ l := hsub p List.mem_cons_self
    obtain ⟨hpps, hps'⟩ := List.nodup_cons.mp hps
    have hne : ∀ q ∈ ps, q ≠ p := fun q hq => ne_of_mem_of_not_mem hq hpps
    have hsub' : ∀ q ∈ ps, q ∈ l.erase p := fun q hq =>
      (List.mem_erase_of_ne (hne q hq)).mpr (hsub q (List.mem_cons_of_mem _ hq))
    rw [CanRemoveAll, canRemoveAll_iff (hl.erase p) hps' hsub']
    obtain ⟨z, hz⟩ : ∃ z, l.getLast? = some z := ⟨_, List.getLast?_eq_some_getLast (List.ne_nil_of_mem hp)⟩
    have hlast : ∀ {P : α → Prop}, (∀ x, l.getLast? = some x → P x) ↔ P z := by
      intro P
      refine ⟨fun h => h z hz, fun h x hx => ?_⟩
      obtain rfl := Option.some.inj (hz.symm.trans hx)
      exact h
    rw [hlast]
    by_cases hzp : z = p
    · -- the last node goes first: it must be the only one
      subst hzp
      have hcan : CanRemove l z ↔ l = [z] := by
        rw [CanRemove, ← head?_eq_getLast? hl hz]
        simp [hz, hp, List.ne_nil_of_mem hp]
      rw [hcan]
      constructor
      · rintro ⟨rfl, -⟩ -
        have hnil : ps = [] := List.eq_nil_iff_forall_not_mem.mpr fun q hq => by simpa using hsub' q hq
        simp [hnil]
      · intro h
        obtain ⟨hgl, hall⟩ := h List.mem_cons_self
        have hnil : ps = [] := by
          by_contra hn
          rw [List.getLast?_cons_of_ne_nil hn] at hgl
          exact hpps (List.mem_of_getLast? hgl)
        subst hnil
        have hlz : l = [z] := by
          rw [← head?_eq_getLast? hl hz]
          obtain ⟨a, t, rfl⟩ := List.exists_cons_of_ne_nil (List.ne_nil_of_mem hp)
          have ha : a = z := by simpa using hall a List.mem_cons_self
          rw [ha]
          rfl
        refine ⟨hlz, ?_⟩
        simp
    · have hcan : CanRemove l p := Or.inr ⟨hp, Or.inr (by rw [hz]; simpa using hzp)⟩
      have hall : (∀ a ∈ l.erase p, a ∈ ps) ↔ ∀ a ∈ l, a ∈ p :: ps := by
        refine ⟨fun h a ha => ?_, fun h a ha => ?_⟩
        · by_cases hap : a = p
          · exact hap ▸ List.mem_cons_self
          · exact List.mem_cons_of_mem _ (h a ((List.mem_erase_of_ne hap).mpr ha))
        · obtain ⟨hap, hal⟩ := hl.mem_erase_iff.mp ha
          exact (List.mem_cons.mp (h a hal)).resolve_left hap
      have hlast' : (l.erase p).getLast? = some z := getLast?_erase hz hzp
      simp only [hcan, true_and, hlast', Option.some.injEq, forall_eq', List.mem_cons, hzp, false_or, hall]
      refine forall_congr' fun hzps => ?_
      rw [List.getLast?_cons_of_ne_nil (List.ne_nil_of_mem hzps)]

end Several

end Linked
