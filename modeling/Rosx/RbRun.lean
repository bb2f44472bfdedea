/-
# Runs on a red-black tree

Clients link nodes into empty places of the tree and balance it, erase nodes, replace them
and walk along the order. The order is that in which the nodes have been put beside each
other; a call only changes it at its own node. From the empty tree on, no call follows a
NULL pointer, and no loop takes more rounds than the height of the tree allows, which is
logarithmic in the number of nodes.

Key definitions: `InOrder`, `RbCall`, `RbSys`.
Key theorems: `rbErase_inOrder`, `RbCall.exec_inOrder`, `RbSys.calls_return`,
`RbSys.traversal`.
-/
import Rosx.Lib.Run
import Rosx.RbErase

namespace Rosx

open Linked RedBlack RedBlack.ColorTree

variable {ι : Type*} [DecidableEq ι] {base : ι → RbNode ι} {t : RbTree ι} {k : List (Frame ι)} {T : ColorTree ι}
  {seq : List ι} {rounds : ℕ}

/-- The memory holds a red-black tree with a black root, with the nodes in the order `seq`. -/
def InOrder (base : ι → RbNode ι) (t : RbTree ι) (seq : List ι) : Prop :=
  ∃ T m, Holds base t T ∧ T.Rb m ∧ T.isRed = false ∧ T.toList = seq

/-- The rounds that a loop may take in a tree of `n` nodes. -/
def maxRounds (n : ℕ) : ℕ := 2 * Nat.log 2 (n + 1) + 1

/-! ### Deletion -/

/-- A tree without one node is mended, if the node was black. -/
theorem mend_inOrder {n : ℕ} {s : Side} {c : Color} {b : ColorTree ι} {y : ι} (h : Holds base t (plug k b))
    (hrb : (join s c leaf y b).Rb n) (hk : CtxRb n k) (hred : c = .red → colorAbove k = .black)
    (hlen : k.length < rounds) :
    ∃ t', (if c = .black then rbEraseColor rounds t b.root (parentOf none k) else .ok t) = .ok t' ∧
      InOrder base t' (before k ++ b.toList ++ after k) := by
  cases c with
  | red =>
    obtain ⟨-, hb, -, hbn⟩ := rb_join_red.mp hrb
    obtain ⟨m, hm, hblack⟩ := plug_rb hbn hk fun _ => hred rfl
    exact ⟨t, rfl, plug k b, m, h, hm, hblack, toList_plug k b⟩
  | black =>
    match n, hrb, hk with
    | 0, hrb, _ => cases s <;> cases hrb
    | n + 1, hrb, hk =>
      obtain ⟨-, hbn⟩ := rb_join_black.mp hrb
      obtain ⟨t', hcolor, h'⟩ := rbEraseColor_holds h hbn hk hlen
      obtain ⟨m, hm, hblack⟩ := eraseColor_rb hbn hk
      exact ⟨t', (if_pos rfl).trans hcolor, _, m, h', hm, hblack, toList_eraseColor k b⟩

omit [DecidableEq ι] in
theorem before_of_left : ∀ {kl : List (Frame ι)}, (∀ f ∈ kl, f.side = .left) → before kl = []
  | [], _ => rfl
  | f :: kl, h => by
    rw [before, h f List.mem_cons_self, before_of_left fun g hg => h g (List.mem_cons_of_mem _ hg)]
    rfl

omit [DecidableEq ι] in
theorem after_of_right : ∀ {kl : List (Frame ι)}, (∀ f ∈ kl, f.side = .right) → after kl = []
  | [], _ => rfl
  | f :: kl, h => by
    rw [after, h f List.mem_cons_self, after_of_right fun g hg => h g (List.mem_cons_of_mem _ hg)]
    rfl

theorem eraseOne_inOrder {s : Side} {c : Color} {b : ColorTree ι} {x : ι} {m : ℕ}
    (h : Holds base t (plug k (join s c leaf x b))) (hrb : (plug k (join s c leaf x b)).Rb m)
    (hblack : (plug k (join s c leaf x b)).isRed = false) (hlen : k.length < rounds) :
    ∃ t', eraseOne rounds t x b.root = .ok t' ∧
      InOrder (Function.update base x (t.node x)) t' (before k ++ b.toList ++ after k) := by
  obtain ⟨n, hn, hk, habove⟩ := rb_of_plug hrb hblack
  have hpar : (t.node x).parent = parentOf none k := h.parent_eq root_join
  have hcol : (t.node x).color = c := by rw [h.node_eq]; rfl
  obtain ⟨t', hmend, hin⟩ := mend_inOrder (unlink_holds .left h) hn hk
    (fun hc => habove (by rw [isRed_join]; exact decide_eq_true hc)) hlen
  refine ⟨t', ?_, hin⟩
  unfold eraseOne
  rw [hpar, hcol]
  exact hmend

theorem eraseTwo_inOrder {c : Color} {l r : ColorTree ι} {x a b : ι} {m : ℕ} (h : Holds base t (plug k (node c l x r)))
    (ha : l.root = some a) (hb : r.root = some b) (hrb : (plug k (node c l x r)).Rb m)
    (hblack : (plug k (node c l x r)).isRed = false) (hlen : (plug k (node c l x r)).depth < rounds) :
    ∃ t', eraseTwo rounds t x b = .ok t' ∧
      InOrder (Function.update base x (t.node x)) t' (before k ++ (l.toList ++ r.toList) ++ after k) := by
  have hr : Holds base t (plug (⟨.right, c, x, l⟩ :: k) r) := h
  have hdepth := length_add_depth_le (⟨.right, c, x, l⟩ :: k) r
  have hheight : (plug (⟨.right, c, x, l⟩ :: k) r).depth < rounds := hlen
  obtain ⟨kl, cy, y, ry, rfl, hkl, hwalk⟩ := walk_holds (s := .left) hr hb (by omega : r.depth ≤ rounds)
  have hnode : Holds base t (plug k (node c l x (plug kl (node cy leaf y ry)))) := h
  obtain ⟨t₁, p, htake, hpar, h₁⟩ := takePlace_holds ha hkl hnode
  -- the place of `y`
  have hplug : plug (kl ++ ⟨.right, c, x, l⟩ :: k) (join .left cy leaf y ry) =
      plug k (node c l x (plug kl (node cy leaf y ry))) := plug_append kl _ _
  obtain ⟨n, hn, hk, habove⟩ := rb_of_plug (k := kl ++ ⟨.right, c, x, l⟩ :: k) (t := join .left cy leaf y ry)
    (by rw [hplug]; exact hrb) (by rw [hplug]; exact hblack)
  have hcolor : colorAbove (kl ++ ⟨.right, c, y, l⟩ :: k) = colorAbove (kl ++ ⟨.right, c, x, l⟩ :: k) := by
    cases kl <;> rfl
  have hlen' : (kl ++ ⟨.right, c, y, l⟩ :: k).length < rounds := by
    have hle := length_add_depth_le (kl ++ ⟨.right, c, x, l⟩ :: k) (join .left cy leaf y ry)
    have hplug' : (plug (kl ++ ⟨.right, c, x, l⟩ :: k) (join .left cy leaf y ry)).depth < rounds := by
      rw [hplug]
      exact hlen
    rw [List.length_append, List.length_cons] at hle ⊢
    omega
  obtain ⟨t', hmend, hin⟩ := mend_inOrder h₁ hn hk.rename
    (fun hc => by rw [hcolor]; exact habove (by rw [isRed_join]; exact decide_eq_true hc)) hlen'
  refine ⟨t', ?_, ?_⟩
  · unfold eraseTwo
    rw [hwalk]
    show (takePlace t x y).bind _ = _
    rw [htake]
    rw [hpar] at hmend
    exact hmend
  · have horder : before (kl ++ ⟨.right, c, y, l⟩ :: k) ++ ry.toList ++ after (kl ++ ⟨.right, c, y, l⟩ :: k) =
        before k ++ (l.toList ++ (plug kl (join .left cy leaf y ry)).toList) ++ after k := by
      rw [← toList_plug, plug_append, plug, toList_plug k, Frame.plug, toList_join, toList_plug kl, toList_plug kl,
        before_of_left hkl]
      rfl
    rw [← horder]
    exact hin

/-- **A deletion** leaves the order of the other nodes, and the memory of all nodes outside
the tree. -/
theorem rbErase_inOrder {x : ι} (h : InOrder base t seq) (hx : x ∈ seq) (hlen : maxRounds seq.length ≤ rounds) :
    ∃ t', rbErase rounds t x = .ok t' ∧ InOrder (Function.update base x (t.node x)) t' (seq.erase x) := by
  obtain ⟨T, m, hT, hm, hblack, rfl⟩ := h
  have hdepth : T.depth < rounds := by
    have hle := hm.depth_le hblack
    unfold maxRounds at hlen
    omega
  obtain ⟨k, c, l, r, rfl⟩ := exists_plug hx
  have hjoin : Holds base t (plug k (join .left c l x r)) := hT
  have hleft : (t.node x).left = l.root := by rw [hjoin.node_eq]; rfl
  have hright : (t.node x).right = r.root := by rw [hjoin.node_eq]; rfl
  have hk : k.length < rounds := by
    have hle := length_add_depth_le k (node c l x r)
    omega
  have horder : (plug k (node c l x r)).toList.erase x = before k ++ (l.toList ++ r.toList) ++ after k := by
    have hsplit : (plug k (node c l x r)).toList = (before k ++ l.toList) ++ x :: (r.toList ++ after k) := by
      rw [toList_plug, toList]
      simp only [List.append_assoc, List.cons_append]
    have hd := hT.nodup
    rw [hsplit, List.nodup_append'] at hd
    have hxl : x ∉ before k ++ l.toList := fun hz => hd.2.2 hz List.mem_cons_self
    rw [hsplit, List.erase_append_right _ hxl, List.erase_cons_head]
    simp only [List.append_assoc]
  rw [horder]
  unfold rbErase
  rw [hleft, hright]
  cases l with
  | leaf => exact eraseOne_inOrder (s := .left) hT hm hblack hk
  | node cl ll a lr =>
    cases r with
    | leaf =>
      rw [show (leaf : ColorTree ι).toList = [] from rfl, List.append_nil]
      exact eraseOne_inOrder (s := .right) hT hm hblack hk
    | node cr rl b rr => exact eraseTwo_inOrder hT rfl rfl hm hblack hdepth

/-! ### Insertion and replacement -/

/-- The order after a node has been put beside `p`. -/
def beside (s : Side) (p x : ι) (seq : List ι) : List ι :=
  seq.flatMap fun z => if z = p then s.pick [x, p] [p, x] else [z]

/-- The order after a node has been replaced. -/
def renamed (victim new : ι) (seq : List ι) : List ι := seq.map fun z => if z = victim then new else z

theorem beside_eq {s : Side} {p x : ι} {A B : List ι} (hd : (A ++ p :: B).Nodup) :
    beside s p x (A ++ p :: B) = A ++ s.pick [x, p] [p, x] ++ B := by
  have hsame : ∀ {C : List ι}, p ∉ C → (C.flatMap fun z => if z = p then s.pick [x, p] [p, x] else [z]) = C := by
    intro C
    induction C with
    | nil => exact fun _ => rfl
    | cons z C ih =>
      intro hp
      rw [List.mem_cons, not_or] at hp
      rw [List.flatMap_cons, if_neg (Ne.symm hp.1), ih hp.2, List.singleton_append]
  rw [List.nodup_append', List.nodup_cons] at hd
  have hA : p ∉ A := fun hz => hd.2.2 hz List.mem_cons_self
  rw [beside, List.flatMap_append, List.flatMap_cons, hsame hA, hsame hd.2.1.1, if_pos rfl, List.append_assoc]

theorem renamed_eq {v y : ι} {A B : List ι} (hd : (A ++ v :: B).Nodup) : renamed v y (A ++ v :: B) = A ++ y :: B := by
  have hsame : ∀ {C : List ι}, v ∉ C → (C.map fun z => if z = v then y else z) = C := by
    intro C hC
    have hid : ∀ z ∈ C, (if z = v then y else z) = id z := by
      intro z hz
      refine if_neg ?_
      rintro rfl
      exact hC hz
    rw [List.map_congr_left hid, List.map_id]
  rw [List.nodup_append', List.nodup_cons] at hd
  have hA : v ∉ A := fun hz => hd.2.2 hz List.mem_cons_self
  rw [renamed, List.map_append, List.map_cons, hsame hA, hsame hd.2.1.1, if_pos rfl]

/-- A node is linked into the hole, and the tree is balanced. -/
theorem insert_inOrder {s : Side} {x : ι} {m : ℕ} (h : Holds base t (plug k leaf)) (hrb : (plug k leaf).Rb m)
    (hblack : (plug k (leaf : ColorTree ι)).isRed = false) (hx : x ∉ (plug k leaf).toList)
    (hs : ∀ f ∈ k.head?, s = f.side)
    (hlen : (plug k (leaf : ColorTree ι)).depth < rounds) :
    ∃ t', rbInsertColor rounds (rbLinkNode t x (parentOf none k) s) x = .ok t' ∧
      InOrder base t' (before k ++ x :: after k) := by
  obtain ⟨n, hn, hk, -⟩ := rb_of_plug hrb hblack
  have hxk : x ∉ ctxItems k := fun hz => hx (mem_toList_plug.mpr (Or.inr hz))
  have hlen' := length_add_depth_le k (leaf : ColorTree ι)
  obtain ⟨t', hcolor, h'⟩ := rbInsertColor_holds (rbLinkNode_holds h hxk hs) hk (by omega : k.length < rounds)
  obtain ⟨m', hm', hblack'⟩ := insertColor_rb (x := x) (⟨rfl, rfl, hn, hn⟩ : (node .red leaf x leaf).Rb n) hk
  refine ⟨t', hcolor, _, m', h', hm', hblack', ?_⟩
  rw [toList_insertColor]
  simp [toList]

theorem replace_inOrder {v y : ι} (h : InOrder base t seq) (hv : v ∈ seq) (hy : y ∉ seq) :
    InOrder (Function.update base v (t.node v)) (rbReplaceNode t v y) (renamed v y seq) := by
  obtain ⟨T, m, hT, hm, hblack, rfl⟩ := h
  obtain ⟨k, c, l, r, rfl⟩ := exists_plug hv
  obtain ⟨n, hn, hk, habove⟩ := rb_of_plug hm hblack
  have hn' : (node c l y r).Rb n := by
    cases c with
    | red => exact hn
    | black =>
      cases n with
      | zero => exact hn
      | succ n => exact hn
  have habove' : (node c l y r).isRed = true → colorAbove k = .black := by
    cases c with
    | red => exact habove
    | black => exact habove
  obtain ⟨m', hm', hblack'⟩ := plug_rb hn' hk habove'
  refine ⟨_, m', rbReplaceNode_holds hT hy, hm', hblack', ?_⟩
  have hsplit : ∀ z : ι, (plug k (node c l z r)).toList = (before k ++ l.toList) ++ z :: (r.toList ++ after k) := by
    intro z
    rw [toList_plug, toList]
    simp only [List.append_assoc, List.cons_append]
  have hd := hT.nodup
  rw [hsplit] at hd ⊢
  rw [hsplit, renamed_eq hd]

/-! ### Calls -/

/-- What a client does: it links a node into an empty place and balances the tree, erases a
node, or replaces one. -/
inductive RbCall (ι : Type*) where
  | insert (x : ι) (parent : Option ι) (slot : Side)
  | erase (x : ι)
  | replace (victim new : ι)

namespace RbCall

def exec (rounds : ℕ) (t : RbTree ι) : RbCall ι → Res (RbTree ι)
  | insert x parent slot => rbInsertColor rounds (rbLinkNode t x parent slot) x
  | erase x => rbErase rounds t x
  | replace victim new => .ok (rbReplaceNode t victim new)

/-- What the functions rely on: a node that is put in is not in the tree, and its place is
empty; a node that is taken out is in the tree. -/
def Allowed (t : RbTree ι) (seq : List ι) : RbCall ι → Prop
  | insert x none _ => x ∉ seq ∧ t.root = none
  | insert x (some p) slot => x ∉ seq ∧ p ∈ seq ∧ (t.node p).child slot = none
  | erase x => x ∈ seq
  | replace victim new => victim ∈ seq ∧ new ∉ seq

instance decidableAllowed (t : RbTree ι) (seq : List ι) : ∀ c : RbCall ι, Decidable (c.Allowed t seq)
  | insert x none _ => inferInstanceAs (Decidable (x ∉ seq ∧ t.root = none))
  | insert x (some p) slot => inferInstanceAs (Decidable (x ∉ seq ∧ p ∈ seq ∧ (t.node p).child slot = none))
  | erase x => inferInstanceAs (Decidable (x ∈ seq))
  | replace victim new => inferInstanceAs (Decidable (victim ∈ seq ∧ new ∉ seq))

/-- What the call means for the order. -/
def order : RbCall ι → List ι → List ι
  | insert x none _, _ => [x]
  | insert x (some p) slot, seq => beside slot p x seq
  | erase x, seq => seq.erase x
  | replace victim new, seq => renamed victim new seq

end RbCall

/-- **Every allowed call returns**, with the order that it means, and without a change to
nodes that are not in the tree behind it. -/
theorem RbCall.exec_inOrder {c : RbCall ι} (h : InOrder t.node t seq) (hc : c.Allowed t seq)
    (hlen : maxRounds seq.length ≤ rounds) :
    ∃ t', c.exec rounds t = .ok t' ∧ InOrder t.node t' (c.order seq) := by
  cases c with
  | erase x =>
    obtain ⟨t', herase, h'⟩ := rbErase_inOrder h hc hlen
    rw [Function.update_eq_self] at h'
    exact ⟨t', herase, h'⟩
  | replace v y =>
    have h' := replace_inOrder h hc.1 hc.2
    rw [Function.update_eq_self] at h'
    exact ⟨_, rfl, h'⟩
  | insert x parent slot =>
    obtain ⟨T, m, hT, hm, hblack, rfl⟩ := h
    have hdepth : T.depth < rounds := by
      have hle := hm.depth_le hblack
      unfold maxRounds at hlen
      omega
    cases parent with
    | none =>
      obtain ⟨hx, hroot⟩ := hc
      rw [hT.root] at hroot
      match T, hroot with
      | leaf, _ => exact insert_inOrder (k := []) hT hm hblack hx (fun f hf => by cases hf) hdepth
    | some p =>
      obtain ⟨hx, hp, hchild⟩ := hc
      obtain ⟨k, c, l, r, rfl⟩ := exists_plug hp
      obtain ⟨a, b, hab⟩ : ∃ a b, node c l p r = join slot c a p b := by
        cases slot with
        | left => exact ⟨l, r, rfl⟩
        | right => exact ⟨r, l, rfl⟩
      rw [hab] at hT hm hblack hx hdepth ⊢
      rw [hT.node_eq, RbNode.child_of] at hchild
      match a, hchild with
      | leaf, _ =>
        obtain ⟨t', hins, h'⟩ := insert_inOrder (k := ⟨slot, c, p, b⟩ :: k) (s := slot) hT hm hblack hx
          (fun f hf => by obtain rfl := Option.mem_some_iff.mp hf; rfl) hdepth
        refine ⟨t', hins, ?_⟩
        have hd := hT.nodup
        have horder : beside slot p x (plug k (join slot c leaf p b)).toList =
            before (⟨slot, c, p, b⟩ :: k) ++ x :: after (⟨slot, c, p, b⟩ :: k) := by
          cases slot with
          | left =>
            have hsplit : (plug k (join .left c leaf p b)).toList = before k ++ p :: (b.toList ++ after k) := by
              rw [toList_plug, List.append_assoc]
              rfl
            rw [hsplit] at hd ⊢
            rw [beside_eq hd]
            simp [before, after, Side.pick]
          | right =>
            have hsplit : (plug k (join .right c leaf p b)).toList = (before k ++ b.toList) ++ p :: after k := by
              rw [toList_plug, toList_join]
              simp [Side.arrange, toList]
            rw [hsplit] at hd ⊢
            rw [beside_eq hd]
            simp [before, after, Side.pick]
        rw [← horder] at h'
        exact h'

/-! ### Runs -/

/-- The tree in memory, and the order in which its clients see the nodes. -/
structure RbSys (ι : Type*) where
  tree : RbTree ι
  seq : List ι

namespace RbSys

/-- No node is in the tree; the memory is arbitrary. -/
def empty (mem : ι → RbNode ι) : RbSys ι where
  tree := { root := none, node := mem }
  seq := []

/-- An allowed call returns. -/
def Step (s : RbSys ι) (c : RbCall ι) (s' : RbSys ι) : Prop :=
  c.Allowed s.tree s.seq ∧ c.exec (maxRounds s.seq.length) s.tree = .ok s'.tree ∧ s'.seq = c.order s.seq

/-- The memory holds a red-black tree with the nodes in the order. -/
def Ok (s : RbSys ι) : Prop := InOrder s.tree.node s.tree s.seq

/-- The step as a function. -/
def next (s : RbSys ι) (c : RbCall ι) : Option (RbSys ι) :=
  if c.Allowed s.tree s.seq then
    match c.exec (maxRounds s.seq.length) s.tree with
    | .ok t => some ⟨t, c.order s.seq⟩
    | .error _ => none
  else none

/-- The state behind a run from the empty tree. -/
def reached (mem : ι → RbNode ι) (tr : List (RbCall ι × RbSys ι)) : RbSys ι := Run.final (empty mem) tr

variable {s s' : RbSys ι} {c : RbCall ι} {mem : ι → RbNode ι} {tr : List (RbCall ι × RbSys ι)}

theorem step_of_next (s : RbSys ι) (c : RbCall ι) (s' : RbSys ι) (h : next s c = some s') : Step s c s' := by
  unfold next at h
  split_ifs at h with hc
  split at h
  · rename_i t ht
    obtain rfl := Option.some.inj h
    exact ⟨hc, ht, rfl⟩
  · cases h

theorem Step.keeps (h : Step s c s') (hs : Ok s) : Ok s' := by
  obtain ⟨hc, hexec, hseq⟩ := h
  obtain ⟨t', hexec', h'⟩ := RbCall.exec_inOrder hs hc (Nat.le_refl _)
  rw [hexec] at hexec'
  obtain rfl := Except.ok.inj hexec'
  obtain ⟨T, m, hT, hm, hblack, horder⟩ := h'
  exact ⟨T, m, ⟨hT.nodes, hT.root, hT.nodup, fun _ _ => rfl⟩, hm, hblack, horder.trans hseq.symm⟩

omit [DecidableEq ι] in
theorem empty_ok : Ok (empty mem) := ⟨leaf, 0, ⟨trivial, rfl, List.nodup_nil, fun _ _ => rfl⟩, rfl, rfl, rfl⟩

/-- **Every state of a run** holds the tree. -/
theorem reached_ok (h : Run.Exec Step (empty mem) tr) : Ok (reached mem tr) :=
  h.invariant Ok (fun _ _ _ hs hst => hst.keeps hs) empty_ok _ (Run.final_mem_states _ _)

end RbSys

/-! ### Walks along the order -/

section Walks

omit [DecidableEq ι]

/-- The node at the end of the order on the side `s`. -/
def endOf (s : Side) (l : List ι) : Option ι := s.pick l.head? l.getLast?

theorem walk_end {s : Side} {x : ι} (h : Holds base t (plug k T)) (hx : T.root = some x) (hdepth : T.depth ≤ rounds) :
    ∃ y, walk s rounds t x = .ok y ∧ endOf s T.toList = some y := by
  obtain ⟨kl, c, y, b, rfl, hside, hwalk⟩ := walk_holds (s := s) h hx hdepth
  refine ⟨y, hwalk, ?_⟩
  rw [toList_plug, toList_join]
  cases s with
  | left =>
    rw [before_of_left hside]
    rfl
  | right =>
    rw [after_of_right hside]
    simp [endOf, Side.pick, Side.arrange, toList]

theorem rbEnd_holds {s : Side} (h : Holds base t T) (hdepth : T.depth ≤ rounds) :
    rbEnd s rounds t = .ok (endOf s T.toList) := by
  unfold rbEnd
  rw [h.root]
  cases hT : T.root with
  | none =>
    match T, hT with
    | leaf, _ => cases s <;> rfl
  | some x =>
    obtain ⟨y, hwalk, hend⟩ := walk_end (k := []) (s := s) h hT hdepth
    rw [hend]
    dsimp only
    rw [hwalk]
    rfl

end Walks

/-- From a subtree, the way up leads to the next item behind or before it. -/
theorem climb_holds {s : Side} : ∀ {k : List (Frame ι)} {T : ColorTree ι} {x : ι} {rounds : ℕ}, Holds base t (plug k T) →
    T.root = some x → k.length < rounds →
    climb s rounds t x = .ok (endOf s.other (s.pick (before k) (after k)))
  | [], T, x, rounds + 1, h, hx, _ => by
    unfold climb
    rw [Holds.parent_eq (k := []) h hx]
    cases s <;> rfl
  | f :: k, T, x, rounds + 1, h, hx, hlen => by
    have hf : Holds base t (plug k (f.plug T)) := h
    unfold climb
    rw [h.parent_eq hx]
    show (if (t.node f.item).child s = some x then climb s rounds t f.item else .ok (some f.item)) = _
    have hiff : (t.node f.item).child s = some x ↔ s = f.side := h.child_eq_iff hx
    by_cases hs : s = f.side
    · rw [if_pos (hiff.mpr hs), climb_holds hf root_join (Nat.lt_of_succ_lt_succ hlen), before, after, ← hs]
      cases s <;> simp [Side.pick]
    · rw [if_neg (mt hiff.mp hs), before, after]
      obtain hf : f.side = s.other := by
        rcases f.side.eq_or_eq_other s with he | he
        · exact absurd he.symm hs
        · exact he
      rw [hf]
      cases s <;> simp [Side.pick, Side.other, endOf]

theorem rbNeighbour_holds {s : Side} {c : Color} {l r : ColorTree ι} {x : ι} (h : Holds base t (plug k (node c l x r)))
    (hdepth : (plug k (node c l x r)).depth < rounds) : rbNeighbour s rounds t x =
      .ok (endOf s.other (s.pick (before k ++ l.toList) (r.toList ++ after k))) := by
  have hlen := length_add_depth_le k (node c l x r)
  have hpar : (t.node x).parent ≠ some x := by
    rw [h.parent_eq rfl]
    cases k with
    | nil => exact fun he => by cases he
    | cons f k =>
      obtain ⟨-, -, hd, -⟩ := holds_plug.mp h
      intro he
      have hfx : f.item = x := Option.some.inj he
      exact List.disjoint_of_nodup_append hd (root_mem rfl) (hfx ▸ List.mem_cons_self)
  obtain ⟨a, b, hab, ha⟩ : ∃ a b, node c l x r = join s c a x b ∧ a = s.pick l r := by
    cases s with
    | left => exact ⟨l, r, rfl, rfl⟩
    | right => exact ⟨r, l, rfl, rfl⟩
  have hjoin : Holds base t (plug k (join s c a x b)) := by rwa [← hab]
  have hchild : (t.node x).child s = a.root := by rw [hjoin.node_eq, RbNode.child_of]
  unfold rbNeighbour
  rw [if_neg hpar, hchild]
  cases hroot : a.root with
  | none =>
    have hleaf : s.pick l r = leaf := by
      rw [← ha]
      match a, hroot with
      | leaf, _ => rfl
    have hclimb : climb s rounds t x = _ := climb_holds h rfl (by omega : k.length < rounds)
    refine hclimb.trans ?_
    cases s with
    | left =>
      rw [show l = leaf from hleaf]
      simp [Side.pick, toList]
    | right =>
      rw [show r = leaf from hleaf]
      simp [Side.pick, toList]
  | some y =>
    have hha : Holds base t (plug (⟨s, c, x, b⟩ :: k) a) := hjoin
    have hlen' := length_add_depth_le (⟨s, c, x, b⟩ :: k) a
    have hplug : plug (⟨s, c, x, b⟩ :: k) a = plug k (node c l x r) := by
      rw [hab]
      rfl
    rw [hplug] at hlen'
    obtain ⟨z, hwalk, hend⟩ := walk_end (s := s.other) hha hroot (by omega : a.depth ≤ rounds)
    dsimp only
    rw [hwalk]
    show Except.ok (some z) = _
    rw [← hend, ha]
    have hne : s.pick l r ≠ leaf := by
      rw [← ha]
      rintro rfl
      cases hroot
    cases s with
    | left =>
      have hl : l.toList.getLast? = some z := by rw [ha] at hend; exact hend
      show Except.ok l.toList.getLast? = .ok (before k ++ l.toList).getLast?
      rw [List.getLast?_append, hl]
      rfl
    | right =>
      have hr : r.toList.head? = some z := by rw [ha] at hend; exact hend
      show Except.ok r.toList.head? = .ok (r.toList ++ after k).head?
      rw [List.head?_append, hr]
      rfl

/-- The walks follow the order. -/
theorem InOrder.walks (h : InOrder base t seq) (hlen : maxRounds seq.length ≤ rounds) :
    rbFirst rounds t = .ok seq.head? ∧ rbLast rounds t = .ok seq.getLast? ∧
      ∀ A x B, seq = A ++ x :: B → rbNext rounds t x = .ok B.head? ∧ rbPrev rounds t x = .ok A.getLast? := by
  obtain ⟨T, m, hT, hm, hblack, rfl⟩ := h
  have hdepth : T.depth < rounds := by
    have hle := hm.depth_le hblack
    unfold maxRounds at hlen
    omega
  refine ⟨rbEnd_holds hT hdepth.le, rbEnd_holds hT hdepth.le, fun A x B hsplit => ?_⟩
  have hx : x ∈ T.toList := by
    rw [hsplit]
    exact List.mem_append_right _ List.mem_cons_self
  obtain ⟨k, c, l, r, rfl⟩ := exists_plug hx
  -- the order around the node is unique
  have hd := hT.nodup
  have hsplit' : (plug k (node c l x r)).toList = (before k ++ l.toList) ++ x :: (r.toList ++ after k) := by
    rw [toList_plug, toList]
    simp only [List.append_assoc, List.cons_append]
  rw [hsplit'] at hsplit hd
  have hxl : x ∉ before k ++ l.toList := fun hz => (List.disjoint_of_nodup_append hd) hz List.mem_cons_self
  have hxr : x ∉ r.toList ++ after k := (List.nodup_cons.mp (List.nodup_append'.mp hd).2.1).1
  obtain ⟨rfl, -, rfl⟩ := (List.append_cons_inj_of_notMem hxl hxr).mp hsplit
  exact ⟨rbNeighbour_holds (s := .right) hT hdepth, rbNeighbour_holds (s := .left) hT hdepth⟩

/-! ### The runs -/

namespace RbSys

variable {c : RbCall ι} {mem : ι → RbNode ι} {tr : List (RbCall ι × RbSys ι)}

/-- **No call fails.** Behind any run from the empty tree, an allowed call returns: it follows
no NULL pointer, and each of its loops ends after a number of rounds that is logarithmic in
the number of nodes. The nodes are in the order that the call means, and the nodes outside
the tree have not been changed. -/
theorem calls_return (h : Run.Exec Step (empty mem) tr) (hc : c.Allowed (reached mem tr).tree (reached mem tr).seq) :
    ∃ t', c.exec (maxRounds (reached mem tr).seq.length) (reached mem tr).tree = .ok t' ∧
      InOrder (reached mem tr).tree.node t' (c.order (reached mem tr).seq) :=
  RbCall.exec_inOrder (reached_ok h) hc (Nat.le_refl _)

/-- Five nodes are put in, which takes recolouring and a rotation, and one with two children
is erased. -/
def someCalls : List (RbCall ℕ) :=
  [.insert 1 none .left, .insert 2 (some 1) .right, .insert 3 (some 2) .right, .insert 5 (some 3) .right,
    .insert 4 (some 5) .left, .erase 2]

theorem calls_return_some : ∃ tr : List (RbCall ℕ × RbSys ℕ), Run.Exec Step (empty fun _ => {}) tr ∧
    (reached (fun _ => {}) tr).seq = [1, 3, 4, 5] ∧
    ∃ t', RbCall.exec (maxRounds (reached (fun _ => {}) tr).seq.length)
      (reached (fun _ => {}) tr).tree (.erase 4) = .ok t' ∧
      InOrder (reached (fun _ => {}) tr).tree.node t' (RbCall.order (.erase 4) (reached (fun _ => {}) tr).seq) := by
  have hnext : ∀ (s : RbSys ℕ) c s', next s c = some s' → Step s c s' := step_of_next
  obtain ⟨tr, htr, hp⟩ := Run.exists_exec hnext someCalls
    (fun tr => decide ((reached (fun _ => {}) tr).seq = [1, 3, 4, 5])) (s := empty fun _ => {}) (by decide +kernel)
  have hseq := of_decide_eq_true hp
  have hc : RbCall.Allowed (reached (fun _ => {}) tr).tree (reached (fun _ => {}) tr).seq (.erase 4) := by
    show 4 ∈ (reached (fun _ => {}) tr).seq
    rw [hseq]
    decide
  exact ⟨tr, htr, hseq, calls_return htr hc⟩

/-- **The walks.** Behind any run, `rb_first` and `rb_last` are the ends of the order, and
`rb_next` and `rb_prev` lead to the neighbours. -/
theorem traversal (h : Run.Exec Step (empty mem) tr) :
    rbFirst (maxRounds (reached mem tr).seq.length) (reached mem tr).tree = .ok (reached mem tr).seq.head? ∧
      rbLast (maxRounds (reached mem tr).seq.length) (reached mem tr).tree = .ok (reached mem tr).seq.getLast? ∧
      ∀ A x B, (reached mem tr).seq = A ++ x :: B →
        rbNext (maxRounds (reached mem tr).seq.length) (reached mem tr).tree x = .ok B.head? ∧
        rbPrev (maxRounds (reached mem tr).seq.length) (reached mem tr).tree x = .ok A.getLast? :=
  (reached_ok h).walks (Nat.le_refl _)

theorem traversal_some : ∃ tr : List (RbCall ℕ × RbSys ℕ), Run.Exec Step (empty fun _ => {}) tr ∧
    (reached (fun _ => {}) tr).seq = [1, 3, 4, 5] ∧
    rbFirst (maxRounds (reached (fun _ => {}) tr).seq.length) (reached (fun _ => {}) tr).tree =
      .ok (reached (fun _ => {}) tr).seq.head? ∧
    rbNext (maxRounds (reached (fun _ => {}) tr).seq.length) (reached (fun _ => {}) tr).tree 3 = .ok (some 4) ∧
    rbPrev (maxRounds (reached (fun _ => {}) tr).seq.length) (reached (fun _ => {}) tr).tree 3 = .ok (some 1) := by
  have hnext : ∀ (s : RbSys ℕ) c s', next s c = some s' → Step s c s' := step_of_next
  obtain ⟨tr, htr, hp⟩ := Run.exists_exec hnext someCalls
    (fun tr => decide ((reached (fun _ => {}) tr).seq = [1, 3, 4, 5])) (s := empty fun _ => {}) (by decide +kernel)
  have hseq := of_decide_eq_true hp
  obtain ⟨hfirst, -, hwalk⟩ := traversal htr
  obtain ⟨hnext, hprev⟩ := hwalk [1] 3 [4, 5] hseq
  exact ⟨tr, htr, hseq, hfirst, hnext, hprev⟩

end RbSys

end Rosx
