/-
# Red-black trees with a hole

A tree that is worked on at one place is the subtree at this place and the way up from
it: a list of frames, each with the item there, its colour and the other subtree. In a
red-black tree (`Rb`) no red node has a red child, and all ways down from a node have the
same number of black nodes, its black height.

An inserted node is red, so that its parent may be red as well; `insertColor` moves this
fault up until it can be removed. Where a black node has been taken out, the black height
of what is left is one too small; `eraseColor` moves this up. Neither changes the order of
the items (`toList_insertColor`, `toList_eraseColor`), and both end in a red-black tree
with a black root (`insertColor_rb`, `eraseColor_rb`).

The left and the right side are treated alike: `join s` makes a node with the given
subtree on the side `s`.

Key definitions: `ColorTree`, `Frame`, `plug`, `ColorTree.Rb`, `insertColor`, `eraseColor`.
Key theorems: `toList_plug`, `plug_rb`, `insertColor_rb`, `eraseColor_rb`,
`ColorTree.Rb.depth_le`.
-/
import Mathlib.Data.List.Nodup
import Mathlib.Data.Nat.Log
import Mathlib.Algebra.Order.Group.Nat

namespace RedBlack

variable {ι : Type*}

inductive Color where
  | red
  | black
  deriving DecidableEq, Repr

inductive Side where
  | left
  | right
  deriving DecidableEq, Repr

namespace Side

def other : Side → Side
  | left => right
  | right => left

/-- The item between the items of two subtrees, the first of which is on the side. -/
def arrange (s : Side) (a : List ι) (x : ι) (b : List ι) : List ι :=
  match s with
  | left => a ++ x :: b
  | right => b ++ x :: a

/-- What is on the side, of what is on the left and on the right. -/
def pick {β : Type*} (s : Side) (l r : β) : β :=
  match s with
  | left => l
  | right => r

theorem eq_or_eq_other (s s' : Side) : s = s' ∨ s = s'.other := by
  cases s <;> cases s' <;> first | exact Or.inl rfl | exact Or.inr rfl

@[simp] theorem other_other (s : Side) : s.other.other = s := by cases s <;> rfl

theorem other_ne (s : Side) : s.other ≠ s := by cases s <;> decide

theorem mem_arrange {s : Side} {a b : List ι} {x z : ι} : z ∈ s.arrange a x b ↔ z = x ∨ z ∈ a ∨ z ∈ b := by
  cases s <;> simp only [arrange, List.mem_append, List.mem_cons] <;> tauto

theorem arrange_assoc (s : Side) (a b c : List ι) (x y : ι) :
    s.arrange a x (s.arrange b y c) = s.arrange (s.arrange a x b) y c := by cases s <;> simp [arrange]

end Side

inductive ColorTree (ι : Type*) where
  | leaf
  | node (c : Color) (l : ColorTree ι) (x : ι) (r : ColorTree ι)

namespace ColorTree

def toList : ColorTree ι → List ι
  | leaf => []
  | node _ l x r => l.toList ++ x :: r.toList

/-- The item at the top. -/
def root : ColorTree ι → Option ι
  | leaf => none
  | node _ _ x _ => some x

def isRed : ColorTree ι → Bool
  | node .red _ _ _ => true
  | _ => false

/-- The top is made black. -/
def blacken : ColorTree ι → ColorTree ι
  | leaf => leaf
  | node _ l x r => node .black l x r

/-- The node `x` with `a` on the side `s`. -/
def join (s : Side) (c : Color) (a : ColorTree ι) (x : ι) (b : ColorTree ι) : ColorTree ι :=
    node c (s.pick a b) x (s.pick b a)

def depth : ColorTree ι → ℕ
  | leaf => 0
  | node _ l _ r => max l.depth r.depth + 1

/-- A red-black tree of black height `n`. -/
def Rb : ℕ → ColorTree ι → Prop
  | n, leaf => n = 0
  | n, node .red l _ r => l.isRed = false ∧ r.isRed = false ∧ Rb n l ∧ Rb n r
  | 0, node .black _ _ _ => False
  | n + 1, node .black l _ r => Rb n l ∧ Rb n r

end ColorTree

open ColorTree

/-- One step of the way up: the side of the hole, and the node with its other subtree. -/
structure Frame (ι : Type*) where
  side : Side
  color : Color
  item : ι
  sibling : ColorTree ι

def Frame.plug (f : Frame ι) (t : ColorTree ι) : ColorTree ι := join f.side f.color t f.item f.sibling

/-- The tree with `t` in the hole. -/
def plug : List (Frame ι) → ColorTree ι → ColorTree ι
  | [], t => t
  | f :: k, t => plug k (f.plug t)

/-- The items in front of the hole. -/
def before : List (Frame ι) → List ι
  | [] => []
  | f :: k => before k ++ f.side.pick [] (f.sibling.toList ++ [f.item])

/-- The items behind the hole. -/
def after : List (Frame ι) → List ι
  | [] => []
  | f :: k => f.side.pick (f.item :: f.sibling.toList) [] ++ after k

/-- The colour above the hole; above the root it counts as red, so that the root is
black. -/
def colorAbove : List (Frame ι) → Color
  | [] => .red
  | f :: _ => f.color

/-- With a tree of black height `n` in the hole it is a red-black tree. -/
def CtxRb : ℕ → List (Frame ι) → Prop
  | _, [] => True
  | n, f :: k =>
    f.sibling.Rb n ∧
      if f.color = .red then f.sibling.isRed = false ∧ colorAbove k = .black ∧ CtxRb n k else CtxRb (n + 1) k

/-! ### Nodes -/

section Nodes

variable {s : Side} {c : Color} {a b t : ColorTree ι} {x : ι} {n : ℕ} {k : List (Frame ι)}

@[simp] theorem toList_join : (join s c a x b).toList = s.arrange a.toList x b.toList := by cases s <;> rfl

@[simp] theorem root_join : (join s c a x b).root = some x := rfl

@[simp] theorem isRed_join : (join s c a x b).isRed = decide (c = .red) := by cases c <;> rfl

@[simp] theorem blacken_join : (join s c a x b).blacken = join s .black a x b := rfl

theorem join_other (s : Side) (c : Color) (a b : ColorTree ι) (x : ι) : join s.other c a x b = join s c b x a := by
  cases s <;> rfl

/-- The other subtree of a node is the hole. -/
theorem plug_join (k : List (Frame ι)) (s : Side) (c : Color) (a b : ColorTree ι) (x : ι) :
    plug k (join s c a x b) = plug (⟨s.other, c, x, a⟩ :: k) b := by
  show _ = plug k (join s.other c b x a)
  rw [join_other]

theorem rb_join_red : (join s .red a x b).Rb n ↔ a.isRed = false ∧ b.isRed = false ∧ a.Rb n ∧ b.Rb n := by
  cases s with
  | left => exact Iff.rfl
  | right =>
    show (b.isRed = false ∧ a.isRed = false ∧ b.Rb n ∧ a.Rb n) ↔ _
    tauto

theorem rb_join_black : (join s .black a x b).Rb (n + 1) ↔ a.Rb n ∧ b.Rb n := by
  cases s with
  | left => exact Iff.rfl
  | right => exact And.comm

theorem exists_root (h : t.toList ≠ []) : ∃ x, t.root = some x := by
  cases t with
  | leaf => exact absurd rfl h
  | node _ _ x _ => exact ⟨x, rfl⟩

theorem toList_blacken (t : ColorTree ι) : t.blacken.toList = t.toList := by cases t <;> rfl

theorem isRed_blacken (t : ColorTree ι) : t.blacken.isRed = false := by cases t <;> rfl

theorem blacken_of_black (h : t.isRed = false) : t.blacken = t := by
  match t with
  | leaf => rfl
  | node .black _ _ _ => rfl

/-- A red root made black makes the black height one larger. -/
theorem ColorTree.Rb.blacken_red (h : t.Rb n) (hr : t.isRed = true) : t.blacken.Rb (n + 1) := by
  match t with
  | node .red l x r =>
    obtain ⟨-, -, hl, hr⟩ := h
    exact ⟨hl, hr⟩

theorem ColorTree.Rb.blacken (h : t.Rb n) : ∃ m, t.blacken.Rb m := by
  by_cases hr : t.isRed = true
  · exact ⟨n + 1, h.blacken_red hr⟩
  · rw [blacken_of_black (by rwa [Bool.not_eq_true] at hr)]
    exact ⟨n, h⟩

/-- A tree of positive black height is a node; its colour, and its subtrees from the side
`s` on. -/
theorem ColorTree.Rb.exists_join (s : Side) (h : t.Rb (n + 1)) : ∃ c a x b, t = join s c a x b := by
  match t with
  | leaf => cases h
  | node c l x r =>
    cases s with
    | left => exact ⟨c, l, x, r, rfl⟩
    | right => exact ⟨c, r, x, l, rfl⟩

/-! ### Ways up -/

theorem toList_plug : ∀ (k : List (Frame ι)) (t : ColorTree ι), (plug k t).toList = before k ++ t.toList ++ after k
  | [], t => by rw [plug, before, after, List.nil_append, List.append_nil]
  | f :: k, t => by
    rw [plug, toList_plug k, Frame.plug, toList_join, before, after]
    cases f.side <;> simp [Side.arrange, Side.pick]

theorem plug_append : ∀ (k k' : List (Frame ι)) (t : ColorTree ι), plug (k ++ k') t = plug k' (plug k t)
  | [], _, _ => rfl
  | f :: k, k', t => plug_append k k' (f.plug t)

/-- The hole of a red-black tree is filled. -/
theorem plug_rb : ∀ {n : ℕ} {k : List (Frame ι)} {t : ColorTree ι}, t.Rb n → CtxRb n k →
    (t.isRed = true → colorAbove k = .black) → ∃ m, (plug k t).Rb m ∧ (plug k t).isRed = false
  | n, [], t, ht, _, hc => by
    refine ⟨n, ht, ?_⟩
    by_contra hr
    have hblack : Color.red = Color.black := hc (by rwa [Bool.not_eq_false] at hr)
    cases hblack
  | n, f :: k, t, ht, hk, hc => by
    obtain ⟨hs, hk⟩ := hk
    rw [plug, Frame.plug]
    match hcol : f.color with
    | .red =>
      rw [if_pos hcol] at hk
      obtain ⟨hsr, hup, hk⟩ := hk
      have htb : t.isRed = false := by
        by_contra hr
        have hblack : f.color = .black := hc (by rwa [Bool.not_eq_false] at hr)
        rw [hcol] at hblack
        cases hblack
      exact plug_rb (rb_join_red.mpr ⟨htb, hsr, ht, hs⟩) hk fun _ => hup
    | .black =>
      rw [if_neg (by rw [hcol]; decide)] at hk
      exact plug_rb (rb_join_black.mpr ⟨ht, hs⟩) hk fun hr => by rw [isRed_join] at hr; simp at hr

/-- What is in the hole of a red-black tree. -/
theorem rb_of_plug : ∀ {k : List (Frame ι)} {t : ColorTree ι} {m : ℕ}, (plug k t).Rb m → (plug k t).isRed = false →
    ∃ n, t.Rb n ∧ CtxRb n k ∧ (t.isRed = true → colorAbove k = .black)
  | [], t, m, h, hb => ⟨m, h, trivial, fun hr => by rw [plug] at hb; rw [hb] at hr; cases hr⟩
  | f :: k, t, m, h, hb => by
    obtain ⟨n, hf, hk, habove⟩ := rb_of_plug (k := k) (t := f.plug t) h hb
    obtain ⟨s, c, x, u⟩ := f
    cases c with
    | red =>
      obtain ⟨htb, hub, ht, hu⟩ := rb_join_red.mp hf
      refine ⟨n, ht, ⟨hu, ?_⟩, fun hr => by rw [htb] at hr; cases hr⟩
      rw [if_pos rfl]
      exact ⟨hub, habove (isRed_join.trans rfl), hk⟩
    | black =>
      match n, hf with
      | 0, hf => cases s <;> cases hf
      | n + 1, hf =>
        obtain ⟨ht, hu⟩ := rb_join_black.mp hf
        exact ⟨n, ht, ⟨hu, hk⟩, fun _ => rfl⟩

/-- The items do not matter. -/
theorem CtxRb.rename {y : ι} : ∀ {k' : List (Frame ι)} {n : ℕ}, CtxRb n (k' ++ ⟨s, c, x, t⟩ :: k) →
    CtxRb n (k' ++ ⟨s, c, y, t⟩ :: k)
  | [], _, h => h
  | f :: k', n, h => by
    have hcolor : colorAbove (k' ++ ⟨s, c, y, t⟩ :: k) = colorAbove (k' ++ ⟨s, c, x, t⟩ :: k) := by cases k' <;> rfl
    obtain ⟨hs, hup⟩ := h
    refine ⟨hs, ?_⟩
    by_cases hf : f.color = .red
    · rw [if_pos hf] at hup
      rw [List.append_eq, if_pos hf, hcolor]
      exact ⟨hup.1, hup.2.1, hup.2.2.rename⟩
    · rw [if_neg hf] at hup
      rw [List.append_eq, if_neg hf]
      exact hup.rename

/-- The place of an item. -/
theorem exists_plug : ∀ {t : ColorTree ι}, x ∈ t.toList → ∃ k c l r, t = plug k (node c l x r)
  | node c l y r, h => by
    rcases List.mem_append.mp h with hl | hr
    · obtain ⟨k, c', l', r', rfl⟩ := exists_plug hl
      refine ⟨k ++ [⟨.left, c, y, r⟩], c', l', r', ?_⟩
      rw [plug_append]
      rfl
    · rcases List.mem_cons.mp hr with rfl | hr
      · exact ⟨[], c, l, r, rfl⟩
      · obtain ⟨k, c', l', r', rfl⟩ := exists_plug hr
        refine ⟨k ++ [⟨.right, c, y, l⟩], c', l', r', ?_⟩
        rw [plug_append]
        rfl

/-- The way up is no longer than the tree is high. -/
theorem length_add_depth_le : ∀ (k : List (Frame ι)) (t : ColorTree ι), k.length + t.depth ≤ (plug k t).depth
  | [], t => by rw [List.length_nil, Nat.zero_add, plug]
  | f :: k, t => by
    have ih := length_add_depth_le k (f.plug t)
    have hf : t.depth + 1 ≤ (f.plug t).depth := by
      obtain ⟨s, c, x, u⟩ := f
      cases s with
      | left => exact Nat.succ_le_succ (Nat.le_max_left _ _)
      | right => exact Nat.succ_le_succ (Nat.le_max_right _ _)
    rw [List.length_cons, plug]
    omega

end Nodes

/-! ### Insertion -/

/-- From the red node `x` up: a red parent with a red sibling is recoloured, and the fault
moves two levels up; else one or two rotations remove it. -/
def insertFix : List (Frame ι) → ColorTree ι → ι → ColorTree ι → ColorTree ι
  | [], l, x, r => node .red l x r
  | [f], l, x, r => f.plug (node .red l x r)
  | f :: g :: k, l, x, r =>
    if f.color = .black then plug (f :: g :: k) (node .red l x r)
    else if g.sibling.isRed then
      let a := join f.side .black (node .red l x r) f.item f.sibling
      insertFix k (g.side.pick a g.sibling.blacken) g.item (g.side.pick g.sibling.blacken a)
    else if f.side = g.side then
      plug k (join f.side .black (node .red l x r) f.item (join f.side .red f.sibling g.item g.sibling))
    else
      plug k (join g.side .black (join g.side .red f.sibling f.item (g.side.pick l r)) x
        (join g.side .red (g.side.pick r l) g.item g.sibling))

/-- The tree after the insertion of `x`. -/
def insertColor (k : List (Frame ι)) (l : ColorTree ι) (x : ι) (r : ColorTree ι) : ColorTree ι :=
    (insertFix k l x r).blacken

theorem toList_insertFix : ∀ (k : List (Frame ι)) (l : ColorTree ι) (x : ι) (r : ColorTree ι),
    (insertFix k l x r).toList = before k ++ (l.toList ++ x :: r.toList) ++ after k
  | [], l, x, r => by rw [insertFix, before, after, List.nil_append, List.append_nil, toList]
  | [f], l, x, r => toList_plug [f] (node .red l x r)
  | f :: g :: k, l, x, r => by
    have hplug := toList_plug k
    unfold insertFix
    by_cases hb : f.color = .black
    · rw [if_pos hb]
      exact toList_plug _ _
    rw [if_neg hb]
    by_cases hu : g.sibling.isRed = true
    · rw [if_pos hu, toList_insertFix k]
      simp only [before, after]
      cases g.side <;> cases f.side <;>
        simp [Side.pick, Side.arrange, toList_blacken, toList]
    rw [if_neg hu]
    by_cases hs : f.side = g.side
    · rw [if_pos hs, hplug]
      simp only [before, after, ← hs]
      cases f.side <;> simp [Side.pick, Side.arrange, toList]
    · rw [if_neg hs, hplug]
      simp only [before, after]
      cases hg : g.side <;> cases hf : f.side
      · exact absurd (hf.trans hg.symm) hs
      · simp [Side.pick, Side.arrange]
      · simp [Side.pick, Side.arrange]
      · exact absurd (hf.trans hg.symm) hs

/-- **The order is kept**, with `x` where it was put. -/
theorem toList_insertColor (k : List (Frame ι)) (l : ColorTree ι) (x : ι) (r : ColorTree ι) :
    (insertColor k l x r).toList = before k ++ (l.toList ++ x :: r.toList) ++ after k := by
  rw [insertColor, toList_blacken, toList_insertFix]

/-- Above a red node there is a black one. -/
theorem CtxRb.of_red {n : ℕ} {f : Frame ι} {k : List (Frame ι)} (h : CtxRb n (f :: k)) (hred : f.color ≠ .black) :
    f.color = .red ∧ f.sibling.Rb n ∧ f.sibling.isRed = false ∧
      ∃ g k', k = g :: k' ∧ g.color = .black ∧ g.sibling.Rb n ∧ CtxRb (n + 1) k' := by
  have hcol : f.color = .red := by
    cases hf : f.color with
    | red => rfl
    | black => exact absurd hf hred
  obtain ⟨hs, hup⟩ := h
  rw [if_pos hcol] at hup
  obtain ⟨hsr, habove, hk⟩ := hup
  cases k with
  | nil => cases habove
  | cons g k =>
    have hg : g.color = .black := habove
    obtain ⟨hgs, hgk⟩ := hk
    rw [if_neg (by rw [hg]; decide)] at hgk
    exact ⟨hcol, hs, hsr, g, k, rfl, hg, hgs, hgk⟩

theorem insertFix_rb : ∀ {n : ℕ} {k : List (Frame ι)} {l : ColorTree ι} {x : ι} {r : ColorTree ι},
    (node .red l x r).Rb n → CtxRb n k → ∃ m, (insertFix k l x r).Rb m
  | n, [], l, x, r, ht, _ => ⟨n, ht⟩
  | n, [f], l, x, r, ht, hk => by
    have hcol : f.color = .black := by
      by_contra hr
      obtain ⟨-, -, -, g, k', hnil, -⟩ := hk.of_red hr
      cases hnil
    obtain ⟨m, hm, -⟩ := plug_rb ht hk fun _ => hcol
    exact ⟨m, hm⟩
  | n, f :: g :: k, l, x, r, ht, hk => by
    unfold insertFix
    by_cases hb : f.color = .black
    · rw [if_pos hb]
      obtain ⟨m, hm, -⟩ := plug_rb ht hk fun _ => hb
      exact ⟨m, hm⟩
    obtain ⟨-, hs, hsb, g', k', hcons, hg, hgs, hk'⟩ := hk.of_red hb
    obtain ⟨rfl, rfl⟩ := List.cons.inj hcons
    rw [if_neg hb]
    by_cases hu : g.sibling.isRed = true
    · -- the parent and its sibling are black, and the node above them is red
      rw [if_pos hu]
      have ha : (join f.side .black (node .red l x r) f.item f.sibling).Rb (n + 1) := rb_join_black.mpr ⟨ht, hs⟩
      have hnew : (join g.side .red (join f.side .black (node .red l x r) f.item f.sibling) g.item
          g.sibling.blacken).Rb (n + 1) := by
        refine rb_join_red.mpr ⟨?_, isRed_blacken _, ha, hgs.blacken_red hu⟩
        rw [isRed_join]
        rfl
      exact insertFix_rb hnew hk'
    have hub : g.sibling.isRed = false := by rwa [Bool.not_eq_true] at hu
    have hdone : ∀ t : ColorTree ι, t.Rb (n + 1) → t.isRed = false → ∃ m, (plug k t).Rb m := by
      intro t hrb hblack
      obtain ⟨m, hm, -⟩ := plug_rb hrb hk' fun hr => by rw [hblack] at hr; cases hr
      exact ⟨m, hm⟩
    rw [if_neg hu]
    by_cases hside : f.side = g.side
    · rw [if_pos hside]
      apply hdone _ _ (isRed_join.trans rfl)
      exact rb_join_black.mpr ⟨ht, rb_join_red.mpr ⟨hsb, hub, hs, hgs⟩⟩
    · rw [if_neg hside]
      obtain ⟨hlb, hrb, hl, hr⟩ := ht
      apply hdone _ _ (isRed_join.trans rfl)
      -- the subtrees of the node go to the two sides
      cases g.side with
      | left => exact rb_join_black.mpr ⟨rb_join_red.mpr ⟨hsb, hlb, hs, hl⟩, rb_join_red.mpr ⟨hrb, hub, hr, hgs⟩⟩
      | right => exact rb_join_black.mpr ⟨rb_join_red.mpr ⟨hsb, hrb, hs, hr⟩, rb_join_red.mpr ⟨hlb, hub, hl, hgs⟩⟩

/-- **An insertion leaves a red-black tree with a black root.** -/
theorem insertColor_rb {n : ℕ} {k : List (Frame ι)} {l : ColorTree ι} {x : ι} {r : ColorTree ι}
    (ht : (node .red l x r).Rb n)
    (hk : CtxRb n k) : ∃ m, (insertColor k l x r).Rb m ∧ (insertColor k l x r).isRed = false := by
  obtain ⟨m, hm⟩ := insertFix_rb ht hk
  obtain ⟨m', hm'⟩ := hm.blacken
  exact ⟨m', hm', isRed_blacken _⟩

/-! ### Deletion -/

/-- The colour of a node, its item and its subtrees from the side `s` on. -/
def view (s : Side) : ColorTree ι → Option (Color × ColorTree ι × ι × ColorTree ι)
  | leaf => none
  | node c l x r => some (c, s.pick l r, x, s.pick r l)

/-- The parent `p` of colour `c` has lost a black node in the subtree `t` on the side `s`;
its other child `o` is black. If `o` has no red child, it becomes red, and the subtree of
`p` has lost a black node: the result is marked with `true`. Else one or two rotations
make up for it. -/
def eraseStep (s : Side) (c : Color) (t : ColorTree ι) (p : ι) (near : ColorTree ι) (o : ι)
    (far : ColorTree ι) : Bool × ColorTree ι :=
  if near.isRed = false ∧ far.isRed = false then (true, join s c t p (join s .red near o far))
  else if far.isRed = false then
    match view s near with
    | none => (false, join s c t p (join s .black near o far))
    | some (_, nn, n, nf) => (false, join s c (join s .black t p nn) n (join s .black nf o far))
  else (false, join s c (join s .black t p near) o far.blacken)

/-- From the subtree `t` up, which has lost a black node: a red node becomes black; else,
behind a rotation that makes the other child of the parent black, a step. -/
def eraseColor : List (Frame ι) → ColorTree ι → ColorTree ι
  | [], t => t.blacken
  | f :: k, t =>
    if t.isRed then plug (f :: k) t.blacken
    else
      match view f.side f.sibling with
      | none => plug (f :: k) t
      | some (.black, near, o, far) =>
        let r := eraseStep f.side f.color t f.item near o far
        if r.1 then eraseColor k r.2 else (plug k r.2).blacken
      | some (.red, near, o, far) =>
        match view f.side near with
        | none => plug (f :: k) t
        | some (_, near', o', far') =>
          let r := eraseStep f.side .red t f.item near' o' far'
          if r.1 then plug k (join f.side .black r.2.blacken o far)
          else (plug k (join f.side .black r.2 o far)).blacken

theorem view_join (s : Side) (c : Color) (a : ColorTree ι) (x : ι) (b : ColorTree ι) :
    view s (join s c a x b) = some (c, a, x, b) := by cases s <;> rfl

theorem eq_join_of_view {s : Side} {t : ColorTree ι} {c : Color} {a b : ColorTree ι} {x : ι}
    (h : view s t = some (c, a, x, b)) :
    t = join s c a x b := by
  match t with
  | leaf => cases h
  | node c l x r =>
    simp only [view, Option.some.injEq, Prod.mk.injEq] at h
    obtain ⟨rfl, rfl, rfl, rfl⟩ := h
    cases s <;> rfl

section Step

variable {s : Side} {c : Color} {t near far : ColorTree ι} {p o : ι} {n : ℕ}

theorem toList_eraseStep : (eraseStep s c t p near o far).2.toList =
    s.arrange t.toList p (s.arrange near.toList o far.toList) := by
  unfold eraseStep
  by_cases hboth : near.isRed = false ∧ far.isRed = false
  · rw [if_pos hboth, toList_join, toList_join]
  rw [if_neg hboth]
  by_cases hfar : far.isRed = false
  · rw [if_pos hfar]
    cases hv : view s near with
    | none => rw [toList_join, toList_join]
    | some v =>
      obtain ⟨c', nn, m, nf⟩ := v
      rw [eq_join_of_view hv]
      simp only [toList_join]
      cases s <;> simp [Side.arrange]
  · rw [if_neg hfar]
    simp only [toList_join, toList_blacken]
    cases s <;> simp [Side.arrange]

theorem isRed_eraseStep : (eraseStep s c t p near o far).2.isRed = decide (c = .red) := by
  unfold eraseStep
  split_ifs
  · rw [isRed_join]
  · cases view s near with
    | none => rw [isRed_join]
    | some v => rw [isRed_join]
  · rw [isRed_join]

theorem root_eraseStep (hup : (eraseStep s c t p near o far).1 = true) :
    (eraseStep s c t p near o far).2.root = some p := by
  unfold eraseStep at hup ⊢
  by_cases hboth : near.isRed = false ∧ far.isRed = false
  · rw [if_pos hboth, root_join]
  · rw [if_neg hboth] at hup
    split_ifs at hup
    cases hv : view s near with
    | none => rw [hv] at hup; cases hup
    | some v => rw [hv] at hup; cases hup

/-- A step that goes on leaves the subtree of the parent one black node short, and one made
black in its place. -/
theorem eraseStep_up (ht : t.Rb n) (hn : near.Rb n) (hf : far.Rb n)
    (hup : (eraseStep s c t p near o far).1 = true) :
    (eraseStep s c t p near o far).2.blacken.Rb (n + 1) ∧
      (c = .black → (eraseStep s c t p near o far).2.Rb (n + 1)) := by
  unfold eraseStep at hup ⊢
  by_cases hboth : near.isRed = false ∧ far.isRed = false
  · rw [if_pos hboth, blacken_join]
    have hsib : (join s .red near o far).Rb n := rb_join_red.mpr ⟨hboth.1, hboth.2, hn, hf⟩
    refine ⟨rb_join_black.mpr ⟨ht, hsib⟩, fun hc => ?_⟩
    rw [hc]
    exact rb_join_black.mpr ⟨ht, hsib⟩
  · rw [if_neg hboth] at hup
    split_ifs at hup
    cases hv : view s near with
    | none => rw [hv] at hup; cases hup
    | some v => rw [hv] at hup; cases hup

/-- A step that ends restores the subtree of the parent. -/
theorem eraseStep_done (ht : t.Rb n) (hn : near.Rb n) (hf : far.Rb n)
    (hdone : (eraseStep s c t p near o far).1 = false) :
    (c = .red → (eraseStep s c t p near o far).2.Rb (n + 1)) ∧
      (c = .black → (eraseStep s c t p near o far).2.Rb (n + 2)) := by
  have hjoin : ∀ {a b : ColorTree ι} {x : ι}, a.Rb (n + 1) → b.Rb (n + 1) → a.isRed = false → b.isRed = false →
      (c = .red → (join s c a x b).Rb (n + 1)) ∧ (c = .black → (join s c a x b).Rb (n + 2)) := by
    intro a b x ha hb har hbr
    constructor
    · rintro rfl
      exact rb_join_red.mpr ⟨har, hbr, ha, hb⟩
    · rintro rfl
      exact rb_join_black.mpr ⟨ha, hb⟩
  unfold eraseStep at hdone ⊢
  by_cases hboth : near.isRed = false ∧ far.isRed = false
  · rw [if_pos hboth] at hdone
    cases hdone
  rw [if_neg hboth]
  by_cases hfar : far.isRed = false
  · -- the red child is the near one
    rw [if_pos hfar]
    have hred : near.isRed = true := by
      by_contra hr
      exact hboth ⟨by rwa [Bool.not_eq_true] at hr, hfar⟩
    match near with
    | node .red l m r =>
      have hl := hn.2.2.1
      have hr := hn.2.2.2
      cases s with
      | left => exact hjoin (rb_join_black.mpr ⟨ht, hl⟩) (rb_join_black.mpr ⟨hr, hf⟩) isRed_join isRed_join
      | right => exact hjoin (rb_join_black.mpr ⟨ht, hr⟩) (rb_join_black.mpr ⟨hl, hf⟩) isRed_join isRed_join
  · rw [if_neg hfar]
    have hfr : far.isRed = true := by rwa [Bool.not_eq_false] at hfar
    exact hjoin (rb_join_black.mpr ⟨ht, hn⟩) (hf.blacken_red hfr) isRed_join (isRed_blacken _)

end Step

theorem eraseColor_of_red {k : List (Frame ι)} {t : ColorTree ι} (h : t.isRed = true) :
    eraseColor k t = plug k t.blacken := by
  cases k with
  | nil => rfl
  | cons f k => rw [eraseColor, if_pos h]

theorem eraseColor_black {f : Frame ι} {k : List (Frame ι)} {t near far : ColorTree ι} {o : ι} (h : t.isRed = false)
    (hs : f.sibling = join f.side .black near o far) : eraseColor (f :: k) t =
      if (eraseStep f.side f.color t f.item near o far).1 then
        eraseColor k (eraseStep f.side f.color t f.item near o far).2
      else (plug k (eraseStep f.side f.color t f.item near o far).2).blacken := by
  rw [eraseColor, if_neg (by rw [h]; decide), hs, view_join]

theorem eraseColor_red {f : Frame ι} {k : List (Frame ι)} {t near' far' far : ColorTree ι} {o o' : ι} {c : Color}
    (h : t.isRed = false) (hs : f.sibling = join f.side .red (join f.side c near' o' far') o far) :
    eraseColor (f :: k) t =
      if (eraseStep f.side .red t f.item near' o' far').1 then
        plug k (join f.side .black (eraseStep f.side .red t f.item near' o' far').2.blacken o far)
      else (plug k (join f.side .black (eraseStep f.side .red t f.item near' o' far').2 o far)).blacken := by
  rw [eraseColor, if_neg (by rw [h]; decide), hs, view_join]
  dsimp only
  rw [view_join]

/-- **The order is kept.** -/
theorem toList_eraseColor : ∀ (k : List (Frame ι)) (t : ColorTree ι),
    (eraseColor k t).toList = before k ++ t.toList ++ after k
  | [], t => by rw [eraseColor, toList_blacken, before, after, List.nil_append, List.append_nil]
  | f :: k, t => by
    by_cases hr : t.isRed = true
    · rw [eraseColor_of_red hr, toList_plug, toList_blacken]
    have hb : t.isRed = false := by rwa [Bool.not_eq_true] at hr
    -- with the other child of the parent put back, it is the order of the filled hole
    have horder : before k ++ f.side.arrange t.toList f.item f.sibling.toList ++ after k =
        before (f :: k) ++ t.toList ++ after (f :: k) := by
      rw [← toList_plug (f :: k) t, plug, toList_plug, Frame.plug, toList_join]
    cases hv : view f.side f.sibling with
    | none =>
      rw [eraseColor, if_neg hr, hv]
      exact toList_plug _ _
    | some v =>
      obtain ⟨c, near, o, far⟩ := v
      have hs := eq_join_of_view hv
      rw [← horder, hs, toList_join]
      cases c with
      | black =>
        rw [eraseColor_black hb hs]
        split_ifs
        · rw [toList_eraseColor k, toList_eraseStep]
        · rw [toList_blacken, toList_plug, toList_eraseStep]
      | red =>
        cases hv' : view f.side near with
        | none =>
          rw [eraseColor, if_neg hr, hv]
          dsimp only
          rw [hv', ← toList_join (c := .red), ← hs, horder]
          exact toList_plug _ _
        | some v' =>
          obtain ⟨c', near', o', far'⟩ := v'
          rw [eq_join_of_view hv'] at hs ⊢
          rw [eraseColor_red hb hs]
          split_ifs
          · rw [toList_plug, toList_join, toList_blacken, toList_eraseStep, toList_join]
            cases f.side <;> simp [Side.arrange]
          · rw [toList_blacken, toList_plug, toList_join, toList_eraseStep, toList_join]
            cases f.side <;> simp [Side.arrange]

/-- **A deletion leaves a red-black tree with a black root**, if what is put into the hole is
one black node short. -/
theorem eraseColor_rb : ∀ {n : ℕ} {k : List (Frame ι)} {t : ColorTree ι}, t.Rb n → CtxRb (n + 1) k →
    ∃ m, (eraseColor k t).Rb m ∧ (eraseColor k t).isRed = false
  | n, [], t, ht, _ => by
    obtain ⟨m, hm⟩ := ht.blacken
    exact ⟨m, hm, isRed_blacken t⟩
  | n, f :: k, t, ht, hk => by
    by_cases hr : t.isRed = true
    · rw [eraseColor_of_red hr]
      exact plug_rb (ht.blacken_red hr) hk fun h => by rw [isRed_blacken] at h; cases h
    have hb : t.isRed = false := by rwa [Bool.not_eq_true] at hr
    have hblacken : ∀ {u : ColorTree ι}, (∃ m, u.Rb m ∧ u.isRed = false) →
      ∃ m, u.blacken.Rb m ∧ u.blacken.isRed = false := by
      rintro u ⟨m, hm, hu⟩
      rw [blacken_of_black hu]
      exact ⟨m, hm, hu⟩
    obtain ⟨hs, hup⟩ := hk
    obtain ⟨c, near, o, far, hsib⟩ := hs.exists_join f.side
    rw [hsib] at hs
    cases c with
    | black =>
      obtain ⟨hn, hf⟩ := rb_join_black.mp hs
      rw [eraseColor_black hb hsib]
      by_cases hgo : (eraseStep f.side f.color t f.item near o far).1 = true
      · rw [if_pos hgo]
        obtain ⟨hblack, hrb⟩ := eraseStep_up ht hn hf hgo
        by_cases hred : f.color = .red
        · -- a red parent is made black
          rw [if_pos hred] at hup
          rw [eraseColor_of_red (by rw [isRed_eraseStep]; exact decide_eq_true hred)]
          exact plug_rb hblack hup.2.2 fun h => by rw [isRed_blacken] at h; cases h
        · rw [if_neg hred] at hup
          have hcol : f.color = .black := by
            cases hf : f.color with
            | red => exact absurd hf hred
            | black => rfl
          exact eraseColor_rb (hrb hcol) hup
      · rw [if_neg hgo]
        obtain ⟨hred, hblack⟩ := eraseStep_done ht hn hf (by rwa [Bool.not_eq_true] at hgo)
        apply hblacken
        match hcol : f.color with
        | .red =>
          rw [if_pos hcol] at hup
          rw [hcol] at hred
          exact plug_rb (hred rfl) hup.2.2 fun _ => hup.2.1
        | .black =>
          rw [if_neg (by rw [hcol]; decide)] at hup
          rw [hcol] at hblack
          exact plug_rb (hblack rfl) hup fun h => by rw [isRed_eraseStep] at h; simp at h
    | red =>
      obtain ⟨hnb, -, hn, hf⟩ := rb_join_red.mp hs
      -- the parent of a red node is black
      have hcol : f.color ≠ .red := by
        intro hred
        rw [if_pos hred, hsib, isRed_join] at hup
        simp at hup
      rw [if_neg hcol] at hup
      obtain ⟨c', near', o', far', hnear⟩ := hn.exists_join f.side
      rw [hnear] at hn hnb hsib
      have hc' : c' = .black := by
        cases c' with
        | red => rw [isRed_join] at hnb; simp at hnb
        | black => rfl
      subst hc'
      obtain ⟨hn', hf'⟩ := rb_join_black.mp hn
      rw [eraseColor_red hb hsib]
      by_cases hgo : (eraseStep f.side .red t f.item near' o' far').1 = true
      · rw [if_pos hgo]
        obtain ⟨hblack, -⟩ := eraseStep_up ht hn' hf' hgo
        exact plug_rb (rb_join_black.mpr ⟨hblack, hf⟩) hup fun h => by rw [isRed_join] at h; simp at h
      · rw [if_neg hgo]
        obtain ⟨hred, -⟩ := eraseStep_done ht hn' hf' (by rwa [Bool.not_eq_true] at hgo)
        apply hblacken
        exact plug_rb (rb_join_black.mpr ⟨hred rfl, hf⟩) hup fun h => by rw [isRed_join] at h; simp at h

/-! ### Height -/

theorem ColorTree.Rb.depth_le_black : ∀ {n : ℕ} {t : ColorTree ι}, t.Rb n → t.depth ≤ 2 * n + (if t.isRed then 1 else 0)
  | n, leaf, _ => Nat.zero_le _
  | n, node .red l _ r, ⟨hlb, hrb, hl, hr⟩ => by
    have h1 := hl.depth_le_black
    have h2 := hr.depth_le_black
    rw [hlb] at h1
    rw [hrb] at h2
    simp only [depth, isRed, if_true, Bool.false_eq_true, if_false] at *
    omega
  | n + 1, node .black l _ r, ⟨hl, hr⟩ => by
    have h1 := hl.depth_le_black
    have h2 := hr.depth_le_black
    simp only [depth, isRed, Bool.false_eq_true, if_false]
    split_ifs at h1 h2 <;> omega

theorem ColorTree.Rb.two_pow_le : ∀ {n : ℕ} {t : ColorTree ι}, t.Rb n → 2 ^ n ≤ t.toList.length + 1
  | n, leaf, h => by
    have h0 : n = 0 := h
    rw [h0]
    exact Nat.le_refl 1
  | n, node .red l _ r, ⟨_, _, hl, _⟩ => by
    have h1 := hl.two_pow_le
    simp only [toList, List.length_append, List.length_cons]
    omega
  | n + 1, node .black l _ r, ⟨hl, hr⟩ => by
    have h1 := hl.two_pow_le
    have h2 := hr.two_pow_le
    rw [pow_succ]
    simp only [toList, List.length_append, List.length_cons]
    omega

/-- **The height is logarithmic.** -/
theorem ColorTree.Rb.depth_le {n : ℕ} {t : ColorTree ι} (h : t.Rb n) (hb : t.isRed = false) :
    t.depth ≤ 2 * Nat.log 2 (t.toList.length + 1) := by
  have hd := h.depth_le_black
  have hlog : n ≤ Nat.log 2 (t.toList.length + 1) := Nat.le_log_of_pow_le (by decide) h.two_pow_le
  rw [hb] at hd
  simp only [Bool.false_eq_true, if_false] at hd
  omega

end RedBlack
