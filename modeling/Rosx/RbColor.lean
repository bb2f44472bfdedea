/-
# Recolouring in memory

The loops of `rb_insert_color` and `__rb_erase_color` do to a tree in memory what
`insertColor` and `eraseColor` do to the tree: a round of a loop is a step of the way up,
and none of the pointers that are followed is NULL.

Key theorems: `insertLoop_holds`, `rbInsertColor_holds`, `eraseLoop_holds`,
`rbEraseColor_holds`.
-/
import Rosx.Rbtree

namespace Rosx

open Linked RedBlack RedBlack.ColorTree

variable {ι : Type*} {base : ι → RbNode ι} {t : RbTree ι} {k : List (Frame ι)} {T : ColorTree ι}

/-! ### What is read -/

/-- A node of the tree is as the tree says. -/
theorem Holds.node_eq {s : Side} {c : Color} {a b : ColorTree ι} {x : ι} (h : Holds base t (plug k (join s c a x b))) :
    t.node x = .of s (parentOf none k) c a.root b.root := by
  obtain ⟨hat, -⟩ := holds_plug.mp h
  exact (at_join.mp hat).1

/-- The node above the hole is as well. -/
theorem Holds.above_eq {f : Frame ι} (h : Holds base t (plug (f :: k) T)) :
    t.node f.item = .of f.side (parentOf none k) f.color T.root f.sibling.root := by
  exact Holds.node_eq (show Holds base t (plug k (join f.side f.color T f.item f.sibling)) from h)

theorem Holds.parent_eq {x : ι} (h : Holds base t (plug k T)) (hx : T.root = some x) :
    (t.node x).parent = parentOf none k := by
  obtain ⟨hat, -⟩ := holds_plug.mp h
  match T with
  | node c l y r =>
    obtain rfl := Option.some.inj hx
    rw [hat.1]

theorem Holds.isBlack_root (h : Holds base t (plug k T)) : t.isBlack T.root = !T.isRed := by
  obtain ⟨hat, -⟩ := holds_plug.mp h
  match T with
  | leaf => rfl
  | node c l x r =>
    obtain ⟨hx, -⟩ := hat
    show decide ((t.node x).color = .black) = _
    rw [hx]
    cases c <;> rfl

theorem Holds.child_eq_iff {f : Frame ι} {x : ι} {s : Side} (h : Holds base t (plug (f :: k) T)) (hx : T.root = some x) :
    (t.node f.item).child s = some x ↔ s = f.side := by
  obtain ⟨-, hk, hd, -⟩ := holds_plug.mp h
  rw [hx] at hk
  exact hk.child_eq_iff (List.disjoint_of_nodup_append hd (root_mem hx))

/-- The tops of two subtrees side by side are not the same. -/
theorem Holds.root_ne_sibling {f : Frame ι} {o : ι} (h : Holds base t (plug (f :: k) T)) (ho : f.sibling.root = some o) :
    T.root ≠ some o := by
  intro hT
  obtain ⟨-, -, hd, -⟩ := holds_plug.mp h
  apply List.disjoint_of_nodup_append hd (root_mem hT)
  exact List.mem_cons_of_mem _ (List.mem_append_left _ (root_mem ho))

theorem CtxAt.exists_root {node : ι → RbNode ι} {par root : Option ι} : ∀ {f : Frame ι} {k : List (Frame ι)}
    {hole : Option ι}, CtxAt node par root (f :: k) hole → ∃ y ∈ ctxItems (f :: k), root = some y
  | f, [], _, ⟨_, _, hroot⟩ => ⟨f.item, List.mem_cons_self, hroot⟩
  | f, g :: k, _, ⟨_, _, hk⟩ => by
    obtain ⟨y, hy, hroot⟩ := hk.exists_root
    exact ⟨y, List.mem_cons_of_mem _ (List.mem_append_right _ hy), hroot⟩

theorem Holds.root_ne {f : Frame ι} (h : Holds base t (plug (f :: k) T)) : T.root ≠ t.root := by
  obtain ⟨-, hk, hd, -⟩ := holds_plug.mp h
  obtain ⟨y, hy, hroot⟩ := hk.exists_root
  rw [hroot]
  intro hT
  exact List.disjoint_of_nodup_append hd (root_mem hT) hy

variable [DecidableEq ι]

/-! ### Changes -/

/-- The node above the hole is recoloured. -/
theorem setColor_above {f : Frame ι} {c : Color} (h : Holds base t (plug (f :: k) T)) :
    Holds base (t.setColor f.item c) (plug ({ f with color := c } :: k) T) := by
  have hjoin : Holds base t (plug k (join f.side f.color T f.item f.sibling)) := h
  exact setColor_holds _ hjoin

/-- The top of the tree in the hole is made black. -/
theorem setColor_root {x : ι} (h : Holds base t (plug k T)) (hx : T.root = some x) :
    Holds base (t.setColor x .black) (plug k T.blacken) := by
  match T with
  | node c l y r =>
    obtain rfl := Option.some.inj hx
    have hjoin : Holds base t (plug k (join .left c l y r)) := h
    exact setColor_holds _ hjoin

/-- A rotation the other way. -/
theorem rotate_other_holds {s : Side} {cx cy : Color} {a b c : ColorTree ι} {x y : ι}
    (h : Holds base t (plug k (join s cx (join s cy c y b) x a))) :
    ∃ t', rotate s.other t x = .ok t' ∧ Holds base t' (plug k (join s cy c y (join s cx b x a))) := by
  have hjoin : join s cx (join s cy c y b) x a = join s.other cx a x (join s.other cy b y c) := by
    rw [join_other, join_other]
  rw [hjoin] at h
  obtain ⟨t', hrot, h'⟩ := rotate_holds h
  refine ⟨t', hrot, ?_⟩
  rwa [join_other, join_other] at h'

/-! ### Insertion -/

theorem insertLoop_of_black {n : ℕ} {x p : ι} (hp : (t.node x).parent = some p) (hc : (t.node p).color = .black) :
    insertLoop (n + 1) t x = .ok t := by
  unfold insertLoop
  rw [hp]
  dsimp only
  rw [if_neg (by rw [hc]; decide)]

/-- The node is an outer grandchild: one rotation. -/
theorem insertRotate_outer {s : Side} {cf cg : Color} {F G : ColorTree ι} {x f g : ι} (hx : T.root = some x)
    (h : Holds base t (plug k (join s cg (join s cf T f F) g G))) :
    ∃ t', insertRotate s t x f g = .ok (t', x) ∧
      Holds base t' (plug k (join s .black T f (join s .red F g G))) := by
  have hf : Holds base t (plug (⟨s, cf, f, F⟩ :: ⟨s, cg, g, G⟩ :: k) T) := h
  have hside : (t.node f).child s.other ≠ some x := by
    intro hchild
    exact s.other_ne ((hf.child_eq_iff hx).mp hchild)
  have h₁ : Holds base (t.setColor f .black) (plug (⟨s, .black, f, F⟩ :: ⟨s, cg, g, G⟩ :: k) T) := setColor_above hf
  have hg : Holds base (t.setColor f .black) (plug (⟨s, cg, g, G⟩ :: k) (join s .black T f F)) := h₁
  have h₂ : Holds base ((t.setColor f .black).setColor g .red) (plug (⟨s, .red, g, G⟩ :: k) (join s .black T f F)) :=
    setColor_above hg
  obtain ⟨t', hrot, h'⟩ := rotate_other_holds h₂
  refine ⟨t', ?_, h'⟩
  unfold insertRotate
  rw [if_neg hside, hrot]
  rfl

/-- The node is an inner grandchild: two rotations. -/
theorem insertRotate_inner {s : Side} {cf cg c : Color} {F G a b : ColorTree ι} {x f g : ι}
    (h : Holds base t (plug k (join s cg (join s cf F f (join s c a x b)) g G))) :
    ∃ t', insertRotate s t x f g = .ok (t', f) ∧
      Holds base t' (plug k (join s .black (join s cf F f a) x (join s .red b g G))) := by
  have hf : Holds base t (plug (⟨s, cg, g, G⟩ :: k) (join s cf F f (join s c a x b))) := h
  have hside : (t.node f).child s.other = some x := by
    rw [hf.node_eq, RbNode.child_other_of, root_join]
  obtain ⟨t₁, hrot₁, h₁⟩ := rotate_holds hf
  have h₂ : Holds base (t₁.setColor x .black) (plug (⟨s, cg, g, G⟩ :: k) (join s .black (join s cf F f a) x b)) :=
    setColor_root h₁ rfl
  have h₃ : Holds base ((t₁.setColor x .black).setColor g .red)
      (plug k (join s .red (join s .black (join s cf F f a) x b) g G)) := setColor_above h₂
  obtain ⟨t', hrot, h'⟩ := rotate_other_holds h₃
  refine ⟨t', ?_, h'⟩
  unfold insertRotate
  rw [if_pos hside, hrot₁]
  dsimp only [bind, Except.bind]
  rw [hrot]
  rfl

/-- The uncle is red: it and the parent become black, and the grandparent red. -/
theorem insertBody_red {f g : Frame ι} {x : ι} (hu : g.sibling.isRed = true)
    (h : Holds base t (plug (f :: g :: k) T)) :
    ∃ t', insertBody g.side t x f.item g.item = .ok (t', g.item) ∧
      Holds base t' (plug k (join g.side .red (join f.side .black T f.item f.sibling) g.item g.sibling.blacken)) := by
  obtain ⟨sf, cf, f, F⟩ := f
  obtain ⟨sg, cg, g, G⟩ := g
  match G, hu with
  | node .red ul u ur, _ =>
  have huncle : (t.node g).child sg.other = some u := by
    have hg : Holds base t (plug k (join sg cg (join sf cf T f F) g (node .red ul u ur))) := h
    rw [hg.node_eq, RbNode.child_other_of]
    rfl
  -- the uncle is in the hole
  have hG : Holds base t (plug (⟨sg.other, cg, g, join sf cf T f F⟩ :: k) (node .red ul u ur)) := by
    rw [← plug_join]
    exact h
  have hred : (t.node u).color = .red := by
    have hjoin : Holds base t (plug (⟨sg.other, cg, g, join sf cf T f F⟩ :: k) (join .left .red ul u ur)) := hG
    rw [hjoin.node_eq]
    rfl
  have h₁ := setColor_root hG rfl
  rw [← plug_join] at h₁
  have h₂ : Holds base ((t.setColor u .black).setColor f .black)
      (plug (⟨sf, .black, f, F⟩ :: ⟨sg, cg, g, (node .red ul u ur).blacken⟩ :: k) T) :=
    setColor_above (f := ⟨sf, cf, f, F⟩) h₁
  have h₃ : Holds base (((t.setColor u .black).setColor f .black).setColor g .red)
      (plug (⟨sg, .red, g, (node .red ul u ur).blacken⟩ :: k) (join sf .black T f F)) :=
    setColor_above (f := ⟨sg, cg, g, (node .red ul u ur).blacken⟩) h₂
  refine ⟨_, ?_, h₃⟩
  unfold insertBody
  rw [huncle]
  dsimp only
  rw [if_pos hred]

/-- The uncle is not red. -/
theorem insertBody_black {f g : Frame ι} {x : ι} (hu : g.sibling.isRed = false)
    (h : Holds base t (plug (f :: g :: k) T)) :
    insertBody g.side t x f.item g.item = insertRotate g.side t x f.item g.item := by
  obtain ⟨sg, cg, g, G⟩ := g
  have hg : Holds base t (plug k (join sg cg (f.plug T) g G)) := h
  have huncle : (t.node g).child sg.other = G.root := by rw [hg.node_eq, RbNode.child_other_of]
  have hG : Holds base t (plug (⟨sg.other, cg, g, f.plug T⟩ :: k) G) := by
    rw [← plug_join]
    exact h
  unfold insertBody
  dsimp only
  rw [huncle]
  match G, hu with
  | leaf, _ => rfl
  | node .black ul u ur, _ =>
    have hjoin : Holds base t (plug (⟨sg.other, cg, g, f.plug T⟩ :: k) (join .left .black ul u ur)) := hG
    have hblack : (t.node u).color = .black := by
      rw [hjoin.node_eq]
      rfl
    exact if_neg (by rw [hblack]; decide)

/-- **The loop of an insertion**: from the red node `x` up, with as many rounds as the way
is long. -/
theorem insertLoop_holds : ∀ {rounds n : ℕ} {k : List (Frame ι)} {t : RbTree ι} {l r : ColorTree ι} {x : ι},
    Holds base t (plug k (node .red l x r)) → CtxRb n k → k.length < rounds →
      ∃ t', insertLoop rounds t x = .ok t' ∧ Holds base t' (insertFix k l x r)
  | rounds + 1, n, [], t, l, r, x, h, _, _ => by
    have hpar : (t.node x).parent = none := Holds.parent_eq (k := []) (T := node .red l x r) h rfl
    refine ⟨t, ?_, h⟩
    unfold insertLoop
    rw [hpar]
  | rounds + 1, n, [f], t, l, r, x, h, hk, _ => by
    have hcol : f.color = .black := by
      by_contra hr
      obtain ⟨-, -, -, g, k', hnil, -⟩ := hk.of_red hr
      cases hnil
    refine ⟨t, insertLoop_of_black (h.parent_eq rfl) ?_, h⟩
    rw [h.above_eq]
    exact hcol
  | rounds + 1, n, f :: g :: k, t, l, r, x, h, hk, hlen => by
    have hpar : (t.node x).parent = some f.item := h.parent_eq rfl
    have hfcol : (t.node f.item).color = f.color := by rw [h.above_eq]; rfl
    unfold insertFix
    by_cases hb : f.color = .black
    · rw [if_pos hb]
      exact ⟨t, insertLoop_of_black hpar (hfcol.trans hb), h⟩
    rw [if_neg hb]
    obtain ⟨hred, -, -, g', k', hcons, -, -, hk'⟩ := hk.of_red hb
    obtain ⟨rfl, rfl⟩ := List.cons.inj hcons
    have hfpar : (t.node f.item).parent = some g.item := by rw [h.above_eq]; rfl
    -- the side on which the parent is
    have hf : Holds base t (plug (g :: k) (f.plug (node .red l x r))) := h
    have hside : (if (t.node g.item).left = some f.item then Side.left else Side.right) = g.side := by
      have hiff : (t.node g.item).left = some f.item ↔ .left = g.side := hf.child_eq_iff (s := .left) root_join
      cases hg : g.side with
      | left => exact if_pos (hiff.mpr hg.symm)
      | right => exact if_neg fun hl => by have := hiff.mp hl; rw [hg] at this; cases this
    have hround : insertLoop (rounds + 1) t x = (insertBody g.side t x f.item g.item).bind
        fun p => insertLoop rounds p.1 p.2 := by
      conv_lhs => unfold insertLoop
      rw [hpar]
      dsimp only
      rw [if_pos (hfcol.trans hred), hfpar]
      show (insertBody (if (t.node g.item).left = some f.item then Side.left else Side.right)
        t x f.item g.item).bind _ = _
      rw [hside]
    rw [hround]
    have hlen' : k.length + 2 < rounds + 1 := hlen
    by_cases hu : g.sibling.isRed = true
    · rw [if_pos hu]
      obtain ⟨t₁, hbody, h₁⟩ := insertBody_red (x := x) hu h
      rw [hbody]
      have hrounds : k.length < rounds := by omega
      exact insertLoop_holds h₁ hk' hrounds
    have hub : g.sibling.isRed = false := by rwa [Bool.not_eq_true] at hu
    rw [if_neg hu, insertBody_black hub h]
    obtain ⟨rounds, rfl⟩ : ∃ m, rounds = m + 1 := ⟨rounds - 1, by omega⟩
    obtain ⟨sf, cf, f, F⟩ := f
    obtain ⟨sg, cg, g, G⟩ := g
    have hjoin : Holds base t (plug k (join sg cg (join sf cf (node .red l x r) f F) g G)) := h
    dsimp only
    by_cases hs : sf = sg
    · subst hs
      rw [if_pos rfl]
      obtain ⟨t', hrot, h'⟩ := insertRotate_outer rfl hjoin
      rw [hrot]
      refine ⟨t', ?_, h'⟩
      have hx : Holds base t' (plug (⟨sf, .black, f, join sf .red F g G⟩ :: k) (node .red l x r)) := h'
      apply insertLoop_of_black (hx.parent_eq rfl)
      rw [hx.above_eq]
      rfl
    · rw [if_neg hs]
      obtain rfl : sf = sg.other := (sf.eq_or_eq_other sg).resolve_left hs
      have hinner : join sg.other cf (node .red l x r) f F =
        join sg cf F f (join sg .red (sg.pick l r) x (sg.pick r l)) := by
        rw [join_other]
        cases sg <;> rfl
      rw [hinner] at hjoin
      obtain ⟨t', hrot, h'⟩ := insertRotate_inner hjoin
      rw [hrot]
      have hcf : cf = .red := hred
      subst hcf
      refine ⟨t', ?_, h'⟩
      have hx : Holds base t' (plug (⟨sg, .black, x, join sg .red (sg.pick r l) g G⟩ :: k)
          (join sg .red F f (sg.pick l r))) := h'
      apply insertLoop_of_black (hx.parent_eq rfl)
      rw [hx.above_eq]
      rfl

/-- **An insertion**: what `rb_insert_color` does in memory. -/
theorem rbInsertColor_holds {rounds n : ℕ} {l r : ColorTree ι} {x : ι} (h : Holds base t (plug k (node .red l x r)))
    (hk : CtxRb n k) (hlen : k.length < rounds) :
    ∃ t', rbInsertColor rounds t x = .ok t' ∧ Holds base t' (insertColor k l x r) := by
  obtain ⟨t₁, hloop, h₁⟩ := insertLoop_holds h hk hlen
  obtain ⟨y, hy⟩ : ∃ y, (insertFix k l x r).root = some y := by
    apply exists_root
    rw [toList_insertFix]
    simp
  refine ⟨t₁.setColor y .black, ?_, setColor_root (k := []) h₁ hy⟩
  unfold rbInsertColor
  rw [hloop]
  show (deref t₁.root).bind _ = _
  rw [h₁.root, hy]
  rfl

/-! ### Deletion -/

theorem setBlack?_holds (h : Holds base t (plug k T)) : Holds base (t.setBlack? T.root) (plug k T.blacken) := by
  cases hT : T.root with
  | some x => exact setColor_root h hT
  | none =>
    match T, hT with
    | leaf, _ => exact h

/-- The root is made black. -/
theorem setBlack?_root (h : Holds base t T) : Holds base (t.setBlack? t.root) T.blacken := by
  rw [h.root]
  exact setBlack?_holds (k := []) h

section Body

variable {s : Side} {c co : Color} {near far : ColorTree ι} {p o : ι}

theorem blackOther_black (h : Holds base t (plug k (join s c T p (join s .black near o far)))) :
    blackOther s t p = .ok (t, o) := by
  have hchild : (t.node p).child s.other = some o := by rw [h.node_eq, RbNode.child_other_of, root_join]
  rw [plug_join] at h
  have hcol : (t.node o).color = .black := by
    rw [h.node_eq]
    rfl
  unfold blackOther
  rw [hchild]
  exact if_neg (by rw [hcol]; decide)

/-- A red child is black after a rotation, and the parent has another child. -/
theorem blackOther_red {c' : Color} {near' far' : ColorTree ι} {o' : ι}
    (h : Holds base t (plug k (join s c T p (join s .red (join s c' near' o' far') o far)))) :
    ∃ t', blackOther s t p = .ok (t', o') ∧
      Holds base t' (plug k (join s .black (join s .red T p (join s c' near' o' far')) o far)) := by
  have hchild : (t.node p).child s.other = some o := by rw [h.node_eq, RbNode.child_other_of, root_join]
  have ho := h
  rw [plug_join] at ho
  have hcol : (t.node o).color = .red := by
    rw [ho.node_eq]
    rfl
  have h₁ := setColor_holds .black ho
  rw [← plug_join] at h₁
  have h₂ := setColor_holds .red h₁
  obtain ⟨t', hrot, h'⟩ := rotate_holds h₂
  have hp : Holds base t' (plug (⟨s, .black, o, far⟩ :: k) (join s .red T p (join s c' near' o' far'))) := h'
  have hchild' : (t'.node p).child s.other = some o' := by rw [hp.node_eq, RbNode.child_other_of, root_join]
  refine ⟨t', ?_, h'⟩
  unfold blackOther
  rw [hchild]
  show (if (t.node o).color = .red then _ else _) = _
  rw [if_pos hcol, hrot]
  show (deref ((t'.node p).child s.other)).bind _ = _
  rw [hchild']
  rfl

/-- The last rotation. -/
theorem eraseTurn_holds (hfar : far.isRed = true) (h : Holds base t (plug k (join s c T p (join s co near o far)))) :
    ∃ t', eraseTurn s t p o = .ok t' ∧ Holds base t' (plug k (join s c (join s .black T p near) o far.blacken)) := by
  obtain ⟨y, hy⟩ : ∃ y, far.root = some y := by
    match far, hfar with
    | node .red _ y _, _ => exact ⟨y, rfl⟩
  have hcol : (t.node p).color = c := by rw [h.node_eq]; rfl
  rw [plug_join] at h
  have h₁ := setColor_holds c h
  have h₂ : Holds base ((t.setColor o c).setColor p .black) (plug (⟨s.other, .black, p, T⟩ :: k) (join s c near o far)) :=
    setColor_above h₁
  have hchild : (((t.setColor o c).setColor p .black).node o).child s.other = some y := by
    rw [h₂.node_eq, RbNode.child_other_of, hy]
  rw [plug_join] at h₂
  have h₃ := setColor_root h₂ hy
  rw [← plug_join, ← plug_join] at h₃
  obtain ⟨t', hrot, h'⟩ := rotate_holds h₃
  refine ⟨t', ?_, h'⟩
  unfold eraseTurn
  rw [hcol]
  dsimp only
  rw [hchild]
  exact hrot

/-- The body of the loop does the step of the tree. -/
theorem eraseOther_holds (h : Holds base t (plug k (join s c T p (join s .black near o far)))) :
    ∃ t', eraseOther s t p o = .ok (t', (eraseStep s c T p near o far).1) ∧
      Holds base t' (plug k (eraseStep s c T p near o far).2) := by
  have ho := h
  rw [plug_join] at ho
  have hnode := ho.node_eq
  have hnear : t.isBlack near.root = !near.isRed := by
    have hn : Holds base t (plug (⟨s, .black, o, far⟩ :: ⟨s.other, c, p, T⟩ :: k) near) := ho
    exact hn.isBlack_root
  have hfar : t.isBlack far.root = !far.isRed := by
    have hf := ho
    rw [plug_join] at hf
    exact hf.isBlack_root
  have hboth : (t.isBlack (t.node o).left && t.isBlack (t.node o).right) = true ↔
      near.isRed = false ∧ far.isRed = false := by
    rw [hnode]
    cases s with
    | left =>
      show (t.isBlack near.root && t.isBlack far.root) = true ↔ _
      rw [hnear, hfar]
      simp
    | right =>
      show (t.isBlack far.root && t.isBlack near.root) = true ↔ _
      rw [hnear, hfar]
      simp [and_comm]
  have hchild : (t.node o).child s.other = far.root := by rw [hnode, RbNode.child_other_of]
  unfold eraseOther eraseStep
  by_cases hb : near.isRed = false ∧ far.isRed = false
  · rw [if_pos (hboth.mpr hb), if_pos hb]
    refine ⟨_, rfl, ?_⟩
    dsimp only
    rw [plug_join]
    exact setColor_holds _ ho
  rw [if_neg (mt hboth.mp hb), if_neg hb]
  by_cases hf : far.isRed = false
  · -- the red child is the near one
    rw [if_pos hf]
    have hred : near.isRed = true := by
      by_contra hr
      exact hb ⟨by rwa [Bool.not_eq_true] at hr, hf⟩
    obtain ⟨nn, n, nf, rfl⟩ : ∃ nn n nf, near = join s .red nn n nf := by
      match near, hred with
      | node .red l n r, _ =>
        cases s with
        | left => exact ⟨l, n, r, rfl⟩
        | right => exact ⟨r, n, l, rfl⟩
    rw [view_join]
    dsimp only
    have hn : Holds base t (plug (⟨s, .black, o, far⟩ :: ⟨s.other, c, p, T⟩ :: k) (join s .red nn n nf)) := ho
    have h₁ := setColor_holds .black hn
    have h₂ : Holds base ((t.setColor n .black).setColor o .red)
        (plug (⟨s.other, c, p, T⟩ :: k) (join s .red (join s .black nn n nf) o far)) := setColor_above h₁
    obtain ⟨t₁, hrot, h₃⟩ := rotate_other_holds h₂
    rw [← plug_join] at h₃
    have hchild₁ : (t₁.node p).child s.other = some n := by rw [h₃.node_eq, RbNode.child_other_of, root_join]
    obtain ⟨t', hturn, h'⟩ := eraseTurn_holds isRed_join h₃
    have hredFar : redFar s t p o = .ok (t₁, n) := by
      unfold redFar
      rw [hchild, hfar, hf, Bool.not_false, if_pos rfl, hnode, RbNode.child_of, root_join]
      show (rotate s.other ((t.setColor n .black).setColor o .red) o).bind _ = _
      rw [hrot]
      show (deref ((t₁.node p).child s.other)).bind _ = _
      rw [hchild₁]
      rfl
    refine ⟨t', ?_, h'⟩
    rw [hredFar]
    show (eraseTurn s t₁ p n).bind _ = _
    rw [hturn]
    rfl
  · rw [if_neg hf]
    have hred : far.isRed = true := by rwa [Bool.not_eq_false] at hf
    obtain ⟨t', hturn, h'⟩ := eraseTurn_holds hred h
    have hredFar : redFar s t p o = .ok (t, o) := by
      unfold redFar
      rw [hchild, hfar, hred]
      rfl
    refine ⟨t', ?_, h'⟩
    rw [hredFar]
    show (eraseTurn s t p o).bind _ = _
    rw [hturn]
    rfl

end Body

theorem eraseLoop_of_red {rounds : ℕ} {par : Option ι} (h : Holds base t (plug k T)) (hr : T.isRed = true) :
    eraseLoop (rounds + 1) t T.root par = .ok (t, T.root) := by
  unfold eraseLoop
  rw [h.isBlack_root, hr]
  rfl

/-- A round of the loop: what it does behind `blackOther` decides whether it goes on. -/
theorem eraseLoop_round (rounds : ℕ) {f : Frame ι} {o : ι} (h : Holds base t (plug (f :: k) T)) (hb : T.isRed = false)
    (ho : f.sibling.root = some o) : eraseLoop (rounds + 1) t T.root (some f.item) =
      (blackOther f.side t f.item).bind fun p => (eraseOther f.side p.1 f.item p.2).bind fun q =>
        if q.2 then eraseLoop rounds q.1 (some f.item) (q.1.node f.item).parent else .ok (q.1, q.1.root) := by
  have hgo : (t.isBlack T.root && T.root ≠ t.root) = true := by
    rw [h.isBlack_root, hb]
    exact decide_eq_true h.root_ne
  have hside : (if (t.node f.item).left = T.root then Side.left else Side.right) = f.side := by
    have hne := h.root_ne_sibling ho
    rw [h.above_eq]
    cases hs : f.side with
    | left => exact if_pos rfl
    | right =>
      refine if_neg fun he => hne ?_
      exact he.symm.trans ho
  conv_lhs => unfold eraseLoop
  rw [if_pos hgo]
  show (blackOther (if (t.node f.item).left = T.root then Side.left else Side.right) t f.item).bind _ = _
  rw [hside]
  rfl

/-- **The loop of a deletion**: from the subtree `T` up, which has lost a black node. -/
theorem eraseLoop_holds : ∀ {rounds n : ℕ} {k : List (Frame ι)} {t : RbTree ι} {T : ColorTree ι},
    Holds base t (plug k T) → T.Rb n → CtxRb (n + 1) k → k.length < rounds →
      ∃ t' z, eraseLoop rounds t T.root (parentOf none k) = .ok (t', z) ∧ Holds base (t'.setBlack? z) (eraseColor k T)
  | rounds + 1, n, [], t, T, h, _, _, _ => by
    refine ⟨t, T.root, ?_, setBlack?_holds (k := []) h⟩
    have hroot : t.root = T.root := h.root
    unfold eraseLoop
    rw [if_neg (by rw [hroot]; simp)]
  | rounds + 1, n, f :: k, t, T, h, hT, hk, hlen => by
    by_cases hr : T.isRed = true
    · rw [eraseLoop_of_red h hr, eraseColor_of_red hr]
      exact ⟨t, T.root, rfl, setBlack?_holds h⟩
    have hb : T.isRed = false := by rwa [Bool.not_eq_true] at hr
    have hlen' : k.length < rounds := Nat.lt_of_succ_lt_succ hlen
    obtain ⟨hs, hup⟩ := hk
    obtain ⟨c, near, o, far, hsib⟩ := hs.exists_join f.side
    have ho : f.sibling.root = some o := by rw [hsib, root_join]
    have hround := eraseLoop_round rounds h hb ho
    have hjoin : Holds base t (plug k (join f.side f.color T f.item f.sibling)) := h
    rw [hsib] at hjoin hs
    show ∃ t' z, eraseLoop (rounds + 1) t T.root (some f.item) = _ ∧ _
    rw [hround]
    cases c with
    | black =>
      obtain ⟨hn, hf⟩ := rb_join_black.mp hs
      rw [blackOther_black hjoin, eraseColor_black hb hsib]
      obtain ⟨t', hbody, h'⟩ := eraseOther_holds hjoin
      show ∃ t'' z, (eraseOther f.side t f.item o).bind _ = _ ∧ _
      rw [hbody]
      show ∃ t'' z, (if (eraseStep f.side f.color T f.item near o far).1 then _ else _) = _ ∧ _
      by_cases hgo : (eraseStep f.side f.color T f.item near o far).1 = true
      · rw [if_pos hgo, if_pos hgo]
        have hroot := root_eraseStep hgo
        dsimp only
        rw [h'.parent_eq hroot, ← hroot]
        obtain ⟨-, hrb⟩ := eraseStep_up hT hn hf hgo
        by_cases hred : f.color = .red
        · -- a red parent ends the loop
          obtain ⟨m, rfl⟩ : ∃ m, rounds = m + 1 := ⟨rounds - 1, by omega⟩
          have hrr : (eraseStep f.side f.color T f.item near o far).2.isRed = true := by
            rw [isRed_eraseStep]
            exact decide_eq_true hred
          rw [eraseLoop_of_red h' hrr, eraseColor_of_red hrr]
          exact ⟨t', _, rfl, setBlack?_holds h'⟩
        · rw [if_neg hred] at hup
          have hcol : f.color = .black := by
            cases hf : f.color with
            | red => exact absurd hf hred
            | black => rfl
          exact eraseLoop_holds h' (hrb hcol) hup hlen'
      · rw [if_neg hgo, if_neg hgo]
        exact ⟨t', _, rfl, setBlack?_root h'⟩
    | red =>
      obtain ⟨hnb, -, hn, -⟩ := rb_join_red.mp hs
      obtain ⟨c', near', o', far', hnear⟩ := hn.exists_join f.side
      have hc' : c' = .black := by
        rw [hnear, isRed_join] at hnb
        cases c' with
        | red => simp at hnb
        | black => rfl
      subst hnear
      subst hc'
      rw [eraseColor_red hb hsib]
      obtain ⟨t₁, hblack, h₁⟩ := blackOther_red hjoin
      rw [hblack]
      have h₁' : Holds base t₁ (plug (⟨f.side, .black, o, far⟩ :: k)
          (join f.side .red T f.item (join f.side .black near' o' far'))) := h₁
      obtain ⟨t', hbody, h'⟩ := eraseOther_holds h₁'
      show ∃ t'' z, (eraseOther f.side t₁ f.item o').bind _ = _ ∧ _
      rw [hbody]
      show ∃ t'' z, (if (eraseStep f.side .red T f.item near' o' far').1 then _ else _) = _ ∧ _
      by_cases hgo : (eraseStep f.side .red T f.item near' o' far').1 = true
      · -- the parent is red now, which ends the loop
        rw [if_pos hgo, if_pos hgo]
        have hroot := root_eraseStep hgo
        obtain ⟨m, rfl⟩ : ∃ m, rounds = m + 1 := ⟨rounds - 1, by omega⟩
        dsimp only
        rw [← hroot, eraseLoop_of_red h' (isRed_eraseStep.trans rfl)]
        exact ⟨t', _, rfl, setBlack?_holds h'⟩
      · rw [if_neg hgo, if_neg hgo]
        exact ⟨t', _, rfl, setBlack?_root h'⟩

/-- **A deletion**: what `__rb_erase_color` does in memory. -/
theorem rbEraseColor_holds {rounds n : ℕ} (h : Holds base t (plug k T)) (hT : T.Rb n) (hk : CtxRb (n + 1) k)
    (hlen : k.length < rounds) :
    ∃ t', rbEraseColor rounds t T.root (parentOf none k) = .ok t' ∧ Holds base t' (eraseColor k T) := by
  obtain ⟨t', z, hloop, h'⟩ := eraseLoop_holds h hT hk hlen
  refine ⟨_, ?_, h'⟩
  unfold rbEraseColor
  rw [hloop]
  rfl

end Rosx
