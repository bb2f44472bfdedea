/-
# Putting nodes in and taking them out

The pointer changes of `rb_link_node`, `rb_erase` and `rb_replace_node`, before the colours
are mended: a red leaf is put into an empty hole, a node with at most one child is replaced
by the child, a node with two children by the next one in the order, and a node by one from
outside the tree. Only the node that leaves the tree and those that stay are touched.

Key theorems: `rbLinkNode_holds`, `unlink_holds`, `takePlace_holds`, `rbReplaceNode_holds`,
`walk_holds`.
-/
import Rosx.RbColor

namespace Rosx

open Linked RedBlack RedBlack.ColorTree

variable {ι : Type*} [DecidableEq ι] {base : ι → RbNode ι} {t : RbTree ι} {k : List (Frame ι)} {T : ColorTree ι}

/-- **A node is linked**: it is a red leaf in the hole. -/
theorem rbLinkNode_holds {s : Side} {x : ι} (h : Holds base t (plug k leaf)) (hx : x ∉ ctxItems k)
    (hs : ∀ f ∈ k.head?, s = f.side) :
    Holds base (rbLinkNode t x (parentOf none k) s) (plug k (node .red leaf x leaf)) := by
  obtain ⟨-, hk, hd, hout⟩ := holds_plug.mp h
  have hsame : ∀ z ≠ x, (t.modify x fun _ => ⟨parentOf none k, .red, none, none⟩).node z = t.node z := fun z hz =>
    RbTree.modify_of_ne hz
  have hself : (t.modify x fun _ => ⟨parentOf none k, .red, none, none⟩).node x = ⟨parentOf none k, .red, none, none⟩ :=
    RbTree.modify_self
  set t₁ := t.modify x fun _ => (⟨parentOf none k, .red, none, none⟩ : RbNode ι)
  have hk₁ : CtxAt t₁.node none t₁.root k none := hk.congr fun z hz => hsame z fun he => hx (he ▸ hz)
  have hnode : ∀ t' : RbTree ι, CtxAt t'.node none t'.root k (some x) → (∀ z ∉ ctxItems k, t'.node z = t₁.node z) →
      Holds base t' (plug k (node .red leaf x leaf)) := by
    intro t' hk' hsame'
    rw [holds_plug]
    refine ⟨⟨?_, trivial, trivial⟩, hk', List.nodup_cons.mpr ⟨hx, hd⟩, fun z hz hzk => ?_⟩
    · rw [hsame' x hx, hself]
      rfl
    · rw [hsame' z hzk, hsame z fun he => hz (List.mem_singleton.mpr he)]
      exact hout z List.not_mem_nil hzk
  cases k with
  | nil => exact hnode _ rfl fun _ _ => rfl
  | cons f k =>
    obtain rfl := hs f rfl
    obtain ⟨hset, hsame'⟩ := setChild_at (some x) hk₁ hd
    exact hnode _ hset fun z hz => hsame' z fun he => hz (he ▸ List.mem_cons_self)

/-- **A node with one child at most is taken out.** -/
theorem unlink_holds (s' : Side) {s : Side} {c : Color} {b : ColorTree ι} {x : ι}
    (h : Holds base t (plug k (join s c leaf x b))) :
    Holds (Function.update base x (t.node x))
      ((t.setParent? b.root (parentOf none k)).setSlot s' (parentOf none k) x b.root) (plug k b) := by
  rw [holds_plug, at_join, toList_join] at h
  obtain ⟨⟨-, -, hb⟩, hk, hd, hout⟩ := h
  obtain ⟨⟨-, hxb, hxk⟩, ⟨-, hdb, hdk⟩, -, -, hbk⟩ := nodup_arrange.mp hd
  obtain ⟨hb₁, h₁, hroot₁⟩ := setParent?_at (q := parentOf none k) hb hdb
  set t₁ := t.setParent? b.root (parentOf none k)
  have hk₁ : CtxAt t₁.node none t₁.root k (some x) := by
    rw [hroot₁]
    exact hk.congr fun z hz => h₁ z fun hzb => hbk hzb hz
  obtain ⟨hk₂, h₂⟩ := setSlot_at s' b.root hk₁ hxk hdk
  rw [holds_plug]
  refine ⟨hb₁.congr fun z hz => h₂ z fun hzk => hbk hz hzk, hk₂, List.nodup_append'.mpr ⟨hdb, hdk, hbk⟩,
    fun z hz hzk => ?_⟩
  rw [h₂ z hzk, h₁ z hz]
  by_cases hzx : z = x
  · rw [hzx, Function.update_self]
  · rw [Function.update_of_ne hzx]
    apply hout z _ hzk
    rw [Side.mem_arrange]
    rintro (rfl | hzl | hzb)
    · exact hzx rfl
    · cases hzl
    · exact hz hzb

/-! ### A node with two children -/

/-- The place of `x` is copied to `y`, which is there already but for its fields. -/
theorem copyPlace_holds (base : ι → RbNode ι) {c : Color} {l r : ColorTree ι} {x y a : ι} {q : Option ι}
    (hx : t.node x = ⟨parentOf none k, c, l.root, q⟩) (ha : l.root = some a) (hl : At t.node (some x) l)
    (hr : At t.node (some y) r) (hright : (t.node y).right = r.root) (hk : CtxAt t.node none t.root k (some y))
    (hd : ((node c l y r).toList ++ ctxItems k).Nodup) (hxy : x ≠ y)
    (hout : ∀ z ∉ (node c l y r).toList, z ∉ ctxItems k → t.node z = base z) :
    ∃ t', copyPlace t x y = .ok t' ∧ Holds base t' (plug k (node c l y r)) := by
  obtain ⟨⟨hyl, hyr, hyk⟩, ⟨hdl, -, -⟩, hlr, hlk, -⟩ := nodup_arrange (s := .left).mp hd
  set t₁ := t.modify y fun n => { n with parent := (t.node x).parent, color := (t.node x).color } with ht₁
  set t₂ := t₁.setChild y .left (t₁.node x).left with ht₂
  have h₁ : ∀ z ≠ y, t₁.node z = t.node z := fun z hz => RbTree.modify_of_ne hz
  have h₂ : ∀ z ≠ y, t₂.node z = t₁.node z := fun z hz => RbTree.modify_of_ne hz
  have hy₂ : t₂.node y = ⟨parentOf none k, c, l.root, r.root⟩ := by
    rw [ht₂, RbTree.setChild, RbTree.modify_self, h₁ x hxy, ht₁, RbTree.modify_self, hx]
    show (⟨parentOf none k, c, l.root, (t.node y).right⟩ : RbNode ι) = _
    rw [hright]
  have hleft : (t₂.node x).left = some a := by rw [h₂ x hxy, h₁ x hxy, hx, ha]
  have hl₂ : At t₂.node (some x) l := hl.congr fun z hz => by
    have hzy : z ≠ y := fun he => hyl (he ▸ hz)
    rw [h₂ z hzy, h₁ z hzy]
  obtain ⟨hl₃, h₃, hroot₃⟩ := setParent?_at (q := some y) hl₂ hdl
  rw [ha] at hl₃ h₃ hroot₃
  have hsame : ∀ z ≠ y, z ∉ l.toList → (t₂.setParent a (some y)).node z = t.node z := fun z hzy hzl => by
    rw [← h₁ z hzy, ← h₂ z hzy]
    exact h₃ z hzl
  refine ⟨t₂.setParent a (some y), ?_, ?_⟩
  · unfold copyPlace
    show (deref (t₂.node x).left).bind _ = _
    rw [hleft]
    rfl
  rw [holds_plug]
  refine ⟨⟨(h₃ y hyl).trans hy₂, hl₃, hr.congr fun z hz => hsame z ?_ ?_⟩, ?_, hd, fun z hz hzk => ?_⟩
  · exact fun he => hyr (he ▸ hz)
  · exact fun hzl => hlr hzl hz
  · show CtxAt (t₂.setParent a (some y)).node none t.root k (some y)
    refine hk.congr fun z hz => hsame z ?_ ?_
    · exact fun he => hyk (he ▸ hz)
    · exact fun hzl => hlk hzl hz
  · rw [hsame z ?_ ?_, hout z hz hzk]
    · rintro rfl
      exact hz (List.mem_append_right _ List.mem_cons_self)
    · exact fun hzl => hz (List.mem_append_left _ hzl)

/-- **A node with two children is taken out**: the next one in the order, `y`, leaves its own
place for its child and takes that of `x`. -/
theorem takePlace_holds {c cy : Color} {l ry : ColorTree ι} {x y a : ι} {kl : List (Frame ι)} (ha : l.root = some a)
    (hkl : ∀ f ∈ kl, f.side = .left) (h : Holds base t (plug k (node c l x (plug kl (node cy leaf y ry))))) :
    ∃ t' p, takePlace t x y = .ok (t', ry.root, p, cy) ∧ parentOf none (kl ++ ⟨.right, c, y, l⟩ :: k) = some p ∧
      Holds (Function.update base x (t.node x)) t' (plug (kl ++ ⟨.right, c, y, l⟩ :: k) ry) := by
  rw [holds_plug] at h
  obtain ⟨⟨hx, hl, hr⟩, hk, hd, hout⟩ := h
  obtain ⟨⟨hxl, hxr, hxk⟩, ⟨hdl, hdr, hdk⟩, hlr, hlk, hrk⟩ := nodup_arrange (s := .left).mp hd
  obtain ⟨⟨-, hyry, hykl⟩, ⟨-, hdry, hdkl⟩, -, -, hrykl⟩ := nodup_arrange (s := .left) (a := []).mp (nodup_plug.mp hdr)
  obtain ⟨⟨hy, -, hry⟩, hctx⟩ := at_plug.mp ⟨hr, rfl⟩
  -- the right subtree without `y`
  have hsub : ∀ {z}, z ∈ (plug kl ry).toList → z ∈ (plug kl (node cy leaf y ry)).toList := fun {z} hz =>
    mem_toList_plug.mpr ((mem_toList_plug.mp hz).imp_left (List.mem_cons_of_mem y))
  have hyr : y ∈ (plug kl (node cy leaf y ry)).toList := mem_toList_plug.mpr (Or.inl List.mem_cons_self)
  have hxy : x ≠ y := fun he => hxr (he ▸ hyr)
  have hyk : y ∉ ctxItems k := fun hz => hrk hyr hz
  have hyl : y ∉ l.toList := fun hz => hlr hz hyr
  have hyr' : y ∉ (plug kl ry).toList := fun hz => (mem_toList_plug.mp hz).elim hyry hykl
  have hdr' : (plug kl ry).toList.Nodup := nodup_plug.mpr (List.nodup_append'.mpr ⟨hdry, hdkl, hrykl⟩)
  have hd' : ((node c l y (plug kl ry)).toList ++ ctxItems k).Nodup := nodup_arrange (s := .left).mpr
    ⟨⟨hyl, hyr', hyk⟩, ⟨hdl, hdr', hdk⟩, fun z hzl hzr => hlr hzl (hsub hzr), hlk, fun z hzr hzk => hrk (hsub hzr) hzk⟩
  have hout' : ∀ z ∉ (node c l y (plug kl ry)).toList, z ∉ ctxItems k →
      t.node z = Function.update base x (t.node x) z := fun z hz hzk => by
    by_cases hzx : z = x
    · rw [hzx, Function.update_self]
    rw [Function.update_of_ne hzx]
    have hz' : ¬(z ∈ l.toList ∨ z = y ∨ z ∈ (plug kl ry).toList) := by
      rwa [toList, List.mem_append, List.mem_cons] at hz
    apply hout z _ hzk
    rw [toList, List.mem_append, List.mem_cons]
    rintro (hzl | rfl | hzr)
    · exact hz' (Or.inl hzl)
    · exact hzx rfl
    · rcases mem_toList_plug.mp hzr with hzy | hzkl
      · rcases List.mem_cons.mp hzy with rfl | hzy
        · exact hz' (Or.inr (Or.inl rfl))
        · exact hz' (Or.inr (Or.inr (mem_toList_plug.mpr (Or.inl hzy))))
      · exact hz' (Or.inr (Or.inr (mem_toList_plug.mpr (Or.inr hzkl))))
  have hplug : plug (kl ++ ⟨.right, c, y, l⟩ :: k) ry = plug k (node c l y (plug kl ry)) := plug_append kl _ ry
  rw [hplug]
  -- `y` is put below the parent of `x`
  have hpar : (t.node x).parent = parentOf none k := by rw [hx]
  obtain ⟨hk₁, h₁⟩ := setSlot_at .left (some y) hk hxk hdk
  have hx₁ := (h₁ x hxk).trans hx
  have hy₁ := (h₁ y hyk).trans hy
  have hl₁ : At (t.setSlot .left (parentOf none k) x (some y)).node (some x) l :=
    hl.congr fun z hz => h₁ z fun hzk => hlk hz hzk
  set t₁ := t.setSlot .left (parentOf none k) x (some y) with ht₁
  unfold takePlace
  rw [hpar]
  dsimp only
  rw [← ht₁, hy₁]
  cases kl with
  | nil =>
    have hry₁ : At t₁.node (some y) ry := hry.congr fun z hz => h₁ z fun hzk => hrk (hsub hz) hzk
    obtain ⟨t', hcopy, h'⟩ := copyPlace_holds (Function.update base x (t.node x)) hx₁ ha hl₁ hry₁
      (by rw [hy₁]) hk₁ hd' hxy fun z hz hzk => by rw [h₁ z hzk]; exact hout' z hz hzk
    refine ⟨t', y, (if_pos rfl).trans ?_, rfl, h'⟩
    rw [hcopy]
    rfl
  | cons f kl =>
    have hside : f.side = .left := hkl f List.mem_cons_self
    have hfkl : f.item ∈ ctxItems (f :: kl) := List.mem_cons_self
    have hfr : f.item ∈ (plug (f :: kl) (node cy leaf y ry)).toList := mem_toList_plug.mpr (Or.inr hfkl)
    have hfx : f.item ≠ x := fun he => hxr (he ▸ hfr)
    have hfy : f.item ≠ y := fun he => hykl (he ▸ hfkl)
    have hfry : f.item ∉ ry.toList := fun hz => hrykl hz hfkl
    have hsame₁ : ∀ z ∈ (plug (f :: kl) (node cy leaf y ry)).toList, t₁.node z = t.node z := fun z hz =>
      h₁ z fun hzk => hrk hz hzk
    -- the child of `y` takes its place
    obtain ⟨hry₂, h₂, hroot₂⟩ := setParent?_at (t := t₁) (q := some f.item)
      (hry.congr fun z hz => hsame₁ z (hsub (mem_toList_plug.mpr (Or.inl hz)))) hdry
    set t₂ := t₁.setParent? ry.root (some f.item) with ht₂
    have hctx₂ : CtxAt t₂.node (some x) (plug (f :: kl) (node cy leaf y ry)).root (f :: kl) (some y) :=
      hctx.congr fun z hz => by rw [h₂ z fun hzr => hrykl hzr hz, hsame₁ z (mem_toList_plug.mpr (Or.inr hz))]
    obtain ⟨hctx₃, h₃⟩ := setChild_at ry.root hctx₂ hdkl
    rw [hside] at hctx₃ h₃
    set t₃ := t₂.setChild f.item .left ry.root with ht₃
    obtain ⟨hr₃, hroot⟩ := at_plug.mpr ⟨hry₂.congr fun z hz => h₃ z fun he => hfry (he ▸ hz), hctx₃⟩
    have hxry : x ∉ ry.toList := fun hz => hxr (hsub (mem_toList_plug.mpr (Or.inl hz)))
    have hx₃ : t₃.node x = ⟨parentOf none k, c, l.root, (plug (f :: kl) ry).root⟩ := by
      rw [h₃ x (Ne.symm hfx), h₂ x hxry, hx₁, hroot]
    obtain ⟨b, hb⟩ : ∃ b, (plug (f :: kl) ry).root = some b :=
      exists_root (List.ne_nil_of_mem (mem_toList_plug.mpr (Or.inr hfkl)))
    have hright₃ : (t₃.node x).right = some b := by rw [hx₃, hb]
    -- the right child of `x` is put below `y`
    set t₄ := t₃.setChild y .right (some b) with ht₄
    have h₄ : ∀ z ≠ y, t₄.node z = t₃.node z := fun z hz => RbTree.modify_of_ne hz
    have hright₄ : (t₄.node x).right = some b := by rw [h₄ x hxy, hright₃]
    have hy₄ : (t₄.node y).right = some b := by
      rw [ht₄, RbTree.setChild, RbTree.modify_self]
      rfl
    obtain ⟨hr₅, h₅, hroot₅⟩ := setParent?_at (t := t₄) (q := some y)
      (hr₃.congr fun z hz => h₄ z fun he => hyr' (he ▸ hz)) hdr'
    rw [hb] at hr₅ h₅ hroot₅
    set t₅ := t₄.setParent? (some b) (some y) with ht₅
    have hsame : ∀ z ∉ (plug (f :: kl) ry).toList, z ≠ y → t₅.node z = t₁.node z := fun z hz hzy => by
      have hzf : z ≠ f.item := fun he => hz (he ▸ mem_toList_plug.mpr (Or.inr hfkl))
      rw [h₅ z hz, h₄ z hzy, h₃ z hzf, h₂ z fun hzr => hz (mem_toList_plug.mpr (Or.inl hzr))]
    have hk₅ : CtxAt t₅.node none t₅.root k (some y) := by
      rw [hroot₅]
      show CtxAt t₅.node none t₂.root k (some y)
      rw [hroot₂]
      refine hk₁.congr fun z hz => hsame z ?_ ?_
      · exact fun hzr => hrk (hsub hzr) hz
      · exact fun he => hyk (he ▸ hz)
    have hl₅ : At t₅.node (some x) l := hl₁.congr fun z hz => hsame z (fun hzr => hlr hz (hsub hzr))
      fun he => hyl (he ▸ hz)
    have hx₅ := (hsame x (fun hz => hxr (hsub hz)) hxy).trans hx₁
    obtain ⟨t', hcopy, h'⟩ := copyPlace_holds (Function.update base x (t.node x)) hx₅ ha hl₅ hr₅
      (by rw [h₅ y hyr', hy₄, hb]) hk₅ hd' hxy fun z hz hzk => by
        have hzr : z ∉ (plug (f :: kl) ry).toList := fun hzr => hz (List.mem_append_right _ (List.mem_cons_of_mem _ hzr))
        have hzy : z ≠ y := fun he => hz (List.mem_append_right _ (he ▸ List.mem_cons_self))
        rw [hsame z hzr hzy, h₁ z hzk]
        exact hout' z hz hzk
    have hne : (⟨some f.item, cy, leaf.root, ry.root⟩ : RbNode ι).parent ≠ some x := fun he => hfx (Option.some.inj he)
    refine ⟨t', f.item, (if_neg hne).trans ?_, rfl, h'⟩
    show (deref ((t₃.setChild y .right (t₃.node x).right).node x).right).bind (fun b' =>
      (copyPlace ((t₃.setChild y .right (t₃.node x).right).setParent b' (some y)) x y).bind fun t' =>
        .ok (t', ry.root, f.item, cy)) = _
    rw [hright₃, ← ht₄, hright₄]
    show (copyPlace t₅ x y).bind _ = _
    rw [hcopy]
    rfl

/-- **A node is replaced** by one that is not in the tree. -/
theorem rbReplaceNode_holds {c : Color} {l r : ColorTree ι} {x y : ι} (h : Holds base t (plug k (node c l x r)))
    (hy : y ∉ (plug k (node c l x r)).toList) :
    Holds (Function.update base x (t.node x)) (rbReplaceNode t x y) (plug k (node c l y r)) := by
  rw [mem_toList_plug, not_or, toList, List.mem_append, List.mem_cons, not_or, not_or] at hy
  obtain ⟨⟨hyl, hyx, hyr⟩, hyk⟩ := hy
  rw [holds_plug] at h
  obtain ⟨⟨hx, hl, hr⟩, hk, hd, hout⟩ := h
  obtain ⟨⟨hxl, hxr, hxk⟩, ⟨hdl, hdr, hdk⟩, hlr, hlk, hrk⟩ := nodup_arrange (s := .left).mp hd
  have hpar : (t.node x).parent = parentOf none k := by rw [hx]
  obtain ⟨hk₁, h₁⟩ := setSlot_at .left (some y) hk hxk hdk
  have hx₁ := (h₁ x hxk).trans hx
  set t₁ := t.setSlot .left (parentOf none k) x (some y) with ht₁
  obtain ⟨hl₂, h₂, hroot₂⟩ := setParent?_at (t := t₁) (q := some y)
    (hl.congr fun z hz => h₁ z fun hzk => hlk hz hzk) hdl
  have hx₂ := (h₂ x hxl).trans hx₁
  set t₂ := t₁.setParent? l.root (some y) with ht₂
  obtain ⟨hr₃, h₃, hroot₃⟩ := setParent?_at (t := t₂) (q := some y)
    (hr.congr fun z hz => by rw [h₂ z fun hzl => hlr hzl hz, h₁ z fun hzk => hrk hz hzk]) hdr
  have hx₃ := (h₃ x hxr).trans hx₂
  set t₃ := t₂.setParent? r.root (some y) with ht₃
  have h₄ : ∀ z ≠ y, (t₃.modify y fun _ => t₃.node x).node z = t₃.node z := fun z hz => RbTree.modify_of_ne hz
  have hreplace : rbReplaceNode t x y = t₃.modify y fun _ => t₃.node x := by
    unfold rbReplaceNode
    rw [hpar]
    dsimp only
    rw [← ht₁, hx₁, ← ht₂, hx₂]
  rw [hreplace, holds_plug]
  refine ⟨⟨?_, hl₂.congr fun z hz => ?_, hr₃.congr fun z hz => h₄ z fun he => hyr (he ▸ hz)⟩, ?_, ?_, fun z hz hzk => ?_⟩
  · rw [RbTree.modify_self, hx₃]
  · rw [h₄ z fun he => hyl (he ▸ hz), h₃ z fun hzr => hlr hz hzr]
  · show CtxAt _ none t₃.root k (some y)
    rw [hroot₃, hroot₂]
    refine hk₁.congr fun z hz => ?_
    rw [h₄ z fun he => hyk (he ▸ hz), h₃ z fun hzr => hrk hzr hz, h₂ z fun hzl => hlk hzl hz]
  · exact nodup_arrange (s := .left).mpr ⟨⟨hyl, hyr, hyk⟩, ⟨hdl, hdr, hdk⟩, hlr, hlk, hrk⟩
  · rw [toList, List.mem_append, List.mem_cons, not_or, not_or] at hz
    obtain ⟨hzl, hzy, hzr⟩ := hz
    rw [h₄ z hzy, h₃ z hzr, h₂ z hzl, h₁ z hzk]
    by_cases hzx : z = x
    · rw [hzx, Function.update_self]
    rw [Function.update_of_ne hzx]
    apply hout z _ hzk
    rw [toList, List.mem_append, List.mem_cons, not_or, not_or]
    exact ⟨hzl, hzx, hzr⟩

/-! ### Ways down -/

omit [DecidableEq ι] in
/-- **The walk down** on one side ends at the outermost node. -/
theorem walk_holds {s : Side} : ∀ {rounds : ℕ} {k : List (Frame ι)} {T : ColorTree ι} {x : ι}, Holds base t (plug k T) →
    T.root = some x → T.depth ≤ rounds → ∃ kl c y b, T = plug kl (join s c leaf y b) ∧ (∀ f ∈ kl, f.side = s) ∧
      walk s rounds t x = .ok y := by
  intro rounds
  induction rounds with
  | zero =>
    intro k T x _ hx hdepth
    match T, hx with
    | node _ _ _ _, _ => cases hdepth
  | succ rounds ih =>
    intro k T x h hx hdepth
    obtain ⟨c, a, b, rfl⟩ : ∃ c a b, T = join s c a x b := by
      match T, hx with
      | node c l y r, hx =>
        obtain rfl := Option.some.inj hx
        cases s with
        | left => exact ⟨c, l, r, rfl⟩
        | right => exact ⟨c, r, l, rfl⟩
    have hchild : (t.node x).child s = a.root := by rw [h.node_eq, RbNode.child_of]
    unfold walk
    rw [hchild]
    match a, h, hdepth with
    | leaf, _, _ => exact ⟨[], c, x, b, rfl, fun _ hf => absurd hf List.not_mem_nil, rfl⟩
    | node c' l y r, h, hdepth =>
      have ha : Holds base t (plug (⟨s, c, x, b⟩ :: k) (node c' l y r)) := h
      have hda : (node c' l y r).depth ≤ rounds := by
        have hlt := length_add_depth_le [⟨s, c, x, b⟩] (node c' l y r)
        have hjoin : plug [⟨s, c, x, b⟩] (node c' l y r) = join s c (node c' l y r) x b := rfl
        rw [hjoin, List.length_singleton] at hlt
        omega
      obtain ⟨kl, c'', z, b', heq, hside, hwalk⟩ := ih ha rfl hda
      refine ⟨kl ++ [⟨s, c, x, b⟩], c'', z, b', ?_, ?_, hwalk⟩
      · rw [plug_append, ← heq]
        rfl
      · intro f hf
        rcases List.mem_append.mp hf with hf | hf
        · exact hside f hf
        · rw [List.mem_singleton.mp hf]

end Rosx
