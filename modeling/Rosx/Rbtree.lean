/-
# Red-black trees in memory

`lib/rbtree.c`: the nodes are in memory, each with the pointers to its parent and its
children and its colour, which the source packs into the lowest bit of the parent. The
mirror images of the source are one function with a side.

A memory holds a tree (`Holds`) if its root pointer and the nodes of the tree are as the
tree says. What the functions do to the memory is what `insertColor` and `eraseColor` do
to the tree; no pointer that they follow is NULL, and they end after as many rounds as the
place where they begin is deep.

Key definitions: `RbTree`, `rotate`, `rbInsertColor`, `rbEraseColor`, `rbErase`, `Holds`.
Key theorems: `rotate_holds`, `rbInsertColor_holds`, `rbErase_holds`.
-/
import Rosx.Lib.Linked
import Rosx.Lib.RedBlack

namespace Rosx

open Linked RedBlack

/-- `struct rb_node`. -/
@[ext] structure RbNode (ι : Type*) where
  parent : Option ι := none
  color : Color := .red
  left : Option ι := none
  right : Option ι := none

/-- The root, and the nodes in memory. -/
structure RbTree (ι : Type*) where
  root : Option ι
  node : ι → RbNode ι

section Functions

variable {ι : Type*} [DecidableEq ι]

def RbNode.child (n : RbNode ι) (s : Side) : Option ι := s.pick n.left n.right

def RbNode.setChild (n : RbNode ι) (s : Side) (p : Option ι) : RbNode ι :=
  match s with
  | .left => { n with left := p }
  | .right => { n with right := p }

namespace RbTree

/-- The node `x` is changed. -/
def modify (t : RbTree ι) (x : ι) (f : RbNode ι → RbNode ι) : RbTree ι :=
  { t with node := Function.update t.node x (f (t.node x)) }

/-- `rb_set_parent`. -/
def setParent (t : RbTree ι) (x : ι) (p : Option ι) : RbTree ι := t.modify x fun n => { n with parent := p }

/-- `rb_set_color`, and `rb_set_red` and `rb_set_black`. -/
def setColor (t : RbTree ι) (x : ι) (c : Color) : RbTree ι := t.modify x fun n => { n with color := c }

def setChild (t : RbTree ι) (x : ι) (s : Side) (p : Option ι) : RbTree ι := t.modify x fun n => n.setChild s p

/-- `rb_set_parent`, unless the pointer is NULL. -/
def setParent? (t : RbTree ι) (x p : Option ι) : RbTree ι :=
  match x with
  | some x => t.setParent x p
  | none => t

/-- `rb_set_black`, unless the pointer is NULL. -/
def setBlack? (t : RbTree ι) (x : Option ι) : RbTree ι :=
  match x with
  | some x => t.setColor x .black
  | none => t

/-- The pointer to `old`, in the parent or the root, is set to `new`. The child on the side
`s` is compared. -/
def setSlot (t : RbTree ι) (s : Side) (parent : Option ι) (old : ι) (new : Option ι) : RbTree ι :=
  match parent with
  | some p => if (t.node p).child s = some old then t.setChild p s new else t.setChild p s.other new
  | none => { t with root := new }

/-- The pointer is NULL or the node is black. -/
def isBlack (t : RbTree ι) (x : Option ι) : Bool :=
  match x with
  | some x => (t.node x).color = .black
  | none => true

end RbTree

/-- `__rb_rotate_left` and `__rb_rotate_right`: the node goes down on the side `s`. -/
def rotate (s : Side) (t : RbTree ι) (node : ι) : Res (RbTree ι) :=
  match (t.node node).child s.other with
  | none => .error .null
  | some right =>
    let parent := (t.node node).parent
    let t := t.setChild node s.other ((t.node right).child s)
    let t := t.setParent? ((t.node right).child s) (some node)
    let t := t.setChild right s (some node)
    let t := t.setParent right parent
    let t := t.setSlot s parent node (some right)
    .ok (t.setParent node (some right))

def rbRotateLeft (t : RbTree ι) (node : ι) : Res (RbTree ι) := rotate .left t node

def rbRotateRight (t : RbTree ι) (node : ι) : Res (RbTree ι) := rotate .right t node

/-- A pointer that is followed. -/
def deref (p : Option ι) : Res ι :=
  match p with
  | some x => .ok x
  | none => .error .null

/-! ### Insertion -/

/-- The end of the loop body of `rb_insert_color`, `parent` being the child of `gparent` on
the side `s`; the node with which the loop goes on. -/
def insertRotate (s : Side) (t : RbTree ι) (node parent gparent : ι) : Res (RbTree ι × ι) :=
  if (t.node parent).child s.other = some node then do
    let t ← rotate s t parent
    -- `node` and `parent` are exchanged
    let t ← rotate s.other ((t.setColor node .black).setColor gparent .red) gparent
    return (t, parent)
  else do
    let t ← rotate s.other ((t.setColor parent .black).setColor gparent .red) gparent
    return (t, node)

/-- The loop body of `rb_insert_color`. -/
def insertBody (s : Side) (t : RbTree ι) (node parent gparent : ι) : Res (RbTree ι × ι) :=
  match (t.node gparent).child s.other with
  | some uncle =>
    if (t.node uncle).color = .red then
      .ok (((t.setColor uncle .black).setColor parent .black).setColor gparent .red, gparent)
    else insertRotate s t node parent gparent
  | none => insertRotate s t node parent gparent

/-- The loop of `rb_insert_color`. -/
def insertLoop : ℕ → RbTree ι → ι → Res (RbTree ι)
  | 0, _, _ => .error .hang
  | rounds + 1, t, node =>
    match (t.node node).parent with
    | none => .ok t
    | some parent =>
      if (t.node parent).color = .red then do
        let gparent ← deref (t.node parent).parent
        let side := if (t.node gparent).left = some parent then .left else .right
        let (t, node) ← insertBody side t node parent gparent
        insertLoop rounds t node
      else .ok t

def rbInsertColor (rounds : ℕ) (t : RbTree ι) (node : ι) : Res (RbTree ι) := do
  let t ← insertLoop rounds t node
  let root ← deref t.root
  return t.setColor root .black

/-- `rb_link_node`; `slot` is the child of the parent, or the root, that `rb_link` points to. -/
def rbLinkNode (t : RbTree ι) (node : ι) (parent : Option ι) (slot : Side) : RbTree ι :=
  let t := t.modify node fun _ => { parent := parent, color := .red, left := none, right := none }
  match parent with
  | some p => t.setChild p slot (some node)
  | none => { t with root := some node }

/-! ### Deletion -/

/-- The child of `parent` on the side away from `s` is made black, if it is red. -/
def blackOther (s : Side) (t : RbTree ι) (parent : ι) : Res (RbTree ι × ι) := do
  let other ← deref ((t.node parent).child s.other)
  if (t.node other).color = .red then do
    let t ← rotate s ((t.setColor other .black).setColor parent .red) parent
    let other ← deref ((t.node parent).child s.other)
    return (t, other)
  else return (t, other)

/-- The far child of `other` is made red, if it is black. -/
def redFar (s : Side) (t : RbTree ι) (parent other : ι) : Res (RbTree ι × ι) :=
  if t.isBlack ((t.node other).child s.other) then do
    let near ← deref ((t.node other).child s)
    let t ← rotate s.other ((t.setColor near .black).setColor other .red) other
    let other ← deref ((t.node parent).child s.other)
    return (t, other)
  else return (t, other)

/-- The rotation at the end of `__rb_erase_color`. -/
def eraseTurn (s : Side) (t : RbTree ι) (parent other : ι) : Res (RbTree ι) := do
  let t := (t.setColor other (t.node parent).color).setColor parent .black
  let far ← deref ((t.node other).child s.other)
  rotate s (t.setColor far .black) parent

/-- The loop body of `__rb_erase_color` behind `blackOther`; whether the loop goes on, with
the parent. -/
def eraseOther (s : Side) (t : RbTree ι) (parent other : ι) : Res (RbTree ι × Bool) :=
  if t.isBlack (t.node other).left && t.isBlack (t.node other).right then
    .ok (t.setColor other .red, true)
  else do
    let (t, other) ← redFar s t parent other
    return (← eraseTurn s t parent other, false)

/-- The loop of `__rb_erase_color`, and the node that is made black behind it. -/
def eraseLoop : ℕ → RbTree ι → Option ι → Option ι → Res (RbTree ι × Option ι)
  | 0, _, _, _ => .error .hang
  | rounds + 1, t, node, parent =>
    if t.isBlack node && node ≠ t.root then do
      let parent ← deref parent
      let side := if (t.node parent).left = node then .left else .right
      let (t, other) ← blackOther side t parent
      let (t, goOn) ← eraseOther side t parent other
      if goOn then eraseLoop rounds t (some parent) (t.node parent).parent else .ok (t, t.root)
    else .ok (t, node)

/-- `__rb_erase_color`. -/
def rbEraseColor (rounds : ℕ) (t : RbTree ι) (node parent : Option ι) : Res (RbTree ι) := do
  let (t, node) ← eraseLoop rounds t node parent
  return t.setBlack? node

/-- The last node on the way down on the side `s`. -/
def walk (s : Side) : ℕ → RbTree ι → ι → Res ι
  | 0, _, _ => .error .hang
  | rounds + 1, t, node =>
    match (t.node node).child s with
    | some next => walk s rounds t next
    | none => .ok node

/-- `rb_erase` of a node with at most one child. -/
def eraseOne (rounds : ℕ) (t : RbTree ι) (node : ι) (child : Option ι) : Res (RbTree ι) :=
  let parent := (t.node node).parent
  let color := (t.node node).color
  let t := t.setParent? child parent
  let t := t.setSlot .left parent node child
  if color = .black then rbEraseColor rounds t child parent else .ok t

/-- The end of the next lines: the place of `old` is copied to `node`. -/
def copyPlace (t : RbTree ι) (old node : ι) : Res (RbTree ι) := do
  let t := t.modify node fun n => { n with parent := (t.node old).parent, color := (t.node old).color }
  let t := t.setChild node .left (t.node old).left
  let left ← deref (t.node old).left
  return t.setParent left (some node)

/-- `node`, the next one in the order, comes into the place of `old`. The result has the
child of `node` and its colour, and the parent that the child gets. -/
def takePlace (t : RbTree ι) (old node : ι) : Res (RbTree ι × Option ι × ι × Color) := do
  let t := t.setSlot .left (t.node old).parent old (some node)
  let child := (t.node node).right
  let color := (t.node node).color
  if (t.node node).parent = some old then do
    return (← copyPlace t old node, child, node, color)
  else do
    let parent ← deref (t.node node).parent
    let t := t.setParent? child (some parent)
    let t := t.setChild parent .left child
    let t := t.setChild node .right (t.node old).right
    let right ← deref (t.node old).right
    return (← copyPlace (t.setParent right (some node)) old node, child, parent, color)

/-- `rb_erase` of a node with two children, of which `right` is one. -/
def eraseTwo (rounds : ℕ) (t : RbTree ι) (old right : ι) : Res (RbTree ι) := do
  let node ← walk .left rounds t right
  let (t, child, parent, color) ← takePlace t old node
  if color = .black then rbEraseColor rounds t child (some parent) else return t

def rbErase (rounds : ℕ) (t : RbTree ι) (node : ι) : Res (RbTree ι) :=
  match (t.node node).left, (t.node node).right with
  | none, child => eraseOne rounds t node child
  | child, none => eraseOne rounds t node child
  | some _, some right => eraseTwo rounds t node right

/-! ### The other functions -/

/-- `rb_first` and `rb_last`. -/
def rbEnd (s : Side) (rounds : ℕ) (t : RbTree ι) : Res (Option ι) :=
  match t.root with
  | none => .ok none
  | some n => do return some (← walk s rounds t n)

def rbFirst (rounds : ℕ) (t : RbTree ι) : Res (Option ι) := rbEnd .left rounds t

def rbLast (rounds : ℕ) (t : RbTree ι) : Res (Option ι) := rbEnd .right rounds t

/-- The parent of the first node on the way up that is not the child on the side `s`. -/
def climb (s : Side) : ℕ → RbTree ι → ι → Res (Option ι)
  | 0, _, _ => .error .hang
  | rounds + 1, t, node =>
    match (t.node node).parent with
    | none => .ok none
    | some parent => if (t.node parent).child s = some node then climb s rounds t parent else .ok (some parent)

/-- `rb_next` and `rb_prev`: the next node towards the side `s`. -/
def rbNeighbour (s : Side) (rounds : ℕ) (t : RbTree ι) (node : ι) : Res (Option ι) :=
  if (t.node node).parent = some node then .ok none
  else
    match (t.node node).child s with
    | some next => do return some (← walk s.other rounds t next)
    | none => climb s rounds t node

def rbNext (rounds : ℕ) (t : RbTree ι) (node : ι) : Res (Option ι) := rbNeighbour .right rounds t node

def rbPrev (rounds : ℕ) (t : RbTree ι) (node : ι) : Res (Option ι) := rbNeighbour .left rounds t node

def rbReplaceNode (t : RbTree ι) (victim new : ι) : RbTree ι :=
  let t := t.setSlot .left (t.node victim).parent victim (some new)
  let t := t.setParent? (t.node victim).left (some new)
  let t := t.setParent? (t.node victim).right (some new)
  t.modify new fun _ => t.node victim

end Functions

/-! ### The tree in memory -/

open RedBlack.ColorTree

section Holds

variable {ι : Type*}

/-- The node above a hole; `par` is the one above all. -/
def parentOf (par : Option ι) : List (Frame ι) → Option ι
  | [] => par
  | f :: _ => some f.item

/-- The node of a tree with the given colour and children, the first one on the side `s`. -/
def RbNode.of (s : Side) (parent : Option ι) (c : Color) (near far : Option ι) : RbNode ι where
  parent := parent
  color := c
  left := s.pick near far
  right := s.pick far near

/-- The nodes of the tree are in memory, below `par`. -/
def At (node : ι → RbNode ι) : Option ι → ColorTree ι → Prop
  | _, .leaf => True
  | par, .node c l x r => node x = ⟨par, c, l.root, r.root⟩ ∧ At node (some x) l ∧ At node (some x) r

/-- The nodes on the way up to `root`, below `par`, and their other subtrees are in memory,
with the pointer `hole` in the hole. -/
def CtxAt (node : ι → RbNode ι) (par root : Option ι) : List (Frame ι) → Option ι → Prop
  | [], hole => root = hole
  | f :: k, hole =>
    node f.item = .of f.side (parentOf par k) f.color hole f.sibling.root ∧ At node (some f.item) f.sibling ∧
      CtxAt node par root k (some f.item)

/-- The memory holds the tree, and is as `base` elsewhere. -/
structure Holds (base : ι → RbNode ι) (t : RbTree ι) (T : ColorTree ι) : Prop where
  nodes : At t.node none T
  root : t.root = T.root
  nodup : T.toList.Nodup
  outside : ∀ z ∉ T.toList, t.node z = base z

/-- The items of the way up. -/
def ctxItems : List (Frame ι) → List ι
  | [] => []
  | f :: k => f.item :: f.sibling.toList ++ ctxItems k

variable {node node' : ι → RbNode ι} {par root : Option ι} {k : List (Frame ι)}

theorem At.congr : ∀ {T : ColorTree ι} {par : Option ι},
    At node par T → (∀ z ∈ T.toList, node' z = node z) → At node' par T
  | .leaf, _, _, _ => trivial
  | .node c l x r, par, ⟨hx, hl, hr⟩, h => by
    refine ⟨?_, hl.congr fun z hz => h z ?_, hr.congr fun z hz => h z ?_⟩
    · rw [h x (List.mem_append_right _ List.mem_cons_self), hx]
    · exact List.mem_append_left _ hz
    · exact List.mem_append_right _ (List.mem_cons_of_mem _ hz)

theorem CtxAt.congr : ∀ {k : List (Frame ι)} {hole : Option ι}, CtxAt node par root k hole →
    (∀ z ∈ ctxItems k, node' z = node z) → CtxAt node' par root k hole
  | [], _, hroot, _ => hroot
  | f :: k, hole, ⟨hf, hs, hk⟩, h => by
    refine ⟨?_, hs.congr fun z hz => h z ?_, hk.congr fun z hz => h z ?_⟩
    · rw [h f.item List.mem_cons_self, hf]
    · exact List.mem_cons_of_mem _ (List.mem_append_left _ hz)
    · exact List.mem_cons_of_mem _ (List.mem_append_right _ hz)

theorem at_join {s : Side} {c : Color} {a b : ColorTree ι} {x : ι} : At node par (join s c a x b) ↔
    node x = .of s par c a.root b.root ∧ At node (some x) a ∧ At node (some x) b := by
  cases s with
  | left => exact Iff.rfl
  | right =>
    show (node x = _ ∧ At node (some x) b ∧ At node (some x) a) ↔ _
    tauto

/-- A tree with a hole that is filled. -/
theorem at_plug : ∀ {k : List (Frame ι)} {T : ColorTree ι}, At node par (plug k T) ∧ root = (plug k T).root ↔
    At node (parentOf par k) T ∧ CtxAt node par root k T.root
  | [], _ => Iff.rfl
  | f :: k, T => by
    rw [plug, at_plug, Frame.plug, at_join, parentOf, CtxAt, root_join]
    tauto

theorem mem_toList_plug {T : ColorTree ι} {z : ι} : ∀ {k : List (Frame ι)}, z ∈ (plug k T).toList ↔
    z ∈ T.toList ∨ z ∈ ctxItems k := by
  intro k
  induction k generalizing T with
  | nil => simp [plug, ctxItems]
  | cons f k ih =>
    rw [plug, ih, Frame.plug, toList_join]
    cases f.side <;> (simp [Side.arrange, ctxItems]; tauto)

theorem nodup_plug {T : ColorTree ι} {k : List (Frame ι)} : (plug k T).toList.Nodup ↔ (T.toList ++ ctxItems k).Nodup := by
  classical
  apply List.Perm.nodup_iff
  rw [List.perm_iff_count]
  intro z
  induction k generalizing T with
  | nil => simp [plug, ctxItems]
  | cons f k ih =>
    rw [plug, ih, Frame.plug, toList_join]
    cases f.side with
    | left => simp [Side.arrange, ctxItems, List.count_append, List.count_cons]
    | right =>
      simp [Side.arrange, ctxItems, List.count_append, List.count_cons]
      omega

/-- What a memory with a tree consists of, seen from a place in the tree. -/
theorem holds_plug {base : ι → RbNode ι} {t : RbTree ι} {T : ColorTree ι} : Holds base t (plug k T) ↔
    At t.node (parentOf none k) T ∧ CtxAt t.node none t.root k T.root ∧ (T.toList ++ ctxItems k).Nodup ∧
      ∀ z, z ∉ T.toList → z ∉ ctxItems k → t.node z = base z := by
  have hout : (∀ z ∉ (plug k T).toList, t.node z = base z) ↔
      ∀ z, z ∉ T.toList → z ∉ ctxItems k → t.node z = base z := by
    simp only [mem_toList_plug, not_or, and_imp]
  rw [← hout, ← nodup_plug, ← and_assoc, ← at_plug]
  exact ⟨fun h => ⟨⟨h.nodes, h.root⟩, h.nodup, h.outside⟩, fun h => ⟨h.1.1, h.1.2, h.2.1, h.2.2⟩⟩

/-! ### Changes of single nodes -/

section Of

variable {s : Side} {c : Color} {near far p : Option ι}

@[simp] theorem RbNode.child_of : (RbNode.of s par c near far).child s = near := by cases s <;> rfl

@[simp] theorem RbNode.child_other_of : (RbNode.of s par c near far).child s.other = far := by cases s <;> rfl

@[simp] theorem RbNode.setChild_of : (RbNode.of s par c near far).setChild s p = .of s par c p far := by cases s <;> rfl

@[simp] theorem RbNode.setChild_other_of : (RbNode.of s par c near far).setChild s.other p = .of s par c near p := by
  cases s <;> rfl

theorem RbNode.of_other : RbNode.of s.other par c far near = .of s par c near far := by cases s <;> rfl

end Of

variable [DecidableEq ι]

namespace RbTree

variable {t : RbTree ι} {x z : ι} {f : RbNode ι → RbNode ι}

@[simp] theorem modify_self : (t.modify x f).node x = f (t.node x) := Function.update_self ..

theorem modify_of_ne (h : z ≠ x) : (t.modify x f).node z = t.node z := Function.update_of_ne h ..

@[simp] theorem modify_root : (t.modify x f).root = t.root := rfl

end RbTree

omit [DecidableEq ι] in
theorem root_mem {T : ColorTree ι} {x : ι} (h : T.root = some x) : x ∈ T.toList := by
  cases T with
  | leaf => cases h
  | node c l y r =>
    obtain rfl := Option.some.inj h
    exact List.mem_append_right _ List.mem_cons_self

variable {t : RbTree ι}

/-- A subtree gets another parent. -/
theorem setParent?_at {T : ColorTree ι} {q : Option ι} (h : At t.node par T) (hd : T.toList.Nodup) :
    At (t.setParent? T.root q).node q T ∧ (∀ z ∉ T.toList, (t.setParent? T.root q).node z = t.node z) ∧
      (t.setParent? T.root q).root = t.root := by
  cases T with
  | leaf => exact ⟨trivial, fun _ _ => rfl, rfl⟩
  | node c l x r =>
    obtain ⟨hx, hl, hr⟩ := h
    rw [toList, List.nodup_append, List.nodup_cons] at hd
    obtain ⟨-, ⟨hxr, -⟩, hlx⟩ := hd
    have hsame : ∀ z, z ≠ x → (t.setParent x q).node z = t.node z := fun z hz => RbTree.modify_of_ne hz
    have hself : (t.setParent x q).node x = { t.node x with parent := q } := RbTree.modify_self
    rw [hx] at hself
    refine ⟨⟨hself, hl.congr fun z hz => hsame z ?_, hr.congr fun z hz => hsame z ?_⟩, fun z hz => hsame z ?_, rfl⟩
    · exact hlx z hz x List.mem_cons_self
    · rintro rfl
      exact hxr hz
    · rintro rfl
      exact hz (List.mem_append_right _ List.mem_cons_self)

omit [DecidableEq ι] in
/-- Only the child on the side of the hole is what is in the hole. -/
theorem CtxAt.child_eq_iff {f : Frame ι} {x : ι} {s : Side} (h : CtxAt node par root (f :: k) (some x))
    (hx : x ∉ ctxItems (f :: k)) : (node f.item).child s = some x ↔ s = f.side := by
  rw [h.1]
  rcases s.eq_or_eq_other f.side with rfl | rfl
  · rw [RbNode.child_of]
    exact iff_of_true rfl rfl
  · rw [RbNode.child_other_of]
    refine iff_of_false (fun hroot => hx ?_) f.side.other_ne
    exact List.mem_cons_of_mem _ (List.mem_append_left _ (root_mem hroot))

/-- The pointer in a hole below a node is changed. -/
theorem setChild_at {f : Frame ι} {hole : Option ι} (new : Option ι) (h : CtxAt t.node par root (f :: k) hole)
    (hd : (ctxItems (f :: k)).Nodup) :
    CtxAt (t.setChild f.item f.side new).node par root (f :: k) new ∧
      ∀ z ≠ f.item, (t.setChild f.item f.side new).node z = t.node z := by
  obtain ⟨hf, hs, hk⟩ := h
  rw [ctxItems, List.cons_append, List.nodup_cons, List.mem_append, not_or] at hd
  have hsame : ∀ z ≠ f.item, (t.setChild f.item f.side new).node z = t.node z := fun z hz => RbTree.modify_of_ne hz
  refine ⟨⟨?_, hs.congr fun z hz => hsame z ?_, hk.congr fun z hz => hsame z ?_⟩, hsame⟩
  · rw [RbTree.setChild, RbTree.modify_self, hf, RbNode.setChild_of]
  · rintro rfl
    exact hd.1.1 hz
  · rintro rfl
    exact hd.1.2 hz

/-- The pointer in the hole is changed, whichever child is compared first. -/
theorem setSlot_at (s : Side) {x : ι} (new : Option ι) (h : CtxAt t.node none t.root k (some x)) (hx : x ∉ ctxItems k)
    (hd : (ctxItems k).Nodup) :
    CtxAt (t.setSlot s (parentOf none k) x new).node none (t.setSlot s (parentOf none k) x new).root k new ∧
      ∀ z ∉ ctxItems k, (t.setSlot s (parentOf none k) x new).node z = t.node z := by
  cases k with
  | nil => exact ⟨rfl, fun _ _ => rfl⟩
  | cons f k =>
    have hslot : t.setSlot s (some f.item) x new = t.setChild f.item f.side new := by
      unfold RbTree.setSlot
      dsimp only
      by_cases hs : s = f.side
      · rw [if_pos ((h.child_eq_iff hx).mpr hs), hs]
      · rw [if_neg (mt (h.child_eq_iff hx).mp hs), (s.eq_or_eq_other f.side).resolve_left hs, Side.other_other]
    obtain ⟨hset, hsame⟩ := setChild_at new h hd
    rw [parentOf, hslot]
    exact ⟨hset, fun z hz => hsame z fun he => hz (he ▸ List.mem_cons_self)⟩

/-- What a node is apart from. -/
theorem nodup_arrange {s : Side} {a b l : List ι} {x : ι} : (s.arrange a x b ++ l).Nodup ↔
    (x ∉ a ∧ x ∉ b ∧ x ∉ l) ∧ (a.Nodup ∧ b.Nodup ∧ l.Nodup) ∧ a.Disjoint b ∧ a.Disjoint l ∧ b.Disjoint l := by
  have hperm : (s.arrange a x b ++ l).Perm (x :: (a ++ (b ++ l))) := by
    rw [List.perm_iff_count]
    intro z
    cases s <;> simp [Side.arrange, List.count_append, List.count_cons] <;> omega
  rw [hperm.nodup_iff, List.nodup_cons, List.nodup_append', List.nodup_append']
  simp only [List.mem_append, not_or, List.disjoint_append_right]
  tauto

/-- A node is recoloured. -/
theorem setColor_holds {base : ι → RbNode ι} {s : Side} {c : Color} {a b : ColorTree ι} {x : ι} (c' : Color)
    (h : Holds base t (plug k (join s c a x b))) : Holds base (t.setColor x c') (plug k (join s c' a x b)) := by
  rw [holds_plug, at_join, toList_join, nodup_arrange] at h
  obtain ⟨⟨hx, ha, hb⟩, hk, hd, hout⟩ := h
  obtain ⟨hxa, hxb, hxk⟩ := hd.1
  have hself : (t.setColor x c').node x = { t.node x with color := c' } := RbTree.modify_self
  have hsame : ∀ {z}, z ≠ x → (t.setColor x c').node z = t.node z := fun hz => RbTree.modify_of_ne hz
  rw [hx] at hself
  rw [holds_plug, at_join, toList_join, nodup_arrange]
  refine ⟨⟨hself, ha.congr ?_, hb.congr ?_⟩, hk.congr ?_, hd, fun z hz hzk => ?_⟩
  · rintro z hz
    exact hsame fun he => hxa (he ▸ hz)
  · rintro z hz
    exact hsame fun he => hxb (he ▸ hz)
  · rintro z hz
    exact hsame fun he => hxk (he ▸ hz)
  · rw [hsame ?_, hout z hz hzk]
    rintro rfl
    exact hz (Side.mem_arrange.mpr (Or.inl rfl))

/-- **A rotation.** The node `x` goes down on the side `s`, and its other child takes its
place. -/
theorem rotate_holds {base : ι → RbNode ι} {s : Side} {cx cy : Color} {a b c : ColorTree ι} {x y : ι}
    (h : Holds base t (plug k (join s cx a x (join s cy b y c)))) :
    ∃ t', rotate s t x = .ok t' ∧ Holds base t' (plug k (join s cy (join s cx a x b) y c)) := by
  rw [holds_plug, at_join, at_join, toList_join, toList_join, root_join, root_join] at h
  obtain ⟨⟨hx, ha, hy, hb, hc⟩, hk, hd, hout⟩ := h
  obtain ⟨⟨hxa, hxY, hxk⟩, ⟨-, hdY, hdk⟩, haY, hak, hYk⟩ := nodup_arrange.mp hd
  have hdY' : (s.arrange b.toList y c.toList ++ []).Nodup := by rwa [List.append_nil]
  obtain ⟨⟨hyb, hyc, -⟩, ⟨hdb, -, -⟩, hbc, -, -⟩ := nodup_arrange.mp hdY'
  simp only [Side.mem_arrange, not_or] at hxY
  obtain ⟨hxy, hxb, hxc⟩ := hxY
  have hYk' : ∀ z, z = y ∨ z ∈ b.toList ∨ z ∈ c.toList → z ∉ ctxItems k := fun z hz hzk =>
    hYk (Side.mem_arrange.mpr hz) hzk
  have hyk : y ∉ ctxItems k := hYk' y (Or.inl rfl)
  have haY' : ∀ z ∈ a.toList, z ≠ y ∧ z ∉ b.toList ∧ z ∉ c.toList := fun z hz => by
    have hzY : z ∉ s.arrange b.toList y c.toList := haY hz
    simpa only [Side.mem_arrange, not_or] using hzY
  have hleft : (t.node x).child s.other = some y := by rw [hx, RbNode.child_other_of]
  have hnear : (t.node y).child s = b.root := by rw [hy, RbNode.child_of]
  have hnear₁ : ((t.setChild x s.other b.root).node y).child s = b.root := by
    rw [RbTree.setChild, RbTree.modify_of_ne (Ne.symm hxy), hnear]
  have hpar : (t.node x).parent = parentOf none k := by rw [hx]; rfl
  have hrot : rotate s t x = .ok ((((((t.setChild x s.other b.root).setParent? b.root (some x)).setChild y s
      (some x)).setParent y (parentOf none k)).setSlot s (parentOf none k) x (some y)).setParent x (some y)) := by
    unfold rotate
    rw [hleft]
    dsimp only
    rw [hnear, hnear₁, hpar]
  refine ⟨_, hrot, ?_⟩
  -- the child of `y` on this side is put below `x`
  set t₁ := t.setChild x s.other b.root with ht₁
  have h₁ : ∀ z, z ≠ x → t₁.node z = t.node z := fun z hz => RbTree.modify_of_ne hz
  have hx₁ : t₁.node x = .of s (parentOf none k) cx a.root b.root := by
    rw [ht₁, RbTree.setChild, RbTree.modify_self, hx, RbNode.setChild_other_of]
  obtain ⟨hb₂, h₂, hroot₂⟩ := setParent?_at (t := t₁) (q := some x)
    (hb.congr fun z hz => h₁ z fun he => hxb (he ▸ hz)) hdb
  set t₂ := t₁.setParent? b.root (some x)
  -- `x` is put below `y`
  set t₃ := t₂.setChild y s (some x) with ht₃
  have h₃ : ∀ z, z ≠ y → t₃.node z = t₂.node z := fun z hz => RbTree.modify_of_ne hz
  set t₄ := t₃.setParent y (parentOf none k) with ht₄
  have h₄ : ∀ z, z ≠ y → t₄.node z = t₃.node z := fun z hz => RbTree.modify_of_ne hz
  have hy₄ : t₄.node y = .of s (parentOf none k) cy (some x) c.root := by
    rw [ht₄, RbTree.setParent, RbTree.modify_self, ht₃, RbTree.setChild, RbTree.modify_self, h₂ y hyb,
      h₁ y (Ne.symm hxy), hy, RbNode.setChild_of]
    rfl
  have hsame₄ : ∀ z, z ≠ x → z ≠ y → z ∉ b.toList → t₄.node z = t.node z := fun z hzx hzy hzb => by
    rw [h₄ z hzy, h₃ z hzy, h₂ z hzb, h₁ z hzx]
  -- `y` is put below the parent
  have hk₄ : CtxAt t₄.node none t₄.root k (some x) := by
    show CtxAt t₄.node none t₂.root k (some x)
    rw [hroot₂]
    refine hk.congr fun z hz => hsame₄ z ?_ ?_ ?_
    · exact fun he => hxk (he ▸ hz)
    · exact fun he => hyk (he ▸ hz)
    · exact fun hzb => hYk' z (Or.inr (Or.inl hzb)) hz
  obtain ⟨hk₅, h₅⟩ := setSlot_at s (some y) hk₄ hxk hdk
  set t₅ := t₄.setSlot s (parentOf none k) x (some y)
  have h₆ : ∀ z, z ≠ x → (t₅.setParent x (some y)).node z = t₅.node z := fun z hz => RbTree.modify_of_ne hz
  have hsame : ∀ z, z ≠ x → z ≠ y → z ∉ b.toList → z ∉ ctxItems k →
      (t₅.setParent x (some y)).node z = t.node z := fun z hzx hzy hzb hzk => by
    rw [h₆ z hzx, h₅ z hzk, hsame₄ z hzx hzy hzb]
  rw [holds_plug, at_join, at_join, toList_join, toList_join, root_join, root_join, ← Side.arrange_assoc]
  refine ⟨⟨?_, ⟨?_, ?_, ?_⟩, ?_⟩, ?_, hd, ?_⟩
  · rw [h₆ y (Ne.symm hxy), h₅ y hyk, hy₄]
  · rw [RbTree.setParent, RbTree.modify_self, h₅ x hxk, h₄ x hxy, h₃ x hxy, h₂ x hxb, hx₁]
    rfl
  · refine ha.congr fun z hz => hsame z ?_ (haY' z hz).1 (haY' z hz).2.1 (hak hz)
    exact fun he => hxa (he ▸ hz)
  · refine hb₂.congr fun z hz => ?_
    have hzy : z ≠ y := fun he => hyb (he ▸ hz)
    rw [h₆ z fun he => hxb (he ▸ hz), h₅ z (hYk' z (Or.inr (Or.inl hz))), h₄ z hzy, h₃ z hzy]
  · refine hc.congr fun z hz => hsame z ?_ ?_ ?_ (hYk' z (Or.inr (Or.inr hz)))
    · exact fun he => hxc (he ▸ hz)
    · exact fun he => hyc (he ▸ hz)
    · exact fun hzb => hbc hzb hz
  · refine hk₅.congr fun z hz => h₆ z ?_
    exact fun he => hxk (he ▸ hz)
  · intro z hz hzk
    have hz' := hz
    simp only [Side.mem_arrange, not_or] at hz'
    rw [hsame z hz'.1 hz'.2.2.1 hz'.2.2.2.1 hzk]
    exact hout z hz hzk

end Holds

end Rosx
