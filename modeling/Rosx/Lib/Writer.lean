/-
# Writing into a bounded buffer

A writer puts one item after the other into a memory of `w` addresses, but only
below a limit; its position goes on all the same, so that at the end it tells how
long the whole output is. Whether the items fit or not does not change where they
go (`puts_mem`): what is written is the part of the output in front of the limit.

Key definitions: `Writer.Out`, `Writer.put`, `Writer.puts`, `Writer.blit`.
Key theorems: `Writer.puts_append`, `Writer.puts_pos`, `Writer.puts_mem`.
-/
import Mathlib.Data.List.Basic
import Mathlib.Logic.Function.Basic
import Mathlib.Algebra.Order.Group.Nat

namespace Writer

variable {α : Type*}

/-- The memory, and the position of the next item. -/
structure Out (α : Type*) where
  mem : ℕ → α
  pos : ℕ

/-- The memory `m` with the items of `l` from `p` on, as far as they are below `lim`. -/
def blit (lim p : ℕ) (l : List α) (m : ℕ → α) : ℕ → α := fun a =>
  if p ≤ a ∧ a < p + l.length ∧ a < lim then l.getD (a - p) (m a) else m a

variable (w lim : ℕ)

/-- One item: written if the position is below `lim`; the position wraps at `w`. -/
def put (o : Out α) (c : α) : Out α where
  mem := if o.pos < lim then Function.update o.mem o.pos c else o.mem
  pos := (o.pos + 1) % w

/-- The items of `l`. -/
def puts (o : Out α) (l : List α) : Out α := l.foldl (put w lim) o

@[simp] theorem puts_nil (o : Out α) : puts w lim o [] = o := rfl

@[simp] theorem puts_cons (o : Out α) (c : α) (l : List α) :
    puts w lim o (c :: l) = puts w lim (put w lim o c) l := rfl

theorem puts_append (o : Out α) (l l' : List α) : puts w lim o (l ++ l') = puts w lim (puts w lim o l) l' :=
  List.foldl_append

variable {w lim}

theorem put_pos {o : Out α} {c : α} (h : o.pos + 1 < w) : (put w lim o c).pos = o.pos + 1 :=
  Nat.mod_eq_of_lt h

theorem put_mem (o : Out α) (c : α) (a : ℕ) :
    (put w lim o c).mem a = if a = o.pos ∧ a < lim then c else o.mem a := by
  simp only [put]
  by_cases hlt : o.pos < lim
  · rw [if_pos hlt, Function.update_apply]
    by_cases ha : a = o.pos
    · rw [if_pos ha, if_pos ⟨ha, ha ▸ hlt⟩]
    · rw [if_neg ha, if_neg fun h => ha h.1]
  · rw [if_neg hlt, if_neg (by rintro ⟨rfl, h⟩; exact hlt h)]

/-- Without a wrap the position counts the items. -/
theorem puts_pos : ∀ {l : List α} {o : Out α}, o.pos + l.length < w →
    (puts w lim o l).pos = o.pos + l.length
  | [], _, _ => rfl
  | c :: l, o, h => by
    have hpos : (put w lim o c).pos = o.pos + 1 := put_pos (by rw [List.length_cons] at h; omega)
    rw [List.length_cons] at h ⊢
    rw [puts_cons, puts_pos (by omega), hpos]
    omega

/-- Without a wrap the items below the limit are in their places, and nothing else
is written. -/
theorem puts_mem : ∀ {l : List α} {o : Out α}, o.pos + l.length < w →
    (puts w lim o l).mem = blit lim o.pos l o.mem
  | [], o, _ => by
    funext a
    unfold blit
    rw [puts_nil, if_neg (by rw [List.length_nil]; omega)]
  | c :: l, o, h => by
    have hpos : (put w lim o c).pos = o.pos + 1 := put_pos (by rw [List.length_cons] at h; omega)
    rw [List.length_cons] at h
    rw [puts_cons, puts_mem (by omega), hpos]
    funext a
    unfold blit
    rw [put_mem, List.length_cons]
    by_cases ha : a = o.pos
    · rw [if_neg (by omega), ha, Nat.sub_self, List.getD_cons_zero]
      by_cases hlt : o.pos < lim
      · rw [if_pos ⟨rfl, hlt⟩, if_pos (by omega)]
      · rw [if_neg (by omega), if_neg (by omega)]
    · have hother : (if a = o.pos ∧ a < lim then c else o.mem a) = o.mem a := if_neg (by omega)
      rw [hother]
      by_cases hin : o.pos + 1 ≤ a ∧ a < o.pos + 1 + l.length ∧ a < lim
      · have hsucc : a - o.pos = a - (o.pos + 1) + 1 := by omega
        rw [if_pos hin, if_pos (by omega), hsucc, List.getD_cons_succ]
      · rw [if_neg hin, if_neg (by omega)]

end Writer
