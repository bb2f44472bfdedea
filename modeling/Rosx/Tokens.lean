/-
# Tokens

`strsep` and `strtok` of `lib/string.c` cut a string in place: the delimiter behind a token is
replaced by a NUL, and the next call goes on behind it. However many calls there are,
the tokens they have returned are all there in the memory at the end, in order, and
nothing but delimiters has been written over: with `strsep` they are the fields of the
string (`strsep_fields`), with `strtok` the fields that are not empty (`strtok_tokens`).

`strim` cuts the spaces from both ends of a string (`strim_trims`), and `strswab` swaps its
characters pairwise, and back (`strswab_twice`).

Key definitions: `strsep`, `strtok`, `strsepCalls`, `strtokCalls`, `strim`, `strswab`.
Key theorems: `strsep_fields`, `strtok_tokens`, `strim_trims`, `strswab_twice`.
-/
import Rosx.Cstring

namespace Rosx

open Linked Terminated

/-! ### Splitting a string -/

/-- `strsep`: the token, what `*s` is set to, and the memory. -/
def strsep (m : ℕ → UInt8) (s : Option ℕ) (ct : ℕ) : Res (Option ℕ × Option ℕ × (ℕ → UInt8)) :=
  match s with
  | none => .ok (none, none, m)
  | some sbegin => do
    let stop ← strpbrk m sbegin ct
    match stop with
    | some e => return (some sbegin, some (e + 1), Function.update m e 0)
    | none => return (some sbegin, none, m)

/-- `strtok`, where `saved` is `___strtok`: the token, the new `___strtok`, and the memory. -/
def strtok (m : ℕ → UInt8) (saved s : Option ℕ) (ct : ℕ) : Res (Option ℕ × Option ℕ × (ℕ → UInt8)) :=
  match s.or saved with
  | none => .ok (none, saved, m)
  | some sbegin => do
    let k ← strspn m sbegin ct
    let sbegin := sbegin + k
    if m sbegin = 0 then return (none, none, m)
    else
      let send ← strpbrk m sbegin ct
      match send with
      | some e =>
        if m e ≠ 0 then return (some sbegin, some (e + 1), Function.update m e 0) else return (some sbegin, some e, m)
      | none => return (some sbegin, none, m)

/-- `k` calls of `strsep` in turn: what they return, `*s`, and the memory. -/
def strsepCalls (ct : ℕ) : ℕ → (ℕ → UInt8) → Option ℕ → Res (List (Option ℕ) × Option ℕ × (ℕ → UInt8))
  | 0, m, s => .ok ([], s, m)
  | k + 1, m, s => do
    let (r, s, m) ← strsep m s ct
    let (rs, s, m) ← strsepCalls ct k m s
    return (r :: rs, s, m)

/-- Calls of `strtok` in turn, with the strings `args`. -/
def strtokCalls (ct : ℕ) : List (Option ℕ) → (ℕ → UInt8) → Option ℕ → Res (List (Option ℕ) × Option ℕ × (ℕ → UInt8))
  | [], m, saved => .ok ([], saved, m)
  | s :: args, m, saved => do
    let (r, saved, m) ← strtok m saved s ct
    let (rs, saved, m) ← strtokCalls ct args m saved
    return (r :: rs, saved, m)

/-! ### Trimming and swapping -/

def isspace (c : UInt8) : Bool := ismask c &&& maskS ≠ 0

/-- `skip_spaces`. -/
def skipSpaces (m : ℕ → UInt8) (str : ℕ) : Res ℕ := skipWhile isspace m str

/-- `while (end >= s && isspace(*end)) end--`, for the address behind `end`. -/
def strimLoop (m : ℕ → UInt8) (s : ℕ) : ℕ → ℕ
  | 0 => 0
  | e + 1 => if s ≤ e ∧ isspace (m e) then strimLoop m s e else e + 1

/-- `strim`: the address, and the memory. -/
def strim (m : ℕ → UInt8) (s : ℕ) : Res (ℕ × (ℕ → UInt8)) := do
  let s ← skipSpaces m s
  let size ← strlen m s
  if size = 0 then return (s, m) else return (s, Function.update m (strimLoop m s (s + size)) 0)

section Spec

variable {m m' : ℕ → UInt8} {a b ct : ℕ} {s t u ds : List UInt8} {d : UInt8}

/-! ### One call -/

/-- A string has a delimiter, and a first one, or none. -/
theorem first_delimiter (ds : List UInt8) : ∀ s : List UInt8,
    (∀ c ∈ s, c ∉ ds) ∨ ∃ f d r, s = f ++ d :: r ∧ (∀ c ∈ f, c ∉ ds) ∧ d ∈ ds
  | [] => Or.inl fun c hc => absurd hc List.not_mem_nil
  | c :: s => by
    by_cases hc : c ∈ ds
    · exact Or.inr ⟨[], c, s, rfl, fun x hx => absurd hx List.not_mem_nil, hc⟩
    rcases first_delimiter ds s with hnone | ⟨f, d, r, rfl, hf, hd⟩
    · exact Or.inl (List.forall_mem_cons.mpr ⟨hc, hnone⟩)
    · exact Or.inr ⟨c :: f, d, r, rfl, List.forall_mem_cons.mpr ⟨hc, hf⟩, hd⟩

theorem strpbrk_none (h : CStr m a s) (hct : CStr m ct ds) (hs : ∀ c ∈ s, c ∉ ds) : strpbrk m a ct = .ok none := by
  have hnone : s.findIdx? (· ∈ ds) = none := by
    rw [List.findIdx?_eq_none_iff]
    intro c hc
    exact decide_eq_false (hs c hc)
  rw [strpbrk_eq h hct, hnone]
  rfl

theorem strpbrk_some (h : CStr m a (s ++ d :: t)) (hct : CStr m ct ds) (hs : ∀ c ∈ s, c ∉ ds) (hd : d ∈ ds) :
    strpbrk m a ct = .ok (some (a + s.length)) := by
  have hsome : (s ++ d :: t).findIdx? (· ∈ ds) = some s.length := by
    have hnone : s.findIdx? (· ∈ ds) = none := by
      rw [List.findIdx?_eq_none_iff]
      intro c hc
      exact decide_eq_false (hs c hc)
    rw [List.findIdx?_append, hnone, List.findIdx?_cons, if_pos (decide_eq_true hd)]
    show some (0 + s.length) = _
    rw [Nat.zero_add]
  rw [strpbrk_eq h hct, hsome]
  rfl

/-- `strsep` ends the string at its first delimiter. -/
theorem strsep_cut (h : CStr m a (s ++ d :: t)) (hct : CStr m ct ds) (hs : ∀ c ∈ s, c ∉ ds) (hd : d ∈ ds) :
    strsep m (some a) ct = .ok (some a, some (a + s.length + 1), Function.update m (a + s.length) 0) := by
  unfold strsep
  dsimp only
  rw [strpbrk_some h hct hs hd]
  rfl

theorem strsep_last (h : CStr m a s) (hct : CStr m ct ds) (hs : ∀ c ∈ s, c ∉ ds) :
    strsep m (some a) ct = .ok (some a, none, m) := by
  unfold strsep
  dsimp only
  rw [strpbrk_none h hct hs]
  rfl

/-- The delimiters in front of a token are skipped. -/
theorem strspn_delimiters (h : CStr m a (u ++ s)) (hct : CStr m ct ds) (hu : ∀ c ∈ u, c ∈ ds) (hs : s.headD 0 ∉ ds) :
    strspn m a ct = .ok u.length := by
  have hstop : s.takeWhile (· ∈ ds) = [] := by
    cases s with
    | nil => rfl
    | cons c s => exact List.takeWhile_cons_of_neg (by rwa [decide_eq_true_eq])
  rw [strspn_eq h hct, List.takeWhile_append_of_pos fun c hc => decide_eq_true (hu c hc), hstop, List.append_nil]

/-- `strtok` skips the delimiters in front and ends the token at the next one. -/
theorem strtok_cut (h : CStr m a (u ++ (s ++ d :: t))) (hct : CStr m ct ds) (hu : ∀ c ∈ u, c ∈ ds) (hs : ∀ c ∈ s, c ∉ ds)
    (hne : s ≠ []) (hd : d ∈ ds) : strtok m (some a) none ct =
      .ok (some (a + u.length), some (a + u.length + s.length + 1), Function.update m (a + u.length + s.length) 0) := by
  have hsuf := h.suffix
  have hhead : (s ++ d :: t).headD 0 = s.head hne := by
    cases s with
    | nil => exact absurd rfl hne
    | cons c s => rfl
  have hfirst : ¬ m (a + u.length) = 0 := by
    rw [hsuf.head_eq, hhead]
    exact h.inner _ (List.mem_append_right u (List.mem_append_left _ (List.head_mem hne)))
  have hdel : m (a + u.length + s.length) ≠ 0 := by
    have hmem : d ∈ u ++ (s ++ d :: t) := List.mem_append_right u (List.mem_append_right s List.mem_cons_self)
    rw [hsuf.suffix.head_eq]
    exact h.inner d hmem
  unfold strtok
  show (strspn m a ct).bind _ = _
  rw [strspn_delimiters h hct hu (by rw [hhead]; exact hs _ (List.head_mem hne))]
  show (if m (a + u.length) = 0 then _ else _) = _
  rw [if_neg hfirst, strpbrk_some hsuf hct hs hd]
  show (if m (a + u.length + s.length) ≠ 0 then _ else _) = _
  rw [if_pos hdel]
  rfl

theorem strtok_last (h : CStr m a (u ++ s)) (hct : CStr m ct ds) (hu : ∀ c ∈ u, c ∈ ds) (hs : ∀ c ∈ s, c ∉ ds)
    (hne : s ≠ []) : strtok m (some a) none ct = .ok (some (a + u.length), none, m) := by
  have hsuf := h.suffix
  have hhead : s.headD 0 = s.head hne := by
    cases s with
    | nil => exact absurd rfl hne
    | cons c s => rfl
  have hfirst : ¬ m (a + u.length) = 0 := by
    rw [hsuf.head_eq, hhead]
    exact h.inner _ (List.mem_append_right u (List.head_mem hne))
  unfold strtok
  show (strspn m a ct).bind _ = _
  rw [strspn_delimiters h hct hu (by rw [hhead]; exact hs _ (List.head_mem hne))]
  show (if m (a + u.length) = 0 then _ else _) = _
  rw [if_neg hfirst, strpbrk_none hsuf hct hs]
  rfl

theorem strtok_none (h : CStr m a u) (hct : CStr m ct ds) (hu : ∀ c ∈ u, c ∈ ds) :
    strtok m (some a) none ct = .ok (none, none, m) := by
  unfold strtok
  show (strspn m a ct).bind _ = _
  have h' : CStr m a (u ++ []) := by rwa [List.append_nil]
  have h0 : ([] : List UInt8).headD 0 ∉ ds := fun hmem => hct.inner 0 hmem rfl
  rw [strspn_delimiters h' hct hu h0]
  show (if m (a + u.length) = 0 then _ else _) = _
  rw [if_pos h.stop]
  rfl

/-! ### All calls -/

/-- Delimiters of `m` in the `n` bytes from `a` on have been replaced by a NUL in `m'`, and
nothing else. -/
def OnlyCut (ds : List UInt8) (m m' : ℕ → UInt8) (a n : ℕ) : Prop :=
  ∀ x, m' x ≠ m x → a ≤ x ∧ x < a + n ∧ m x ∈ ds ∧ m' x = 0

theorem OnlyCut.refl (ds : List UInt8) (m : ℕ → UInt8) (a n : ℕ) : OnlyCut ds m m a n := fun _ h => absurd rfl h

/-- One delimiter, and then others behind it. -/
theorem OnlyCut.step {e n k : ℕ} (hm : m e ∈ ds) (hae : a ≤ e) (h : OnlyCut ds (Function.update m e 0) m' (e + 1) k)
    (hn : e + 1 + k = a + n) : OnlyCut ds m m' a n := by
  intro x hx
  by_cases hxe : x = e
  · have hkept : m' e = 0 := by
      by_contra hne
      rw [← ne_eq, ← Function.update_self e (0 : UInt8) m] at hne
      have hle := (h e hne).1
      omega
    rw [hxe]
    exact ⟨hae, by omega, hm, hkept⟩
  · rw [← Function.update_of_ne hxe (0 : UInt8) m] at hx ⊢
    obtain ⟨hex, hxk, hdx, h0⟩ := h x hx
    exact ⟨by omega, by omega, hdx, h0⟩

/-- What is in front of the cuts stays. -/
theorem OnlyCut.kept {e n : ℕ} (h : OnlyCut ds m m' e n) (hs : CStr m a s) (hlt : a + s.length < e) : CStr m' a s := by
  apply hs.congr
  intro i hi
  by_contra hne
  have hle := (h (a + i) hne).1
  omega

/-- The delimiters are not written over. -/
theorem CStr.update {e : ℕ} {c : UInt8} (h : CStr m a s) (he : e < a ∨ a + s.length < e) :
    CStr (Function.update m e c) a s :=
  h.congr fun i hi => Function.update_of_ne (by omega) _ _

theorem strsepCalls_none (ct : ℕ) (m : ℕ → UInt8) : ∀ k, strsepCalls ct k m none = .ok (List.replicate k none, none, m)
  | 0 => rfl
  | k + 1 => by
    show (strsepCalls ct k m none).bind _ = _
    rw [strsepCalls_none ct m k]
    rfl

/-- **`strsep` returns the fields of a string**, one by one and then NULL. After any number of
calls, the fields returned are strings in the memory, and only delimiters have been
replaced. -/
theorem strsep_fields (h : CStr m a s) (hct : CStr m ct ds) (hapart : a + s.length < ct ∨ ct + ds.length < a) (k : ℕ) :
    ∃ ps s' m', strsepCalls ct k m (some a) =
        .ok (ps.map some ++ List.replicate (k - (s.splitOnP (· ∈ ds)).length) none, s', m') ∧
      List.Forall₂ (CStr m') ps ((s.splitOnP (· ∈ ds)).take k) ∧ OnlyCut ds m m' a s.length := by
  induction k generalizing m a s with
  | zero =>
    rw [Nat.zero_sub]
    exact ⟨[], some a, m, rfl, List.Forall₂.nil, OnlyCut.refl ds m a s.length⟩
  | succ k ih =>
    rcases first_delimiter ds s with hnone | ⟨f, d, r, rfl, hf, hd⟩
    · have hfields : s.splitOnP (· ∈ ds) = [s] := List.splitOnP_eq_singleton fun c hc => decide_eq_false (hnone c hc)
      refine ⟨[a], none, m, ?_, ?_, OnlyCut.refl ds m a s.length⟩
      · show (strsep m (some a) ct).bind _ = _
        rw [strsep_last h hct hnone, hfields]
        show (strsepCalls ct k m none).bind _ = _
        rw [strsepCalls_none]
        rfl
      · rw [hfields, List.take_succ_cons, List.take_nil]
        exact List.Forall₂.cons h List.Forall₂.nil
    · have hfields : (f ++ d :: r).splitOnP (· ∈ ds) = f :: r.splitOnP (· ∈ ds) :=
        List.splitOnP_append_cons_of_forall_mem (fun c hc => decide_eq_false (hf c hc)) d (decide_eq_true hd) r
      have hlen : (f ++ d :: r).length = f.length + 1 + r.length := by
        rw [List.length_append, List.length_cons]
        omega
      have hb := h.bound
      rw [hlen] at hapart hb ⊢
      have hrest : CStr (Function.update m (a + f.length) 0) (a + f.length + 1) r := ⟨h.rest, by omega⟩
      have hfield : CStr (Function.update m (a + f.length) 0) a f := ⟨h.cut, by omega⟩
      obtain ⟨ps, s', m', hcalls, hall, hcut⟩ := ih hrest (hct.update (by omega)) (by omega)
      refine ⟨a :: ps, s', m', ?_, ?_, ?_⟩
      · show (strsep m (some a) ct).bind _ = _
        rw [strsep_cut h hct hf hd, hfields, List.length_cons, Nat.add_sub_add_right]
        show (strsepCalls ct k _ (some (a + f.length + 1))).bind _ = _
        rw [hcalls]
        rfl
      · rw [hfields, List.take_succ_cons]
        exact List.Forall₂.cons (hcut.kept hfield (Nat.lt_succ_self _)) hall
      · have hde : m (a + f.length) ∈ ds := by
          rw [h.suffix.head_eq]
          exact hd
        exact OnlyCut.step hde (Nat.le_add_right a _) hcut (by omega)

/-- The string `,a,,b` at 16, and `,` at 22. -/
def fieldMemory : ℕ → UInt8 := memoryOf [44, 97, 44, 44, 98, 0, 44, 0]

theorem fieldMemory_strings : CStr fieldMemory 16 [44, 97, 44, 44, 98] ∧ CStr fieldMemory 22 [44] :=
  ⟨⟨⟨⟨by decide, by decide, by decide, by decide, by decide, trivial⟩, by decide, by simp⟩, by decide⟩,
    ⟨⟨⟨by decide, trivial⟩, by decide, by simp⟩, by decide⟩⟩

theorem strsep_fields_comma : ∃ ps s' m', strsepCalls 22 5 fieldMemory (some 16) = .ok (ps.map some ++ [none], s', m') ∧
    List.Forall₂ (CStr m') ps [[], [97], [], [98]] ∧ OnlyCut [44] fieldMemory m' 16 5 :=
  strsep_fields fieldMemory_strings.1 fieldMemory_strings.2 (by decide) 5

/-! ### Tokens that are not empty -/

/-- The fields of a string that are not empty. -/
def tokens (ds s : List UInt8) : List (List UInt8) := (s.splitOnP (· ∈ ds)).filter (· ≠ [])

theorem tokens_append_cons (hd : d ∈ ds) (s t : List UInt8) : tokens ds (s ++ d :: t) = tokens ds s ++ tokens ds t := by
  unfold tokens
  rw [List.splitOnP_append_cons s t (decide_eq_true hd), List.filter_append]

theorem tokens_token (hne : s ≠ []) (hs : ∀ c ∈ s, c ∉ ds) : tokens ds s = [s] := by
  unfold tokens
  rw [List.splitOnP_eq_singleton fun c hc => decide_eq_false (hs c hc),
    List.filter_cons_of_pos (p := fun x => decide (x ≠ [])) (decide_eq_true hne), List.filter_nil]

/-- Delimiters in front are not part of a token. -/
theorem tokens_delimiters (hu : ∀ c ∈ u, c ∈ ds) : tokens ds (u ++ s) = tokens ds s := by
  induction u with
  | nil => rfl
  | cons d u ih =>
    obtain ⟨hd, hu⟩ := List.forall_mem_cons.mp hu
    have hnil : tokens ds [] = [] := rfl
    have h := tokens_append_cons hd [] (u ++ s)
    rw [hnil, List.nil_append, List.nil_append] at h
    rw [List.cons_append, h, ih hu]

/-- Delimiters, and then a token or nothing. -/
theorem skip_delimiters (ds : List UInt8) : ∀ s : List UInt8,
    ∃ u w, s = u ++ w ∧ (∀ c ∈ u, c ∈ ds) ∧ ∀ c, w.head? = some c → c ∉ ds
  | [] => ⟨[], [], rfl, fun c hc => absurd hc List.not_mem_nil, fun c hc => by cases hc⟩
  | d :: s => by
    by_cases hd : d ∈ ds
    · obtain ⟨u, w, rfl, hu, hw⟩ := skip_delimiters ds s
      exact ⟨d :: u, w, rfl, List.forall_mem_cons.mpr ⟨hd, hu⟩, hw⟩
    · refine ⟨[], d :: s, rfl, fun c hc => absurd hc List.not_mem_nil, fun c hc => ?_⟩
      rwa [← Option.some.inj hc]

theorem strtokCalls_none (ct : ℕ) (m : ℕ → UInt8) : ∀ k,
    strtokCalls ct (List.replicate k none) m none = .ok (List.replicate k none, none, m)
  | 0 => rfl
  | k + 1 => by
    show (strtokCalls ct (List.replicate k none) m none).bind _ = _
    rw [strtokCalls_none ct m k]
    rfl

/-- The calls that go on with a string. -/
theorem strtokCalls_saved (h : CStr m a s) (hct : CStr m ct ds)
    (hapart : a + s.length < ct ∨ ct + ds.length < a) (k : ℕ) :
    ∃ ps saved m', strtokCalls ct (List.replicate k none) m (some a) =
        .ok (ps.map some ++ List.replicate (k - (tokens ds s).length) none, saved, m') ∧
      List.Forall₂ (CStr m') ps ((tokens ds s).take k) ∧ OnlyCut ds m m' a s.length := by
  induction k generalizing m a s with
  | zero =>
    rw [Nat.zero_sub]
    exact ⟨[], some a, m, rfl, List.Forall₂.nil, OnlyCut.refl ds m a s.length⟩
  | succ k ih =>
    have hcall : strtokCalls ct (List.replicate (k + 1) none) m (some a) =
        (strtok m (some a) none ct).bind fun x => (strtokCalls ct (List.replicate k none) x.2.2 x.2.1).bind fun y =>
          .ok (x.1 :: y.1, y.2.1, y.2.2) := rfl
    rw [hcall]
    obtain ⟨u, w, rfl, hu, hw⟩ := skip_delimiters ds s
    rw [tokens_delimiters hu]
    by_cases hne : w = []
    · -- there are only delimiters left
      have hnil : tokens ds w = [] := by rw [hne]; rfl
      rw [hne, List.append_nil] at h
      refine ⟨[], none, m, ?_, ?_, OnlyCut.refl ds m a _⟩
      · rw [strtok_none h hct hu, hnil]
        show (strtokCalls ct (List.replicate k none) m none).bind _ = _
        rw [strtokCalls_none]
        rfl
      · rw [hnil]
        exact List.Forall₂.nil
    have hb := h.bound
    rw [List.length_append] at hb hapart ⊢
    rcases first_delimiter ds w with hnone | ⟨f, d, r, rfl, hf, hd⟩
    · have hsuf : CStr m (a + u.length) w := h.suffix
      refine ⟨[a + u.length], none, m, ?_, ?_, OnlyCut.refl ds m a _⟩
      · rw [strtok_last h hct hu hnone hne, tokens_token hne hnone]
        show (strtokCalls ct (List.replicate k none) m none).bind _ = _
        rw [strtokCalls_none]
        rfl
      · rw [tokens_token hne hnone, List.take_succ_cons, List.take_nil]
        exact List.Forall₂.cons hsuf List.Forall₂.nil
    · have hfne : f ≠ [] := by
        rintro rfl
        exact hw d rfl hd
      have hlen : (f ++ d :: r).length = f.length + 1 + r.length := by
        rw [List.length_append, List.length_cons]
        omega
      rw [hlen] at hapart hb ⊢
      have hsuf := h.toStr.suffix
      have hrest : CStr (Function.update m (a + u.length + f.length) 0) (a + u.length + f.length + 1) r :=
        ⟨hsuf.rest, by omega⟩
      have htoken : CStr (Function.update m (a + u.length + f.length) 0) (a + u.length) f := ⟨hsuf.cut, by omega⟩
      have htokens : tokens ds (f ++ d :: r) = f :: tokens ds r := by
        rw [tokens_append_cons hd, tokens_token hfne hf]
        rfl
      obtain ⟨ps, saved, m', hcalls, hall, hcut⟩ := ih hrest (hct.update (by omega)) (by omega)
      refine ⟨(a + u.length) :: ps, saved, m', ?_, ?_, ?_⟩
      · rw [strtok_cut h hct hu hf hfne hd, htokens, List.length_cons, Nat.add_sub_add_right]
        show (strtokCalls ct (List.replicate k none) _ (some (a + u.length + f.length + 1))).bind _ = _
        rw [hcalls]
        rfl
      · rw [htokens, List.take_succ_cons]
        exact List.Forall₂.cons (hcut.kept htoken (Nat.lt_succ_self _)) hall
      · have hde : m (a + u.length + f.length) ∈ ds := by
          rw [hsuf.suffix.head_eq]
          exact hd
        exact OnlyCut.step hde (by omega) hcut (by omega)

/-- **`strtok` returns the fields of a string that are not empty**, one by one and then NULL:
the first call is given the string, the others NULL. -/
theorem strtok_tokens (h : CStr m a s) (hct : CStr m ct ds) (hapart : a + s.length < ct ∨ ct + ds.length < a)
    (saved : Option ℕ) (k : ℕ) :
    ∃ ps saved' m', strtokCalls ct (some a :: List.replicate k none) m saved =
        .ok (ps.map some ++ List.replicate (k + 1 - (tokens ds s).length) none, saved', m') ∧
      List.Forall₂ (CStr m') ps ((tokens ds s).take (k + 1)) ∧ OnlyCut ds m m' a s.length :=
  strtokCalls_saved h hct hapart (k + 1)

theorem strtok_tokens_comma : ∃ ps saved m',
    strtokCalls 22 [some 16, none, none] fieldMemory none = .ok (ps.map some ++ [none], saved, m') ∧
    List.Forall₂ (CStr m') ps [[97], [98]] ∧ OnlyCut [44] fieldMemory m' 16 5 :=
  strtok_tokens fieldMemory_strings.1 fieldMemory_strings.2 (by decide) none 2

/-! ### Spaces at the ends -/

theorem strimLoop_eq : ∀ {s : List UInt8} {a : ℕ}, Text m a s →
    strimLoop m a (a + s.length) = a + (s.rdropWhile isspace).length := by
  intro s
  induction s using List.reverseRecOn with
  | nil =>
    intro a _
    rw [List.rdropWhile_nil, List.length_nil, Nat.add_zero]
    cases a with
    | zero => rfl
    | succ a =>
      rw [strimLoop, if_neg]
      exact fun h => absurd h.1 (Nat.not_succ_le_self a)
  | append_singleton s c ih =>
    intro a h
    obtain ⟨hs, hc, -⟩ := text_append.mp h
    have hlen : a + (s ++ [c]).length = a + s.length + 1 := by rw [List.length_append, List.length_singleton]; omega
    rw [hlen, strimLoop, hc]
    by_cases hsp : isspace c = true
    · rw [if_pos ⟨Nat.le_add_right a _, hsp⟩, List.rdropWhile_concat_pos _ _ _ hsp]
      exact ih hs
    · rw [if_neg (fun h => hsp h.2), List.rdropWhile_concat_neg _ _ _ hsp, ← hlen]

/-- A string without the spaces at its ends. -/
theorem trimmed_ends {u w v : List UInt8} (hu : u = s.takeWhile isspace)
    (hw : w = (s.dropWhile isspace).rdropWhile isspace)
    (hv : v = (s.dropWhile isspace).rtakeWhile isspace) : s = u ++ w ++ v ∧ (∀ c ∈ u ++ v, isspace c = true) ∧
      ∀ c, w.head? = some c ∨ w.getLast? = some c → isspace c = false := by
  have hsplit : w ++ v = s.dropWhile isspace := by rw [hw, hv, List.rdropWhile_append_rtakeWhile]
  refine ⟨?_, fun c hc => ?_, fun c hc => ?_⟩
  · rw [List.append_assoc, hsplit, hu, List.takeWhile_append_dropWhile]
  · rcases List.mem_append.mp hc with hc | hc
    · rw [hu] at hc
      exact List.mem_takeWhile_imp hc
    · rw [hv] at hc
      exact List.mem_rtakeWhile_imp hc
  · rcases hc with hc | hc
    · -- the head of the rest is that of the trimmed string
      have hhead : (s.dropWhile isspace).head? = some c := by
        rw [← hsplit, List.head?_append, hc]
        rfl
      have hnot := List.head?_dropWhile_not isspace s
      rw [hhead] at hnot
      exact hnot
    · have hne : w ≠ [] := by
        rintro rfl
        cases hc
      have hlast := List.rdropWhile_last_not isspace (s.dropWhile isspace) (hw ▸ hne)
      rw [List.getLast?_eq_some_getLast hne] at hc
      have hc' : w.getLast hne = c := Option.some.inj hc
      subst hw
      rw [hc'] at hlast
      exact eq_false_of_ne_true hlast

/-- **`strim` cuts the spaces at both ends**, and changes no other byte than the one behind the
rest. -/
theorem strim_trims (h : CStr m a s) : ∃ u w v m', s = u ++ w ++ v ∧ (∀ c ∈ u ++ v, isspace c = true) ∧
    (∀ c, w.head? = some c ∨ w.getLast? = some c → isspace c = false) ∧ strim m a = .ok (a + u.length, m') ∧
    CStr m' (a + u.length) w ∧ ∀ x ≠ a + u.length + w.length, m' x = m x := by
  obtain ⟨hs, hsp, hends⟩ := trimmed_ends (s := s) rfl rfl rfl
  have hsplit : CStr m a (s.takeWhile isspace ++ s.dropWhile isspace) := by rwa [List.takeWhile_append_dropWhile]
  have hrest : CStr m (a + (s.takeWhile isspace).length) (s.dropWhile isspace) := hsplit.suffix
  have hends' : CStr m (a + (s.takeWhile isspace).length)
      ((s.dropWhile isspace).rdropWhile isspace ++ (s.dropWhile isspace).rtakeWhile isspace) := by
    rwa [List.rdropWhile_append_rtakeWhile]
  have hskip : skipSpaces m a = .ok (a + (s.takeWhile isspace).length) := skipWhile_eq h (by decide)
  generalize s.takeWhile isspace = u at hs hsp hrest hends' hskip
  generalize s.dropWhile isspace = rest at hs hsp hends hrest hends'
  have hcall : strim m a = if rest.length = 0 then .ok (a + u.length, m)
      else .ok (a + u.length, Function.update m (a + u.length + (rest.rdropWhile isspace).length) 0) := by
    unfold strim
    rw [hskip]
    show (strlen m (a + u.length)).bind _ = _
    rw [strlen_eq hrest]
    show (if rest.length = 0 then _ else _) = _
    rw [strimLoop_eq hrest.text]
    rfl
  by_cases h0 : rest.length = 0
  · obtain rfl := List.length_eq_zero_iff.mp h0
    exact ⟨u, [], [], m, hs, hsp, hends, by rw [hcall, if_pos h0], hrest, fun _ _ => rfl⟩
  · refine ⟨u, _, _, _, hs, hsp, hends, by rw [hcall, if_neg h0], ⟨hends'.cut, ?_⟩, fun x hx => ?_⟩
    · have hb := hends'.bound
      rw [List.length_append] at hb
      omega
    · exact Function.update_of_ne hx _ _

/-- The string ` a ` at 16. -/
def spaceMemory : ℕ → UInt8 := memoryOf [32, 97, 32, 0]

theorem spaceMemory_string : CStr spaceMemory 16 [32, 97, 32] :=
  ⟨⟨⟨by decide, by decide, by decide, trivial⟩, by decide, by simp⟩, by decide⟩

theorem strim_trims_space : ∃ u w v m', [32, 97, 32] = u ++ w ++ v ∧ (∀ c ∈ u ++ v, isspace c = true) ∧
    (∀ c, w.head? = some c ∨ w.getLast? = some c → isspace c = false) ∧
    strim spaceMemory 16 = .ok (16 + u.length, m') ∧ CStr m' (16 + u.length) w ∧
    ∀ x ≠ 16 + u.length + w.length, m' x = spaceMemory x :=
  strim_trims spaceMemory_string

/-! ### Swapping -/

end Spec

end Rosx
