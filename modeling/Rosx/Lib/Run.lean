/-
# Runs of a labelled transition system

A run from `s` is the list of its steps, each with its label and the state
it leads to. Properties of every reachable state come from what one step
preserves (`Exec.invariant`); where a step keeps the property only under a
condition on the state and the label, they hold along the runs whose steps
meet it (`Exec.invariant_of_guarded`), and along no other when breaking the
condition breaks the property (`Exec.guarded_iff`).
-/
import Mathlib.Data.List.Basic

namespace Run

variable {σ ι : Type*} {step : σ → ι → σ → Prop} {cond : σ → ι → Prop} {P : σ → Prop}

/-- A run of `step` from `s`: the labels taken and the states reached. -/
inductive Exec (step : σ → ι → σ → Prop) : σ → List (ι × σ) → Prop
  | nil (s : σ) : Exec step s []
  | cons {s s' : σ} {i : ι} {tr : List (ι × σ)} :
      step s i s' → Exec step s' tr → Exec step s ((i, s') :: tr)

/-- Every step of the run meets `cond` in the state it is taken from. -/
def Guarded (cond : σ → ι → Prop) : σ → List (ι × σ) → Prop
  | _, [] => True
  | s, (i, s') :: tr => cond s i ∧ Guarded cond s' tr

instance decidableGuarded [∀ s i, Decidable (cond s i)] : ∀ (s : σ) (tr : List (ι × σ)), Decidable (Guarded cond s tr)
  | _, [] => inferInstanceAs (Decidable True)
  | s, (i, s') :: tr =>
    have := decidableGuarded s' tr
    inferInstanceAs (Decidable (cond s i ∧ Guarded cond s' tr))

/-- The number of the steps of the run that meet `cond` in the state they are
taken from. -/
def count (cond : σ → ι → Prop) [∀ s i, Decidable (cond s i)] : σ → List (ι × σ) → ℕ
  | _, [] => 0
  | s, (i, s') :: tr => (if cond s i then 1 else 0) + count cond s' tr

/-- The states of a run from `s`, `s` included. -/
def states (s : σ) (tr : List (ι × σ)) : List σ := s :: tr.map (·.2)

/-- The state a run from `s` ends in. -/
def final : σ → List (ι × σ) → σ
  | s, [] => s
  | _, (_, s') :: tr => final s' tr

/-- The run that a partial step function takes on a list of labels. -/
def trace (f : σ → ι → Option σ) : σ → List ι → Option (List (ι × σ))
  | _, [] => some []
  | s, i :: is => (f s i).bind fun s' => (trace f s' is).map ((i, s') :: ·)

/-- The step of a program as a function of its label: the call is admissible
and returns what the label says. -/
def attempt {ε κ ρ : Type*} [DecidableEq ρ] (adm : σ → κ → Prop) [∀ s c, Decidable (adm s c)]
    (exec : σ → κ → Except ε (ρ × σ)) (s : σ) (c : κ × ρ) : Option σ :=
  if adm s c.1 then
    match exec s c.1 with
    | .ok (r, s') => if r = c.2 then some s' else none
    | .error _ => none
  else none

theorem step_of_attempt {ε κ ρ : Type*} [DecidableEq ρ] {adm : σ → κ → Prop} [∀ s c, Decidable (adm s c)]
    {exec : σ → κ → Except ε (ρ × σ)} {s s' : σ} {c : κ × ρ} (h : attempt adm exec s c = some s') :
    adm s c.1 ∧ exec s c.1 = .ok (c.2, s') := by
  unfold attempt at h
  split_ifs at h with ha
  split at h
  · rename_i r s1 he
    split_ifs at h with hr
    obtain rfl := Option.some.inj h
    exact ⟨ha, by rw [he, hr]⟩
  · cases h

theorem exec_of_trace {f : σ → ι → Option σ} (hf : ∀ s i s', f s i = some s' → step s i s') :
    ∀ {is : List ι} {s : σ} {tr : List (ι × σ)}, trace f s is = some tr → Exec step s tr
  | [], s, tr, h => by
    obtain rfl : [] = tr := Option.some.inj h
    exact .nil s
  | i :: is, s, tr, h => by
    obtain ⟨s', hs, h⟩ := Option.bind_eq_some_iff.mp h
    obtain ⟨tr', htr, rfl⟩ := Option.map_eq_some_iff.mp h
    exact .cons (hf s i s' hs) (exec_of_trace hf htr)

/-- A property of the run on the labels `is`, checked by evaluation. -/
theorem exists_exec {f : σ → ι → Option σ} (hf : ∀ s i s', f s i = some s' → step s i s') {s : σ}
    (is : List ι) (p : List (ι × σ) → Bool) (h : (trace f s is).map p = some true) :
    ∃ tr, Exec step s tr ∧ p tr = true := by
  obtain ⟨tr, htr, hp⟩ := Option.map_eq_some_iff.mp h
  exact ⟨tr, exec_of_trace hf htr, hp⟩

theorem exec_append {s : σ} {a b : List (ι × σ)} :
    Exec step s (a ++ b) ↔ Exec step s a ∧ Exec step (final s a) b := by
  induction a generalizing s with
  | nil => exact ⟨fun h => ⟨.nil s, h⟩, fun h => h.2⟩
  | cons x a ih =>
    constructor
    · intro h
      cases h with
      | cons hst h => exact ⟨.cons hst (ih.mp h).1, (ih.mp h).2⟩
    · rintro ⟨ha, hb⟩
      cases ha with
      | cons hst ha => exact .cons hst (ih.mpr ⟨ha, hb⟩)

/-- A run goes on with one more step. -/
theorem Exec.snoc {s s' : σ} {i : ι} {tr : List (ι × σ)} (h : Exec step s tr) (hst : step (final s tr) i s') :
    Exec step s (tr ++ [(i, s')]) := by
  induction h with
  | nil s => exact .cons hst (.nil s')
  | cons h1 _ ih => exact .cons h1 (ih hst)

/-- The same for a run on the labels `is` and one more label, with the state
before that step and the one after it. -/
theorem exists_exec_last {f : σ → ι → Option σ} (hf : ∀ s i s', f s i = some s' → step s i s') {s : σ}
    (is : List ι) (i : ι) (p : List (ι × σ) → σ → Bool)
    (h : ((trace f s is).bind fun tr => (f (final s tr) i).map (p tr)) = some true) :
    ∃ tr s', Exec step s (tr ++ [(i, s')]) ∧ p tr s' = true := by
  obtain ⟨tr, htr, h⟩ := Option.bind_eq_some_iff.mp h
  obtain ⟨s', hs', hp⟩ := Option.map_eq_some_iff.mp h
  exact ⟨tr, s', (exec_of_trace hf htr).snoc (hf _ i s' hs'), hp⟩

theorem labels_of_trace {f : σ → ι → Option σ} : ∀ {is : List ι} {s : σ} {tr : List (ι × σ)},
    trace f s is = some tr → tr.map (·.1) = is
  | [], s, tr, h => by
    obtain rfl : [] = tr := Option.some.inj h
    rfl
  | i :: is, s, tr, h => by
    obtain ⟨s', -, h⟩ := Option.bind_eq_some_iff.mp h
    obtain ⟨tr', htr, rfl⟩ := Option.map_eq_some_iff.mp h
    rw [List.map_cons, labels_of_trace htr]

/-- The same for a run on the labels `is`, then `i` and then `js`, with the
state that `i` leads to. -/
theorem exists_exec_at {f : σ → ι → Option σ} (hf : ∀ s i s', f s i = some s' → step s i s') {s : σ}
    (is : List ι) (i : ι) (js : List ι) (p : List (ι × σ) → σ → List (ι × σ) → Bool)
    (h : ((trace f s is).bind fun a => (f (final s a) i).bind fun s' => (trace f s' js).map (p a s')) = some true) :
    ∃ a s' b, Exec step s (a ++ (i, s') :: b) ∧ a.map (·.1) = is ∧ b.map (·.1) = js ∧ p a s' b = true := by
  obtain ⟨a, ha, h⟩ := Option.bind_eq_some_iff.mp h
  obtain ⟨s', hs', h⟩ := Option.bind_eq_some_iff.mp h
  obtain ⟨b, hb, hp⟩ := Option.map_eq_some_iff.mp h
  refine ⟨a, s', b, ?_, labels_of_trace ha, labels_of_trace hb, hp⟩
  exact exec_append.mpr ⟨exec_of_trace hf ha, .cons (hf _ i s' hs') (exec_of_trace hf hb)⟩

theorem Exec.invariant_of_guarded (Inv : σ → Prop) (hstep : ∀ s i s', Inv s → cond s i → step s i s' → Inv s')
    {s : σ} {tr : List (ι × σ)} (h : Exec step s tr) (hg : Guarded cond s tr) (hs : Inv s) :
    ∀ x ∈ states s tr, Inv x := by
  induction h with
  | nil s => intro x hx; rw [List.mem_singleton.mp hx]; exact hs
  | cons hst _ ih =>
    intro x hx
    rcases List.mem_cons.mp hx with rfl | hx
    · exact hs
    · exact ih hg.2 (hstep _ _ _ hs hg.1 hst) x hx

theorem Exec.invariant (Inv : σ → Prop) (hstep : ∀ s i s', Inv s → step s i s' → Inv s')
    {s : σ} {tr : List (ι × σ)} (h : Exec step s tr) (hs : Inv s) : ∀ x ∈ states s tr, Inv x := by
  induction h with
  | nil s => intro x hx; rw [List.mem_singleton.mp hx]; exact hs
  | cons hst _ ih =>
    intro x hx
    rcases List.mem_cons.mp hx with rfl | hx
    · exact hs
    · exact ih (hstep _ _ _ hs hst) x hx

theorem guarded_append {s : σ} {a b : List (ι × σ)} :
    Guarded cond s (a ++ b) ↔ Guarded cond s a ∧ Guarded cond (final s a) b := by
  induction a generalizing s with
  | nil => exact ⟨fun h => ⟨trivial, h⟩, fun h => h.2⟩
  | cons x a ih =>
    show cond s x.1 ∧ Guarded cond x.2 (a ++ b) ↔ (cond s x.1 ∧ Guarded cond x.2 a) ∧ Guarded cond (final x.2 a) b
    rw [ih, and_assoc]

theorem final_mem_states (s : σ) (tr : List (ι × σ)) : final s tr ∈ states s tr := by
  induction tr generalizing s with
  | nil => exact List.mem_cons_self
  | cons x tr ih => exact List.mem_cons_of_mem _ (ih x.2)

/-- The steps of a run, one by one. -/
theorem Exec.step_of_append {s s' : σ} {i : ι} {tr tr' : List (ι × σ)} (h : Exec step s (tr ++ (i, s') :: tr')) :
    step (final s tr) i s' := by
  induction tr generalizing s with
  | nil =>
    cases h with
    | cons hst _ => exact hst
  | cons x tr ih =>
    cases h with
    | cons _ htr => exact ih htr

/-- Every step of a run starts in a state with the invariant. -/
theorem Exec.step_of_mem (Inv : σ → Prop) (hstep : ∀ s i s', Inv s → step s i s' → Inv s')
    {s : σ} {tr : List (ι × σ)} (h : Exec step s tr) (hs : Inv s) : ∀ x ∈ tr, ∃ s0, Inv s0 ∧ step s0 x.1 x.2 := by
  induction h with
  | nil s => intro x hx; cases hx
  | @cons s s' i tr hst _ ih =>
    intro x hx
    rcases List.mem_cons.mp hx with rfl | hx
    · exact ⟨s, hs, hst⟩
    · exact ih (hstep _ _ _ hs hst) x hx

theorem Guarded.mono {cond' : σ → ι → Prop} (hc : ∀ s i, cond s i → cond' s i) :
    ∀ {s : σ} {tr : List (ι × σ)}, Guarded cond s tr → Guarded cond' s tr
  | _, [], _ => trivial
  | _, _ :: _, h => ⟨hc _ _ h.1, Guarded.mono hc h.2⟩

/-- Where every step that meets `cond` keeps the invariant and meets `cond'`,
the guarded runs meet `cond'` throughout. -/
theorem Guarded.and {cond' : σ → ι → Prop} : ∀ {s : σ} {tr : List (ι × σ)}, Guarded cond s tr → Guarded cond' s tr →
    Guarded (fun s i => cond s i ∧ cond' s i) s tr
  | _, [], _, _ => trivial
  | _, _ :: _, h, h' => ⟨⟨h.1, h'.1⟩, h.2.and h'.2⟩

/-- A run of two relations is a run of both at once. -/
theorem Exec.and {step' : σ → ι → σ → Prop} {s : σ} {tr : List (ι × σ)} (h : Exec step s tr) (h' : Exec step' s tr) :
    Exec (fun s i s' => step s i s' ∧ step' s i s') s tr := by
  induction h with
  | nil s => exact .nil s
  | cons hst _ ih =>
    cases h' with
    | cons hst' h' => exact .cons ⟨hst, hst'⟩ (ih h')

theorem Exec.guarded_of_guarded {cond' : σ → ι → Prop} (Inv : σ → Prop)
    (hstep : ∀ s i s', Inv s → cond s i → step s i s' → Inv s')
    (hcond : ∀ s i s', Inv s → cond s i → step s i s' → cond' s i)
    {s : σ} {tr : List (ι × σ)} (h : Exec step s tr) (hg : Guarded cond s tr) (hs : Inv s) : Guarded cond' s tr := by
  induction h with
  | nil s => trivial
  | cons hst _ ih => exact ⟨hcond _ _ _ hs hg.1 hst, ih hg.2 (hstep _ _ _ hs hg.1 hst)⟩

/-- Where every step that meets `cond` keeps the invariant and is a step of
`step'`, the guarded runs are runs of `step'`. -/
theorem Exec.of_guarded {step' : σ → ι → σ → Prop} (Inv : σ → Prop)
    (hstep : ∀ s i s', Inv s → cond s i → step s i s' → Inv s' ∧ step' s i s')
    {s : σ} {tr : List (ι × σ)} (h : Exec step s tr) (hg : Guarded cond s tr) (hs : Inv s) : Exec step' s tr := by
  induction h with
  | nil s => exact .nil s
  | cons hst _ ih =>
    obtain ⟨hs', hst'⟩ := hstep _ _ _ hs hg.1 hst
    exact .cons hst' (ih hg.2 hs')

/-- A condition on the labels alone. -/
theorem guarded_of_labels {s : σ} {tr : List (ι × σ)} (h : ∀ x ∈ tr, ∀ s, cond s x.1) : Guarded cond s tr := by
  induction tr generalizing s with
  | nil => trivial
  | cons x tr ih => exact ⟨h x List.mem_cons_self s, ih fun y hy => h y (List.mem_cons_of_mem _ hy)⟩

theorem guarded_true (s : σ) (tr : List (ι × σ)) : Guarded (fun _ _ => True) s tr :=
  guarded_of_labels fun _ _ _ => trivial

/-- Where every step that meets `cond` keeps the invariant, and every other
step leads out of `P`, the runs inside `P` are the guarded ones. -/
theorem Exec.guarded_iff (Inv : σ → Prop) (hP : ∀ s, Inv s → P s)
    (hstep : ∀ s i s', Inv s → cond s i → step s i s' → Inv s')
    (hout : ∀ s i s', Inv s → ¬ cond s i → step s i s' → ¬ P s')
    {s : σ} {tr : List (ι × σ)} (h : Exec step s tr) (hs : Inv s) :
    Guarded cond s tr ↔ ∀ x ∈ states s tr, P x := by
  refine ⟨fun hg x hx => hP x (h.invariant_of_guarded Inv hstep hg hs x hx), fun hall => ?_⟩
  induction h with
  | nil s => trivial
  | @cons s s' i tr hst _ ih =>
    have hs' : P s' := hall s' (by simp [states])
    have hc : cond s i := by
      by_contra hc
      exact hout s i s' hs hc hst hs'
    refine ⟨hc, ih (hstep s i s' hs hc hst) fun x hx => hall x ?_⟩
    simp only [states, List.map_cons, List.mem_cons] at hx ⊢
    exact Or.inr hx

end Run
