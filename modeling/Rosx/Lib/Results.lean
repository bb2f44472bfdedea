/-
# What a program returns, call by call

The calls are made one after another; the list has what each returned, and
`none` at the end if the last one could not be made, or did not return. Two
states that a map makes one return the same, if the calls commute with the map
(`results_eq_of_map`). That they do is shown along the program, bind by bind
(`bind_natural`).
-/
import Mathlib.Data.List.Basic

namespace Run

variable {σ κ ρ ε : Type*} {adm : σ → κ → Prop} [∀ s c, Decidable (adm s c)] {exec : σ → κ → Except ε (ρ × σ)}

/-- What the calls return from `s` on. -/
def results (adm : σ → κ → Prop) [∀ s c, Decidable (adm s c)] (exec : σ → κ → Except ε (ρ × σ)) :
    σ → List κ → List (Option ρ)
  | _, [] => []
  | s, c :: cs =>
    if adm s c then
      match exec s c with
      | .ok (r, s') => some r :: results adm exec s' cs
      | .error _ => [none]
    else [none]

theorem results_ok {s s' : σ} {c : κ} {r : ρ} (ha : adm s c) (he : exec s c = .ok (r, s')) (cs : List κ) :
    results adm exec s (c :: cs) = some r :: results adm exec s' cs := by
  rw [results, if_pos ha, he]

theorem results_error {s : σ} {c : κ} {e : ε} (ha : adm s c) (he : exec s c = .error e) (cs : List κ) :
    results adm exec s (c :: cs) = [none] := by
  rw [results, if_pos ha, he]

/-- A map that the calls commute with does not show. -/
theorem results_map {φ : σ → σ} (hadm : ∀ s c, adm (φ s) c ↔ adm s c)
    (hexec : ∀ s c, exec (φ s) c = (exec s c).map (Prod.map id φ)) (s : σ) (cs : List κ) :
    results adm exec (φ s) cs = results adm exec s cs := by
  induction cs generalizing s with
  | nil => rfl
  | cons c cs ih =>
    by_cases ha : adm s c
    · have ha' : adm (φ s) c := (hadm s c).mpr ha
      cases he : exec s c with
      | ok x =>
        obtain ⟨r, s'⟩ := x
        have he' : exec (φ s) c = .ok (r, φ s') := by
          rw [hexec, he]
          rfl
        rw [results_ok ha he, results_ok ha' he', ih]
      | error e =>
        have he' : exec (φ s) c = .error e := by
          rw [hexec, he]
          rfl
        rw [results_error ha he, results_error ha' he']
    · rw [results, results, if_neg ha, if_neg fun h => ha ((hadm s c).mp h)]

theorem results_eq_of_map {φ : σ → σ} (hadm : ∀ s c, adm (φ s) c ↔ adm s c)
    (hexec : ∀ s c, exec (φ s) c = (exec s c).map (Prod.map id φ)) {s s' : σ} (h : φ s = φ s') (cs : List κ) :
    results adm exec s cs = results adm exec s' cs := by
  calc results adm exec s cs = results adm exec (φ s) cs := (results_map hadm hexec s cs).symm
    _ = results adm exec (φ s') cs := by rw [h]
    _ = results adm exec s' cs := results_map hadm hexec s' cs

section Natural

variable {α α' β β' : Type*} {x : Except ε α} {x' : Except ε α'} {φ : α → α'} {ψ : β → β'}

/-- Two steps that commute with maps, one after the other. -/
theorem bind_natural {f : α → Except ε β} {f' : α' → Except ε β'} (hx : x' = x.map φ)
    (hf : ∀ a, f' (φ a) = (f a).map ψ) : (x'.bind f') = (x.bind f).map ψ := by
  subst hx
  cases x with
  | ok a => exact hf a
  | error e => rfl

theorem map_natural {f : α → β} {f' : α' → β'} (hx : x' = x.map φ) (hf : ∀ a, f' (φ a) = ψ (f a)) :
    x'.map f' = (x.map f).map ψ := by
  subst hx
  cases x with
  | ok a => exact congrArg Except.ok (hf a)
  | error e => rfl

end Natural

end Run
