import Soil.Basic

/-!
# Programs that append to an output

A state with an output that grows at its end, and programs on it that either append
or fail, keeping the state as it is at the failure.
-/

namespace Soil

class Sink (σ : Type*) (τ : outParam Type*) where
  emit : σ → List τ → σ
  emit_nil (s : σ) : emit s [] = s
  emit_append (s : σ) (ts us : List τ) : emit s (ts ++ us) = emit (emit s ts) us

export Sink (emit emit_nil emit_append)

attribute [simp] emit_nil

variable {σ τ ε α : Type*} [Sink σ τ]

def Stable (inv : σ → Prop) : Prop := ∀ s ts, inv s → inv (emit s ts)

structure Appends (inv : σ → Prop) (known : Bool) (f : σ → Except (ε × σ) σ) (out : List τ) :
    Prop where
  ok (h : known = true) {s : σ} : inv s → f s = .ok (emit s out)
  fails (h : known = false) {s : σ} : inv s → ∃ e s', f s = .error (e, s') ∧ inv s'

namespace Appends

variable {inv : σ → Prop} {known known' : Bool} {f g : σ → Except (ε × σ) σ} {out out' : List τ}

theorem emits (step : ∀ s, f s = .ok (emit s out)) : Appends inv true f out :=
  ⟨fun _ _ _ => step _, fun h => (by cases h)⟩

theorem skip : Appends inv true (.ok : σ → Except (ε × σ) σ) [] :=
  emits fun s => by rw [emit_nil]

theorem failure (step : ∀ s, inv s → ∃ e s', f s = .error (e, s') ∧ inv s') :
    Appends inv false f out :=
  ⟨fun h => (by cases h), fun _ _ holds => step _ holds⟩

theorem congr (appends : Appends inv known f out) (same : ∀ s, inv s → g s = f s) :
    Appends inv known g out :=
  ⟨fun h s holds => by rw [same s holds, appends.ok h holds],
    fun h s holds => by rw [same s holds]; exact appends.fails h holds⟩

theorem cast (appends : Appends inv known f out) (same : known = known') (output : out = out') :
    Appends inv known' f out' := by
  rwa [← same, ← output]

theorem bind (stable : Stable inv) (first : Appends inv known f out)
    (second : Appends inv known' g out') :
    Appends inv (known && known') (fun s => f s >>= g) (out ++ out') where
  ok h s holds := by
    rw [Bool.and_eq_true] at h
    rw [first.ok h.1 holds, emit_append]
    exact second.ok h.2 (stable _ _ holds)
  fails h s holds := by
    cases found : known with
    | false =>
      obtain ⟨e, s', failed, kept⟩ := first.fails found holds
      exact ⟨e, s', by rw [failed]; rfl, kept⟩
    | true =>
      rw [found, Bool.true_and] at h
      obtain ⟨e, s', failed, kept⟩ := second.fails h (stable _ out holds)
      exact ⟨e, s', by rw [first.ok found holds]; exact failed, kept⟩

variable {step : σ → σ}

theorem after (stable : Stable inv) (appends : ∀ s, step s = emit s out)
    (rest : Appends inv known f out') : Appends inv known (fun s => f (step s)) (out ++ out') where
  ok h s holds := by
    rw [appends, emit_append]
    exact rest.ok h (stable _ _ holds)
  fails h s holds := by
    rw [appends]
    exact rest.fails h (stable _ _ holds)

theorem before (first : Appends inv known f out) (appends : ∀ s, step s = emit s out') :
    Appends inv known (fun s => f s >>= fun s => .ok (step s)) (out ++ out') where
  ok h s holds := by
    rw [first.ok h holds, emit_append, ← appends]
    rfl
  fails h s holds := by
    obtain ⟨e, s', failed, kept⟩ := first.fails h holds
    exact ⟨e, s', by rw [failed]; rfl, kept⟩

theorem ite {c : Prop} [Decidable c] (first : c → Appends inv known f out)
    (second : ¬ c → Appends inv known' g out') :
    Appends inv (if c then known else known') (fun s => if c then f s else g s)
      (if c then out else out') := by
  by_cases holds : c
  · simpa only [holds, if_true] using first holds
  · simpa only [holds, if_false] using second holds

theorem foldlM {f : σ → α → Except (ε × σ) σ} {known : α → Bool} {out : α → List τ}
    (stable : Stable inv) (xs : List α)
    (each : ∀ x ∈ xs, Appends inv (known x) (fun s => f s x) (out x)) :
    Appends inv (xs.all known) (fun s => xs.foldlM f s) (xs.flatMap out) := by
  induction xs with
  | nil => exact skip
  | cons x xs ih =>
    exact (each x (by simp)).bind stable (ih fun y inside => each y (by simp [inside]))

end Appends

end Soil
