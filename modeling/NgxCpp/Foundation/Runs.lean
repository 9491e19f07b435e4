import NgxCpp.Foundation.Exec

/-! Runs of a transition system, and what a step lemma says about them.
`Along` follows a deterministic step over a list of inputs; `Run` follows a step
relation. Each rule turns a fact about one step into one about every run. -/

namespace Foundation

variable {σ ι τ κ : Type}

section Deterministic

variable (step : σ → ι → σ)

def Along (P : σ → ι → Prop) : σ → List ι → Prop
  | _, [] => True
  | s, i :: is => P s i ∧ Along P (step s i) is

instance Along.decidable (P : σ → ι → Prop) [∀ s i, Decidable (P s i)] :
    (s : σ) → (is : List ι) → Decidable (Along step P s is)
  | _, [] => inferInstanceAs (Decidable True)
  | s, i :: is =>
    have := Along.decidable P (step s i) is
    inferInstanceAs (Decidable (P s i ∧ Along step P (step s i) is))

variable {step} {P Q : σ → ι → Prop} {Inv : σ → Prop}

theorem Along.imp (pointwise : ∀ s i, P s i → Q s i) {s : σ} {is : List ι}
    (along : Along step P s is) : Along step Q s is := by
  induction is generalizing s with
  | nil => trivial
  | cons i is ih => exact ⟨pointwise s i along.1, ih along.2⟩

/-- An invariant that guarded steps keep makes a guarded run meet what each of
its guarded steps meets. -/
theorem Along.of_invariant (kept : ∀ s i, Inv s → P s i → Inv (step s i))
    (met : ∀ s i, Inv s → P s i → Q s i) {s : σ} {is : List ι} (start : Inv s)
    (along : Along step P s is) : Along step Q s is := by
  induction is generalizing s with
  | nil => trivial
  | cons i is ih =>
    exact ⟨met s i start along.1, ih (kept s i start along.1) along.2⟩

/-- Where each guarded step of the invariant's states meets `P` exactly when it
meets `Q`, and one that does keeps the invariant, so does each guarded run. -/
theorem along_congr_kept {G : σ → ι → Prop} (Inv : σ → Prop)
    (kept : ∀ s i, Inv s → G s i → Q s i → Inv (step s i))
    (same : ∀ s i, Inv s → G s i → (P s i ↔ Q s i)) {s : σ} {is : List ι} (start : Inv s)
    (guarded : Along step G s is) : Along step P s is ↔ Along step Q s is := by
  induction is generalizing s with
  | nil => exact Iff.rfl
  | cons i is ih =>
    by_cases met : Q s i
    · exact and_congr (same s i start guarded.1) (ih (kept s i start guarded.1 met) guarded.2)
    · refine iff_of_false (fun along => met ?_) fun along => met along.1
      exact (same s i start guarded.1).mp along.1

theorem along_congr_of {G : σ → ι → Prop} (Inv : σ → Prop)
    (kept : ∀ s i, Inv s → G s i → Inv (step s i))
    (same : ∀ s i, Inv s → G s i → (P s i ↔ Q s i)) {s : σ} {is : List ι} (start : Inv s)
    (guarded : Along step G s is) : Along step P s is ↔ Along step Q s is :=
  along_congr_kept Inv (fun s i holds guard _ => kept s i holds guard) same start guarded

theorem along_forall (step : σ → ι → σ) {P : ι → Prop} (s : σ) {is : List ι} :
    Along step (fun _ i => P i) s is ↔ ∀ i ∈ is, P i := by
  induction is generalizing s with
  | nil => simp [Along]
  | cons i is ih => simp [Along, ih]

theorem along_append {s : σ} {is js : List ι} :
    Along step P s (is ++ js) ↔ Along step P s is ∧ Along step P (is.foldl step s) js := by
  induction is generalizing s with
  | nil => simp [Along]
  | cons i is ih => simp [Along, ih, and_assoc]

theorem along_congr (Inv : σ → Prop) (kept : ∀ s i, Inv s → Inv (step s i))
    (same : ∀ s i, Inv s → (P s i ↔ Q s i)) {s : σ} {is : List ι} (start : Inv s) :
    Along step P s is ↔ Along step Q s is :=
  along_congr_of (G := fun _ _ => True) Inv (fun s i holds _ => kept s i holds)
    (fun s i holds _ => same s i holds) start ((along_forall step s).mpr fun _ _ => trivial)

variable (step P) in
def Lasting : σ → List ι → Prop
  | _, [] => True
  | s, i :: is => (P s i → Along step P (step s i) is) ∧ Lasting (step s i) is

section Simulated

variable {step' : τ → ι → τ} {P' : τ → ι → Prop} {guard : ι → Prop} (R : σ → τ → Prop)
  (kept : ∀ s a i, R s a → guard i → R (step s i) (step' a i))
  (same : ∀ s a i, R s a → guard i → (P s i ↔ P' a i))
include kept same

/-- Two systems whose steps meet the same, and stay related, meet the same along runs. -/
theorem along_sim {s : σ} {a : τ} {is : List ι} (start : R s a) (guarded : ∀ i ∈ is, guard i) :
    Along step P s is ↔ Along step' P' a is := by
  induction is generalizing s a with
  | nil => exact Iff.rfl
  | cons i is ih =>
    obtain ⟨first, rest⟩ := List.forall_mem_cons.mp guarded
    exact and_congr (same s a i start first) (ih (kept s a i start first) rest)

theorem lasting_sim {s : σ} {a : τ} {is : List ι} (start : R s a)
    (guarded : ∀ i ∈ is, guard i) : Lasting step P s is ↔ Lasting step' P' a is := by
  induction is generalizing s a with
  | nil => exact Iff.rfl
  | cons i is ih =>
    obtain ⟨first, rest⟩ := List.forall_mem_cons.mp guarded
    have next := kept s a i start first
    exact and_congr (imp_congr (same s a i start first) (along_sim R kept same next rest))
      (ih next rest)

end Simulated

/-- Where guarded steps keep an invariant, which gives `Post`, and no run makes up
for an unguarded step, a run ends in `Post` exactly when it is guarded. -/
theorem foldl_iff_along {Post : σ → Prop} (Inv : σ → Prop) (met : ∀ s, Inv s → Post s)
    (kept : ∀ s i, Inv s → P s i → Inv (step s i))
    (lost : ∀ s i (is : List ι), Inv s → ¬ P s i → ¬ Post (is.foldl step (step s i)))
    {s : σ} {is : List ι} (start : Inv s) : Post (is.foldl step s) ↔ Along step P s is := by
  induction is generalizing s with
  | nil => exact iff_of_true (met s start) trivial
  | cons i is ih =>
    by_cases guarded : P s i
    · exact (ih (kept s i start guarded)).trans (and_iff_right guarded).symm
    · exact iff_of_false (lost s i is start guarded) fun along => guarded along.1

/-- The most that `use` is in a run. -/
def highest (step : σ → ι → σ) (use : σ → Nat) : σ → List ι → Nat
  | s, [] => use s
  | s, i :: is => max (use s) (highest step use (step s i) is)

theorem use_le_highest (step : σ → ι → σ) (use : σ → Nat) (s : σ) (is : List ι) :
    use s ≤ highest step use s is := by
  cases is with
  | nil => exact Nat.le_refl _
  | cons i is => exact Nat.le_max_left ..

/-- What only grows to make room for what is in use is as large as the most that was. -/
theorem foldl_eq_highest {use size : σ → Nat} (fits : ∀ s, use s ≤ size s)
    (grows : ∀ s i, P s i → size (step s i) = max (size s) (use (step s i))) {s : σ}
    {is : List ι} (along : Along step P s is) :
    size (is.foldl step s) = max (size s) (highest step use s is) := by
  induction is generalizing s with
  | nil => exact (Nat.max_eq_left (fits s)).symm
  | cons i is ih =>
    have later := use_le_highest step use (step s i) is
    have room := fits s
    rw [List.foldl_cons, ih along.2, grows s i along.1, highest]
    omega

end Deterministic

section Relational

inductive Run (step : σ → ι → σ → Prop) : σ → List ι → σ → Prop where
  | nil (s : σ) : Run step s [] s
  | cons {s t u : σ} {i : ι} {is : List ι} :
      step s i t → Run step t is u → Run step s (i :: is) u

variable {step : σ → ι → σ → Prop} {s t : σ} {is : List ι}

theorem Run.invariant (Inv : σ → Prop) (kept : ∀ s i t, Inv s → step s i t → Inv t)
    (run : Run step s is t) (start : Inv s) : Inv t := by
  induction run with
  | nil => exact start
  | cons first _ ih => exact ih (kept _ _ _ start first)

theorem Run.history (Inv : List ι → σ → Prop)
    (kept : ∀ before s i t, Inv before s → step s i t → Inv (before ++ [i]) t)
    (run : Run step s is t) (start : Inv [] s) : Inv is t := by
  suffices extended : ∀ before, Inv before s → Inv (before ++ is) t from extended [] start
  clear start
  induction run with
  | nil =>
    intro before holds
    rwa [List.append_nil]
  | cons first _ ih =>
    intro before holds
    have next := ih (before ++ [_]) (kept before _ _ _ holds first)
    rwa [List.append_assoc] at next

theorem Run.append_iff {js : List ι} :
    Run step s (is ++ js) t ↔ ∃ u, Run step s is u ∧ Run step u js t := by
  induction is generalizing s with
  | nil =>
    constructor
    · intro run
      exact ⟨s, .nil s, run⟩
    · rintro ⟨u, first, run⟩
      cases first
      exact run
  | cons i is ih =>
    constructor
    · intro run
      cases run with
      | cons first rest =>
        obtain ⟨u, before, after⟩ := ih.mp rest
        exact ⟨u, .cons first before, after⟩
    · rintro ⟨u, before, after⟩
      cases before with
      | cons first rest => exact .cons first (ih.mpr ⟨u, rest, after⟩)

theorem Run.singleton_iff {i : ι} : Run step s [i] t ↔ step s i t := by
  constructor
  · intro run
    cases run with
    | cons taken rest =>
      cases rest
      exact taken
  · intro taken
    exact .cons taken (.nil t)

theorem Run.guarded_iff {P : ι → Prop} :
    Run (fun s i t => P i ∧ step s i t) s is t ↔ (∀ i ∈ is, P i) ∧ Run step s is t := by
  constructor
  · intro run
    induction run with
    | nil s => exact ⟨nofun, .nil s⟩
    | cons first _ ih =>
      exact ⟨List.forall_mem_cons.mpr ⟨first.1, ih.1⟩, .cons first.2 ih.2⟩
  · rintro ⟨guarded, run⟩
    induction run with
    | nil s => exact .nil s
    | cons first _ ih =>
      obtain ⟨here, later⟩ := List.forall_mem_cons.mp guarded
      exact .cons ⟨here, first⟩ (ih later)

theorem Run.simulates {R : σ → τ → Prop} {spec : τ → ι → τ} {guard : ι → Prop}
    (simulated : ∀ s i t a, R s a → guard i → step s i t → R t (spec a i))
    (run : Run step s is t) (guarded : ∀ i ∈ is, guard i) {a : τ} (start : R s a) :
    R t (is.foldl spec a) := by
  induction run generalizing a with
  | nil => exact start
  | cons first _ ih =>
    have next := simulated _ _ _ a start (guarded _ (by simp)) first
    exact ih (fun i member => guarded i (List.mem_cons_of_mem _ member)) next

/-- Simulated step by step, a run is one of the specification's. -/
theorem Run.refines {R : σ → τ → Prop} {spec : τ → ι → τ → Prop}
    (simulated : ∀ s i t a, R s a → step s i t → ∃ b, spec a i b ∧ R t b)
    (run : Run step s is t) {a : τ} (start : R s a) : ∃ b, Run spec a is b ∧ R t b := by
  induction run generalizing a with
  | nil => exact ⟨a, .nil a, start⟩
  | cons first _ ih =>
    obtain ⟨b, taken, next⟩ := simulated _ _ _ a start first
    obtain ⟨c, rest, last⟩ := ih next
    exact ⟨c, .cons taken rest, last⟩

theorem Exec.each_eq_ok {ε α : Type} {f : α → Exec ε σ Unit} {as : List α} {s t : σ} :
    Exec.each f as s = .ok () t ↔ Run (fun s a t => f a s = .ok () t) s as t := by
  induction as generalizing s with
  | nil =>
    constructor
    · intro h
      obtain ⟨-, rfl⟩ := Outcome.ok.inj h
      exact .nil s
    · intro run
      cases run
      rfl
  | cons a as ih =>
    rw [Exec.each, Exec.bind_eq_ok]
    constructor
    · rintro ⟨_, mid, first, rest⟩
      exact .cons first (ih.mp rest)
    · intro run
      cases run with
      | cons first rest => exact ⟨(), _, first, ih.mpr rest⟩

/-- Programs that return wherever they are allowed return one after the other, in a state
that stands for the specification's. -/
theorem Exec.each_refines {ε α : Type} {f : α → Exec ε σ Unit} {R : σ → τ → Prop}
    {spec : τ → α → τ} {P : τ → α → Prop}
    (simulated : ∀ s a x, R s a → P a x → ∃ t, f x s = .ok () t ∧ R t (spec a x)) {s : σ} {a : τ}
    {xs : List α} (start : R s a) (along : Along spec P a xs) :
    ∃ t, Exec.each f xs s = .ok () t ∧ R t (xs.foldl spec a) := by
  induction xs generalizing s a with
  | nil => exact ⟨s, rfl, start⟩
  | cons x xs ih =>
    obtain ⟨mid, first, next⟩ := simulated s a x start along.1
    obtain ⟨t, rest, last⟩ := ih next along.2
    exact ⟨t, (Exec.each_cons_ok first).trans rest, last⟩

/-- The rule of a loop over a list: its invariant speaks of the elements done so far. -/
theorem Exec.each_invariant {ε α : Type} {f : α → Exec ε σ Unit} (Inv : List α → σ → Prop)
    {as : List α} {s t : σ} (start : Inv [] s)
    (kept : ∀ before a s t, a ∈ as → Inv before s → f a s = .ok () t → Inv (before ++ [a]) t)
    (done : Exec.each f as s = .ok () t) : Inv as t := by
  have all : Inv (as.foldl (fun before a => before ++ [a]) []) t :=
    (Exec.each_eq_ok.mp done).simulates
      (fun s a t before holds member => kept before a s t member holds) (fun _ member => member)
      start
  rwa [List.foldl_append_eq_append, ← List.flatMap_def, List.flatMap_singleton'] at all

end Relational

end Foundation
