import Mathlib.Tactic

/-! Token buckets that are refilled lazily: what a log of the tokens taken can hold. -/
namespace TokenBucket

/-- The tokens at hand and the tick up to which the refill has been counted. -/
structure Bucket where
  level : ℕ
  tick : ℕ

variable {capacity rate : ℕ} {b b' : Bucket} {log : List ℕ} {x y : ℕ}

/-- The entries of a log from one tick to another, both included. -/
def between (x y : ℕ) (log : List ℕ) : ℕ := log.countP fun t => x ≤ t ∧ t ≤ y

def since (x : ℕ) (log : List ℕ) : ℕ := log.countP fun t => x ≤ t

/-- A step that takes `n` tokens is covered by the level, by what the ticks since the last refill
have brought, and by the capacity. -/
structure Takes (capacity rate : ℕ) (b b' : Bucket) (n : ℕ) : Prop where
  tick : b.tick ≤ b'.tick
  full : b'.level + n ≤ capacity
  covered : b'.level + n ≤ b.level + rate * (b'.tick - b.tick)

/-- The log of a bucket that started full: from any tick on, what was taken and what is left come
out of one full bucket and the refills since. -/
structure Metered (capacity rate : ℕ) (b : Bucket) (log : List ℕ) : Prop where
  past : ∀ t ∈ log, t ≤ b.tick
  level : ∀ x ≤ b.tick, since x log + b.level ≤ capacity + rate * (b.tick - x)
  window : ∀ x y, x ≤ y → between x y log ≤ capacity + rate * (y - x)

/-- A token can be taken out of what a refill has left. -/
theorem Takes.one (h : Takes capacity rate b b' 0) (hb : b'.level ≠ 0) :
    Takes capacity rate b ⟨b'.level - 1, b'.tick⟩ 1 := by
  obtain ⟨htick, hfull, hcovered⟩ := h
  refine ⟨htick, ?_, ?_⟩
  · simp only
    omega
  · simp only
    omega

theorem between_le_since (x y : ℕ) (log : List ℕ) : between x y log ≤ since x log :=
  List.countP_mono_left fun t _ ht => by simpa using (of_decide_eq_true ht).1

theorem since_eq_zero (h : ∀ t ∈ log, t < x) : since x log = 0 :=
  List.countP_eq_zero.mpr fun t ht => by simpa using h t ht

theorem since_replicate_append {n tick : ℕ} (h : x ≤ tick) :
    since x (List.replicate n tick ++ log) = n + since x log := by
  simp [since, List.countP_append, List.countP_replicate, h]

theorem between_replicate_append {n tick : ℕ} (h : y < tick) :
    between x y (List.replicate n tick ++ log) = between x y log := by
  have hout : ¬ (x ≤ tick ∧ tick ≤ y) := fun hin => by omega
  simp [between, List.countP_append, List.countP_replicate, hout]

theorem Metered.start (tick : ℕ) : Metered capacity rate ⟨capacity, tick⟩ [] where
  past := by simp
  level x hx := by simp [since]
  window x y hxy := by simp [between]

/-- The level before the tokens are taken. -/
theorem Metered.refilled {n : ℕ} (h : Metered capacity rate b log)
    (ht : Takes capacity rate b b' n) (hx : x ≤ b'.tick) :
    since x log + (b'.level + n) ≤ capacity + rate * (b'.tick - x) := by
  obtain ⟨htick, hfull, hcovered⟩ := ht
  by_cases hbx : x ≤ b.tick
  · have hlevel := h.level x hbx
    have hsplit : b'.tick - x = (b'.tick - b.tick) + (b.tick - x) := by omega
    rw [hsplit, Nat.mul_add]
    omega
  · have hnone := since_eq_zero (x := x) fun t hlog => lt_of_le_of_lt (h.past t hlog) (by omega)
    rw [hnone]
    omega

theorem Metered.takes {n : ℕ} (h : Metered capacity rate b log)
    (ht : Takes capacity rate b b' n) :
    Metered capacity rate b' (List.replicate n b'.tick ++ log) := by
  have hlevel : ∀ x ≤ b'.tick, since x (List.replicate n b'.tick ++ log) + b'.level ≤
      capacity + rate * (b'.tick - x) := by
    intro x hx
    have hrefilled := h.refilled ht hx
    rw [since_replicate_append hx]
    omega
  have hpast : ∀ t ∈ List.replicate n b'.tick ++ log, t ≤ b'.tick := by
    intro t hmem
    obtain hnew | hold := List.mem_append.mp hmem
    · exact (List.eq_of_mem_replicate hnew).le
    · exact (h.past t hold).trans ht.tick
  refine ⟨hpast, hlevel, ?_⟩
  intro x y hxy
  by_cases hy : y < b'.tick
  · -- the window closes before the tokens just taken
    rw [between_replicate_append hy]
    exact h.window x y hxy
  · by_cases hx : x ≤ b'.tick
    · have hin := between_le_since x y (List.replicate n b'.tick ++ log)
      have hnow := hlevel x hx
      have hmono : rate * (b'.tick - x) ≤ rate * (y - x) :=
        Nat.mul_le_mul_left rate (by omega)
      omega
    · have hnone := since_eq_zero (x := x) fun t hmem => lt_of_le_of_lt (hpast t hmem) (by omega)
      have hin := between_le_since x y (List.replicate n b'.tick ++ log)
      omega

end TokenBucket
