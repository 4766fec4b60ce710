import Mathlib.Tactic
import Mathlib.Data.List.Perm.Basic
import Mathlib.Data.List.Nodup

/-! Keys with rising counters, each in one hand: why a pair of key and counter is used once. -/
namespace Ledger

variable {κ : Type*} {limit n n' : ℕ} {k : κ} {a b c rest held held' used uses uses' : List (κ × ℕ)}

/-- `held` are the keys that can still be used, each with its next counter, and `used` the uses so
far, the newest in front. -/
structure Sound (limit : ℕ) (held used : List (κ × ℕ)) : Prop where
  single : (held.map Prod.fst).Nodup
  above : ∀ h ∈ held, ∀ u ∈ used, u.1 = h.1 → u.2 < h.2
  rising : used.Pairwise fun newer older => newer.1 = older.1 → older.2 < newer.2
  range : ∀ u ∈ used, 0 < u.2 ∧ u.2 < limit

theorem Sound.nil (limit : ℕ) : Sound limit ([] : List (κ × ℕ)) [] := by
  constructor <;> simp

theorem Sound.subperm (h : Sound limit held used) (hs : held'.Subperm held) :
    Sound limit held' used := by
  obtain ⟨l, hp, hl⟩ := hs
  refine ⟨?_, ?_, h.rising, h.range⟩
  · have := h.single.sublist (hl.map Prod.fst)
    exact (hp.map Prod.fst).nodup_iff.mp this
  · intro x hx
    exact h.above x (hl.subset (hp.symm.subset hx))

theorem Sound.nodup (h : Sound limit held used) : used.Nodup := by
  refine h.rising.imp ?_
  rintro x y hlt rfl
  exact absurd (hlt rfl) (lt_irrefl _)

/-- New keys come in, none of them seen before. -/
theorem Sound.add (h : Sound limit held used) (hn : (a.map Prod.fst).Nodup)
    (hheld : ∀ x ∈ a, ∀ y ∈ held, x.1 ≠ y.1) (hused : ∀ x ∈ a, ∀ u ∈ used, u.1 ≠ x.1) :
    Sound limit (a ++ held) used := by
  refine ⟨?_, ?_, h.rising, h.range⟩
  · rw [List.map_append, List.nodup_append]
    refine ⟨hn, h.single, ?_⟩
    intro x hx y hy
    obtain ⟨p, hp, rfl⟩ := List.mem_map.mp hx
    obtain ⟨q, hq, rfl⟩ := List.mem_map.mp hy
    exact hheld p hp q hq
  · intro x hx u hu heq
    rcases List.mem_append.mp hx with hx | hx
    · exact absurd heq (hused x hx u hu)
    · exact h.above x hx u hu heq

/-- Going from `a` to `b` by the given uses keeps every ledger sound that holds `a` besides other
keys. -/
def Spends (limit : ℕ) (a b uses : List (κ × ℕ)) : Prop :=
  ∀ rest used, Sound limit (a ++ rest) used → Sound limit (b ++ rest) (uses ++ used)

theorem Spends.refl (a : List (κ × ℕ)) : Spends limit a a [] := fun _ _ h => h

theorem Spends.trans (h : Spends limit a b uses) (h' : Spends limit b c uses') :
    Spends limit a c (uses' ++ uses) := by
  intro rest used hs
  rw [List.append_assoc]
  exact h' rest _ (h rest used hs)

theorem Spends.drop (h : b.Subperm a) : Spends limit a b [] :=
  fun _ _ hs => hs.subperm ((List.subperm_append_right _).mpr h)

theorem Spends.perm (h : Spends limit a b uses) (ha : held.Perm a) (hb : b.Perm held') :
    Spends limit held held' uses := by
  simpa using ((Spends.drop ha.symm.subperm).trans h).trans (.drop hb.symm.subperm)

theorem Spends.nil (a : List (κ × ℕ)) : Spends limit a [] [] := .drop (List.nil_subperm)

theorem Spends.frame (h : Spends limit a b uses) (rest : List (κ × ℕ)) :
    Spends limit (a ++ rest) (b ++ rest) uses := by
  intro more used hs
  rw [List.append_assoc] at hs ⊢
  exact h _ used hs

theorem Spends.frame_left (h : Spends limit a b uses) (rest : List (κ × ℕ)) :
    Spends limit (rest ++ a) (rest ++ b) uses :=
  (h.frame rest).perm List.perm_append_comm List.perm_append_comm

theorem Spends.both (h : Spends limit a b uses) (h' : Spends limit held held' uses') :
    Spends limit (a ++ held) (b ++ held') (uses' ++ uses) :=
  (h.frame _).trans (h'.frame_left _)

theorem Spends.use (h0 : 0 < n) (hl : n < limit) (hn : n < n') :
    Spends limit [(k, n)] [(k, n')] [(k, n)] := by
  intro rest used hs
  constructor
  · simpa using hs.single
  · intro x hx u hu heq
    rcases List.mem_cons.mp hu with rfl | hu
    · rcases List.mem_cons.mp hx with rfl | hx
      · exact hn
      · have hsingle := List.nodup_cons.mp hs.single
        exact absurd (List.mem_map.mpr ⟨x, hx, heq.symm⟩) hsingle.1
    · rcases List.mem_cons.mp hx with rfl | hx
      · exact (hs.above (k, n) List.mem_cons_self u hu heq).trans hn
      · exact hs.above x (List.mem_cons_of_mem _ hx) u hu heq
  · refine List.pairwise_cons.mpr ⟨?_, hs.rising⟩
    intro u hu heq
    exact hs.above (k, n) List.mem_cons_self u hu heq.symm
  · intro u hu
    rcases List.mem_cons.mp hu with rfl | hu
    · exact ⟨h0, hl⟩
    · exact hs.range u hu

theorem Spends.skip (hn : n ≤ n') : Spends limit [(k, n)] [(k, n')] [] := by
  intro rest used hs
  refine ⟨by simpa using hs.single, ?_, hs.rising, hs.range⟩
  intro x hx u hu heq
  rcases List.mem_cons.mp hx with rfl | hx
  · exact (hs.above (k, n) List.mem_cons_self u hu heq).trans_le hn
  · exact hs.above x (List.mem_cons_of_mem _ hx) u hu heq

/-- Uses are of keys that were held, and no key comes from elsewhere. -/
theorem Spends.known (h : Spends limit a b uses) (ha : (a.map Prod.fst).Nodup) :
    ∀ x ∈ b ++ uses, x.1 ∈ a.map Prod.fst := by
  intro x hx
  by_contra hk
  -- beside `a` such a key could be held by someone else, with no counter left below its next
  have hs : Sound limit (a ++ [(x.1, 0)]) [] := by
    refine ⟨?_, by simp, .nil, by simp⟩
    rw [List.map_append]
    refine List.Nodup.append ha (List.nodup_singleton _) ?_
    simpa using hk
  have hs' := h _ _ hs
  rcases List.mem_append.mp hx with hx | hx
  · have hsingle := hs'.single
    rw [List.map_append, List.nodup_append] at hsingle
    exact hsingle.2.2 x.1 (List.mem_map_of_mem hx) x.1 (by simp) rfl
  · have := hs'.above (x.1, 0) (by simp) x (by simpa using hx) rfl
    omega

section Entries

variable {α : Type*} {f : α → List (κ × ℕ)} {l : List α} {x y : α} {i : ℕ}

/-- An entry is taken out of a list whose entries hold keys each, with what the step makes of it. -/
theorem Spends.erase (hi : l[i]? = some x) (h : Spends limit (f x) b uses) :
    Spends limit (l.flatMap f) (b ++ (l.eraseIdx i).flatMap f) uses := by
  obtain ⟨hlt, rfl⟩ := List.getElem?_eq_some_iff.mp hi
  have hfront : (l.flatMap f).Perm (f l[i] ++ (l.eraseIdx i).flatMap f) := by
    simpa using ((List.getElem_cons_eraseIdx_perm hlt).flatMap_right f).symm
  exact (h.frame _).perm hfront (.refl _)

/-- An entry goes on as another one and hands keys to someone else. -/
theorem Spends.hand (hi : l[i]? = some x) (h : Spends limit (f x) (c ++ f y) uses) :
    Spends limit (l.flatMap f) (c ++ (l.set i y).flatMap f) uses := by
  obtain ⟨hlt, -⟩ := List.getElem?_eq_some_iff.mp hi
  have hback : (f y ++ (l.eraseIdx i).flatMap f).Perm ((l.set i y).flatMap f) := by
    simpa using ((List.set_perm_cons_eraseIdx hlt y).flatMap_right f).symm
  refine (Spends.erase hi h).perm (.refl _) ?_
  rw [List.append_assoc]
  exact hback.append_left c

theorem Spends.set (hi : l[i]? = some x) (h : Spends limit (f x) (f y) uses) :
    Spends limit (l.flatMap f) ((l.set i y).flatMap f) uses :=
  Spends.hand (c := []) hi h

theorem Spends.sublist {l' : List α} (h : l'.Sublist l) :
    Spends limit (l.flatMap f) (l'.flatMap f) [] :=
  .drop (h.flatMap f).subperm

end Entries

/-- A sound ledger of keys that were all granted. -/
structure Granted (limit : ℕ) (keys : List κ) (held used : List (κ × ℕ)) : Prop where
  sound : Sound limit held used
  known : ∀ x ∈ held ++ used, x.1 ∈ keys

theorem Granted.nil (limit : ℕ) : Granted limit ([] : List κ) [] [] := ⟨.nil limit, by simp⟩

variable {keys : List κ}

/-- Keys that were never granted before come in. -/
theorem Granted.grant (h : Granted limit keys held used) (hn : (a.map Prod.fst).Nodup)
    (hnew : ∀ x ∈ a, x.1 ∉ keys) : Granted limit (a.map Prod.fst ++ keys) (a ++ held) used := by
  refine ⟨h.sound.add hn ?_ ?_, ?_⟩
  · intro x hx y hy heq
    exact hnew x hx (heq ▸ h.known y (List.mem_append_left _ hy))
  · intro x hx u hu heq
    exact hnew x hx (heq ▸ h.known u (List.mem_append_right _ hu))
  · intro x hx
    rw [List.append_assoc] at hx
    rcases List.mem_append.mp hx with hx | hx
    · exact List.mem_append_left _ (List.mem_map_of_mem hx)
    · exact List.mem_append_right _ (h.known x hx)

theorem Granted.spend (h : Granted limit keys held used) (hs : Spends limit held held' uses) :
    Granted limit keys held' (uses ++ used) := by
  refine ⟨?_, ?_⟩
  · simpa using hs [] used (by simpa using h.sound)
  · intro x hx
    rw [← List.append_assoc] at hx
    rcases List.mem_append.mp hx with hx | hx
    · obtain ⟨y, hy, heq⟩ := List.mem_map.mp (hs.known h.sound.single x hx)
      exact heq ▸ h.known y (List.mem_append_left _ hy)
    · exact h.known x (List.mem_append_right _ hx)

end Ledger
