import Mathlib.Data.List.Basic

set_option autoImplicit false

/-! # Collecting the first of each key

A reader goes over a list once, remembers the keys it has seen and makes something of each element
whose key is new. Looking at an element and making something of it may fail, and then the whole run
does. `collect_mem` says what a run collects, `collect_runs` when there is one. -/

namespace Pmb887x.Library

variable {α κ β : Type} [DecidableEq κ] (key : α → Option (Option κ)) (make : α → Option β)

/-- One element. `key a` is `none` where looking at it fails and `some none` where it is passed
over; the state is the keys seen and what was made so far. -/
def collectStep (st : List κ × List β) (a : α) : Option (List κ × List β) :=
  (key a).bind fun found =>
    match found with
    | none => some st
    | some k => if k ∈ st.1 then some st else (make a).map fun b => (k :: st.1, st.2 ++ [b])

/-- The first element with the key `k`. -/
def firstWith (l : List α) (k : κ) : Option α := l.find? fun a => key a = some (some k)

variable {key make}

theorem firstWith_cons_of_key {a : α} {k : κ} (l : List α) (h : key a = some (some k)) :
    firstWith key (a :: l) k = some a := List.find?_cons_of_pos (by simpa using h)

theorem firstWith_cons_of_ne {a : α} {k : κ} (l : List α) (h : key a ≠ some (some k)) :
    firstWith key (a :: l) k = firstWith key l k := List.find?_cons_of_neg (by simpa using h)

theorem firstWith_key {l : List α} {k : κ} {a : α} (h : firstWith key l k = some a) :
    a ∈ l ∧ key a = some (some k) :=
  ⟨List.mem_of_find?_eq_some h, by simpa using List.find?_some h⟩

/-- The first element with a key in a list that is made of another one. -/
theorem firstWith_map {γ : Type} {f : γ → α} {p : γ → Bool} {l : List γ} {k : κ}
    (h : ∀ c ∈ l, key (f c) = some (some k) ↔ p c = true) : firstWith key (l.map f) k = (l.find? p).map f := by
  induction l with
  | nil => rfl
  | cons c l ih =>
      have hrest := ih fun c' hc' => h c' (List.mem_cons_of_mem c hc')
      have hhere := h c List.mem_cons_self
      rw [List.map_cons]
      by_cases hkey : key (f c) = some (some k)
      · rw [firstWith_cons_of_key _ hkey, List.find?_cons_of_pos (hhere.mp hkey)]
        rfl
      · rw [firstWith_cons_of_ne _ hkey, hrest, List.find?_cons_of_neg fun hp => hkey (hhere.mpr hp)]

/-- What comes behind an element whose key was seen before, or that has none. -/
theorem firstWith_cons_skip {a : α} {found : Option κ} {seen : List κ} (l : List α)
    (ha : key a = some found) (hseen : ∀ k, found = some k → k ∈ seen) {k : κ} (hk : k ∉ seen) :
    firstWith key (a :: l) k = firstWith key l k := by
  refine firstWith_cons_of_ne l fun h => hk (hseen k ?_)
  rw [ha] at h
  exact Option.some.inj h

/-- The three ways a step goes on. -/
theorem collectStep_cases {st st' : List κ × List β} {a : α}
    (h : collectStep key make st a = some st') :
    (∃ found, key a = some found ∧ (∀ k, found = some k → k ∈ st.1) ∧ st' = st) ∨
      ∃ k b, key a = some (some k) ∧ k ∉ st.1 ∧ make a = some b ∧
        st' = (k :: st.1, st.2 ++ [b]) := by
  unfold collectStep at h
  cases ha : key a with
  | none =>
      rw [ha] at h
      cases h
  | some found =>
      rw [ha] at h
      cases found with
      | none => exact .inl ⟨none, rfl, by simp, by simpa using h.symm⟩
      | some k =>
          by_cases hk : k ∈ st.1
          · exact .inl ⟨some k, rfl, fun k' hk' => by rwa [← Option.some.inj hk'],
              by simpa [hk] using h.symm⟩
          · simp only [Option.bind_some, hk, if_false, Option.map_eq_some_iff] at h
            obtain ⟨b, hb, rfl⟩ := h
            exact .inr ⟨k, b, rfl, hk, hb, rfl⟩

/-- **What a run collects**: of each new key, what was made of its first element. -/
theorem collect_mem {l : List α} {st st' : List κ × List β}
    (h : l.foldlM (collectStep key make) st = some st') (b : β) :
    b ∈ st'.2 ↔ b ∈ st.2 ∨ ∃ k, k ∉ st.1 ∧ ∃ a, firstWith key l k = some a ∧ make a = some b := by
  induction l generalizing st with
  | nil =>
      rw [List.foldlM_nil] at h
      cases h
      simp [firstWith]
  | cons a l ih =>
      rw [List.foldlM_cons, Option.bind_eq_bind, Option.bind_eq_some_iff] at h
      obtain ⟨st₁, hstep, hrest⟩ := h
      rw [ih hrest]
      rcases collectStep_cases hstep with ⟨found, ha, hseen, rfl⟩ | ⟨k₀, b₀, ha, hk₀, hb₀, rfl⟩
      · refine or_congr_right (exists_congr fun k => and_congr_right fun hk => ?_)
        rw [firstWith_cons_skip l ha hseen hk]
      · constructor
        · rintro (hb | ⟨k, hk, x, hx, hxb⟩)
          · rcases List.mem_append.1 hb with hb | hb
            · exact .inl hb
            · obtain rfl := List.mem_singleton.1 hb
              exact .inr ⟨k₀, hk₀, a, firstWith_cons_of_key l ha, hb₀⟩
          · rw [List.mem_cons, not_or] at hk
            refine .inr ⟨k, hk.2, x, ?_, hxb⟩
            rw [firstWith_cons_of_ne l (fun h => hk.1 ?_), hx]
            rw [ha] at h
            exact (Option.some.inj (Option.some.inj h)).symm
        · rintro (hb | ⟨k, hk, x, hx, hxb⟩)
          · exact .inl (List.mem_append_left _ hb)
          · by_cases hkk : k = k₀
            · subst hkk
              rw [firstWith_cons_of_key l ha] at hx
              cases hx
              rw [hb₀] at hxb
              cases hxb
              exact .inl (List.mem_append_right _ (List.mem_singleton_self _))
            · rw [firstWith_cons_of_ne l (fun h => hkk ?_)] at hx
              · exact .inr ⟨k, List.not_mem_cons_of_ne_of_not_mem hkk hk, x, hx, hxb⟩
              · rw [ha] at h
                exact (Option.some.inj (Option.some.inj h)).symm

/-- A run has looked at every element and made something of the first element of each new key. -/
theorem collect_reads {l : List α} {st st' : List κ × List β}
    (h : l.foldlM (collectStep key make) st = some st') :
    (∀ a ∈ l, key a ≠ none) ∧
      ∀ k, k ∉ st.1 → ∀ a, firstWith key l k = some a → make a ≠ none := by
  induction l generalizing st with
  | nil => exact ⟨by simp, by simp [firstWith]⟩
  | cons a l ih =>
      rw [List.foldlM_cons, Option.bind_eq_bind, Option.bind_eq_some_iff] at h
      obtain ⟨st₁, hstep, hrest⟩ := h
      obtain ⟨hkeys, hmakes⟩ := ih hrest
      rcases collectStep_cases hstep with ⟨found, ha, hseen, rfl⟩ | ⟨k₀, b₀, ha, hk₀, hb₀, rfl⟩
      · refine ⟨List.forall_mem_cons.2 ⟨by rw [ha]; simp, hkeys⟩, fun k hk x hx => ?_⟩
        rw [firstWith_cons_skip l ha hseen hk] at hx
        exact hmakes k hk x hx
      · refine ⟨List.forall_mem_cons.2 ⟨by rw [ha]; simp, hkeys⟩, fun k hk x hx => ?_⟩
        by_cases hkk : k = k₀
        · subst hkk
          rw [firstWith_cons_of_key l ha] at hx
          cases hx
          rw [hb₀]
          simp
        · rw [firstWith_cons_of_ne l (fun h => hkk ?_)] at hx
          · exact hmakes k (List.not_mem_cons_of_ne_of_not_mem hkk hk) x hx
          · rw [ha] at h
            exact (Option.some.inj (Option.some.inj h)).symm

/-- **When there is a run**: every element can be looked at, and something can be made of the first
element of each new key. -/
theorem collect_runs {l : List α} {st : List κ × List β} (hkey : ∀ a ∈ l, key a ≠ none)
    (hmake : ∀ k, k ∉ st.1 → ∀ a, firstWith key l k = some a → make a ≠ none) :
    ∃ st', l.foldlM (collectStep key make) st = some st' := by
  induction l generalizing st with
  | nil => exact ⟨st, rfl⟩
  | cons a l ih =>
      obtain ⟨found, ha⟩ := Option.ne_none_iff_exists'.1 (hkey a List.mem_cons_self)
      have hkey' : ∀ x ∈ l, key x ≠ none := fun x hx => hkey x (List.mem_cons_of_mem _ hx)
      -- an element that is passed over leaves the state alone
      have hskip : (∀ k, found = some k → k ∈ st.1) → collectStep key make st a = some st →
          ∃ st', (a :: l).foldlM (collectStep key make) st = some st' := by
        intro hseen hstep
        rw [List.foldlM_cons, hstep]
        refine ih hkey' fun k hk x hx => hmake k hk x ?_
        rw [firstWith_cons_skip l ha hseen hk, hx]
      cases found with
      | none => exact hskip (by simp) (by simp [collectStep, ha])
      | some k₀ =>
          by_cases hk₀ : k₀ ∈ st.1
          · exact hskip (fun k hk => by rwa [← Option.some.inj hk]) (by simp [collectStep, ha, hk₀])
          · obtain ⟨b, hb⟩ := Option.ne_none_iff_exists'.1
              (hmake k₀ hk₀ a (firstWith_cons_of_key l ha))
            have hstep : collectStep key make st a = some (k₀ :: st.1, st.2 ++ [b]) := by
              simp [collectStep, ha, hk₀, hb]
            rw [List.foldlM_cons, hstep]
            refine ih hkey' fun k hk x hx => ?_
            rw [List.mem_cons, not_or] at hk
            refine hmake k hk.2 x ?_
            rw [firstWith_cons_of_ne l (fun h => hk.1 ?_), hx]
            rw [ha] at h
            exact (Option.some.inj (Option.some.inj h)).symm

end Pmb887x.Library
