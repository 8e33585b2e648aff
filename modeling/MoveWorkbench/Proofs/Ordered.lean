import Mathlib.Data.List.Nodup
import MoveWorkbench.Ordered

/-!
Maps in order whose keys are compared by an honest equality. No key stands twice in a map
that was built by putting pairs, and pairs whose keys differ are such a map already. Of elements
with one key the first is kept, and sorting leaves elements that may stand in either order as they
came.
-/

namespace MoveWorkbench.Ordered

variable {κ α : Type} [BEq κ]

/-- A property of the values holds still after a put, if the new value has it. -/
theorem forall_mem_put {P : α → Prop} {m : List (κ × α)} (h : ∀ p ∈ m, P p.2) (k : κ) {v : α}
    (hv : P v) : ∀ p ∈ put k v m, P p.2 := by
  induction m with
  | nil => simpa [put] using hv
  | cons p m ih =>
    obtain ⟨l, w⟩ := p
    simp only [List.forall_mem_cons] at h
    by_cases hl : l == k
    · simp only [put, hl, if_true, List.forall_mem_cons]
      exact ⟨hv, h.2⟩
    · simp only [put, hl, Bool.false_eq_true, if_false, List.forall_mem_cons]
      exact ⟨h.1, ih h.2⟩

theorem exists_mem_of_get? {k : κ} {v : α} {m : List (κ × α)} (h : get? k m = some v) :
    ∃ l, (l, v) ∈ m ∧ (l == k) = true := by
  obtain ⟨p, hp, rfl⟩ := Option.map_eq_some_iff.mp h
  exact ⟨p.1, List.mem_of_find?_eq_some hp, List.find?_some (p := fun q : κ × α => q.1 == k) hp⟩

theorem get?_map {β : Type} (f : α → β) (k : κ) (m : List (κ × α)) :
    get? k (m.map fun e => (e.1, f e.2)) = (get? k m).map f := by
  induction m with
  | nil => rfl
  | cons q m ih =>
    obtain ⟨l, w⟩ := q
    rw [List.map_cons, get?_cons, get?_cons, ih]
    split <;> rfl

/-- Keys that are equal are found at the same place. -/
theorem get?_congr [EquivBEq κ] {k l : κ} (h : (k == l) = true) (m : List (κ × α)) :
    get? k m = get? l m := by
  induction m with
  | nil => rfl
  | cons p m ih =>
    obtain ⟨j, w⟩ := p
    rw [get?_cons, get?_cons, BEq.congr_right h, ih]

/-- What is in a map after a put was there before, or is the new value. -/
theorem mem_put [ReflBEq κ] {k : κ} {v : α} {p : κ × α} {m : List (κ × α)}
    (h : p ∈ put k v m) : p ∈ m ∨ (p.1 == k) = true ∧ p.2 = v := by
  induction m with
  | nil =>
    rw [put, List.mem_singleton] at h
    subst h
    exact .inr ⟨BEq.rfl, rfl⟩
  | cons q m ih =>
    obtain ⟨l, w⟩ := q
    by_cases hl : l == k
    · simp only [put, hl, if_true, List.mem_cons] at h
      rcases h with rfl | h
      · exact .inr ⟨hl, rfl⟩
      · exact .inl (List.mem_cons_of_mem _ h)
    · simp only [put, hl, Bool.false_eq_true, if_false, List.mem_cons] at h
      rcases h with rfl | h
      · exact .inl (List.mem_cons_self ..)
      · exact (ih h).imp (List.mem_cons_of_mem _) id

/-- To put what is there already changes nothing. -/
theorem put_of_get? {k : κ} {v : α} {m : List (κ × α)} (h : get? k m = some v) :
    put k v m = m := by
  induction m with
  | nil => cases h
  | cons q m ih =>
    obtain ⟨l, w⟩ := q
    rw [get?_cons] at h
    by_cases hl : l == k
    · simp only [hl, if_true, Option.some.injEq] at h
      simp [put, hl, h]
    · simp only [hl, Bool.false_eq_true, if_false] at h
      simp [put, hl, ih h]

/-- A pair with a new key goes to the end. -/
theorem put_of_get?_eq_none {k : κ} {m : List (κ × α)} (h : get? k m = none) (v : α) :
    put k v m = m ++ [(k, v)] := by
  induction m with
  | nil => rfl
  | cons q m ih =>
    obtain ⟨l, w⟩ := q
    rw [get?_cons] at h
    by_cases hl : l == k
    · simp [hl] at h
    · simp only [hl, Bool.false_eq_true, if_false] at h
      simp [put, hl, ih h]

/-- Values of different keys that are there may be replaced in either order. -/
theorem put_comm [EquivBEq κ] {k l : κ} (hkl : (k == l) = false) {m : List (κ × α)}
    (hk : (get? k m).isSome = true) (hl : (get? l m).isSome = true) (v w : α) :
    put k v (put l w m) = put l w (put k v m) := by
  induction m with
  | nil => cases hk
  | cons q m ih =>
    obtain ⟨j, u⟩ := q
    rw [get?_cons] at hk hl
    by_cases hjk : j == k
    · have hjl : (j == l) = false := by rw [BEq.congr_left hjk, hkl]
      simp [put, hjk, hjl]
    · by_cases hjl : j == l
      · simp [put, hjk, hjl]
      · rw [if_neg hjk] at hk
        rw [if_neg hjl] at hl
        simp [put, hjk, hjl, ih hk hl]

/-- What is removed is found no more, and all else as before. -/
theorem get?_remove [EquivBEq κ] (k l : κ) (m : List (κ × α)) :
    get? l (remove k m) = if k == l then none else get? l m := by
  induction m with
  | nil => simp [remove]
  | cons q m ih =>
    obtain ⟨j, w⟩ := q
    rw [remove] at ih ⊢
    rw [get?_cons, List.filter_cons]
    by_cases hj : j == k
    · have hkey : (j == l) = (k == l) := BEq.congr_left hj
      by_cases hl : k == l <;> simp [hj, hkey, hl, ih]
    · by_cases hl : j == l
      · have hkey : (k == l) = false := by
          rw [← BEq.congr_right hl, BEq.comm]
          exact Bool.eq_false_iff.mpr hj
        simp [hj, get?_cons, hl, hkey]
      · simp [hj, get?_cons, hl, ih]

/-- A key is found if one that equals it is there. -/
theorem exists_mem_keys_iff {k : κ} {m : List (κ × α)} :
    (∃ l ∈ keys m, (l == k) = true) ↔ (get? k m).isSome = true := by
  induction m with
  | nil => simp [keys]
  | cons q m ih =>
    obtain ⟨l, w⟩ := q
    rw [get?_cons]
    by_cases hl : l == k
    · simp [keys, hl]
    · rw [if_neg hl, ← ih, keys, List.map_cons, List.exists_mem_cons_iff]
      simp [hl, keys]

def Distinct (m : List (κ × α)) : Prop := m.Pairwise fun p q => (p.1 == q.1) = false

/-- In a map of distinct keys, a put replaces the one value of its key. -/
theorem Distinct.mem_put [EquivBEq κ] {k : κ} {v : α} {p : κ × α} {m : List (κ × α)}
    (h : Distinct m) (hp : p ∈ put k v m) :
    p ∈ m ∧ (p.1 == k) = false ∨ (p.1 == k) = true ∧ p.2 = v := by
  induction m with
  | nil =>
    rw [put, List.mem_singleton] at hp
    subst hp
    exact .inr ⟨BEq.rfl, rfl⟩
  | cons q m ih =>
    obtain ⟨l, w⟩ := q
    obtain ⟨hl, hm⟩ := List.pairwise_cons.mp h
    by_cases hkey : l == k
    · simp only [put, hkey, if_true, List.mem_cons] at hp
      rcases hp with rfl | hp
      · exact .inr ⟨hkey, rfl⟩
      · refine .inl ⟨List.mem_cons_of_mem _ hp, ?_⟩
        rw [← BEq.congr_right hkey, BEq.comm]
        exact hl p hp
    · simp only [put, hkey, Bool.false_eq_true, if_false, List.mem_cons] at hp
      rcases hp with rfl | hp
      · exact .inl ⟨List.mem_cons_self .., Bool.eq_false_iff.mpr hkey⟩
      · exact (ih hm hp).imp (And.imp_left (List.mem_cons_of_mem _)) id

theorem Distinct.put [EquivBEq κ] {m : List (κ × α)} (h : Distinct m) (k : κ) (v : α) :
    Distinct (put k v m) := by
  induction m with
  | nil => exact List.pairwise_singleton _ _
  | cons q m ih =>
    obtain ⟨l, w⟩ := q
    obtain ⟨hl, hm⟩ := List.pairwise_cons.mp h
    by_cases hkey : l == k
    · simp only [Ordered.put, hkey, if_true]
      exact List.pairwise_cons.mpr ⟨hl, hm⟩
    · simp only [Ordered.put, hkey, Bool.false_eq_true, if_false]
      refine List.pairwise_cons.mpr ⟨fun p hp => ?_, ih hm⟩
      rcases Distinct.mem_put hm hp with ⟨hp, -⟩ | ⟨hk, -⟩
      · exact hl p hp
      · dsimp only
        rw [BEq.congr_right hk]
        exact Bool.eq_false_iff.mpr hkey

/-- What is in a map of distinct keys is found. -/
theorem Distinct.get?_of_mem [EquivBEq κ] {k : κ} {v : α} {m : List (κ × α)} (h : Distinct m)
    (hmem : (k, v) ∈ m) : get? k m = some v := by
  induction m with
  | nil => cases hmem
  | cons q m ih =>
    obtain ⟨l, w⟩ := q
    obtain ⟨hl, hm⟩ := List.pairwise_cons.mp h
    rw [get?_cons]
    rcases List.mem_cons.mp hmem with heq | hmem
    · injection heq with hk hv
      simp [hk, hv]
    · rw [hl (k, v) hmem]
      exact ih hm hmem

/-- To change all values after a put is to put among changed values, where the values of other keys
are changed alike. -/
theorem Distinct.map_put {β : Type} [EquivBEq κ] {m : List (κ × α)} (h : Distinct m) {f g : α → β}
    {k : κ} (hfg : ∀ e ∈ m, (e.1 == k) = false → g e.2 = f e.2) (v : α) :
    (Ordered.put k v m).map (fun e => (e.1, g e.2)) =
      Ordered.put k (g v) (m.map fun e => (e.1, f e.2)) := by
  induction m with
  | nil => rfl
  | cons q m ih =>
    obtain ⟨l, w⟩ := q
    obtain ⟨hl, hm⟩ := List.pairwise_cons.mp h
    obtain ⟨hw, hrest⟩ := List.forall_mem_cons.mp hfg
    by_cases hkey : l == k
    · have hsame : m.map (fun e => (e.1, g e.2)) = m.map fun e => (e.1, f e.2) := by
        refine List.map_congr_left fun e he => ?_
        have hne : (e.1 == k) = false := by
          rw [← BEq.congr_right hkey, BEq.comm]
          exact hl e he
        rw [hrest e he hne]
      simp [Ordered.put, hkey, hsame]
    · simp [Ordered.put, hkey, hw (Bool.eq_false_iff.mpr hkey), ih hm hrest]

/-- Leaving out pairs by their values hides just the keys of these pairs. -/
theorem Distinct.get?_filter_value [EquivBEq κ] {m : List (κ × α)} (h : Distinct m)
    (p : α → Bool) (k : κ) : get? k (m.filter fun q => p q.2) = (get? k m).filter p := by
  induction m with
  | nil => rfl
  | cons q m ih =>
    obtain ⟨l, w⟩ := q
    obtain ⟨hl, hm⟩ := List.pairwise_cons.mp h
    rw [List.filter_cons, get?_cons]
    by_cases hk : l == k
    · have hrest : get? k m = none := by
        rw [← Option.not_isSome_iff_eq_none, ← exists_mem_keys_iff]
        intro hparts
        obtain ⟨j, hj, hjk⟩ := hparts
        obtain ⟨e, he, rfl⟩ := List.mem_map.mp hj
        have hne := hl e he
        rw [BEq.congr_left hk, BEq.comm, hjk] at hne
        cases hne
      by_cases hp : p w <;> simp [hp, get?_cons, hk, ih hm, hrest, Option.filter]
    · by_cases hp : p w <;> simp [hp, get?_cons, hk, ih hm]

variable [LawfulBEq κ]

/-- Leaving out pairs by their keys hides just the values of these keys. -/
theorem get?_filter_key (p : κ → Bool) (k : κ) (m : List (κ × α)) :
    get? k (m.filter fun q => p q.1) = if p k then get? k m else none := by
  induction m with
  | nil => simp
  | cons q m ih =>
    obtain ⟨l, w⟩ := q
    by_cases hl : l == k
    · obtain rfl := eq_of_beq hl
      by_cases hp : p l <;> simp [get?_cons, hp, ih]
    · by_cases hp : p l <;> simp [get?_cons, hp, hl, ih]

theorem put_of_not_mem {k : κ} {m : List (κ × α)} (h : k ∉ keys m) (v : α) :
    put k v m = m ++ [(k, v)] := by
  refine put_of_get?_eq_none ?_ v
  rwa [mem_keys_iff, Option.not_isSome_iff_eq_none] at h

theorem nodup_keys_put {m : List (κ × α)} (h : (keys m).Nodup) (k : κ) (v : α) :
    (keys (put k v m)).Nodup := by
  rw [keys_put]
  split
  · exact h
  · rename_i hnone
    have hk : k ∉ keys m := fun hmem => hnone (mem_keys_iff.mp hmem)
    exact h.append (List.nodup_singleton k) (by simpa using hk)

private theorem foldl_put_of_nodup (m pairs : List (κ × α)) (h : (keys (m ++ pairs)).Nodup) :
    pairs.foldl (fun m p => put p.1 p.2 m) m = m ++ pairs := by
  induction pairs generalizing m with
  | nil => simp
  | cons p pairs ih =>
    obtain ⟨k, v⟩ := p
    have hk : k ∉ keys m := by
      simp only [keys, List.map_append, List.map_cons] at h
      intro hmem
      exact (List.nodup_append.mp h).2.2 k hmem k (List.mem_cons_self ..) rfl
    rw [List.foldl_cons, put_of_not_mem hk, ih (m ++ [(k, v)]) (by simpa using h)]
    simp

/-- Pairs whose keys differ are a map. -/
theorem ofList_of_nodup {pairs : List (κ × α)} (h : (keys pairs).Nodup) :
    ofList pairs = pairs :=
  foldl_put_of_nodup [] pairs h

/-- No key stands twice in a map, and its values have what all values had. -/
theorem ofList_spec {P : α → Prop} {pairs : List (κ × α)} (h : ∀ p ∈ pairs, P p.2) :
    (keys (ofList pairs)).Nodup ∧ ∀ p ∈ ofList pairs, P p.2 := by
  have fold : ∀ m : List (κ × α), (keys m).Nodup ∧ (∀ p ∈ m, P p.2) →
      (keys (pairs.foldl (fun m p => put p.1 p.2 m) m)).Nodup ∧
        ∀ p ∈ pairs.foldl (fun m p => put p.1 p.2 m) m, P p.2 := by
    induction pairs with
    | nil => exact fun m hm => hm
    | cons p pairs ih =>
      intro m hm
      simp only [List.forall_mem_cons] at h
      exact ih h.2 (put p.1 p.2 m) ⟨nodup_keys_put hm.1 _ _, forall_mem_put hm.2 _ h.1⟩
  exact fold [] ⟨List.nodup_nil, by simp⟩

section Distinct

variable {κ α β : Type} [DecidableEq κ] {key : α → κ} {seen : List κ} {as : List α} {a b : α}

/-- Elements whose keys differ are all kept. -/
theorem distinctBy_of_nodup (h : (as.map key).Nodup) (hseen : ∀ a ∈ as, key a ∉ seen) :
    distinctBy key seen as = as := by
  induction as generalizing seen with
  | nil => rfl
  | cons a as ih =>
    rw [List.map_cons, List.nodup_cons] at h
    have ha : key a ∉ seen := hseen a (List.mem_cons_self ..)
    rw [distinctBy, if_neg ha, ih h.2]
    intro b hb
    rw [List.mem_cons, not_or]
    refine ⟨fun heq => h.1 ?_, hseen b (List.mem_cons_of_mem a hb)⟩
    rw [← heq]
    exact List.mem_map_of_mem hb

theorem map_distinctBy (f : β → α) (bs : List β) :
    (distinctBy (fun b => key (f b)) seen bs).map f = distinctBy key seen (bs.map f) := by
  induction bs generalizing seen with
  | nil => rfl
  | cons b bs ih =>
    simp only [distinctBy, List.map_cons]
    split
    · exact ih
    · rw [List.map_cons, ih]

/-- What is kept comes before all other elements with its key. -/
theorem eq_or_of_mem_distinctBy {R : α → α → Prop} (h : as.Pairwise R)
    (ha : a ∈ distinctBy key seen as) (hb : b ∈ as) (hkey : key b = key a) : b = a ∨ R a b := by
  induction as generalizing seen with
  | nil => exact absurd hb List.not_mem_nil
  | cons c as ih =>
    obtain ⟨hc, hpair⟩ := List.pairwise_cons.mp h
    have hfresh {seen : List κ} (ha : a ∈ distinctBy key seen as) (hb : b = c)
        (hseen : key c ∈ seen) : b = a ∨ R a b := by
      have hnew := (mem_map_distinctBy.mp (List.mem_map_of_mem (f := key) ha)).2
      rw [← hkey, hb] at hnew
      exact absurd hseen hnew
    rw [distinctBy] at ha
    split at ha
    · rename_i hseen
      rcases List.mem_cons.mp hb with hb | hb
      · exact hfresh ha hb hseen
      · exact ih hpair ha hb
    · rcases List.mem_cons.mp ha with rfl | ha
      · rcases List.mem_cons.mp hb with rfl | hb
        · exact .inl rfl
        · exact .inr (hc b hb)
      · rcases List.mem_cons.mp hb with hb | hb
        · exact hfresh ha hb List.mem_cons_self
        · exact ih hpair ha hb

end Distinct

section Sorted

variable {α : Type} {le : α → α → Bool} {as : List α}

/-- Elements that may stand in either order keep the order in which they came. -/
theorem pairwise_mergeSort_of_pairwise {R : α → α → Prop}
    (trans : ∀ a b c, le a b = true → le b c = true → le a c = true)
    (total : ∀ a b, (le a b || le b a) = true) (h : as.Pairwise R) :
    (as.mergeSort le).Pairwise fun a b => le b a = true → R a b := by
  rw [List.pairwise_iff_forall_sublist]
  intro a b hab hba
  have hle : le a b = true :=
    List.pairwise_iff_forall_sublist.mp (List.pairwise_mergeSort trans total as) hab
  have hrefl : le a a = true := by simpa using total a a
  -- the elements that may stand on either side of `a`
  let tied : α → Bool := fun c => le a c && le c a
  have htied : (as.filter tied).Pairwise (fun c d => le c d = true) := by
    refine List.pairwise_of_forall_mem_list fun c hc d hd => ?_
    have hc' := List.of_mem_filter hc
    have hd' := List.of_mem_filter hd
    simp only [tied, Bool.and_eq_true] at hc' hd'
    exact trans c a d hc'.2 hd'.1
  have hsub : (as.filter tied).Sublist ((as.mergeSort le).filter tied) := by
    have hkept := (List.sublist_mergeSort trans total htied List.filter_sublist).filter tied
    rwa [List.filter_filter, funext fun c => Bool.and_self (tied c)] at hkept
  have hsame : as.filter tied = (as.mergeSort le).filter tied :=
    hsub.eq_of_length ((List.mergeSort_perm as le).filter tied).length_eq.symm
  have hpair : [a, b].filter tied = [a, b] := by simp [tied, hrefl, hle, hba]
  have hstill := hab.filter tied
  rw [hpair, ← hsame] at hstill
  exact List.pairwise_iff_forall_sublist.mp h (hstill.trans List.filter_sublist)

end Sorted

end MoveWorkbench.Ordered
