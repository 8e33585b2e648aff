import Mathlib.Data.List.Induction
import MoveWorkbench.Proofs.Ordered
import MoveWorkbench.Store

/-!
What a store has after any changes. A record is found under an id if the last put of the id
put it there and nothing after that deleted the id or swept the record away. The ids stand in
the order of the puts that made them present; a put of an id that is present replaces its
record and leaves it its place.
-/

namespace MoveWorkbench.Store

variable {α : Type}

theorem evicted_filter (s : Store α) (p : Atom × α → Bool) :
    s.evicted ⟨s.entries.filter p⟩ = s.entries.countP fun e => !p e := by
  have hsplit := List.length_eq_countP_add_countP p (l := s.entries)
  have hkept : (⟨s.entries.filter p⟩ : Store α).size = s.entries.countP p :=
    List.countP_eq_length_filter.symm
  have hrest : s.entries.countP (fun e => !p e) =
      s.entries.countP fun e => decide ¬ p e = true :=
    List.countP_congr fun e _ => by simp
  unfold evicted
  rw [hkept, hrest]
  unfold size
  omega

/-- The ids are those under which something is found. -/
theorem contains_ids (s : Store α) (id : Atom) : s.ids.contains id = s.contains id := by
  rw [Bool.eq_iff_iff, List.contains_iff_exists_mem_beq, contains, get?,
    ← Ordered.exists_mem_keys_iff]
  simp only [ids, BEq.comm]

theorem contains_ids_iff {s : Store α} {id : Atom} :
    s.ids.contains id = true ↔ ∃ record, s.get? id = some record := by
  rw [contains_ids]
  exact Option.isSome_iff_exists

theorem containsText_iff {s : Store α} {v : Json} :
    s.containsText v = true ↔ ∃ t, v = .text t ∧ .text t ∈ s.ids := by
  cases v with
  | text t =>
    change s.contains (.text t) = true ↔ _
    rw [← contains_ids, List.contains_iff_exists_mem_beq]
    constructor
    · intro hparts
      obtain ⟨k, hk, heq⟩ := hparts
      exact ⟨t, rfl, Atom.eq_text_of_beq (BEq.symm heq) ▸ hk⟩
    · intro hparts
      obtain ⟨t', heq, hmem⟩ := hparts
      injection heq with heq
      exact ⟨.text t, heq ▸ hmem, BEq.rfl⟩
  | _ => simp [containsText]

def Change.Puts (id : Atom) (record : α) (c : Change α) : Prop :=
  ∃ key, c = .put key record ∧ (key == id) = true

/-- Whether a record that is under an id is there no more after a change: the id is put or
deleted, or the record is swept away. -/
def Change.Ends (stamp : α → Instant) (id : Atom) (record : α) : Change α → Prop
  | .put key _ => (key == id) = true
  | .delete key => (key == id) = true
  | .sweep maxAge now => ∃ cutoff, now.before maxAge = .ok cutoff ∧ stamp record < cutoff

/-- Whether a record was put under an id by the last put of the id, and not deleted or evicted
since. -/
def LastPut (stamp : α → Instant) (changes : List (Change α)) (id : Atom) (record : α) : Prop :=
  ∃ before c after, changes = before ++ c :: after ∧ c.Puts id record ∧
    ∀ c ∈ after, ¬ c.Ends stamp id record

def Present (stamp : α → Instant) (changes : List (Change α)) (id : Atom) : Prop :=
  ∃ record, LastPut stamp changes id record

/-- Whether an id was put after the first `n` changes, when it was not present, and is present
ever since. -/
structure PresentSince (stamp : α → Instant) (changes : List (Change α)) (n : ℕ) (id : Atom) :
    Prop where
  put : ∃ record, changes[n]? = some (.put id record)
  absent : ¬ Present stamp (changes.take n) id
  present : ∀ m, n < m → Present stamp (changes.take m) id

/-- Whether a store has and answers what it should after changes. -/
structure Follows (stamp : α → Instant) (changes : List (Change α)) (s : Store α) : Prop where
  get : ∀ id record, s.get? id = some record ↔ LastPut stamp changes id record
  mem_ids : ∀ id, s.ids.contains id = true ↔ Present stamp changes id
  distinct : s.ids.Pairwise fun a b => (a == b) = false
  since : ∀ id ∈ s.ids, ∃ n, PresentSince stamp changes n id
  order : s.ids.Pairwise fun a b => ∃ m n,
    PresentSince stamp changes m a ∧ PresentSince stamp changes n b ∧ m < n
  size : s.size = s.ids.length
  contains : ∀ v, s.containsText v = true ↔ ∃ t, v = .text t ∧ .text t ∈ s.ids
  deleted : ∀ id, (s.change stamp (.delete id)).1 = .deleted (s.ids.contains id)
  swept : ∀ maxAge now, (s.change stamp (.sweep maxAge now)).1 =
    .swept ((now.before maxAge).map fun _ => s.ids.countP fun id =>
      !(s.change stamp (.sweep maxAge now)).2.ids.contains id)

variable {stamp : α → Instant} {changes : List (Change α)} {s : Store α} {id : Atom} {record : α}
  {n : ℕ} {c : Change α}

theorem not_lastPut_nil : ¬ LastPut stamp [] id record := by
  intro hparts
  obtain ⟨before, c, after, heq, -⟩ := hparts
  simp at heq

/-- The last change puts a record under an id itself, or leaves it there. -/
theorem lastPut_append : LastPut stamp (changes ++ [c]) id record ↔
    c.Puts id record ∨ LastPut stamp changes id record ∧ ¬ c.Ends stamp id record := by
  constructor
  · intro hparts
    obtain ⟨before, put, after, heq, hput, hafter⟩ := hparts
    -- the put is the last change itself, or one before it
    rcases List.eq_nil_or_concat' after with rfl | ⟨after, last, rfl⟩
    · obtain ⟨-, heq⟩ := List.append_inj' heq rfl
      injection heq with heq
      exact .inl (heq ▸ hput)
    · rw [← List.cons_append, ← List.append_assoc] at heq
      obtain ⟨rfl, hlast⟩ := List.append_inj' heq rfl
      injection hlast with hlast
      subst hlast
      exact .inr ⟨⟨before, put, after, rfl, hput,
        fun c hc => hafter c (List.mem_append_left _ hc)⟩, hafter c (by simp)⟩
  · rintro (hput | ⟨hparts, hends⟩)
    · exact ⟨changes, c, [], rfl, hput, by simp⟩
    · obtain ⟨before, put, after, rfl, hput, hafter⟩ := hparts
      refine ⟨before, put, after ++ [c], by simp, hput, fun d hd => ?_⟩
      rcases List.mem_append.mp hd with hd | hd
      · exact hafter d hd
      · rwa [List.mem_singleton.mp hd]

/-- A sweep leaves the records from the cutoff on, or fails. -/
theorem change_sweep (s : Store α) (maxAge : Span) (now : Instant) :
    s.change stamp (.sweep maxAge now) = match now.before maxAge with
      | .ok cutoff => (.swept (.ok (s.evicted (s.since stamp cutoff))), s.since stamp cutoff)
      | .error fault => (.swept (.error fault), s) := by
  simp only [change, sweep]
  cases now.before maxAge <;> rfl

theorem get?_since (h : Ordered.Distinct s.entries) (cutoff : Instant) (id : Atom) :
    (s.since stamp cutoff).get? id = (s.get? id).filter fun r => ¬ stamp r < cutoff :=
  Ordered.Distinct.get?_filter_value h (fun r => decide ¬ stamp r < cutoff) id

theorem get?_change (h : Ordered.Distinct s.entries) (c : Change α) :
    (s.change stamp c).2.get? id = some record ↔
      c.Puts id record ∨ s.get? id = some record ∧ ¬ c.Ends stamp id record := by
  cases c with
  | put key new =>
    change Ordered.get? id (Ordered.put key new s.entries) = _ ↔ _
    by_cases hkey : key == id
    · rw [← Ordered.get?_congr hkey, Ordered.get?_put_self]
      simp [Change.Puts, Change.Ends, hkey]
    · rw [Ordered.get?_put_of_ne (Bool.eq_false_iff.mpr hkey)]
      simp [Change.Puts, Change.Ends, hkey, get?]
  | delete key =>
    change Ordered.get? id (Ordered.remove key s.entries) = _ ↔ _
    rw [Ordered.get?_remove]
    by_cases hkey : key == id <;> simp [Change.Puts, Change.Ends, hkey, get?]
  | sweep maxAge now =>
    rw [change_sweep]
    cases hcutoff : now.before maxAge with
    | ok cutoff => simp [get?_since h, Change.Puts, Change.Ends, hcutoff, Option.filter_eq_some_iff]
    | error fault => simp [Change.Puts, Change.Ends, hcutoff]

theorem distinct_change (h : Ordered.Distinct s.entries) (c : Change α) :
    Ordered.Distinct (s.change stamp c).2.entries := by
  cases c with
  | put key new => exact Ordered.Distinct.put h key new
  | delete key => exact List.Pairwise.filter _ h
  | sweep maxAge now =>
    rw [change_sweep]
    cases now.before maxAge with
    | ok cutoff => exact List.Pairwise.filter _ h
    | error fault => exact h

/-- A change leaves ids where they are, but for those that it takes out, or a new one comes to
the end. -/
theorem ids_change (s : Store α) (c : Change α) : (s.change stamp c).2.ids.Sublist s.ids ∨
    ∃ id record, c = .put id record ∧ s.ids.contains id = false ∧
      (s.change stamp c).2.ids = s.ids ++ [id] := by
  cases c with
  | put key new =>
    have hids : (s.change stamp (.put key new)).2.ids = _ := ids_put s key new
    rw [hids]
    cases hthere : s.contains key with
    | true => exact .inl (List.Sublist.refl _)
    | false => exact .inr ⟨key, new, rfl, (contains_ids s key).trans hthere, rfl⟩
  | delete key => exact .inl (List.filter_sublist.map _)
  | sweep maxAge now =>
    rw [change_sweep]
    cases now.before maxAge with
    | ok cutoff => exact .inl (List.filter_sublist.map _)
    | error fault => exact .inl (List.Sublist.refl _)

theorem deleted_change (s : Store α) (id : Atom) :
    (s.change stamp (.delete id)).1 = .deleted (s.ids.contains id) :=
  congrArg Reply.deleted (contains_ids s id).symm

theorem swept_change (h : Ordered.Distinct s.entries) (maxAge : Span) (now : Instant) :
    (s.change stamp (.sweep maxAge now)).1 =
      .swept ((now.before maxAge).map fun _ => s.ids.countP fun id =>
        !(s.change stamp (.sweep maxAge now)).2.ids.contains id) := by
  rw [change_sweep]
  cases now.before maxAge with
  | error fault => rfl
  | ok cutoff =>
    have hnumber : s.evicted (s.since stamp cutoff) =
        s.ids.countP fun id => !(s.since stamp cutoff).ids.contains id := by
      refine (evicted_filter s fun e => ¬ stamp e.2 < cutoff).trans ?_
      simp only [contains_ids]
      rw [ids, Ordered.keys, List.countP_map]
      refine List.countP_congr fun e he => ?_
      have hfound : s.get? e.1 = some e.2 := Ordered.Distinct.get?_of_mem h he
      rw [Function.comp_apply, contains, get?_since h, hfound]
      by_cases hold : stamp e.2 < cutoff <;> simp [Option.filter, hold]
    exact congrArg (fun n => Reply.swept (.ok n)) hnumber

theorem PresentSince.lt (h : PresentSince stamp changes n id) : n < changes.length := by
  obtain ⟨record, hput⟩ := h.put
  exact (List.getElem?_eq_some_iff.mp hput).1

/-- An id that stays present is present since the same put. -/
theorem PresentSince.append (h : PresentSince stamp changes n id)
    (hstays : Present stamp (changes ++ [c]) id) : PresentSince stamp (changes ++ [c]) n id := by
  obtain ⟨record, hput⟩ := h.put
  have hn := h.lt
  refine ⟨⟨record, ?_⟩, ?_, fun m hm => ?_⟩
  · rwa [List.getElem?_append_left hn]
  · rw [List.take_append_of_le_length (by omega)]
    exact h.absent
  · by_cases hle : m ≤ changes.length
    · rw [List.take_append_of_le_length hle]
      exact h.present m hm
    · rwa [List.take_of_length_le (by simp only [List.length_append, List.length_singleton]; omega)]

/-- A put of an id that is not present makes it present from then on. -/
theorem presentSince_last (habsent : ¬ Present stamp changes id) :
    PresentSince stamp (changes ++ [.put id record]) changes.length id := by
  refine ⟨⟨record, by simp⟩, ?_, fun m hm => ⟨record, ?_⟩⟩
  · rwa [List.take_left]
  · rw [List.take_of_length_le (by simp only [List.length_append, List.length_singleton]; omega),
      lastPut_append]
    exact .inl ⟨id, rfl, BEq.rfl⟩

/-- What a store answers follows from what it has. -/
theorem follows_of (get : ∀ id record, s.get? id = some record ↔ LastPut stamp changes id record)
    (distinct : Ordered.Distinct s.entries)
    (since : ∀ id ∈ s.ids, ∃ n, PresentSince stamp changes n id)
    (order : s.ids.Pairwise fun a b => ∃ m n,
      PresentSince stamp changes m a ∧ PresentSince stamp changes n b ∧ m < n) :
    Follows stamp changes s where
  get := get
  mem_ids id := contains_ids_iff.trans (exists_congr (get id))
  distinct := List.pairwise_map.mpr distinct
  since := since
  order := order
  size := (List.length_map _).symm
  contains _ := containsText_iff
  deleted := deleted_change s
  swept := swept_change distinct

theorem follows_empty : Follows stamp [] empty :=
  follows_of (fun _ _ => iff_of_false (fun h => by cases h) not_lastPut_nil) List.Pairwise.nil
    (fun _ h => absurd h List.not_mem_nil) List.Pairwise.nil

theorem Follows.distinct_entries (h : Follows stamp changes s) : Ordered.Distinct s.entries :=
  List.pairwise_map.mp h.distinct

theorem Follows.get?_change (h : Follows stamp changes s) (c : Change α) (id : Atom)
    (record : α) : (s.change stamp c).2.get? id = some record ↔
      LastPut stamp (changes ++ [c]) id record := by
  rw [Store.get?_change h.distinct_entries, lastPut_append, h.get]

/-- What is there still after a change is present since the same put. -/
theorem Follows.presentSince (h : Follows stamp changes s)
    (hid : id ∈ (s.change stamp c).2.ids) (hsince : PresentSince stamp changes n id) :
    PresentSince stamp (changes ++ [c]) n id := by
  have hthere := List.contains_iff_exists_mem_beq.mpr ⟨id, hid, BEq.rfl⟩
  obtain ⟨record, hrecord⟩ := contains_ids_iff.mp hthere
  exact hsince.append ⟨record, (h.get?_change c id record).mp hrecord⟩

theorem Follows.exists_presentSince (h : Follows stamp changes s) (hid : id ∈ s.ids)
    (hthere : id ∈ (s.change stamp c).2.ids) :
    ∃ n, PresentSince stamp (changes ++ [c]) n id ∧ n < changes.length := by
  obtain ⟨n, hn⟩ := h.since id hid
  exact ⟨n, h.presentSince hthere hn, hn.lt⟩

/-- A change keeps the order of the ids that it leaves. -/
theorem Follows.order_change (h : Follows stamp changes s) {left : List Atom}
    (hleft : left.Sublist s.ids) (hthere : ∀ id ∈ left, id ∈ (s.change stamp c).2.ids) :
    left.Pairwise fun a b => ∃ m n, PresentSince stamp (changes ++ [c]) m a ∧
      PresentSince stamp (changes ++ [c]) n b ∧ m < n := by
  refine (h.order.sublist hleft).imp_of_mem ?_
  intro a b ha hb hparts
  obtain ⟨m, n, hm, hn, hlt⟩ := hparts
  exact ⟨m, n, h.presentSince (hthere a ha) hm, h.presentSince (hthere b hb) hn, hlt⟩

theorem Follows.change (h : Follows stamp changes s) (c : Change α) :
    Follows stamp (changes ++ [c]) (s.change stamp c).2 := by
  have hdistinct : Ordered.Distinct (s.change stamp c).2.entries :=
    distinct_change h.distinct_entries c
  rcases ids_change s c with hsub | ⟨key, record, rfl, habsent, hids⟩
  · refine follows_of (h.get?_change c) hdistinct (fun id hid => ?_)
      (h.order_change hsub fun _ hid => hid)
    obtain ⟨n, hn, -⟩ := h.exists_presentSince (hsub.subset hid) hid
    exact ⟨n, hn⟩
  · have hnew : PresentSince stamp (changes ++ [.put key record]) changes.length key := by
      refine presentSince_last fun hthere => ?_
      rw [(h.mem_ids key).mpr hthere] at habsent
      cases habsent
    have hold : ∀ id ∈ s.ids, id ∈ (s.change stamp (.put key record)).2.ids :=
      fun id hid => hids ▸ List.mem_append_left _ hid
    refine follows_of (h.get?_change _) hdistinct (fun id hid => ?_) ?_
    · rw [hids] at hid
      rcases List.mem_append.mp hid with hid | hid
      · obtain ⟨n, hn, -⟩ := h.exists_presentSince hid (hold id hid)
        exact ⟨n, hn⟩
      · rw [List.mem_singleton.mp hid]
        exact ⟨_, hnew⟩
    · -- the new id comes after all others, as the last change brought it
      rw [hids]
      refine List.pairwise_append.mpr ⟨h.order_change (List.Sublist.refl _) hold,
        List.pairwise_singleton _ _, fun id hid b hb => ?_⟩
      rw [List.mem_singleton.mp hb]
      obtain ⟨n, hn, hlt⟩ := h.exists_presentSince hid (hold id hid)
      exact ⟨n, _, hn, hnew, hlt⟩

/-- After any changes a store has what they tell of, in the order in which they brought it, and
answers so. -/
theorem follows_changed (stamp : α → Instant) (changes : List (Change α)) :
    Follows stamp changes (changed stamp changes) := by
  induction changes using List.reverseRecOn with
  | nil => exact follows_empty
  | append_singleton changes c ih =>
    rw [changed, List.foldl_append]
    exact ih.change c

/-- A record that is replaced keeps its place and ages anew. -/
example : (changed (fun t : Instant => t) [
    .put (.text "shop") ⟨0, by decide⟩,
    .put (.text "bank") ⟨4, by decide⟩,
    .put (.text "inn") ⟨1, by decide⟩,
    .put (.text "shop") ⟨5, by decide⟩,
    .sweep ⟨2, by decide⟩ ⟨6, by decide⟩]).entries =
      [(.text "shop", ⟨5, by decide⟩), (.text "bank", ⟨4, by decide⟩)] := by rfl

end MoveWorkbench.Store
