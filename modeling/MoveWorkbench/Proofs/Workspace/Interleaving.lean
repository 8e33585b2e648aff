import MoveWorkbench.Proofs.Workspace.Studio

/-!
Edits of different designs commute. What an edit answers, and what it leaves in the place of the
design that it is about, depends on that design and on the clock alone, also when it fails on the
way. So two clients that work on different designs do not notice each other: however their orders
are interleaved, each of them is answered the same, and the same is left by value. Designs have to
own their objects for this.
-/

namespace MoveWorkbench

/-- Whether a call edits a stored design and draws no id for that. -/
def Call.edits : Call → Bool
  | updateDesign _ _ | updateComponent _ _ _ | removeComponent _ _ | addConnection _ _ _
  | removeConnection _ _ _ => true
  | createDesign _ _ | addComponent _ _ | importDesign _ => false

namespace Order

variable {σ : Type}

def edits : Order σ → Bool
  | call c => c.edits
  | updateWith _ _ _ => true

def Apart (o o' : Order σ) : Prop := ∀ a ∈ o.target?, ∀ b ∈ o'.target?, (a == b) = false

instance (o o' : Order σ) : Decidable (o.Apart o') :=
  inferInstanceAs (Decidable (∀ a ∈ o.target?, ∀ b ∈ o'.target?, (a == b) = false))

theorem Apart.symm {o o' : Order σ} (h : o.Apart o') : o'.Apart o := by
  intro b hb a ha
  rw [BEq.comm]
  exact h a ha b hb

@[simp] theorem edits_seen (heap : Heap) (o : Order Handed) : (o.seen heap).edits = o.edits := by
  cases o <;> rfl

end Order

namespace Workspace

variable {w : Workspace} {a b : Atom} {o o' : Order Component.Supply}

/-- What an edit answers at a time about a design that is stored or not, and the record that it
leaves in its place. -/
def reaction (now : Except Fault Instant) (f : Design → Edited) :
    Option StoredDesign → Except Failure (Option StoredDesign) × Option StoredDesign
  | none => (.ok none, none)
  | some r =>
    match f r.design, now with
    | .missing, _ => (.ok none, none)
    | .stopped fault d, _ => (.error (.fault fault), some { r with design := d })
    | .done d, .error fault => (.error (.fault fault), some { r with design := d })
    | .done d, .ok t =>
      let r := { r with design := d, updatedAt := t }
      (.ok (some r), some r)

def leaving (w : Workspace) : Option StoredDesign → Workspace
  | none => w
  | some r => w.putDesign r

theorem edit_eq (w : Workspace) (a : Atom) (f : Design → Edited) :
    w.edit a f =
      ((reaction w.now f (w.design? a)).1, w.leaving (reaction w.now f (w.design? a)).2) := by
  unfold edit
  cases w.design? a with
  | none => rfl
  | some r =>
    simp only [settle, reaction]
    cases f r.design with
    | missing => rfl
    | stopped fault d => rfl
    | done d => cases w.now <;> rfl

/-- What is left has the id of what was there. -/
theorem exists_of_reaction {now : Except Fault Instant} {f : Design → Edited}
    {found : Option StoredDesign} {r' : StoredDesign} (h : (reaction now f found).2 = some r') :
    ∃ r, found = some r ∧ r'.id = r.id := by
  cases found with
  | none => cases h
  | some r =>
    simp only [reaction] at h
    split at h
    · cases h
    · cases h
      exact ⟨r, rfl, rfl⟩
    · cases h
      exact ⟨r, rfl, rfl⟩
    · cases h
      exact ⟨r, rfl, rfl⟩

@[simp] theorem now_leaving (w : Workspace) (left : Option StoredDesign) :
    (w.leaving left).now = w.now := by
  cases left <;> rfl

/-- What an edit leaves is filed where it found what it edits. -/
theorem Filed.beq_of_reaction (h : w.Filed) {f : Design → Edited} {r : StoredDesign}
    (hr : (reaction w.now f (w.design? a)).2 = some r) : (Atom.text r.id == a) = true := by
  obtain ⟨old, hold, hid⟩ := exists_of_reaction hr
  rw [hid]
  exact (h.mem_of_design? hold).2

theorem Filed.isSome_of_reaction (h : w.Filed) {f : Design → Edited} {r : StoredDesign}
    (hr : (reaction w.now f (w.design? a)).2 = some r) :
    (Ordered.get? (.text r.id) w.designs.entries).isSome = true := by
  obtain ⟨old, hold, -⟩ := exists_of_reaction hr
  rw [Ordered.get?_congr (h.beq_of_reaction hr)]
  exact Option.isSome_of_eq_some hold

theorem Filed.design?_leaving (h : w.Filed) {f : Design → Edited} (hab : (a == b) = false) :
    (w.leaving (reaction w.now f (w.design? a)).2).design? b = w.design? b := by
  cases hr : (reaction w.now f (w.design? a)).2 with
  | none => rfl
  | some r =>
    have hkey := h.beq_of_reaction hr
    change (w.putDesign r).design? b = w.design? b
    rw [design?_putDesign, BEq.congr_left hkey, hab]
    rfl

/-- What edits leave in the places of two designs may be put there in either order. -/
theorem Filed.leaving_comm (h : w.Filed) {f g : Design → Edited} (hab : (a == b) = false) :
    let left := (reaction w.now f (w.design? a)).2
    let right := (reaction w.now g (w.design? b)).2
    (w.leaving right).leaving left = (w.leaving left).leaving right := by
  intro left right
  cases hleft : left with
  | none => rfl
  | some r =>
    cases hright : right with
    | none => rfl
    | some s =>
      have hrs : (Atom.text r.id == .text s.id) = false := by
        rw [BEq.congr_left (h.beq_of_reaction hleft), BEq.congr_right (h.beq_of_reaction hright),
          hab]
      have hput := Ordered.put_comm hrs (h.isSome_of_reaction hleft) (h.isSome_of_reaction hright)
        r s
      exact congrArg (fun entries => { w with designs := ⟨entries⟩ }) hput

/-- Edits of different designs answer the same in either order, and leave the same. -/
theorem Filed.edit_comm (h : w.Filed) (f g : Design → Edited) (hab : (a == b) = false) :
    ((w.edit b g).2.edit a f).1 = (w.edit a f).1 ∧
      ((w.edit b g).2.edit a f).2 = ((w.edit a f).2.edit b g).2 := by
  have hba : (b == a) = false := by rw [BEq.comm, hab]
  simp only [edit_eq, now_leaving, h.design?_leaving hab, h.design?_leaving hba, true_and]
  exact h.leaving_comm hab

theorem Filed.of_edit (h : w.Filed) (a : Atom) (f : Design → Edited) : (w.edit a f).2.Filed := by
  rw [edit_eq]
  cases (reaction w.now f (w.design? a)).2 with
  | none => exact h
  | some r => exact h.of_putDesign r

/-- An order that edits is answered at once for want of an id, or is an edit under one. -/
theorem obey_cases (ho : o.edits = true) :
    (∃ answer, ∀ w : Workspace, w.obey o = (answer, w)) ∨
      ∃ a, o.target? = some a ∧ ∀ w : Workspace, w.obey o = w.edit a (o.edit "") := by
  obtain ⟨id, hid, hobey⟩ : ∃ id, o.address? = some id ∧
      ∀ w : Workspace, w.obey o = w.withId id fun a => w.edit a (o.edit "") := by
    cases o with
    | updateWith id updates supplies => exact ⟨id, rfl, fun w => rfl⟩
    | call c =>
      cases c with
      | createDesign => cases ho
      | addComponent => cases ho
      | importDesign => cases ho
      | _ => exact ⟨_, rfl, fun w => rfl⟩
  simp only [hobey, withId, Json.atom, Order.target?, hid, Option.bind_some]
  cases id.atom? with
  | none => exact .inl ⟨_, fun w => rfl⟩
  | some a => exact .inr ⟨a, rfl, fun w => rfl⟩

/-- Orders about different designs are answered the same in either order, and leave the same. -/
theorem Filed.obey_comm (h : w.Filed) (ho : o.edits = true) (ho' : o'.edits = true)
    (hapart : o.Apart o') : ((w.obey o').2.obey o).1 = (w.obey o).1 ∧
      ((w.obey o').2.obey o).2 = ((w.obey o).2.obey o').2 := by
  rcases obey_cases ho with ⟨answer, hsame⟩ | ⟨a, ha, hedit⟩
  · simp only [hsame, and_self]
  · rcases obey_cases ho' with ⟨answer, hsame'⟩ | ⟨b, hb, hedit'⟩
    · simp only [hsame', and_self]
    · simp only [hedit, hedit']
      exact h.edit_comm _ _ (hapart a ha b hb)

theorem Filed.of_obey (h : w.Filed) (ho : o.edits = true) : (w.obey o).2.Filed := by
  rcases obey_cases ho with ⟨answer, hsame⟩ | ⟨a, -, hedit⟩
  · rw [hsame]
    exact h
  · rw [hedit]
    exact h.of_edit a _

end Workspace

section Interleaving

variable {κ β : Type} [DecidableEq κ]

def ofClient (k : κ) (l : List (κ × β)) : List (κ × β) := l.filter fun p => p.1 = k

theorem ofClient_cons (k : κ) (p : κ × β) (l : List (κ × β)) :
    ofClient k (p :: l) = if p.1 = k then p :: ofClient k l else ofClient k l := by
  simp [ofClient, List.filter_cons]

theorem ofClient_append (k : κ) (l l' : List (κ × β)) :
    ofClient k (l ++ l') = ofClient k l ++ ofClient k l' := List.filter_append ..

theorem mem_ofClient {k : κ} {p : κ × β} {l : List (κ × β)} :
    p ∈ ofClient k l ↔ p ∈ l ∧ p.1 = k := by
  simp [ofClient]

/-- What comes first for a client comes after others that are not for it. -/
theorem exists_of_ofClient_eq_cons {p : κ × β} {l own : List (κ × β)}
    (h : ofClient p.1 l = p :: own) : ∃ before after, l = before ++ p :: after ∧
      (∀ q ∈ before, q.1 ≠ p.1) ∧ ofClient p.1 after = own := by
  obtain ⟨before, after, rfl, hbefore, -, hafter⟩ := List.filter_eq_cons_iff.mp h
  exact ⟨before, after, rfl, by simpa using hbefore, hafter⟩

/-- What comes first for a client can be taken out, and what remains is the same for all. -/
theorem exists_of_forall_ofClient {p : κ × β} {l l' : List (κ × β)}
    (h : ∀ k, ofClient k (p :: l) = ofClient k l') : ∃ before after, l' = before ++ p :: after ∧
      (∀ q ∈ before, q.1 ≠ p.1) ∧ ∀ k, ofClient k l = ofClient k (before ++ after) := by
  have hfirst : ofClient p.1 l' = p :: ofClient p.1 l := by
    rw [← h p.1, ofClient_cons, if_pos rfl]
  obtain ⟨before, after, rfl, hbefore, hafter⟩ := exists_of_ofClient_eq_cons hfirst
  refine ⟨before, after, rfl, hbefore, fun k => ?_⟩
  have hk := h k
  rw [ofClient_cons, ofClient_append, ofClient_cons] at hk
  rw [ofClient_append]
  split at hk
  · rename_i heq
    subst heq
    have hnone : ofClient p.1 before = [] :=
      List.filter_eq_nil_iff.mpr fun q hq => by simpa using hbefore q hq
    rw [hnone, hafter, List.nil_append]
  · exact hk

/-- What is the same for each client is the same up to the order in which it comes. -/
theorem perm_of_forall_ofClient {l l' : List (κ × β)} (h : ∀ k, ofClient k l = ofClient k l') :
    l.Perm l' := by
  induction l generalizing l' with
  | nil =>
    have hnone : l' = [] := by
      refine List.eq_nil_iff_forall_not_mem.mpr fun p hp => ?_
      have hmem : p ∈ ofClient p.1 l' := mem_ofClient.mpr ⟨hp, rfl⟩
      rw [← h p.1] at hmem
      cases hmem
    rw [hnone]
  | cons p l ih =>
    obtain ⟨before, after, rfl, -, hrest⟩ := exists_of_forall_ofClient h
    exact ((ih hrest).cons p).trans List.perm_middle.symm

/-- Whether all clients get the same answers, and the same is left. -/
def SameOutcome {ρ σ : Type} (x y : List (κ × ρ) × σ) : Prop :=
  (∀ k, ofClient k x.1 = ofClient k y.1) ∧ x.2 = y.2

theorem SameOutcome.refl {ρ σ : Type} (x : List (κ × ρ) × σ) : SameOutcome x x :=
  ⟨fun _ => rfl, rfl⟩

theorem SameOutcome.trans {ρ σ : Type} {x y z : List (κ × ρ) × σ} (h : SameOutcome x y)
    (h' : SameOutcome y z) : SameOutcome x z :=
  ⟨fun k => (h.1 k).trans (h'.1 k), h.2.trans h'.2⟩

namespace Workspace

variable {w : Workspace} {p q : κ × Order Component.Supply}
  {s t : List (κ × Order Component.Supply)}

theorem sameOutcome_cons (p : κ × Order Component.Supply)
    (h : SameOutcome (serve obey (w.obey p.2).2 s) (serve obey (w.obey p.2).2 t)) :
    SameOutcome (serve obey w (p :: s)) (serve obey w (p :: t)) := by
  refine ⟨fun k => ?_, h.2⟩
  simp only [serve, ofClient_cons, h.1 k]

/-- Two orders of different clients may change places. -/
theorem Filed.sameOutcome_swap (h : w.Filed) (hclients : p.1 ≠ q.1) (hp : p.2.edits = true)
    (hq : q.2.edits = true) (hapart : p.2.Apart q.2) (t : List (κ × Order Component.Supply)) :
    SameOutcome (serve obey w (p :: q :: t)) (serve obey w (q :: p :: t)) := by
  obtain ⟨hanswer, hleft⟩ := h.obey_comm hp hq hapart
  obtain ⟨hanswer', -⟩ := h.obey_comm hq hp hapart.symm
  refine ⟨fun k => ?_, ?_⟩
  · simp only [serve, ofClient_cons, hanswer, hanswer', hleft]
    by_cases hk : p.1 = k
    · have hk' : q.1 ≠ k := fun hk' => hclients (hk.trans hk'.symm)
      simp [hk, hk']
    · simp [hk]
  · simp only [serve, hleft]

/-- An order may come before orders of other clients. -/
theorem Filed.sameOutcome_front (h : w.Filed) (hp : p.2.edits = true)
    {before : List (κ × Order Component.Supply)}
    (hbefore : ∀ q ∈ before, q.1 ≠ p.1 ∧ q.2.edits = true ∧ q.2.Apart p.2)
    (after : List (κ × Order Component.Supply)) :
    SameOutcome (serve obey w (before ++ p :: after)) (serve obey w (p :: (before ++ after))) := by
  induction before generalizing w with
  | nil => exact .refl _
  | cons q before ih =>
    obtain ⟨⟨hclients, hq, hapart⟩, hrest⟩ := List.forall_mem_cons.mp hbefore
    exact (sameOutcome_cons q (ih (h.of_obey hq) hrest)).trans
      (h.sameOutcome_swap hclients hq hp hapart (before ++ after))

/-- All interleavings of the same orders of clients have the same outcome, if no two clients edit
the same design. -/
theorem Filed.sameOutcome_serve (h : w.Filed) (hs : ∀ p ∈ s, p.2.edits = true)
    (hapart : ∀ p ∈ s, ∀ q ∈ s, p.1 ≠ q.1 → p.2.Apart q.2)
    (hsame : ∀ k, ofClient k s = ofClient k t) :
    SameOutcome (serve obey w s) (serve obey w t) := by
  induction s generalizing w t with
  | nil =>
    obtain rfl := List.nil_perm.mp (perm_of_forall_ofClient hsame)
    exact .refl _
  | cons p s ih =>
    obtain ⟨before, after, rfl, hbefore, hrest⟩ := exists_of_forall_ofClient hsame
    have hmem : ∀ q ∈ before, q ∈ p :: s := fun q hq =>
      (perm_of_forall_ofClient hsame).mem_iff.mpr (List.mem_append_left _ hq)
    have hothers : ∀ q ∈ before, q.1 ≠ p.1 ∧ q.2.edits = true ∧ q.2.Apart p.2 := by
      intro q hq
      exact ⟨hbefore q hq, hs q (hmem q hq),
        hapart q (hmem q hq) p (List.mem_cons_self ..) (hbefore q hq)⟩
    have hp : p.2.edits = true := hs p (List.mem_cons_self ..)
    have hmoved := h.sameOutcome_front hp hothers after
    have hlater := ih (h.of_obey hp) (fun q hq => hs q (List.mem_cons_of_mem _ hq))
      (fun q hq r hr => hapart q (List.mem_cons_of_mem _ hq) r (List.mem_cons_of_mem _ hr)) hrest
    exact (sameOutcome_cons p hlater).trans ⟨fun k => (hmoved.1 k).symm, hmoved.2.symm⟩

end Workspace

namespace Studio

variable {s : Studio}

def seenAll (heap : Heap) (t : List (κ × Order Handed)) : List (κ × Order Component.Supply) :=
  t.map fun p => (p.1, p.2.seen heap)

def handedOver (t : List (κ × Order Handed)) : List ℕ := t.flatMap (·.2.handed)

theorem ofClient_seenAll (heap : Heap) (k : κ) (t : List (κ × Order Handed)) :
    ofClient k (seenAll heap t) = seenAll heap (ofClient k t) := by
  simp only [ofClient, seenAll, List.filter_map]
  rfl

omit [DecidableEq κ] in
/-- If no design lists the objects that are handed over, and none is handed over twice, then
orders are served as they are by value. -/
theorem Exclusive.serve_eq (h : s.Exclusive) {t : List (κ × Order Handed)}
    (hfree : s.Free none (handedOver t)) :
    (serve perform s t).1 = (serve Workspace.obey s.seen (seenAll s.heap t)).1 ∧
      (serve perform s t).2.seen = (serve Workspace.obey s.seen (seenAll s.heap t)).2 := by
  induction t generalizing s with
  | nil => exact ⟨rfl, rfl⟩
  | cons p t ih =>
    obtain ⟨k, o⟩ := p
    obtain ⟨hfirst, hlater, hdisjoint⟩ := free_append_iff.mp hfree
    have hmirrors := h.mirrors hfirst.of_none
    have hsame : seenAll (s.perform o).2.heap t = seenAll s.heap t := by
      refine List.map_congr_left fun p hp => ?_
      have hobjects : ∀ a ∈ p.2.handed, (s.perform o).2.heap[a]? = s.heap[a]? := fun a ha =>
        hmirrors.getElem?_eq hlater (by simp) (List.mem_flatMap.mpr ⟨p, hp, ha⟩)
      rw [Order.seen_congr hobjects]
    obtain ⟨hanswers, hleft⟩ := ih hmirrors.exclusive (hmirrors.free hlater hdisjoint.symm)
    rw [hsame, hmirrors.left] at hanswers hleft
    refine ⟨?_, hleft⟩
    simp only [serve, seenAll, List.map_cons, hmirrors.answer]
    exact congrArg _ hanswers

theorem Exclusive.serve_perm (h : s.Exclusive) {t u : List (κ × Order Handed)}
    (ht : ∀ p ∈ t, p.2.edits = true) (hapart : ∀ p ∈ t, ∀ q ∈ t, p.1 ≠ q.1 → p.2.Apart q.2)
    (hfree : s.Free none (handedOver t)) (hsame : ∀ k, ofClient k t = ofClient k u) :
    (∀ k, ofClient k (serve perform s t).1 = ofClient k (serve perform s u).1) ∧
      (serve perform s t).2.seen = (serve perform s u).2.seen := by
  have hperm : (handedOver t).Perm (handedOver u) :=
    (perm_of_forall_ofClient hsame).flatMap_right _
  have hfree' : s.Free none (handedOver u) :=
    ⟨⟨hperm.nodup_iff.mp hfree.whole.nodup, fun a ha => hfree.whole.there a (hperm.mem_iff.mpr ha)⟩,
      fun e he a ha hgiven => hfree.own e he a ha (hperm.mem_iff.mpr hgiven)⟩
  have hedits : ∀ p ∈ seenAll s.heap t, p.2.edits = true := by
    intro p hp
    obtain ⟨q, hq, rfl⟩ := List.mem_map.mp hp
    simpa using ht q hq
  have hseenApart : ∀ p ∈ seenAll s.heap t, ∀ q ∈ seenAll s.heap t, p.1 ≠ q.1 →
      p.2.Apart q.2 := by
    intro p hp q hq hne
    obtain ⟨p', hp', rfl⟩ := List.mem_map.mp hp
    obtain ⟨q', hq', rfl⟩ := List.mem_map.mp hq
    simpa [Order.Apart] using hapart p' hp' q' hq' hne
  have hseen : ∀ k, ofClient k (seenAll s.heap t) = ofClient k (seenAll s.heap u) := by
    intro k
    rw [ofClient_seenAll, ofClient_seenAll, hsame]
  obtain ⟨hanswers, hleft⟩ := h.filed.sameOutcome_serve hedits hseenApart hseen
  obtain ⟨hserved, hstored⟩ := h.serve_eq hfree
  obtain ⟨hserved', hstored'⟩ := h.serve_eq hfree'
  rw [hserved, hserved', hstored, hstored']
  exact ⟨hanswers, hleft⟩

end Studio

end Interleaving

namespace Studio

variable {s : Studio} {o o' : Order Handed}

/-- After an order about another design an order is answered as it is by value, and as it was. -/
theorem Exclusive.perform_after (h : s.Exclusive) (hapart : o.Apart o')
    (hfree : s.Free o.target? o.handed) (hfree' : s.Free o'.target? o'.handed)
    (hdisjoint : o.handed.Disjoint o'.handed) :
    ((s.perform o').2.perform o).1 =
        ((s.seen.obey (o'.seen s.heap)).2.obey (o.seen s.heap)).1 ∧
      ((s.perform o').2.perform o).2.seen =
        ((s.seen.obey (o'.seen s.heap)).2.obey (o.seen s.heap)).2 := by
  have hfirst := h.mirrors hfree'
  have hsecond := hfirst.exclusive.mirrors (hfirst.free hfree hdisjoint)
  have hobjects : ∀ a ∈ o.handed, (s.perform o').2.heap[a]? = s.heap[a]? := fun a ha =>
    hfirst.getElem?_eq hfree (fun b hb hb' => by simpa using hapart b hb b hb') ha
  have hanswer := hsecond.answer
  have hleft := hsecond.left
  rw [Order.seen_congr hobjects, hfirst.left] at hanswer hleft
  exact ⟨hanswer, hleft⟩

theorem Exclusive.perform_comm (h : s.Exclusive) (ho : o.edits = true) (ho' : o'.edits = true)
    (hapart : o.Apart o') (hfree : s.Free o.target? o.handed)
    (hfree' : s.Free o'.target? o'.handed) (hdisjoint : o.handed.Disjoint o'.handed) :
    ((s.perform o').2.perform o).1 = (s.perform o).1 ∧
      ((s.perform o').2.perform o).2.seen = ((s.perform o).2.perform o').2.seen := by
  have hseen : (o.seen s.heap).Apart (o'.seen s.heap) := by simpa [Order.Apart] using hapart
  obtain ⟨hanswer, hleft⟩ := h.filed.obey_comm (by simpa using ho) (by simpa using ho') hseen
  obtain ⟨hlater, hstored⟩ := h.perform_after hapart hfree hfree' hdisjoint
  obtain ⟨-, hstored'⟩ := h.perform_after hapart.symm hfree' hfree hdisjoint.symm
  exact ⟨hlater.trans (hanswer.trans (h.mirrors hfree).answer.symm),
    hstored.trans (hleft.trans hstored'.symm)⟩

/-- In every state that is reached designs own their objects, as long as no object is handed over
that another design lists. Where designs own their objects, two edits that are not about the same
design and hand over no object in common are answered the same in either order and leave the same
by value. So when no two clients edit the same design and no object is handed over that is listed
or that was handed over before, all interleavings of their orders answer each client the same and
leave the same by value. -/
theorem edits_commute (s : Studio) :
    (∀ (allowed : Studio → Order Handed → Prop) (made : Component → Prop),
      (∀ s o, allowed s o → s.Free o.target? o.handed) → Reached allowed made s → s.Exclusive) ∧
    (s.Exclusive →
      (∀ o o' : Order Handed, o.edits = true → o'.edits = true → o.Apart o' →
        s.Free o.target? o.handed → s.Free o'.target? o'.handed → o.handed.Disjoint o'.handed →
        ((s.perform o').2.perform o).1 = (s.perform o).1 ∧
          ((s.perform o).2.perform o').1 = (s.perform o').1 ∧
          ((s.perform o').2.perform o).2.seen = ((s.perform o).2.perform o').2.seen) ∧
      ∀ (κ : Type) [DecidableEq κ] (t u : List (κ × Order Handed)),
        (∀ p ∈ t, p.2.edits = true) → (∀ p ∈ t, ∀ q ∈ t, p.1 ≠ q.1 → p.2.Apart q.2) →
        s.Free none (handedOver t) → (∀ k, ofClient k t = ofClient k u) →
        (∀ k, ofClient k (serve perform s t).1 = ofClient k (serve perform s u).1) ∧
          (serve perform s t).2.seen = (serve perform s u).2.seen) := by
  refine ⟨fun _ _ hfree h => (h.exclusive hfree).1, fun h => ⟨?_, ?_⟩⟩
  · intro o o' ho ho' hapart hfree hfree' hdisjoint
    obtain ⟨hanswer, hleft⟩ := h.perform_comm ho ho' hapart hfree hfree' hdisjoint
    obtain ⟨hanswer', -⟩ := h.perform_comm ho' ho hapart.symm hfree' hfree hdisjoint.symm
    exact ⟨hanswer, hanswer', hleft⟩
  · exact fun κ _ t u ht hapart hfree hsame => h.serve_perm ht hapart hfree hsame

def besideLamp : Studio :=
  bankAndShop.construct ⟨.text "lamp", .text "object", .text "Lamp", .int 0, .int 0, [], []⟩

def ordersOfTwo : List (Bool × Order Handed) := [
  (false, .call (.updateDesign (.text "design-0-000000001") (.object [("name", .text "Mall")]))),
  (true, .call (.updateDesign (.text "design-0-000000000")
    (.object [("name", .text "Vault"), ("components", .int 5)]))),
  (false, .updateWith (.text "design-0-000000001") [] [.object 1])]

def ordersInTurn : List (Bool × Order Handed) :=
  ofClient true ordersOfTwo ++ ofClient false ordersOfTwo

theorem edits_commute_ordersOfTwo :
    besideLamp.Exclusive ∧
      (serve perform besideLamp ordersOfTwo).1.map (·.2.toBool) = [true, false, true] ∧
      (serve perform besideLamp ordersInTurn).1.map (·.2.toBool) = [false, true, true] ∧
      (∀ k, ofClient k (serve perform besideLamp ordersOfTwo).1 =
        ofClient k (serve perform besideLamp ordersInTurn).1) ∧
      (serve perform besideLamp ordersOfTwo).2.seen =
        (serve perform besideLamp ordersInTurn).2.seen := by
  have hreached : Reached (fun s o => s.Free o.target? o.handed) (fun _ => True) besideLamp :=
    .construct (reached_bankAndShop (fun s _ => free_nil s _) fun s => free_nil s _) trivial
  have hexclusive : besideLamp.Exclusive :=
    (edits_commute besideLamp).1 _ _ (fun _ _ ho => ho) hreached
  have hfree : besideLamp.Free none (handedOver ordersOfTwo) :=
    free_singleton (by decide +kernel) (by decide +kernel)
  refine ⟨hexclusive, by decide +kernel, by decide +kernel, ?_⟩
  refine ((edits_commute besideLamp).2 hexclusive).2 Bool ordersOfTwo ordersInTurn (by decide)
    (by decide) hfree fun k => ?_
  cases k <;> rfl

def renameIn (design name : String) : Order Handed :=
  .call (.updateComponent (.text design) (.text "vault") (.object [("name", .text name)]))

def addLamp (design : String) : Order Handed :=
  .call (.addComponent (.text design) ⟨.text "object", .text "Lamp", .int 0, .int 0, .null, .null⟩)

/-- Where the shop lists the vault of the bank, the name that is left depends on who comes last. And
ids are drawn in the order in which components are added, be it to one design or to two. -/
theorem edits_of_shared_vault :
    let o := renameIn "design-0-000000000" "Safe"
    let o' := renameIn "design-0-000000001" "Chest"
    let p := addLamp "design-0-000000000"
    let p' := addLamp "design-0-000000001"
    Reached (fun _ _ => True) (fun _ => True) sharedVault ∧ o.edits = true ∧ o'.edits = true ∧
      o.Apart o' ∧
      ((sharedVault.perform o').2.perform o).2.seen ≠
        ((sharedVault.perform o).2.perform o').2.seen ∧
      Reached (fun s o => s.Free o.target? o.handed) (fun _ => False) bankAndShop ∧ p.Apart p' ∧
      ((bankAndShop.perform p').2.perform p).1 ≠ (bankAndShop.perform p).1 := by
  intro o o' p p'
  refine ⟨?_, rfl, rfl, by decide, fun heq => ?_, ?_, by decide, fun heq => ?_⟩
  · exact .perform (reached_bankAndShop (fun _ _ => trivial) fun _ => trivial) trivial
  · have hsafe : (((sharedVault.perform o').2.perform o).2.seen.design?
        (.text "design-0-000000000")).any (fun r => r.design.components.any
          (·.name == .text "Safe")) = true := by decide +kernel
    have hchest : (((sharedVault.perform o).2.perform o').2.seen.design?
        (.text "design-0-000000000")).any (fun r => r.design.components.any
          (·.name == .text "Safe")) = false := by decide +kernel
    rw [heq, hchest] at hsafe
    cases hsafe
  · exact reached_bankAndShop (fun s _ => free_nil s _) fun s => free_nil s _
  · have hfirst : ((bankAndShop.perform p).1.toOption.bind id).any (fun r =>
        r.design.components.any (·.id == .text "comp-0-000000002")) = true := by decide +kernel
    have hsecond : (((bankAndShop.perform p').2.perform p).1.toOption.bind id).any (fun r =>
        r.design.components.any (·.id == .text "comp-0-000000002")) = false := by decide +kernel
    rw [heq, hfirst] at hsecond
    cases hsecond

end Studio

end MoveWorkbench
