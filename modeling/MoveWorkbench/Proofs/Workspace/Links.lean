import MoveWorkbench.Proofs.Design.Problems
import MoveWorkbench.Proofs.Workspace.ObjectLinks

/-!
Connections are sets in order. No orders bring about a component that is connected to an id twice,
whatever they are given, as long as none is handed over as an object. When connections to texts are
then added and removed one by one, a component is connected to just the ids whose last step added
them, or that were there and had no step, in the order in which they last became connected. For
this a design has to own its components.
-/

namespace MoveWorkbench

open Json

def Component.LinkedOnce (c : Component) : Prop :=
  ∃ ss : List String, ss.Nodup ∧ c.connections = ss.map .text

theorem Json.pairwise_of_connectionIds {v : Json} {ids : List Json}
    (h : v.connectionIds = .ok ids) : ids.Pairwise fun u w => u.agrees w = false := by
  obtain ⟨as, has, rfl⟩ := Partial.map_eq_ok.mp h
  obtain ⟨vs, -, hrest⟩ := Partial.bind_eq_ok.mp has
  obtain ⟨bs, -, hunique⟩ := Partial.bind_eq_ok.mp hrest
  cases hunique
  have hkeys := Atom.nodup_map_key_unique bs
  rw [List.Nodup, List.pairwise_map] at hkeys
  refine List.pairwise_map.mpr (hkeys.imp fun hne => ?_)
  rw [Bool.eq_false_iff, Ne, agrees_toJson]
  exact hne

/-- Connections that do not agree with each other stay so. -/
theorem distinctRule : ConnectionRule (List.Pairwise fun u v => u.agrees v = false)
    (fun _ => True) (fun _ => True) where
  texts {ss} hss := by
    refine List.pairwise_map.mpr (hss.imp fun hne => ?_)
    rw [Bool.eq_false_iff, Ne, agrees_text]
    simpa using hne
  converted _ h := pairwise_of_connectionIds h
  connect {c target} h _ := by
    unfold Component.connect
    split
    · exact h
    · rename_i hnew
      refine List.pairwise_append.mpr ⟨h, List.pairwise_singleton _ _, fun v hv u hu => ?_⟩
      rw [List.mem_singleton.mp hu, Bool.eq_false_iff]
      exact fun hagrees => hnew (List.any_eq_true.mpr ⟨v, hv, hagrees⟩)
  disconnect _ h := h.filter _

theorem Component.LinkedOnce.pairwise {c : Component} (h : c.LinkedOnce) :
    c.connections.Pairwise fun u v => u.agrees v = false := by
  obtain ⟨ss, hss, hconnections⟩ := h
  rw [hconnections]
  exact distinctRule.texts hss

namespace Call

theorem connects_any (c : Call) : c.Connects (fun _ => True) fun _ => True := by
  cases c with
  | updateDesign => exact fun _ _ _ _ _ _ _ _ => trivial
  | updateComponent => exact fun _ _ => trivial
  | _ => trivial

end Call

theorem Order.connects_any (o : Order Handed) : o.Connects (fun _ => True) fun _ => True := by
  cases o with
  | call c => exact c.connects_any
  | updateWith => exact fun _ _ _ _ => trivial

def Order.ListsTexts : Order Handed → Prop := Connects (OrNull IsTextList) IsText

namespace Design

def relink (d : Design) (source : String) (e : LinkStep) : Design :=
  d.mapFirst (.text source) (·.link e)

theorem find?_relink (d : Design) (source t : String) (e : LinkStep) :
    (d.relink source e).find? (.text t) =
      if source = t then (d.find? (.text t)).map (·.link e) else d.find? (.text t) :=
  find?_mapFirst (fun c => Component.id_link c e) source t

end Design

structure Relink where
  design : String
  source : String
  step : LinkStep

namespace Relink

def call (l : Relink) : Call :=
  if l.step.connects then .addConnection (.text l.design) (.text l.source) (.text l.step.target)
  else .removeConnection (.text l.design) (.text l.source) (.text l.step.target)

def stepsOf (design source : String) (links : List Relink) : List LinkStep :=
  (links.filter fun l => l.design = design ∧ l.source = source).map (·.step)

end Relink

namespace Workspace

def afterRelinks (w : Workspace) (links : List (Instant × Relink)) : Workspace :=
  links.foldl (fun w p => ({ w with clock := p.1.micros }.perform p.2.call).2) w

variable {w : Workspace}

/-- An edit that is done, or misses something and then has nothing to change, changes the
content of the design under its id and of no other one. -/
theorem WellKept.map_design?_edit (h : WellKept w) {f : Design → Edited} {g : Design → Design}
    (hf : ∀ d, f d = .done (g d) ∨ f d = .missing ∧ g d = d) (a b : Atom) :
    ((w.edit a f).2.design? b).map (·.design) =
      (w.design? b).map fun r => if a == b then g r.design else r.design := by
  obtain ⟨t, ht⟩ := h.clock
  unfold edit
  cases hr : w.design? a with
  | none =>
    by_cases hab : a == b
    · have hnone : w.design? b = none := (Ordered.get?_congr hab _).symm.trans hr
      simp [hnone]
    · simp [hab]
  | some r =>
    have hkey := (h.mem_of_design? hr).2
    rcases hf r.design with hdone | ⟨hmissing, hsame⟩
    · simp only [hdone, settle, now_eq ht, design?_putDesign, BEq.congr_left hkey]
      by_cases hab : a == b
      · have hsome : w.design? b = some r := (Ordered.get?_congr hab _).symm.trans hr
        simp [hab, hsome]
      · simp [hab]
    · simp only [hmissing, settle]
      by_cases hab : a == b
      · have hsome : w.design? b = some r := (Ordered.get?_congr hab _).symm.trans hr
        simp [hab, hsome, hsame]
      · simp [hab]

/-- A connection is added to or removed from the component that it is about. -/
theorem WellKept.map_design?_relink (h : WellKept w) (l : Relink) (id : String) :
    ((w.perform l.call).2.design? (.text id)).map (·.design) =
      (w.design? (.text id)).map fun r =>
        if l.design = id then r.design.relink l.source l.step else r.design := by
  have hid : (Atom.text l.design == Atom.text id) = decide (l.design = id) := by
    rw [Bool.eq_iff_iff, Atom.beq_iff]
    simp
  have hedit {f : Design → Edited}
      (hf : ∀ d, f d = .done (d.relink l.source l.step) ∨
        f d = .missing ∧ d.relink l.source l.step = d) :
      ((w.edit (.text l.design) f).2.design? (.text id)).map (·.design) =
        (w.design? (.text id)).map fun r =>
          if l.design = id then r.design.relink l.source l.step else r.design := by
    rw [h.map_design?_edit hf]
    simp only [hid, decide_eq_true_eq]
  unfold Relink.call
  split
  · rename_i hconnects
    refine hedit (f := (·.connect (.text l.source) (.text l.step.target))) fun d => ?_
    simp only [Design.connect, Design.relink, Component.link, hconnects, if_true]
    cases hfind : d.find? (.text l.source) with
    | none => exact .inr ⟨rfl, Design.mapFirst_of_find?_eq_none hfind _⟩
    | some c => exact .inl rfl
  · rename_i hconnects
    refine hedit (f := (·.disconnect (.text l.source) (.text l.step.target))) fun d => ?_
    simp only [Design.disconnect, Design.relink, Component.link, hconnects]
    cases hfind : d.find? (.text l.source) with
    | none => exact .inr ⟨rfl, Design.mapFirst_of_find?_eq_none hfind _⟩
    | some c => exact .inl rfl

/-- A component has gone through the steps about it, and no others. -/
theorem WellKept.find?_afterRelinks (h : WellKept w) {id source : String} {r : StoredDesign}
    {c : Component} (hr : w.design? (.text id) = some r)
    (hc : r.design.find? (.text source) = some c) (links : List (Instant × Relink)) :
    ∃ r', (w.afterRelinks links).design? (.text id) = some r' ∧
      r'.design.find? (.text source) =
        some ((Relink.stepsOf id source (links.map (·.2))).foldl Component.link c) := by
  induction links generalizing w r c with
  | nil => exact ⟨r, hr, hc⟩
  | cons p links ih =>
    obtain ⟨t, l⟩ := p
    have htick : WellKept { w with clock := t.micros } := h.tick t
    have hstep := htick.map_design?_relink l id
    rw [show ({ w with clock := t.micros } : Workspace).design? (.text id) = some r from hr]
      at hstep
    obtain ⟨r', hr', hdesign⟩ := Option.map_eq_some_iff.mp hstep
    have hfind : r'.design.find? (.text source) =
        some (if l.design = id ∧ l.source = source then c.link l.step else c) := by
      rw [hdesign]
      by_cases hid : l.design = id
      · by_cases hsource : l.source = source <;> simp [hid, hsource, Design.find?_relink, hc]
      · simp [hid, hc]
    obtain ⟨r'', hr'', hfinal⟩ := ih (htick.perform l.call) hr' hfind
    refine ⟨r'', hr'', hfinal.trans ?_⟩
    by_cases habout : l.design = id ∧ l.source = source <;> simp [Relink.stepsOf, habout]

end Workspace

namespace Studio

variable {s : Studio}

def afterRelinks (s : Studio) (links : List (Instant × Relink)) : Studio :=
  links.foldl (fun s p => ({ s with clock := p.1.micros }.perform (.call p.2.call)).2) s

theorem Exclusive.seen_afterRelinks (h : s.Exclusive) (links : List (Instant × Relink)) :
    (s.afterRelinks links).seen = s.seen.afterRelinks links := by
  induction links generalizing s with
  | nil => rfl
  | cons p links ih =>
    have htick : ({ s with clock := p.1.micros } : Studio).Exclusive :=
      ⟨h.distinct, h.key, h.whole, h.apart⟩
    have hmirrors := htick.mirrors_call p.2.call
    have hrest := ih hmirrors.exclusive
    rw [hmirrors.left] at hrest
    exact hrest

/-- No component is connected to an id twice, as long as no object is made that is. After
connections are added and removed one by one, a component with texts for its connections, which
no other design lists, is connected to just those ids whose last step added them, or that were
there and had no step, in the order in which they last became connected. -/
theorem Reached.connections_afterRelinks {allowed : Studio → Order Handed → Prop}
    {made : Component → Prop} (h : Reached allowed made s)
    (hmade : ∀ c, made c → c.connections.Pairwise fun u v => u.agrees v = false) :
    (∀ e ∈ s.seen.designs.entries, ∀ c ∈ e.2.design.components,
      c.connections.Pairwise fun u v => u.agrees v = false) ∧
    ((∀ s o, allowed s o → o.ListsTexts) → (∀ c, made c → c.LinkedOnce) →
      (∀ e ∈ s.seen.designs.entries, ∀ c ∈ e.2.design.components, c.LinkedOnce) ∧
      ((∀ s o, allowed s o → s.Free o.target? o.handed) →
        ∀ {id source : String} {r : StoredDesign} {c : Component},
          s.seen.design? (.text id) = some r → r.design.find? (.text source) = some c →
          ∀ links : List (Instant × Relink), ∃ r' c' before after,
            (s.afterRelinks links).seen.design? (.text id) = some r' ∧
            r'.design.find? (.text source) = some c' ∧
            c.connections = before.map .text ∧ c'.connections = after.map .text ∧
            LinkStep.Traces before (Relink.stepsOf id source (links.map (·.2))) after)) := by
  constructor
  · exact forall_mem_components (distinctRule.objects_reached (fun _ o _ => o.connects_any) hmade h)
  · intro htexts hlinked
    have hdesigns : ∀ e ∈ s.seen.designs.entries, ∀ c ∈ e.2.design.components, c.LinkedOnce :=
      forall_mem_components (textRule.objects_reached htexts hlinked h)
    refine ⟨hdesigns, fun hfree {id source r c} hr hc links => ?_⟩
    obtain ⟨hexclusive, hkept⟩ := h.exclusive hfree
    obtain ⟨l, hl, -⟩ := Ordered.exists_mem_of_get? hr
    obtain ⟨before, hnodup, hbefore⟩ := hdesigns _ hl c (List.mem_of_find?_eq_some hc)
    obtain ⟨r', hr', hc'⟩ := hkept.find?_afterRelinks hr hc links
    rw [← hexclusive.seen_afterRelinks] at hr'
    exact ⟨r', _, before, _, hr', hc', hbefore, Component.connections_foldl_link hbefore _,
      LinkStep.traces_foldl hnodup _⟩

def cap : Component :=
  ⟨.text "cap", .text "object", .text "Cap", .int 0, .int 0, [.text "gold"], []⟩

def connectVault : Order Handed :=
  .updateWith (.text "design-0-000000000") [] [
    .value (.object [("id", .text "vault"),
      ("connections", .list [.text "coin", .text "gold", .text "coin"])]), .object 1]

theorem listsTexts_connectVault : connectVault.ListsTexts := by
  intro v hv fs hfs
  simp only [List.mem_cons, Handed.value.injEq, reduceCtorEq, List.not_mem_nil, or_false] at hv
  subst hv
  cases hfs
  exact .inr ⟨["coin", "gold", "coin"], rfl⟩

theorem listsTexts_fillBank : (Order.call fillBank).ListsTexts := by
  intro fs vs hfs hvs v hv us hus
  cases hfs
  cases hvs
  obtain rfl := List.mem_singleton.mp hv
  cases hus
  exact .inl rfl

theorem reached_connectVault {made : Component → Prop} {c : Component} (hc : made c) :
    Reached (fun s o => s.Free o.target? o.handed ∧ o.ListsTexts) made
      ((bankAndShop.construct c).perform connectVault).2 := by
  have hfilled : Reached (fun s o => s.Free o.target? o.handed ∧ o.ListsTexts) made bankAndShop :=
    reached_bankAndShop (fun s _ => ⟨free_nil s _, trivial⟩)
      fun s => ⟨free_nil s _, listsTexts_fillBank⟩
  have hmade : 1 < (bankAndShop.construct c).heap.length := by
    have hone : bankAndShop.heap.length = 1 := by decide +kernel
    simp [construct, hone]
  have hunlisted : ∀ e ∈ bankAndShop.designs.entries, 1 ∉ e.2.outline.components := by
    decide +kernel
  exact .perform (.construct hfilled hc) ⟨free_singleton hmade hunlisted, listsTexts_connectVault⟩

def connectedVault : Studio := ((bankAndShop.construct cap).perform connectVault).2

theorem reached_connectedVault :
    Reached (fun s o => s.Free o.target? o.handed ∧ o.ListsTexts) Component.LinkedOnce
      connectedVault :=
  reached_connectVault ⟨["gold"], by decide, rfl⟩

def relinkVault : List (Instant × Relink) :=
  let relink (t : Instant) (source target : String) (connects : Bool) : Instant × Relink :=
    (t, ⟨"design-0-000000000", source, ⟨target, connects⟩⟩)
  [relink ⟨5, by decide⟩ "vault" "coin" false, relink ⟨3, by decide⟩ "vault" "gold" true,
    relink ⟨9, by decide⟩ "vault" "cap" true, relink ⟨9, by decide⟩ "cap" "coin" true,
    relink ⟨12, by decide⟩ "vault" "coin" true]

theorem connections_afterRelinks_vault :
    (∀ e ∈ connectedVault.seen.designs.entries, ∀ c ∈ e.2.design.components, c.LinkedOnce) ∧
      ∃ r c r' c' before after,
        connectedVault.seen.design? (.text "design-0-000000000") = some r ∧
        r.design.find? (.text "vault") = some c ∧
        (connectedVault.afterRelinks relinkVault).seen.design? (.text "design-0-000000000") =
          some r' ∧
        r'.design.find? (.text "vault") = some c' ∧
        c.connections = before.map .text ∧ c'.connections = after.map .text ∧
        LinkStep.Traces before
          [⟨"coin", false⟩, ⟨"gold", true⟩, ⟨"cap", true⟩, ⟨"coin", true⟩] after := by
  have hthere : (connectedVault.seen.design? (.text "design-0-000000000")).any
      (fun r => (r.design.find? (.text "vault")).isSome) = true := by decide +kernel
  obtain ⟨hlinked, hordered⟩ := (reached_connectedVault.connections_afterRelinks
    fun _ hc => hc.pairwise).2 (fun _ _ ho => ho.2) fun _ hc => hc
  cases hr : connectedVault.seen.design? (.text "design-0-000000000") with
  | none =>
    rw [hr] at hthere
    cases hthere
  | some r =>
    rw [hr, Option.any_some] at hthere
    obtain ⟨c, hc⟩ := Option.isSome_iff_exists.mp hthere
    obtain ⟨r', c', before, after, hparts⟩ := hordered (fun _ _ ho => ho.1) hr hc relinkVault
    exact ⟨hlinked, r, c, r', c', before, after, rfl, hc, hparts⟩

def twiceConnected : Studio :=
  ((bankAndShop.construct { cap with connections := [.text "gold", .text "gold"] }).perform
    connectVault).2

def disconnected (target : Json) : Studio :=
  let about (f : Json → Json → Json → Call) : Order Handed :=
    .call (f (.text "design-0-000000000") (.text "vault") target)
  ((bankAndShop.perform (about .addConnection)).2.perform (about .removeConnection)).2

/-- What is listed as an object keeps the connection that it has twice. And to take out a connection
to what is not a number leaves it where it is. -/
theorem connections_twice :
    Reached (fun s o => s.Free o.target? o.handed ∧ o.ListsTexts) (fun _ => True) twiceConnected ∧
      (∃ r c, twiceConnected.seen.design? (.text "design-0-000000000") = some r ∧
        c ∈ r.design.components ∧ ¬ c.connections.Pairwise fun u v => u.agrees v = false) ∧
      ∃ r c, (disconnected (.float .nan)).seen.design? (.text "design-0-000000000") = some r ∧
        r.design.find? (.text "vault") = some c ∧ ∃ v ∈ c.connections, v.isNan = true := by
  refine ⟨reached_connectVault trivial, ?_, ?_⟩
  · have htwice : (twiceConnected.seen.design? (.text "design-0-000000000")).any (fun r =>
        r.design.components.any fun c =>
          !decide (c.connections.Pairwise fun u v => u.agrees v = false)) = true := by
      decide +kernel
    obtain ⟨r, hr, hany⟩ := (Option.any_eq_true _ _).mp htwice
    obtain ⟨c, hc, hpairs⟩ := List.any_eq_true.mp hany
    exact ⟨r, c, hr, hc, by simpa using hpairs⟩
  · have hleft : ((disconnected (.float .nan)).seen.design? (.text "design-0-000000000")).any
        (fun r => (r.design.find? (.text "vault")).any fun c => c.connections.any (·.isNan)) =
          true := by decide +kernel
    obtain ⟨r, hr, hany⟩ := (Option.any_eq_true _ _).mp hleft
    obtain ⟨c, hc, hconnections⟩ := (Option.any_eq_true _ _).mp hany
    exact ⟨r, c, hr, hc, List.any_eq_true.mp hconnections⟩

end Studio

end MoveWorkbench
