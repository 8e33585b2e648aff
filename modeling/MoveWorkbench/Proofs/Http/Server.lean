import MoveWorkbench.Proofs.Http.Route

/-!
The program as a framework. What the endpoints rely on holds of the framework that the program
runs in: its routes lead to endpoints with their methods and with ids that are segments, and what
it shows of a value keeps the texts where they stand.
-/

namespace MoveWorkbench

namespace Http

inductive Entry.Reaches : Entry → Endpoint → Prop where
  | plain (e : Endpoint) : (plain e).Reaches e
  | form (form : Form) (endpoint : Fields → Endpoint) (fs : Fields) :
    (Entry.form form endpoint).Reaches (endpoint fs)

namespace Route

variable {route : Route} {method : String} {entry : Entry} {e : Endpoint}

theorem reaches_post? (h : route.post? = some entry) (he : entry.Reaches e) :
    e.method = "POST" ∧ e.segments = route.ids := by
  cases route <;> cases h <;> cases he <;> exact ⟨rfl, rfl⟩

theorem reaches_put? (h : route.put? = some entry) (he : entry.Reaches e) :
    e.method = "PUT" ∧ e.segments = route.ids := by
  cases route <;> cases h <;> cases he <;> exact ⟨rfl, rfl⟩

theorem reaches_delete? (h : route.delete? = some entry) (he : entry.Reaches e) :
    e.method = "DELETE" ∧ e.segments = route.ids := by
  cases route <;> cases h <;> cases he <;> exact ⟨rfl, rfl⟩

theorem reaches_get? (h : (route.get?.map fun l => Entry.plain (.look l)) = some entry)
    (he : entry.Reaches e) : e.method = "GET" ∧ e.segments = route.ids := by
  cases route <;> cases h <;> cases he <;> exact ⟨rfl, rfl⟩

/-- An endpoint is reached by its own method, under a route with the ids that it is for. -/
theorem reaches_entry? (h : route.entry? method = some entry) (he : entry.Reaches e) :
    method = e.method ∧ e.segments = route.ids := by
  unfold entry? at h
  split_ifs at h with hget hpost hput hdelete
  · exact hget ▸ (reaches_get? h he).imp_left Eq.symm
  · exact hpost ▸ (reaches_post? h he).imp_left Eq.symm
  · exact hput ▸ (reaches_put? h he).imp_left Eq.symm
  · exact hdelete ▸ (reaches_delete? h he).imp_left Eq.symm

end Route

variable {r : Request} {e : Endpoint} {reply : Reply}

theorem Form.reaches_of_call {form : Form} {endpoint : Fields → Endpoint} {payload : Payload}
    (h : form.call endpoint payload = .call e) : (Entry.form form endpoint).Reaches e := by
  cases payload with
  | value v =>
    simp only [call] at h
    split at h
    · cases h
      exact .form form endpoint _
    · cases h
  | _ => cases h

/-- A call is made under a route, by an entry that it has for the method. -/
theorem exists_of_dispatch_eq_call (h : dispatch r = .call e) : ∃ route entry,
    Route.ofPath? r.path = some route ∧ route.entry? r.method = some entry ∧ entry.Reaches e := by
  unfold dispatch at h
  split at h
  · cases h
  · cases h
  · rename_i route _ hroute
    split at h
    · cases h
    · rename_i hentry
      cases h
      exact ⟨route, _, hroute, hentry, .plain e⟩
    · rename_i hentry
      exact ⟨route, _, hroute, hentry, Form.reaches_of_call h⟩

theorem Reply.status_reject_ne (errors : List BodyError) : (reject errors).status ≠ 200 := by
  unfold reject
  split <;> simp [status]

theorem status_lost_ne (path : String) : (lost path).status ≠ 200 := by
  unfold lost
  dsimp only
  split_ifs
  · decide
  · decide

theorem Form.status_ne_of_call {form : Form} {endpoint : Fields → Endpoint} {payload : Payload}
    (h : form.call endpoint payload = .reply reply) : reply.status ≠ 200 := by
  cases payload with
  | absent =>
    cases h
    exact Reply.status_reject_ne _
  | misread place =>
    cases h
    exact Reply.status_reject_ne _
  | unreadable =>
    cases h
    decide
  | value v =>
    simp only [call] at h
    split at h
    · cases h
    · cases h
      exact Reply.status_reject_ne _

/-- Only a page is answered with success where no endpoint is called, and no page is changed. -/
theorem status_ne_of_dispatch_eq_reply (h : dispatch r = .reply reply)
    (hmethod : r.method ∈ ["POST", "PUT", "DELETE"]) : reply.status ≠ 200 := by
  unfold dispatch at h
  split at h
  · cases h
    exact status_lost_ne r.path
  · have hnone : ¬ (r.method = "GET" ∨ r.method = "HEAD") := by
      rintro (heq | heq) <;> rw [heq] at hmethod <;> revert hmethod <;> decide
    rw [if_neg hnone] at h
    cases h
    decide
  · split at h
    · cases h
      decide
    · cases h
    · exact Form.status_ne_of_call h

theorem dispatch_lookup {l : Lookup} (h : ∀ id ∈ l.id?, IsSegment id)
    (headers : List (String × String)) (body : Body) :
    dispatch (l.request headers body) = .call (.look l) := by
  have hroute : Route.ofPath? (l.request headers body).path = some l.route := Lookup.ofPath?_path h
  unfold dispatch
  rw [hroute]
  cases l <;> rfl

theorem not_hidden_of_isPublic {name : String} (h : Json.isPublic name = true) :
    (Text.after? "_sa".toList name.toList).isSome = false := by
  rw [Bool.eq_false_iff]
  intro hhidden
  obtain ⟨rest, hrest⟩ := Option.isSome_iff_exists.mp hhidden
  rw [Text.after?_eq_some_iff] at hrest
  simp [Json.isPublic, hrest] at h

/-- Fields that may be shown to anybody are shown. -/
theorem filter_shownFields {name : String} (h : Json.isPublic name = true) (fs : Fields) :
    (shownFields fs).filter (·.1 = name) =
      (fs.filter (·.1 = name)).map fun f => (f.1, shown f.2) := by
  induction fs with
  | nil => rfl
  | cons f fs ih =>
    obtain ⟨key, v⟩ := f
    unfold shownFields
    split_ifs with hhidden
    · have hne : key ≠ name := by
        rintro rfl
        rw [not_hidden_of_isPublic h] at hhidden
        cases hhidden
      rw [ih, List.filter_cons_of_neg (by simpa using hne)]
    · by_cases hkey : key = name
      · simp [hkey, ih]
      · simp [hkey, ih]

/-- Texts are shown where they stand. -/
theorem at?_shown {path : List String} (hpath : ∀ name ∈ path, Json.isPublic name = true)
    {v : Json} {s : String} (h : v.at? path = some (.text s)) :
    (shown v).at? path = some (.text s) := by
  induction path generalizing v with
  | nil =>
    cases h
    rfl
  | cons name path ih =>
    obtain ⟨hname, hrest⟩ := List.forall_mem_cons.mp hpath
    cases v with
    | object fs =>
      simp only [Json.at?] at h
      split at h
      · rename_i f hf
        simp only [shown, Json.at?, filter_shownFields hname, hf, List.map_cons, List.map_nil]
        exact ih hrest h
      · cases h
    | _ => cases h

mutual

/-- A plain value is shown as it is, and can be written. -/
theorem shown_of_isPlain : (v : Json) → v.isPlain = true → shown v = v ∧ isWritable v = true
  | .null, _ => ⟨rfl, rfl⟩
  | .bool _, _ => ⟨rfl, rfl⟩
  | .text _, _ => ⟨rfl, rfl⟩
  | .list vs, h => by
    obtain ⟨hshown, hwritable⟩ := shownItems_of_arePlain vs h
    exact ⟨congrArg Json.list hshown, hwritable⟩
  | .object fs, h => by
    obtain ⟨hshown, hwritable⟩ := shownFields_of_fieldsPlain fs h
    exact ⟨congrArg Json.object hshown, hwritable⟩

theorem shownItems_of_arePlain : (vs : List Json) → Json.arePlain vs = true →
    shownItems vs = vs ∧ areWritable vs = true
  | [], _ => ⟨rfl, rfl⟩
  | v :: vs, h => by
    simp only [Json.arePlain, Bool.and_eq_true] at h
    obtain ⟨hshown, hwritable⟩ := shown_of_isPlain v h.1
    obtain ⟨hitems, hall⟩ := shownItems_of_arePlain vs h.2
    simp only [shownItems, areWritable, hshown, hwritable, hitems, hall, Bool.and_true, and_true]

theorem shownFields_of_fieldsPlain : (fs : List (String × Json)) → Json.fieldsPlain fs = true →
    shownFields fs = fs ∧ fieldsWritable fs = true
  | [], _ => ⟨rfl, rfl⟩
  | (name, v) :: fs, h => by
    simp only [Json.fieldsPlain, Bool.and_eq_true] at h
    obtain ⟨hshown, hwritable⟩ := shown_of_isPlain v h.1.2
    obtain ⟨hfields, hall⟩ := shownFields_of_fieldsPlain fs h.2
    simp only [shownFields, not_hidden_of_isPublic h.1.1.1, fieldsWritable, hshown, hwritable,
      hfields, hall, Bool.and_true, and_true]
    rfl

end

/-- Data are shown, or they cannot be written. -/
theorem present_cases (v : Json) :
    (∃ body, Reply.present 200 v = .answer 200 body ∧ ∀ path s,
      (∀ name ∈ path, Json.isPublic name = true) → v.at? path = some (.text s) →
        body.at? path = some (.text s)) ∨ (Reply.present 200 v).status = 500 := by
  unfold Reply.present
  split_ifs
  · exact .inl ⟨shown v, rfl, fun path s hpath hs => at?_shown hpath hs⟩
  · exact .inr rfl

theorem server_lawful : server.Lawful where
  method h := by
    obtain ⟨route, entry, -, hentry, hreaches⟩ := exists_of_dispatch_eq_call h
    exact (Route.reaches_entry? hentry hreaches).1
  segment h := by
    obtain ⟨route, entry, hroute, hentry, hreaches⟩ := exists_of_dispatch_eq_call h
    rw [(Route.reaches_entry? hentry hreaches).2]
    exact Route.isSegment_of_ofPath? hroute
  lookup l h := dispatch_lookup h
  own h := status_ne_of_dispatch_eq_reply h
  refused _ _ := rfl
  failed := rfl
  raised _ := rfl
  data {result v} h := by
    cases result with
    | data value =>
      cases h
      exact present_cases v
    | design r =>
      cases h
      simp only [server, render]
      split
      · exact present_cases _
      · exact .inr rfl
    | _ => cases h
  plain v h := by
    obtain ⟨hshown, hwritable⟩ := shown_of_isPlain v h
    change Reply.present 200 v = _
    rw [Reply.present, hshown, if_pos hwritable]

end Http

end MoveWorkbench
