import MoveWorkbench.Calendar
import MoveWorkbench.Json.Basic

/-!
Stores of records by id, in the order in which the ids first came. Any atom can be an id,
most are texts. A sweep drops the records that are older than an age; a record that is
just as old stays. An engine may be offered a store, whose holder goes on to work with it.
-/

namespace MoveWorkbench

structure Store (α : Type) where
  entries : List (Atom × α)

namespace Store

variable {α : Type}

def empty : Store α := ⟨[]⟩

def get? (s : Store α) (id : Atom) : Option α := Ordered.get? id s.entries

def put (s : Store α) (id : Atom) (record : α) : Store α := ⟨Ordered.put id record s.entries⟩

/-- The store without what is under an id. -/
def without (s : Store α) (id : Atom) : Store α := ⟨Ordered.remove id s.entries⟩

def ids (s : Store α) : List Atom := Ordered.keys s.entries

def contains (s : Store α) (id : Atom) : Bool := (s.get? id).isSome

def size (s : Store α) : Nat := s.entries.length

/-- Whether a value is a text under which a record is stored. -/
def containsText (s : Store α) : Json → Bool
  | .text id => s.contains (.text id)
  | _ => false

/-- Deletes what is stored under an id, and tells whether anything was. -/
def delete (s : Store α) (id : Atom) : Bool × Store α := (s.contains id, s.without id)

/-- Deletes what is stored under a value. Where nothing is stored, any value will do. -/
def deleteBy (s : Store α) (id : Json) : Except Fault (Bool × Store α) :=
  if s.size = 0 then .ok (false, s) else id.atom.map s.delete

/-- What is left of a store without the records from before an instant. -/
def since (s : Store α) (stamp : α → Instant) (cutoff : Instant) : Store α :=
  ⟨s.entries.filter fun e => ¬ stamp e.2 < cutoff⟩

/-- Drops the records that are older than `maxAge` at an instant. -/
def sweep (s : Store α) (stamp : α → Instant) (maxAge : Span) (now : Instant) :
    Except Fault (Store α) :=
  (now.before maxAge).map (s.since stamp)

/-- The number of records that are no longer there. -/
def evicted (before after : Store α) : Nat := before.size - after.size

/-- What is done to a store. -/
inductive Change (α : Type) where
  | put (id : Atom) (record : α)
  | delete (id : Atom)
  | sweep (maxAge : Span) (now : Instant)

/-- What a change is answered with: whether there was something to delete, or how many
records were evicted. -/
inductive Reply where
  | stored
  | deleted (there : Bool)
  | swept (number : Except Fault Nat)

/-- A change is made, and answered. A sweep that fails changes nothing. -/
def change (stamp : α → Instant) (s : Store α) : Change α → Reply × Store α
  | .put id record => (.stored, s.put id record)
  | .delete id => (.deleted (s.delete id).1, (s.delete id).2)
  | .sweep maxAge now =>
    match s.sweep stamp maxAge now with
    | .ok swept => (.swept (.ok (s.evicted swept)), swept)
    | .error fault => (.swept (.error fault), s)

/-- A store after changes, from the moment when it is made. -/
def changed (stamp : α → Instant) (changes : List (Change α)) : Store α :=
  changes.foldl (fun s c => (s.change stamp c).2) empty

/-- Whose store an engine works on that is offered one. -/
inductive Origin where
  | offered
  | own
  deriving DecidableEq

/-- An engine works on the offered store if that holds a record, and on one of its own if
not. -/
def origin (offered : Store α) : Origin := if offered.size = 0 then .own else .offered

/-- The store that an engine begins with. -/
def adopt (offered : Store α) : Store α :=
  match offered.origin with
  | .offered => offered
  | .own => empty

/-- What the holder of a store does to it. -/
inductive Deed (α : Type) where
  | put (id : Atom) (record : α)
  | delete (id : Atom)

def after (s : Store α) : Deed α → Store α
  | .put id record => s.put id record
  | .delete id => s.without id

/-- The store that an engine was offered, next to the engine's own one. -/
structure Holding (α : Type) where
  offered : Store α
  own : Store α
  origin : Origin

namespace Holding

/-- Which store the engine works on is settled once, when the store is offered. -/
def of (s : Store α) : Holding α := ⟨s, .empty, s.origin⟩

/-- The store that the engine reads. -/
def used (h : Holding α) : Store α :=
  match h.origin with
  | .offered => h.offered
  | .own => h.own

/-- What the engine leaves, where it reads. -/
def leave (h : Holding α) (s : Store α) : Holding α :=
  match h.origin with
  | .offered => { h with offered := s }
  | .own => { h with own := s }

/-- A deed of the holder is done to the offered store. -/
def after (h : Holding α) (deed : Deed α) : Holding α :=
  { h with offered := h.offered.after deed }

end Holding

@[simp] theorem ids_empty : (empty : Store α).ids = [] := rfl

theorem get?_put_self (s : Store α) (id : Atom) (r : α) : (s.put id r).get? id = some r :=
  Ordered.get?_put_self id r s.entries

theorem get?_put_of_ne {id other : Atom} (h : (id == other) = false) (s : Store α) (r : α) :
    (s.put id r).get? other = s.get? other :=
  Ordered.get?_put_of_ne h r s.entries

theorem ids_put (s : Store α) (id : Atom) (r : α) :
    (s.put id r).ids = if s.contains id then s.ids else s.ids ++ [id] :=
  Ordered.keys_put id r s.entries

end Store

end MoveWorkbench
