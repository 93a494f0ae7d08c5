import Mathlib.Data.List.Induction
import MetalPool.Proofs.Store.History
/-!
# Where a record comes from

`Store.under` picks out of a history the events that leave something under a
name: the records put in and the writes that go through. A record found after a
history is the one last put in, changed by the writes since then
(`get_after_stems`): its status and its desired state are those last written,
and all else is as it was put in. An event may carry a tag, such as who did it.
-/

namespace MetalPool

namespace StoreEvent

/-- The record that the event puts in. -/
def inserted? : StoreEvent → Option Server
  | .insert server => some server
  | _ => none

/-- The status that the event writes. -/
def status? : StoreEvent → Option ServerStatus
  | .request (.updateStatus _ _ status) => some status
  | _ => none

/-- The desired state that the event writes. -/
def powerState? : StoreEvent → Option PowerState
  | .request (.updatePowerState _ _ state) => some state
  | _ => none

/-- What the event changes in the record that it writes to. -/
def change : StoreEvent → Server → Server
  | .request (.updateStatus _ _ status), server => server.withStatus status
  | .request (.updatePowerState _ _ state), server => server.withPowerState state
  | _, server => server

end StoreEvent

/-- `server` is what the writes made of `origin`. -/
structure Server.StemsFrom (server origin : Server) (writes : List StoreEvent) : Prop where
  name_eq : server.metadata.name = origin.metadata.name
  generation_eq : server.metadata.generation = origin.metadata.generation
  labels_eq : server.metadata.labels = origin.metadata.labels
  controlType_eq : server.spec.controlType = origin.spec.controlType
  control_eq : server.spec.control = origin.spec.control
  /-- The last status written, that of `origin` if none was. -/
  status_eq : server.status = (writes.filterMap StoreEvent.status?).getLast?.or origin.status
  powerState_eq : server.spec.powerState =
    (writes.filterMap StoreEvent.powerState?).getLast?.or origin.spec.powerState

namespace Server

theorem stemsFrom_withVersion (origin : Server) (version : String) :
    (origin.withVersion version).StemsFrom origin [] := by
  constructor <;> rfl

theorem stemsFrom_self (origin : Server) : origin.StemsFrom origin [] := by
  constructor <;> rfl

/-- One more write. -/
theorem StemsFrom.snoc {server origin : Server} {writes : List StoreEvent}
    (h : server.StemsFrom origin writes) (e : StoreEvent) (version : String) :
    ((e.change server).withVersion version).StemsFrom origin (writes ++ [e]) := by
  have hlast {β : Type} (f : StoreEvent → Option β) (base : Option β) :
      ((writes ++ [e]).filterMap f).getLast?.or base =
        (f e).or ((writes.filterMap f).getLast?.or base) := by
    cases hf : f e <;> simp [List.filterMap_append, hf]
  obtain ⟨hname, hgeneration, hlabels, hcontrolType, hcontrol, hstatus, hpower⟩ := h
  constructor
  case status_eq =>
    rw [hlast, ← hstatus]
    cases e with
    | request r => cases r <;> rfl
    | _ => rfl
  case powerState_eq =>
    rw [hlast, ← hpower]
    cases e with
    | request r => cases r <;> rfl
    | _ => rfl
  all_goals
    cases e with
    | request r => cases r <;> assumption
    | _ => assumption

end Server

namespace Store

variable {τ : Type} {s : Store} {name : String}

/-- The events of a history that leave something under `name`. -/
def under (name : String) (s : Store) : List (τ × StoreEvent) → List (τ × StoreEvent)
  | [] => []
  | e :: rest =>
    if s.touched? e.2 = some name then e :: (s.apply e.2).under name rest
    else (s.apply e.2).under name rest

/-- `origin` was put in under `name`, in the history or before it, and `writes` are the events since
then that leave something under the name. None of them puts a record in. -/
structure Descends (s : Store) (name : String) (events : List (τ × StoreEvent)) (origin : Server)
    (writes : List (τ × StoreEvent)) : Prop where
  put : (s.get name = some origin ∧ s.under name events = writes) ∨
    ∃ earlier tag, s.under name events = earlier ++ (tag, .insert origin) :: writes
  since : ∀ e ∈ writes, e.2.inserted? = none

theorem under_append (s : Store) (events rest : List (τ × StoreEvent)) :
    s.under name (events ++ rest) =
      s.under name events ++ (s.after (events.map Prod.snd)).under name rest := by
  induction events generalizing s with
  | nil => rfl
  | cons e events ih =>
    simp only [List.cons_append, under, List.map_cons, after_cons, ih]
    split <;> rfl

/-! ## One event -/

theorem get_write_of_not_ok {expected : Option String} {change : Server → Server}
    (h : ¬ (s.write name expected change).1.isOk) (n : String) :
    (s.write name expected change).2.get n = s.get n := by
  rcases write_of s name expected change with
    ⟨-, hw⟩ | ⟨-, -, hw⟩ | ⟨-, _, -, -, -, hw⟩ | ⟨-, _, -, -, hw⟩ <;> rw [hw] at h ⊢
  · exact get_spend ..
  · exact get_skip ..
  · exact get_skip ..
  · exact absurd rfl h

/-- What a write does under a name, in three cases. -/
theorem write_at (s : Store) (name n : String) (expected : Option String) (change : Server → Server) :
    -- It is refused.
    (¬ (s.write n expected change).1.isOk ∧ (s.write n expected change).2.get name = s.get name) ∨
    -- It goes through under another name.
    ((s.write n expected change).1.isOk ∧ n ≠ name ∧
      (s.write n expected change).2.get name = s.get name) ∨
    -- It goes through under this one.
    ((s.write n expected change).1.isOk ∧ n = name ∧ ∃ server, s.get name = some server ∧
      (s.write n expected change).2.get name =
        some ((change server).withVersion s.nextVersion)) := by
  by_cases hok : (s.write n expected change).1.isOk
  · obtain ⟨server, hg, -, hw⟩ := write_ok hok
    right
    by_cases hn : n = name
    · subst hn
      exact .inr ⟨hok, rfl, server, hg, by simp [hw]⟩
    · exact .inl ⟨hok, hn, by simp [hw, Ne.symm hn]⟩
  · exact .inl ⟨hok, get_write_of_not_ok hok name⟩

/-- What an event does under a name, in three cases. -/
theorem touch_of (s : Store) (name : String) (e : StoreEvent) :
    -- It leaves nothing there.
    (s.touched? e ≠ some name ∧ (s.apply e).get name = s.get name) ∨
    -- It puts a record in.
    (s.touched? e = some name ∧ ∃ server, e = .insert server ∧
      (s.apply e).get name = some (server.withVersion s.nextVersion)) ∨
    -- It writes to the record.
    (s.touched? e = some name ∧ e.inserted? = none ∧ ∃ server, s.get name = some server ∧
      (s.apply e).get name = some ((e.change server).withVersion s.nextVersion)) := by
  have hsome {n : String} (hn : n ≠ name) : some n ≠ some name := fun h => hn (Option.some.inj h)
  cases e with
  | conflictNext n => exact .inl ⟨nofun, rfl⟩
  | insert server =>
    by_cases hn : server.name = name
    · subst hn
      exact .inr (.inl ⟨rfl, server, rfl, by simp [apply]⟩)
    · exact .inl ⟨hsome hn, by simp [apply, Ne.symm hn]⟩
  | request r =>
    cases r with
    | get | list => exact .inl ⟨by simp [touched?, StoreRequest.target?], rfl⟩
    | updatePowerState n expected state =>
      rcases s.write_at name n expected (·.withPowerState state) with
        ⟨hno, hget⟩ | ⟨hok, hn, hget⟩ | ⟨hok, rfl, hset⟩
      · have hnone : s.touched? (.request (.updatePowerState n expected state)) = none := if_neg hno
        exact .inl ⟨by simp [hnone], hget⟩
      · exact .inl ⟨fun h => hsome hn ((if_pos hok).symm.trans h), hget⟩
      · exact .inr (.inr ⟨if_pos hok, rfl, hset⟩)
    | updateStatus n expected status =>
      rcases s.write_at name n expected (·.withStatus status) with
        ⟨hno, hget⟩ | ⟨hok, hn, hget⟩ | ⟨hok, rfl, hset⟩
      · have hnone : s.touched? (.request (.updateStatus n expected status)) = none := if_neg hno
        exact .inl ⟨by simp [hnone], hget⟩
      · exact .inl ⟨fun h => hsome hn ((if_pos hok).symm.trans h), hget⟩
      · exact .inr (.inr ⟨if_pos hok, rfl, hset⟩)

/-! ## A whole history -/

/-- A record found after a history is the one last put in, with the writes since then. -/
theorem get_after_stems (s : Store) (events : List (τ × StoreEvent)) {server : Server}
    (hg : (s.after (events.map Prod.snd)).get name = some server) :
    ∃ origin writes, s.Descends name events origin writes ∧
      server.StemsFrom origin (writes.map Prod.snd) := by
  induction events using List.reverseRecOn generalizing server with
  | nil => exact ⟨server, [], ⟨.inl ⟨hg, rfl⟩, by simp⟩, server.stemsFrom_self⟩
  | append_singleton events e ih =>
    simp only [List.map_append, List.map_singleton, after_append, after_cons, after_nil] at hg
    rcases touch_of (s.after (events.map Prod.snd)) name e.2 with
      ⟨htouch, hget⟩ | ⟨htouch, put, hput, hget⟩ | ⟨htouch, hnew, old, hold, hget⟩ <;>
      rw [hget] at hg
    · have hunder : s.under name (events ++ [e]) = s.under name events := by
        simp [under_append, under, htouch]
      obtain ⟨origin, writes, ⟨hfrom, hsince⟩, hstems⟩ := ih hg
      exact ⟨origin, writes, ⟨hunder ▸ hfrom, hsince⟩, hstems⟩
    · cases hg
      refine ⟨put, [], ⟨.inr ⟨s.under name events, e.1, ?_⟩, by simp⟩, put.stemsFrom_withVersion _⟩
      simp [under_append, under, htouch, ← hput]
    · cases hg
      have hunder : s.under name (events ++ [e]) = s.under name events ++ [e] := by
        simp [under_append, under, htouch]
      obtain ⟨origin, writes, ⟨hfrom, hsince⟩, hstems⟩ := ih hold
      refine ⟨origin, writes ++ [e], ⟨?_, ?_⟩, ?_⟩
      · rw [hunder]
        rcases hfrom with ⟨hbase, rfl⟩ | ⟨earlier, tag, hearlier⟩
        · exact .inl ⟨hbase, rfl⟩
        · exact .inr ⟨earlier, tag, by simp [hearlier]⟩
      · intro e' he
        rcases List.mem_append.1 he with he | he
        · exact hsince e' he
        · rw [List.mem_singleton.1 he]
          exact hnew
      · rw [List.map_append]
        exact hstems.snoc e.2 _

end Store

end MetalPool
