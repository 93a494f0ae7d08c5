import MetalPool.Proofs.Store.Requests
import MetalPool.World.Step
/-!
# Sessions of the pool, held

What a call on the pool comes to with the records of a store: a session that
goes on goes on in the store that the one before it left (`run_seq_of_ok`), and
a refusal ends it (`run_seq_of_error`). A remote caller gets what the call
comes to, or the status of the refusal (`run_serve`), whatever it is that answers
the requests (`hold_serve`).
-/

namespace MetalPool.Pool

variable {α β : Type} {session : PoolSession α} {next : α → PoolSession β} {s after : Store}
  {e : PoolError}

theorem run_seq (session : PoolSession α) (next : α → PoolSession β) (s : Store) :
    (session >>= next).run.run s =
      match session.run.run s with
      | (.ok a, mid) => (next a).run.run mid
      | (.error e, after) => (.error e, after) := by
  refine (Session.run_bind session.run _ s).trans ?_
  obtain ⟨result, mid⟩ := session.run.run s
  cases result <;> rfl

/-- A refusal ends the first session, and the second never starts. -/
theorem run_seq_of_error (h : session.run.run s = (.error e, after)) :
    (session >>= next).run.run s = (.error e, after) := by
  rw [run_seq, h]

/-- The second session goes on where the first ends. -/
theorem run_seq_of_ok {a : α} {mid : Store} (h : session.run.run s = (.ok a, mid)) :
    (session >>= next).run.run s = (next a).run.run mid := by
  rw [run_seq, h]

/-- Where a refusal comes from: from the first session, or from the second. -/
theorem error_of_seq (h : (session >>= next).run.run s = (.error e, after)) :
    session.run.run s = (.error e, after) ∨
      ∃ a mid, session.run.run s = (.ok a, mid) ∧ (next a).run.run mid = (.error e, after) := by
  cases hrun : session.run.run s with
  | mk result mid =>
    cases result with
    | error e' =>
      rw [run_seq_of_error hrun] at h
      cases h
      exact .inl rfl
    | ok a =>
      rw [run_seq_of_ok hrun] at h
      exact .inr ⟨a, mid, rfl, h⟩

theorem run_ask (r : StoreRequest) (s : Store) :
    (ask r).run.run s = ((Store.serve r s).1.mapError .store, (Store.serve r s).2) := by
  change Session.run _ (Store.serve r s).2 = _
  cases (Store.serve r s).1 <;> rfl

theorem run_checkGroup (id : String) (s : Store) :
    (checkGroup id).run.run s =
      (if id = groupId then .ok () else .error (.unknownNodeGroup id), s) := by
  unfold checkGroup
  split <;> rfl

theorem toInt_nonpos {delta : Int32} (h : delta ≤ 0) : delta.toInt ≤ 0 := by
  have hle := Int32.le_iff_toInt_le.1 h
  rwa [Int32.toInt_zero] at hle

/-- A change by nothing or less picks no machine. -/
theorem candidates_nonpos (source : PowerState) {delta : Int32} (h : delta ≤ 0) (servers : List Server) :
    candidates source delta.toInt.toNat servers = [] := by
  rw [Int.toNat_of_nonpos (toInt_nonpos h)]
  rfl

/-- A remote call is the call, its refusal told as a status. -/
theorem hold_serve {σ : Type} (answer : (r : StoreRequest) → σ → Except StoreError r.Answer × σ)
    (m : RpcMethod) (request : m.Request) (t : σ) :
    (serve m request).hold answer t =
      (((handle m request).run.hold answer t).1.mapError fun e => e.toStatus.received,
        ((handle m request).run.hold answer t).2) := by
  refine (Session.hold_bind answer (handle m request).run _ t).trans ?_
  obtain ⟨result, after⟩ := (handle m request).run.hold answer t
  cases result <;> rfl

theorem run_serve (m : RpcMethod) (request : m.Request) (s : Store) :
    (serve m request).run s =
      (((handle m request).run.run s).1.mapError fun e => e.toStatus.received,
        ((handle m request).run.run s).2) :=
  hold_serve Store.serve m request s

end MetalPool.Pool
