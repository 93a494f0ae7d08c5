import MetalPool.Config
import MetalPool.Power.Ssh
import MetalPool.Proofs.Text.Decimal
import MetalPool.Watch.Gate
/-!
# The times of a configuration

Two times of a configuration are added to others later on: the time after which
a machine in transition is looked at again to the current time, and the time to
shut a machine down to a margin. Both are accepted up to the largest number of
64 bits (`accepted_iff`), and for the largest of them the sums are too large
(`largest_times_overflow`). `accepted_times_fit_iff` says for which they fit.
-/

namespace MetalPool

/-! ## Sums of times -/

namespace Instant

/-- The whole seconds since the start of the clock, less one where it is a time before. -/
def wholeSeconds (t : Instant) : Int := t.nanos / 1000000000

/-- A whole number of seconds takes an instant past the last one or not, whatever its fraction. -/
theorem add?_ofSeconds (t : Instant) (n : Nat) :
    t.add? (.ofSeconds n) =
      if t.wholeSeconds + n ≤ maxSeconds then .ok ⟨t.nanos + n * 1000000000⟩ else .error .instant := by
  have hsum : (t.nanos + ((Span.ofSeconds n).nanos : Int)) / 1000000000 = t.wholeSeconds + n := by
    simp only [Span.ofSeconds, wholeSeconds]
    omega
  simp only [add?, hsum]
  rfl

end Instant

theorem Gate.record_fst (gate : Gate) (key : String) (generation : Option Int64) (n : Nat)
    (now : Instant) :
    (gate.record key generation (some (.ofSeconds n)) now).1 =
      if now.wholeSeconds + n ≤ Instant.maxSeconds then .ok () else .error .instant := by
  unfold record
  simp only [Instant.add?_ofSeconds]
  by_cases hfits : now.wholeSeconds + n ≤ Instant.maxSeconds
  · simp only [if_pos hfits]
  · simp only [if_neg hfits]

theorem SshShutdown.deadline_ofSeconds {s : SshShutdown} {n : Nat} (h : s.timeout = .ofSeconds n) :
    s.deadline =
      if n + 5 ≤ Span.maxSeconds then .ok (.ofSeconds (n + 5)) else .error .span := by
  rw [deadline, h, Span.add?_ofSeconds]

/-- A machine is shut down, or that fails, in every case but that of a deadline that is too far away:
and a deadline is only set where there is a key. -/
theorem SshShutdown.shutdown_isOk_iff (s : SshShutdown) (host : String) (user : Option String)
    (t : Toolbox) :
    (∃ answer, s.shutdown host user t = .ok answer) ↔
      s.keyPath = none ∨ ∃ deadline, s.deadline = .ok deadline := by
  unfold shutdown
  cases s.keyPath with
  | none => exact iff_of_true ⟨_, rfl⟩ (.inl rfl)
  | some key =>
    cases s.deadline with
    | error e => exact iff_of_false (fun ⟨_, h⟩ => nomatch h) (by rintro (h | ⟨_, h⟩) <;> cases h)
    | ok deadline => exact iff_of_true ⟨_, rfl⟩ (.inr ⟨deadline, rfl⟩)

/-! ## Times that are accepted -/

namespace Config

/-- How the configuration says machines are shut down. -/
def sshShutdown (config : Config) : SshShutdown where
  keyPath := config.sshKeyPath
  defaultUser := config.sshUser
  timeout := config.sshTimeout

variable {lookup : Lookup} {config : Config}

theorem bind_eq_ok {ε α β : Type} {x : Except ε α} {f : α → Except ε β} {b : β}
    (h : x >>= f = .ok b) : ∃ a, x = .ok a ∧ f a = .ok b := by
  cases x with
  | error e => cases h
  | ok a => exact ⟨a, rfl, h⟩

theorem le_of_number {name : String} {max default n : Nat} (hdefault : default ≤ max)
    (h : number lookup name max default = .ok n) : n ≤ max := by
  unfold number at h
  split at h
  · cases h
    exact hdefault
  · rename_i value _
    cases hread : Text.readNumber max value with
    | error e =>
      rw [hread] at h
      cases h
    | ok m =>
      rw [hread] at h
      cases h
      exact Text.le_of_readNumber hread

theorem of_positive {name : String} {max default n : Nat}
    (h : positive lookup name max default = .ok n) :
    number lookup name max default = .ok n ∧ 0 < n := by
  obtain ⟨m, hm, h⟩ := bind_eq_ok h
  split at h
  · cases h
  · rename_i hne
    cases h
    exact ⟨hm, Nat.pos_of_ne_zero hne⟩

/-- The two times of a configuration, in seconds. -/
structure HasTimes (config : Config) (requeue ssh : Nat) : Prop where
  requeue_eq : config.requeueInterval = .ofSeconds requeue
  ssh_eq : config.sshTimeout = .ofSeconds ssh

theorem hasTimes_of_accepted (h : ofLookup lookup = .ok config) :
    ∃ requeue ssh, config.HasTimes requeue ssh ∧ 0 < requeue ∧ requeue ≤ uint64Max ∧
      ssh ≤ uint64Max := by
  unfold ofLookup at h
  obtain ⟨_, -, h⟩ := bind_eq_ok h
  obtain ⟨requeue, hrequeue, h⟩ := bind_eq_ok h
  obtain ⟨_, -, h⟩ := bind_eq_ok h
  obtain ⟨_, -, h⟩ := bind_eq_ok h
  obtain ⟨_, -, h⟩ := bind_eq_ok h
  obtain ⟨ssh, hssh, h⟩ := bind_eq_ok h
  obtain ⟨_, -, h⟩ := bind_eq_ok h
  obtain ⟨_, -, h⟩ := bind_eq_ok h
  cases h
  obtain ⟨hnumber, hpos⟩ := of_positive hrequeue
  exact ⟨requeue, ssh, ⟨rfl, rfl⟩, hpos, le_of_number (by decide) hnumber,
    le_of_number (by decide) hssh⟩

theorem number_of_set {name : String} {max default n : Nat} (h : lookup name = some n.repr)
    (hn : n ≤ max) : number lookup name max default = .ok n := by
  have hne : n.repr ≠ "" := by
    intro he
    have hlist := congrArg String.toList he
    rw [Nat.repr, String.toList_ofList] at hlist
    exact Nat.toDigits_ne_nil hlist
  have hvalue : value? lookup name = some n.repr := by
    simp only [value?, h, Option.filter_some, decide_eq_true hne, if_true]
  simp only [number, hvalue, Text.readNumber_repr hn]
  rfl

/-- Nothing is set but the two times and a key for shutting machines down. -/
def timesLookup (requeue ssh : Nat) : Lookup := fun name =>
  if name = "REQUEUE_INTERVAL_SECS" then some requeue.repr
  else if name = "SSH_TIMEOUT_SECS" then some ssh.repr
  else if name = "SSH_KEY_PATH" then some "/keys/id"
  else none

theorem accepted_timesLookup {requeue ssh : Nat} (hpos : 0 < requeue) (hrequeue : requeue ≤ uint64Max)
    (hssh : ssh ≤ uint64Max) :
    ∃ config, ofLookup (timesLookup requeue ssh) = .ok config ∧ config.HasTimes requeue ssh := by
  have hlistener : listenerOf (timesLookup requeue ssh) = {} := rfl
  have hvalid : ({} : Listener).validate = .ok (.v4 ⟨0, 0, 0, 0⟩ 8086) := by
    have hparse : SocketAddress.parse? defaultListenAddress = some (.v4 ⟨0, 0, 0, 0⟩ 8086) := by
      decide +kernel
    unfold Listener.validate
    simp only [hparse]
    rfl
  have hfirst : positive (timesLookup requeue ssh) "REQUEUE_INTERVAL_SECS" uint64Max 60 =
      .ok requeue := by
    have hset : timesLookup requeue ssh "REQUEUE_INTERVAL_SECS" = some requeue.repr := rfl
    simp only [positive, number_of_set hset hrequeue]
    exact if_neg (Nat.ne_of_gt hpos)
  have hsecond : number (timesLookup requeue ssh) "SSH_TIMEOUT_SECS" uint64Max 10 = .ok ssh := by
    have hset : timesLookup requeue ssh "SSH_TIMEOUT_SECS" = some ssh.repr := rfl
    exact number_of_set hset hssh
  have haddress : address (timesLookup requeue ssh) "METRICS_ADDRESS" "0.0.0.0:8080" =
      .ok (.v4 ⟨0, 0, 0, 0⟩ 8080) := by
    have hparse : SocketAddress.parse? "0.0.0.0:8080" = some (.v4 ⟨0, 0, 0, 0⟩ 8080) := by
      decide +kernel
    have htext : text (timesLookup requeue ssh) "METRICS_ADDRESS" "0.0.0.0:8080" = "0.0.0.0:8080" := rfl
    simp only [address, htext, hparse]
  unfold ofLookup
  simp only [hlistener, hvalid, hfirst, hsecond, haddress]
  exact ⟨_, rfl, rfl, rfl⟩

/-- What is accepted for the two times is every number of 64 bits, but no requeue without a delay. -/
theorem accepted_iff (requeue ssh : Nat) :
    (∃ lookup config, ofLookup lookup = .ok config ∧ config.HasTimes requeue ssh) ↔
      0 < requeue ∧ requeue ≤ uint64Max ∧ ssh ≤ uint64Max := by
  constructor
  · rintro ⟨lookup, config, h, hrequeue, hssh⟩
    obtain ⟨requeue', ssh', ⟨hrequeue', hssh'⟩, hbounds⟩ := hasTimes_of_accepted h
    have hsame : ∀ {n m : Nat}, Span.ofSeconds n = .ofSeconds m → n = m := fun {n m} he => by
      rw [← Span.wholeSeconds_ofSeconds n, he, Span.wholeSeconds_ofSeconds]
    rwa [hsame (hrequeue.symm.trans hrequeue'), hsame (hssh.symm.trans hssh')]
  · rintro ⟨hpos, hrequeue, hssh⟩
    obtain ⟨config, h, htimes⟩ := accepted_timesLookup hpos hrequeue hssh
    exact ⟨_, config, h, htimes⟩

/-! ## Main theorem -/

/-- Every number of 64 bits is accepted for the two times, but no requeue without a delay. Of a
configuration with these times, the requeue can be noted at a moment exactly if its seconds and those
of the clock make a number of 63 bits; and a shutdown has a deadline exactly if five seconds more
still make a number of 64 bits, or there is no key and it fails before. -/
theorem accepted_times_fit_iff (requeue ssh : Nat) :
    ((∃ lookup config, ofLookup lookup = .ok config ∧ config.HasTimes requeue ssh) ↔
      0 < requeue ∧ requeue ≤ uint64Max ∧ ssh ≤ uint64Max) ∧
    ∀ config : Config, config.HasTimes requeue ssh →
      (∀ (gate : Gate) (key : String) (generation : Option Int64) (now : Instant),
        (gate.record key generation (some config.requeueInterval) now).1 = .ok () ↔
          now.wholeSeconds + requeue ≤ Instant.maxSeconds) ∧
      ∀ (host : String) (user : Option String) (tools : Toolbox),
        (∃ answer, config.sshShutdown.shutdown host user tools = .ok answer) ↔
          config.sshKeyPath = none ∨ ssh + 5 ≤ Span.maxSeconds := by
  refine ⟨accepted_iff requeue ssh, fun config htimes => ⟨fun gate key generation now => ?_, ?_⟩⟩
  · rw [htimes.requeue_eq, Gate.record_fst]
    by_cases hfits : now.wholeSeconds + requeue ≤ Instant.maxSeconds
    · exact iff_of_true (if_pos hfits) hfits
    · rw [if_neg hfits]
      exact iff_of_false (fun h => nomatch h) hfits
  · intro host user tools
    have hdeadline : (∃ deadline, config.sshShutdown.deadline = .ok deadline) ↔
        ssh + 5 ≤ Span.maxSeconds := by
      rw [SshShutdown.deadline_ofSeconds htimes.ssh_eq]
      by_cases hfits : ssh + 5 ≤ Span.maxSeconds
      · exact iff_of_true ⟨_, if_pos hfits⟩ hfits
      · rw [if_neg hfits]
        exact iff_of_false (fun ⟨_, h⟩ => nomatch h) hfits
    rw [SshShutdown.shutdown_isOk_iff, hdeadline]
    exact Iff.rfl

/-- A requeue of 2^63 - 1 seconds can be noted in the first second of the clock and no later. -/
theorem accepted_times_fit_iff_last :
    ∃ config, ofLookup (timesLookup 9223372036854775807 10) = .ok config ∧
      (({} : Gate).record "m1" (some 1) (some config.requeueInterval) (.ofMillis 999)).1 = .ok () ∧
      (({} : Gate).record "m1" (some 1) (some config.requeueInterval) (.ofMillis 1000)).1 ≠ .ok () := by
  obtain ⟨config, h, htimes⟩ : ∃ config, ofLookup (timesLookup 9223372036854775807 10) = .ok config ∧
      config.HasTimes 9223372036854775807 10 :=
    accepted_timesLookup (by decide) (by decide) (by decide)
  have hnoted := ((accepted_times_fit_iff 9223372036854775807 10).2 config htimes).1 {} "m1" (some 1)
  exact ⟨config, h, (hnoted _).2 (by decide), fun hok => absurd ((hnoted _).1 hok) (by decide)⟩

/-- The largest times are accepted, and both sums with them are too large. -/
theorem largest_times_overflow :
    ∃ config, ofLookup (timesLookup 18446744073709551615 18446744073709551615) = .ok config ∧
      (({} : Gate).record "m1" (some 1) (some config.requeueInterval) (.ofSeconds 0)).1 =
        .error .instant ∧
      config.sshShutdown.shutdown "10.0.0.1" none { installed := ["ssh"] } = .error .span := by
  exact ⟨_, rfl, rfl, rfl⟩

end Config

end MetalPool
