import MetalPool.Proofs.Config.Times
/-!
# Which environments are accepted

An environment gives a configuration if it meets a list of conditions, and is
refused with the error of the first that it does not meet. `Condition.Holds` and
`Condition.Violated` say what each of them asks of the variables, `Describes` what
the configuration takes from them, and `Enforces` is how the checks of the code
add up to the list (`enforces_ofLookup`).

All that counts of a variable is the text in it, and no text is the empty one: so
environments that agree in this come to the same (`conditions_decide`).
-/

namespace MetalPool.Config

/-! ## What variables give -/

/-- Nothing is set, or the empty text. -/
def Unset (lookup : Lookup) (name : String) : Prop := lookup name = none ∨ lookup name = some ""

/-- The variable is set to a text that is not empty. -/
structure SetTo (lookup : Lookup) (name text : String) : Prop where
  eq_some : lookup name = some text
  ne_empty : text ≠ ""

/-- What a variable gives: the default where nothing is set, and else what its text is read as. -/
inductive Gives {β : Type} (lookup : Lookup) (name : String) (default : β) (reads : String → β → Prop) :
    β → Prop where
  | unset (h : Unset lookup name) : Gives lookup name default reads default
  | set {text : String} {b : β} (h : SetTo lookup name text) (hr : reads text b) :
    Gives lookup name default reads b

abbrev GivesText (lookup : Lookup) (name default : String) : String → Prop :=
  Gives lookup name default fun text t => t = text

/-- The file that a variable names, if it names one. -/
abbrev GivesPath (lookup : Lookup) (name : String) : Option String → Prop :=
  Gives lookup name none fun text path => path = some text

abbrev GivesAddress (lookup : Lookup) (name : String) (default : SocketAddress) : SocketAddress → Prop :=
  Gives lookup name default fun text a => SocketAddress.parse? text = some a

/-- A variable that holds a number. -/
structure NumberVariable where
  name : String
  max : Nat
  default : Nat

/-- The number that the variable gives. -/
abbrev NumberVariable.Gives (v : NumberVariable) (lookup : Lookup) : Nat → Prop :=
  Config.Gives lookup v.name v.default fun text n => Text.readNumber v.max text = .ok n

def requeueSeconds : NumberVariable := ⟨"REQUEUE_INTERVAL_SECS", 18446744073709551615, 60⟩
def resyncSeconds : NumberVariable := ⟨"RESYNC_INTERVAL_SECS", 18446744073709551615, 300⟩
def threshold : NumberVariable := ⟨"FAILURE_THRESHOLD", 4294967295, 3⟩
def wakePortNumber : NumberVariable := ⟨"WOL_DEFAULT_PORT", 65535, 9⟩
def sshSeconds : NumberVariable := ⟨"SSH_TIMEOUT_SECS", 18446744073709551615, 10⟩
def ipmiSeconds : NumberVariable := ⟨"IPMI_TIMEOUT_SECS", 18446744073709551615, 20⟩

/-- The variables that name the files for TLS. -/
def tlsVariables : List String := ["GRPC_TLS_CERT", "GRPC_TLS_KEY", "GRPC_TLS_CA"]

/-- All variables that are looked at. -/
def allVariables : List String :=
  ["GRPC_ADDRESS", "GRPC_TLS_CERT", "GRPC_TLS_KEY", "GRPC_TLS_CA", "REQUEUE_INTERVAL_SECS",
    "RESYNC_INTERVAL_SECS", "FAILURE_THRESHOLD", "WOL_DEFAULT_PORT", "WOL_BROADCAST_ADDRESS", "SSH_USER",
    "SSH_KEY_PATH", "SSH_TIMEOUT_SECS", "IPMITOOL_PATH", "IPMI_TIMEOUT_SECS", "METRICS_ADDRESS"]

/-- The configuration has in each field what its variable gives. -/
structure Describes (lookup : Lookup) (config : Config) : Prop where
  listenAddress : GivesText lookup "GRPC_ADDRESS" "0.0.0.0:8086" config.listener.address
  cert : GivesPath lookup "GRPC_TLS_CERT" config.listener.cert
  key : GivesPath lookup "GRPC_TLS_KEY" config.listener.key
  ca : GivesPath lookup "GRPC_TLS_CA" config.listener.ca
  requeue : ∃ n, requeueSeconds.Gives lookup n ∧ config.requeueInterval = .ofSeconds n
  resync : ∃ n, resyncSeconds.Gives lookup n ∧ config.resyncInterval = .ofSeconds n
  failureThreshold : threshold.Gives lookup config.failureThreshold.toNat
  wakePort : wakePortNumber.Gives lookup config.wakePort.toNat
  wakeBroadcast : GivesText lookup "WOL_BROADCAST_ADDRESS" "255.255.255.255" config.wakeBroadcast
  sshUser : GivesText lookup "SSH_USER" "root" config.sshUser
  sshKeyPath : GivesPath lookup "SSH_KEY_PATH" config.sshKeyPath
  sshTimeout : ∃ n, sshSeconds.Gives lookup n ∧ config.sshTimeout = .ofSeconds n
  ipmitoolPath : GivesText lookup "IPMITOOL_PATH" "ipmitool" config.ipmitoolPath
  ipmiTimeout : ∃ n, ipmiSeconds.Gives lookup n ∧ config.ipmiTimeout = .ofSeconds n
  metricsAddress : GivesAddress lookup "METRICS_ADDRESS" (.v4 ⟨0, 0, 0, 0⟩ 8080) config.metricsAddress

/-! ## Conditions -/

/-- A condition that an environment must meet. -/
inductive Condition where
  /-- The address to listen at is unset or an address. -/
  | listenAddress
  /-- All three files for TLS are named, or none. -/
  | tlsFiles
  /-- The variable is unset or holds a number in its range. -/
  | number (v : NumberVariable)
  /-- The number that the variable gives is not zero. -/
  | nonzero (v : NumberVariable)
  /-- The address of the counters is unset or an address. -/
  | metricsAddress

/-- The conditions in the order in which they are checked. -/
def conditions : List Condition :=
  [.listenAddress, .tlsFiles, .number requeueSeconds, .nonzero requeueSeconds, .number resyncSeconds,
    .nonzero resyncSeconds, .number threshold, .nonzero threshold, .number wakePortNumber,
    .number sshSeconds, .number ipmiSeconds, .metricsAddress]

/-- The variable is unset, or an address stands in it. -/
def HoldsAddress (lookup : Lookup) (name : String) : Prop :=
  Unset lookup name ∨ ∃ text a, SetTo lookup name text ∧ SocketAddress.parse? text = some a

namespace Condition

/-- What the condition asks of the variables. -/
def Holds (lookup : Lookup) : Condition → Prop
  | listenAddress => HoldsAddress lookup "GRPC_ADDRESS"
  | tlsFiles => (∀ name ∈ tlsVariables, Unset lookup name) ∨ ∀ name ∈ tlsVariables, ¬Unset lookup name
  | number v =>
    Unset lookup v.name ∨ ∃ text n, SetTo lookup v.name text ∧ Text.readNumber v.max text = .ok n
  | nonzero v => ∀ n, v.Gives lookup n → n ≠ 0
  | metricsAddress => HoldsAddress lookup "METRICS_ADDRESS"

/-- The condition does not hold, and what is said of that. -/
inductive Violated (lookup : Lookup) : Condition → ConfigError → Prop where
  | listenAddress {text : String} (h : SetTo lookup "GRPC_ADDRESS" text)
    (hp : SocketAddress.parse? text = none) :
    Violated lookup listenAddress (.listener (.addressInvalid text))
  | tlsFiles (hset : ∃ name ∈ tlsVariables, ¬Unset lookup name)
    (hunset : ∃ name ∈ tlsVariables, Unset lookup name) :
    Violated lookup tlsFiles (.listener .partialTls)
  | number {v : NumberVariable} {text : String} {e : Text.NumberError} (h : SetTo lookup v.name text)
    (hr : Text.readNumber v.max text = .error e) :
    Violated lookup (number v) (.number v.name text e)
  | nonzero {v : NumberVariable} (h : v.Gives lookup 0) : Violated lookup (nonzero v) (.zero v.name)
  | metricsAddress {text : String} (h : SetTo lookup "METRICS_ADDRESS" text)
    (hp : SocketAddress.parse? text = none) :
    Violated lookup metricsAddress (.address "METRICS_ADDRESS" text)

end Condition

/-- The error is that of the first of the conditions that does not hold. -/
inductive FirstViolated (lookup : Lookup) (e : ConfigError) : List Condition → Prop where
  | here {c : Condition} {rest : List Condition} (h : c.Violated lookup e) :
    FirstViolated lookup e (c :: rest)
  | later {c : Condition} {rest : List Condition} (h : c.Holds lookup)
    (hrest : FirstViolated lookup e rest) : FirstViolated lookup e (c :: rest)

section

variable {lookup : Lookup} {name text text' : String} {e e' : ConfigError} {c : Condition}
  {cs ds : List Condition} {v : NumberVariable}

/-! ## Variables -/

theorem value?_eq_some : value? lookup name = some text ↔ SetTo lookup name text := by
  unfold value?
  rw [Option.filter_eq_some_iff, decide_eq_true_iff]
  exact ⟨fun h => ⟨h.1, h.2⟩, fun h => ⟨h.eq_some, h.ne_empty⟩⟩

theorem value?_eq_none : value? lookup name = none ↔ Unset lookup name := by
  unfold value? Unset
  cases lookup name <;> simp [Option.filter]

theorem SetTo.not_unset (h : SetTo lookup name text) : ¬Unset lookup name := by
  rw [← value?_eq_none, value?_eq_some.2 h]
  nofun

theorem SetTo.unique (h : SetTo lookup name text) (h' : SetTo lookup name text') : text = text' :=
  Option.some.inj (h.eq_some.symm.trans h'.eq_some)

theorem unset_or_setTo (lookup : Lookup) (name : String) :
    Unset lookup name ∨ ∃ text, SetTo lookup name text := by
  cases h : value? lookup name with
  | none => exact .inl (value?_eq_none.1 h)
  | some text => exact .inr ⟨text, value?_eq_some.1 h⟩

theorem givesText_text (lookup : Lookup) (name default : String) :
    GivesText lookup name default (Config.text lookup name default) := by
  unfold Config.text
  cases h : value? lookup name with
  | none => exact .unset (value?_eq_none.1 h)
  | some text => exact .set (value?_eq_some.1 h) rfl

theorem givesPath_value? (lookup : Lookup) (name : String) : GivesPath lookup name (value? lookup name) := by
  cases h : value? lookup name with
  | none => exact .unset (value?_eq_none.1 h)
  | some text => exact .set (value?_eq_some.1 h) rfl

theorem le_of_gives {n : Nat} (hdefault : v.default ≤ v.max) (h : v.Gives lookup n) : n ≤ v.max := by
  cases h with
  | unset => exact hdefault
  | set _ hr => exact Text.le_of_readNumber hr

theorem Gives.unique {β : Type} {default a b : β} {reads : String → β → Prop}
    (hreads : ∀ {text a b}, reads text a → reads text b → a = b)
    (h : Gives lookup name default reads a) (h' : Gives lookup name default reads b) : a = b := by
  cases h with
  | unset hu =>
    cases h' with
    | unset => rfl
    | set hs => exact absurd hu hs.not_unset
  | set hs hr =>
    cases h' with
    | unset hu => exact absurd hu hs.not_unset
    | set hs' hr' => exact hreads (hs.unique hs' ▸ hr) hr'

theorem givesText_unique {default a b : String} (h : GivesText lookup name default a)
    (h' : GivesText lookup name default b) : a = b :=
  h.unique (fun ha hb => ha.trans hb.symm) h'

theorem givesPath_unique {a b : Option String} (h : GivesPath lookup name a)
    (h' : GivesPath lookup name b) : a = b :=
  h.unique (fun ha hb => ha.trans hb.symm) h'

theorem givesAddress_unique {default a b : SocketAddress} (h : GivesAddress lookup name default a)
    (h' : GivesAddress lookup name default b) : a = b :=
  h.unique (fun ha hb => Option.some.inj (ha.symm.trans hb)) h'

theorem givesNumber_unique {n m : Nat} (h : v.Gives lookup n) (h' : v.Gives lookup m) : n = m :=
  h.unique (fun ha hb => Except.ok.inj (ha.symm.trans hb)) h'

theorem givesSpan_unique {s t : Span} (h : ∃ n, v.Gives lookup n ∧ s = .ofSeconds n)
    (h' : ∃ n, v.Gives lookup n ∧ t = .ofSeconds n) : s = t := by
  obtain ⟨n, hn, rfl⟩ := h
  obtain ⟨m, hm, rfl⟩ := h'
  rw [givesNumber_unique hn hm]

/-- An environment describes one configuration at most. -/
theorem Describes.unique {config config' : Config} (h : Describes lookup config)
    (h' : Describes lookup config') : config = config' := by
  obtain ⟨⟨_, _, _, _⟩, _, _, _, _, _, _, _, _, _, _, _⟩ := config
  obtain ⟨⟨_, _, _, _⟩, _, _, _, _, _, _, _, _, _, _, _⟩ := config'
  obtain rfl := givesText_unique h.listenAddress h'.listenAddress
  obtain rfl := givesPath_unique h.cert h'.cert
  obtain rfl := givesPath_unique h.key h'.key
  obtain rfl := givesPath_unique h.ca h'.ca
  obtain rfl := givesSpan_unique h.requeue h'.requeue
  obtain rfl := givesSpan_unique h.resync h'.resync
  obtain rfl := UInt32.toNat_inj.1 (givesNumber_unique h.failureThreshold h'.failureThreshold)
  obtain rfl := UInt16.toNat_inj.1 (givesNumber_unique h.wakePort h'.wakePort)
  obtain rfl := givesText_unique h.wakeBroadcast h'.wakeBroadcast
  obtain rfl := givesText_unique h.sshUser h'.sshUser
  obtain rfl := givesPath_unique h.sshKeyPath h'.sshKeyPath
  obtain rfl := givesSpan_unique h.sshTimeout h'.sshTimeout
  obtain rfl := givesText_unique h.ipmitoolPath h'.ipmitoolPath
  obtain rfl := givesSpan_unique h.ipmiTimeout h'.ipmiTimeout
  obtain rfl := givesAddress_unique h.metricsAddress h'.metricsAddress
  rfl

/-! ## What the checks enforce -/

/-- If the conditions hold the computation comes to a result, which is as `P` says, and otherwise to the
error of the first that does not hold. -/
structure Enforces (lookup : Lookup) (cs : List Condition) {α : Type} (P : α → Prop)
    (x : Except ConfigError α) : Prop where
  ok_iff : (∃ a, x = .ok a) ↔ ∀ c ∈ cs, c.Holds lookup
  of_ok : ∀ a, x = .ok a → P a
  error_iff : ∀ e, x = .error e ↔ FirstViolated lookup e cs

theorem firstViolated_append :
    FirstViolated lookup e (cs ++ ds) ↔
      FirstViolated lookup e cs ∨ (∀ c ∈ cs, c.Holds lookup) ∧ FirstViolated lookup e ds := by
  induction cs with
  | nil =>
    constructor
    · exact fun h => .inr ⟨nofun, h⟩
    · rintro (h | ⟨-, h⟩)
      · cases h
      · exact h
  | cons c rest ih =>
    constructor
    · intro h
      cases h with
      | here h => exact .inl (.here h)
      | later h hrest =>
        rcases ih.1 hrest with hfirst | ⟨hall, hfirst⟩
        · exact .inl (.later h hfirst)
        · exact .inr ⟨List.forall_mem_cons.2 ⟨h, hall⟩, hfirst⟩
    · rintro (h | ⟨hall, h⟩)
      · cases h with
        | here h => exact .here h
        | later h hrest => exact .later h (ih.2 (.inl hrest))
      · obtain ⟨hc, hall⟩ := List.forall_mem_cons.1 hall
        exact .later hc (ih.2 (.inr ⟨hall, h⟩))

theorem Condition.Violated.not_holds (h : c.Violated lookup e) : ¬c.Holds lookup := by
  cases h with
  | listenAddress h hp | metricsAddress h hp =>
    rintro (hu | ⟨text, a, hs, ha⟩)
    · exact h.not_unset hu
    · rw [h.unique hs, ha] at hp
      cases hp
  | tlsFiles hset hunset =>
    obtain ⟨name, hname, hset⟩ := hset
    obtain ⟨name', hname', hunset⟩ := hunset
    rintro (hall | hall)
    · exact hset (hall name hname)
    · exact hall name' hname' hunset
  | number h hr =>
    rintro (hu | ⟨text, n, hs, hn⟩)
    · exact h.not_unset hu
    · rw [h.unique hs, hn] at hr
      cases hr
  | nonzero h => exact fun hall => hall 0 h rfl

/-- There is one thing to say of a condition that does not hold. -/
theorem Condition.Violated.unique (h : c.Violated lookup e) (h' : c.Violated lookup e') : e = e' := by
  cases h with
  | listenAddress h =>
    cases h' with
    | listenAddress h' => rw [h.unique h']
  | tlsFiles => cases h'; rfl
  | number h hr =>
    cases h' with
    | number h' hr' =>
      obtain rfl := h.unique h'
      rw [Except.error.inj (hr.symm.trans hr')]
  | nonzero => cases h'; rfl
  | metricsAddress h =>
    cases h' with
    | metricsAddress h' => rw [h.unique h']

section

variable {α β : Type} {x : Except ConfigError α} {f : α → Except ConfigError β} {P : α → Prop}
  {Q : β → Prop}

theorem enforces_ok {a : α} (h : P a) : Enforces lookup [] P (.ok a) where
  ok_iff := iff_of_true ⟨a, rfl⟩ nofun
  of_ok _ ha := Except.ok.inj ha ▸ h
  error_iff _ := iff_of_false nofun nofun

theorem enforces_error (h : c.Violated lookup e) : Enforces lookup (c :: cs) P (.error e) where
  ok_iff := iff_of_false nofun fun hall => h.not_holds (hall c List.mem_cons_self)
  of_ok := nofun
  error_iff e' := by
    constructor
    · intro he
      cases he
      exact .here h
    · intro hfirst
      cases hfirst with
      | here h' => rw [h.unique h']
      | later hc => exact absurd hc h.not_holds

theorem Enforces.cons (hc : c.Holds lookup) (h : Enforces lookup cs P x) : Enforces lookup (c :: cs) P x where
  ok_iff := by
    rw [h.ok_iff, List.forall_mem_cons]
    exact ⟨fun hall => ⟨hc, hall⟩, fun hall => hall.2⟩
  of_ok := h.of_ok
  error_iff e := by
    rw [h.error_iff]
    constructor
    · exact .later hc
    · intro hfirst
      cases hfirst with
      | here hv => exact absurd hc hv.not_holds
      | later _ hrest => exact hrest

/-- One check after the other enforces the conditions of both, those of the first check before those of the
second. -/
theorem Enforces.bind (hx : Enforces lookup cs P x) (hf : ∀ a, P a → Enforces lookup ds Q (f a)) :
    Enforces lookup (cs ++ ds) Q (x >>= f) := by
  cases x with
  | error e =>
    have hnot : ¬∀ c ∈ cs, c.Holds lookup := fun hall => nomatch hx.ok_iff.2 hall
    refine ⟨iff_of_false nofun fun hall => hnot fun c hc => hall c (List.mem_append_left ds hc), nofun,
      fun e' => ?_⟩
    rw [firstViolated_append, ← hx.error_iff e']
    constructor
    · exact fun h => .inl (congrArg _ (Except.error.inj h))
    · rintro (h | ⟨hall, -⟩)
      · exact congrArg _ (Except.error.inj h)
      · exact absurd hall hnot
  | ok a =>
    have hall : ∀ c ∈ cs, c.Holds lookup := hx.ok_iff.1 ⟨a, rfl⟩
    have hrest : Enforces lookup ds Q (f a) := hf a (hx.of_ok a rfl)
    refine ⟨hrest.ok_iff.trans ?_, hrest.of_ok, fun e => (hrest.error_iff e).trans ?_⟩
    · rw [List.forall_mem_append]
      exact ⟨fun h => ⟨hall, h⟩, fun h => h.2⟩
    · rw [firstViolated_append, ← hx.error_iff e]
      exact ⟨fun h => .inr ⟨hall, h⟩, fun h => h.elim nofun fun h => h.2⟩

end

/-! ## One lemma for each check -/

theorem isSome_value? : (value? lookup name).isSome ↔ ¬Unset lookup name := by
  rw [← value?_eq_none, Option.isSome_iff_ne_none]

theorem isNone_value? : (value? lookup name).isNone ↔ Unset lookup name := by
  rw [← value?_eq_none, Option.isNone_iff_eq_none]

theorem usesTls_or_isPlain :
    ((listenerOf lookup).usesTls ∨ (listenerOf lookup).isPlain) ↔ Condition.tlsFiles.Holds lookup := by
  unfold Listener.usesTls Listener.isPlain listenerOf Condition.Holds tlsVariables
  simp only [Bool.and_eq_true, isSome_value?, isNone_value?, List.forall_mem_cons, List.not_mem_nil,
    false_implies, implies_true, and_true, and_assoc]
  exact or_comm

theorem tlsFiles_violated (h : ¬Condition.tlsFiles.Holds lookup) :
    Condition.tlsFiles.Violated lookup (.listener .partialTls) := by
  obtain ⟨hset, hunset⟩ := not_or.1 h
  simp only [Classical.not_forall, Classical.not_not] at hset hunset
  obtain ⟨name, hname, hset⟩ := hset
  obtain ⟨name', hname', hunset⟩ := hunset
  exact .tlsFiles ⟨name, hname, hset⟩ ⟨name', hname', hunset⟩

theorem enforces_tls (lookup : Lookup) (a : SocketAddress) :
    Enforces lookup [.tlsFiles] (fun _ => True)
      ((if (listenerOf lookup).usesTls ∨ (listenerOf lookup).isPlain then .ok a
        else .error .partialTls : Except ListenerError SocketAddress).mapError .listener) := by
  by_cases h : (listenerOf lookup).usesTls ∨ (listenerOf lookup).isPlain
  · rw [if_pos h]
    exact (enforces_ok trivial).cons (usesTls_or_isPlain.1 h)
  · rw [if_neg h]
    exact enforces_error (tlsFiles_violated (h ∘ usesTls_or_isPlain.2))

theorem enforces_listener (lookup : Lookup) :
    Enforces lookup [.listenAddress, .tlsFiles] (fun _ => True)
      ((listenerOf lookup).validate.mapError .listener) := by
  have hdefault : SocketAddress.parse? "0.0.0.0:8086" = some (.v4 ⟨0, 0, 0, 0⟩ 8086) := by
    decide +kernel
  have hgives : GivesText lookup "GRPC_ADDRESS" "0.0.0.0:8086" (listenerOf lookup).address :=
    givesText_text ..
  unfold Listener.validate
  generalize (listenerOf lookup).address = text at hgives ⊢
  cases hgives with
  | unset hu =>
    rw [if_neg (by decide), hdefault]
    exact (enforces_tls lookup _).cons (.inl hu)
  | set hs heq =>
    obtain rfl := heq
    rw [if_neg hs.ne_empty]
    cases hp : SocketAddress.parse? text with
    | none => exact enforces_error (.listenAddress hs hp)
    | some a => exact (enforces_tls lookup a).cons (.inr ⟨text, a, hs, hp⟩)

theorem enforces_number (lookup : Lookup) (v : NumberVariable) :
    Enforces lookup [.number v] (v.Gives lookup) (Config.number lookup v.name v.max v.default) := by
  unfold Config.number
  rcases unset_or_setTo lookup v.name with hu | ⟨text, hs⟩
  · rw [value?_eq_none.2 hu]
    exact (enforces_ok (.unset hu)).cons (.inl hu)
  · rw [value?_eq_some.2 hs]
    cases hr : Text.readNumber v.max text with
    | error e =>
      simp only [hr]
      exact enforces_error (.number hs hr)
    | ok n =>
      simp only [hr]
      exact (enforces_ok (.set hs hr)).cons (.inr ⟨text, n, hs, hr⟩)

theorem enforces_positive (lookup : Lookup) (v : NumberVariable) :
    Enforces lookup [.number v, .nonzero v] (v.Gives lookup)
      (positive lookup v.name v.max v.default) := by
  refine (enforces_number lookup v).bind fun n hn => ?_
  by_cases hzero : n = 0
  · rw [if_pos hzero]
    exact enforces_error (.nonzero (hzero ▸ hn))
  · rw [if_neg hzero]
    exact (enforces_ok hn).cons fun m hm => givesNumber_unique hn hm ▸ hzero

theorem enforces_metricsAddress (lookup : Lookup) :
    Enforces lookup [.metricsAddress] (GivesAddress lookup "METRICS_ADDRESS" (.v4 ⟨0, 0, 0, 0⟩ 8080))
      (address lookup "METRICS_ADDRESS" "0.0.0.0:8080") := by
  have hdefault : SocketAddress.parse? "0.0.0.0:8080" = some (.v4 ⟨0, 0, 0, 0⟩ 8080) := by
    decide +kernel
  have hgives := givesText_text lookup "METRICS_ADDRESS" "0.0.0.0:8080"
  unfold address
  generalize Config.text lookup "METRICS_ADDRESS" "0.0.0.0:8080" = text at hgives ⊢
  cases hgives with
  | unset hu =>
    simp only [hdefault]
    exact (enforces_ok (.unset hu)).cons (.inl hu)
  | set hs heq =>
    obtain rfl := heq
    cases hp : SocketAddress.parse? text with
    | none =>
      simp only [hp]
      exact enforces_error (.metricsAddress hs hp)
    | some a =>
      simp only [hp]
      exact (enforces_ok (.set hs hp)).cons (.inr ⟨text, a, hs, hp⟩)

/-- The checks of an environment are the conditions in their order. -/
theorem enforces_ofLookup (lookup : Lookup) :
    Enforces lookup conditions (Describes lookup) (ofLookup lookup) :=
  (enforces_listener lookup).bind fun _ _ =>
  (enforces_positive lookup requeueSeconds).bind fun requeue hrequeue =>
  (enforces_positive lookup resyncSeconds).bind fun resync hresync =>
  (enforces_positive lookup threshold).bind fun failures hfailures =>
  (enforces_number lookup wakePortNumber).bind fun port hport =>
  (enforces_number lookup sshSeconds).bind fun ssh hssh =>
  (enforces_number lookup ipmiSeconds).bind fun ipmi hipmi =>
  (enforces_metricsAddress lookup).bind fun metrics hmetrics =>
  have hfailuresFit : (UInt32.ofNat failures).toNat = failures :=
    UInt32.toNat_ofNat_of_lt' (Nat.lt_succ_of_le (le_of_gives (by decide) hfailures))
  have hportFits : (UInt16.ofNat port).toNat = port :=
    UInt16.toNat_ofNat_of_lt' (Nat.lt_succ_of_le (le_of_gives (by decide) hport))
  enforces_ok
    { listenAddress := givesText_text ..
      cert := givesPath_value? ..
      key := givesPath_value? ..
      ca := givesPath_value? ..
      requeue := ⟨requeue, hrequeue, rfl⟩
      resync := ⟨resync, hresync, rfl⟩
      failureThreshold := hfailuresFit.symm ▸ hfailures
      wakePort := hportFits.symm ▸ hport
      wakeBroadcast := givesText_text ..
      sshUser := givesText_text ..
      sshKeyPath := givesPath_value? ..
      sshTimeout := ⟨ssh, hssh, rfl⟩
      ipmitoolPath := givesText_text ..
      ipmiTimeout := ⟨ipmi, hipmi, rfl⟩
      metricsAddress := hmetrics }

/-! ## Environments alike -/

theorem value?_eq_of_getD {lookup' : Lookup} (h : (lookup name).getD "" = (lookup' name).getD "") :
    value? lookup name = value? lookup' name := by
  have hvalue : ∀ l : Lookup,
      value? l name = if (l name).getD "" = "" then none else some ((l name).getD "") := by
    intro l
    unfold value?
    cases l name with
    | none => rfl
    | some text => by_cases ht : text = "" <;> simp [ht]
  rw [hvalue, hvalue, h]

theorem ofLookup_congr {lookup' : Lookup}
    (h : ∀ name ∈ allVariables, value? lookup name = value? lookup' name) :
    ofLookup lookup = ofLookup lookup' := by
  simp only [allVariables, List.forall_mem_cons, List.not_mem_nil, false_implies, implies_true, and_true] at h
  obtain ⟨hlisten, hcert, hkey, hca, hrequeue, hresync, hthreshold, hport, hbroadcast, huser, hkeyPath,
    hssh, hipmitool, hipmi, hmetrics⟩ := h
  simp only [ofLookup, listenerOf, positive, number, address, Config.text, hlisten, hcert, hkey, hca,
    hrequeue, hresync, hthreshold, hport, hbroadcast, huser, hkeyPath, hssh, hipmitool, hipmi, hmetrics]

end

/-! ## Main theorem -/

/-- An environment gives a configuration exactly if it meets all the conditions, and the one that it
describes. If it does not, the error is that of the first condition that it does not meet. Only the texts in
the variables count, where the empty one is none: whatever else is set comes to the same. -/
theorem conditions_decide (lookup : Lookup) :
    ((∃ config, ofLookup lookup = .ok config) ↔ ∀ c ∈ conditions, c.Holds lookup) ∧
    (∀ config, ofLookup lookup = .ok config ↔
      (∀ c ∈ conditions, c.Holds lookup) ∧ Describes lookup config) ∧
    (∀ e, ofLookup lookup = .error e ↔ FirstViolated lookup e conditions) ∧
    ∀ lookup' : Lookup, (∀ name ∈ allVariables, (lookup' name).getD "" = (lookup name).getD "") →
      ofLookup lookup' = ofLookup lookup := by
  have h := enforces_ofLookup lookup
  refine ⟨h.ok_iff, fun config => ⟨fun hok => ?_, fun ⟨hall, hdescribes⟩ => ?_⟩, h.error_iff,
    fun lookup' hsame => ofLookup_congr fun name hname => value?_eq_of_getD (hsame name hname)⟩
  · exact ⟨h.ok_iff.1 ⟨config, hok⟩, h.of_ok config hok⟩
  · obtain ⟨config', hok⟩ := h.ok_iff.2 hall
    rw [hok, (h.of_ok config' hok).unique hdescribes]

/-- Of two faults the first is told, and neither an empty user nor a variable of another name makes a
difference. -/
theorem conditions_decide_partial :
    let faulty : Lookup := fun name =>
      if name = "GRPC_TLS_CERT" then some "/tls/tls.crt"
      else if name = "FAILURE_THRESHOLD" then some "0"
      else none
    let cluttered : Lookup := fun name =>
      if name = "SSH_USER" then some "" else if name = "HOME" then some "/root" else faulty name
    FirstViolated faulty (.listener .partialTls) conditions ∧
      (∀ name ∈ allVariables, (cluttered name).getD "" = (faulty name).getD "") ∧
      ofLookup cluttered = .error (.listener .partialTls) := by
  intro faulty cluttered
  have hset : ∃ name ∈ tlsVariables, ¬Unset faulty name := by
    have hs : SetTo faulty "GRPC_TLS_CERT" "/tls/tls.crt" := ⟨rfl, by decide⟩
    exact ⟨_, by decide, hs.not_unset⟩
  have hunset : ∃ name ∈ tlsVariables, Unset faulty name := ⟨"GRPC_TLS_KEY", by decide, .inl rfl⟩
  have hfirst : FirstViolated faulty (.listener .partialTls) conditions :=
    .later (.inl (.inl rfl)) (.here (.tlsFiles hset hunset))
  have halike : ∀ name ∈ allVariables, (cluttered name).getD "" = (faulty name).getD "" := by decide +kernel
  obtain ⟨-, -, herror, hsame⟩ := conditions_decide faulty
  exact ⟨hfirst, halike, (hsame cluttered halike).trans ((herror _).2 hfirst)⟩

end MetalPool.Config
