import Mathlib.Data.List.Nodup
import CasperNodeProxy.Http.Server

/-!
# Starting up

What `run` makes of the environment and of the database.

* `parseUnsigned`, `AppConfig.fromEnv`: the environment; **`fromEnv_environment`**: what is written
  to it is read back.
* `backendFromUrl`, `loadNetworks`: the database; its tables and the order of the rows are given.
* `networkMap`, `listeners`, `run`: the networks that are served, and the listeners.
* **`run_serves`**: what is served is what the tables say, in whatever order the rows come.
-/

namespace CasperNodeProxy

/-! ## The environment -/

/-- `env::var`: what is set to a text. -/
abbrev Environment := String → Option String

/-- One digit, with the checks for an overflow. -/
def pushDigit (bound acc : ℕ) (c : Char) : Option ℕ :=
  if c.isDigit ∧ 10 * acc + (c.toNat - '0'.toNat) < bound then
    some (10 * acc + (c.toNat - '0'.toNat))
  else none

/-- `str::parse` for an unsigned type with so many values: digits, behind an optional `+`. -/
def parseUnsigned (bound : ℕ) (val : String) : Option ℕ :=
  match val.toList with
  | [] | ['+'] => none
  | '+' :: digits => digits.foldlM (pushDigit bound) 0
  | digits => digits.foldlM (pushDigit bound) 0

/-- The number of values of a `u32`. -/
def u32Values : ℕ := 2 ^ 32

/-- On a platform with 64 bits. -/
def usizeValues : ℕ := 2 ^ 64

/-- `env_string`. -/
def envString (env : Environment) (key default : String) : String := (env key).getD default

/-- What a variable is read as: a number of its type, or the default. -/
def envUnsigned (bound : ℕ) (env : Environment) (key : String) (default : ℕ) : ℕ :=
  ((env key).bind (parseUnsigned bound)).getD default

/-- `env_u32`. -/
def envU32 : Environment → String → ℕ → ℕ := envUnsigned u32Values

/-- `env_usize`. -/
def envUsize : Environment → String → ℕ → ℕ := envUnsigned usizeValues

/-- The settings of the proxy. -/
structure AppConfig where
  databaseUrl : String
  listenAddr : String
  metricsListenAddr : String
  rateLimitPerMin : ℕ
  rateLimitBurst : ℕ
  binaryRateLimitPerMin : ℕ
  binaryRateLimitBurst : ℕ
  sseBroadcastCapacity : ℕ
  sseBacklogLimit : ℕ
  binaryPoolSize : ℕ
  deriving DecidableEq

namespace AppConfig

/-- `from_env`; the limits of `/binary` default to the ones of the server. -/
def fromEnv (env : Environment) : AppConfig :=
  let rateLimitPerMin := envU32 env "RATE_LIMIT_PER_MIN" 60
  let rateLimitBurst := envU32 env "RATE_LIMIT_BURST" 20
  { databaseUrl := envString env "DATABASE_URL" "sqlite://./db.sqlite"
    listenAddr := envString env "BIND_ADDR" "0.0.0.0:8080"
    metricsListenAddr := envString env "METRICS_BIND_ADDR" "127.0.0.1:9090"
    rateLimitPerMin := rateLimitPerMin
    rateLimitBurst := rateLimitBurst
    binaryRateLimitPerMin := envU32 env "BINARY_RATE_LIMIT_PER_MIN" rateLimitPerMin
    binaryRateLimitBurst := envU32 env "BINARY_RATE_LIMIT_BURST" rateLimitBurst
    sseBroadcastCapacity := envUsize env "SSE_BROADCAST_CAPACITY" 256
    sseBacklogLimit := envUsize env "SSE_BACKLOG_LIMIT" 16384
    binaryPoolSize := envUsize env "BINARY_POOL_SIZE" 4 }

/-- The numbers are values of their types. -/
structure InRange (c : AppConfig) : Prop where
  rateLimitPerMin : c.rateLimitPerMin < u32Values
  rateLimitBurst : c.rateLimitBurst < u32Values
  binaryRateLimitPerMin : c.binaryRateLimitPerMin < u32Values
  binaryRateLimitBurst : c.binaryRateLimitBurst < u32Values
  sseBroadcastCapacity : c.sseBroadcastCapacity < usizeValues
  sseBacklogLimit : c.sseBacklogLimit < usizeValues
  binaryPoolSize : c.binaryPoolSize < usizeValues

/-- The environment in which everything is set. -/
def environment (c : AppConfig) : Environment := fun key => List.lookup key
  [("DATABASE_URL", c.databaseUrl),
    ("BIND_ADDR", c.listenAddr),
    ("METRICS_BIND_ADDR", c.metricsListenAddr),
    ("RATE_LIMIT_PER_MIN", toString c.rateLimitPerMin),
    ("RATE_LIMIT_BURST", toString c.rateLimitBurst),
    ("BINARY_RATE_LIMIT_PER_MIN", toString c.binaryRateLimitPerMin),
    ("BINARY_RATE_LIMIT_BURST", toString c.binaryRateLimitBurst),
    ("SSE_BROADCAST_CAPACITY", toString c.sseBroadcastCapacity),
    ("SSE_BACKLOG_LIMIT", toString c.sseBacklogLimit),
    ("BINARY_POOL_SIZE", toString c.binaryPoolSize)]

end AppConfig

/-! ## Numbers -/

theorem le_ofDigitChars (digits : List Char) (acc : ℕ) : acc ≤ Nat.ofDigitChars 10 digits acc := by
  rw [Nat.ofDigitChars_eq_ofDigitChars_zero]
  exact le_add_right (Nat.le_mul_of_pos_left acc (Nat.pow_pos (by decide)))

/-- The checks on the way do not matter: only the number itself can be too large. -/
theorem foldlM_pushDigit {bound n acc : ℕ} {digits : List Char} (hacc : acc < bound) :
    digits.foldlM (pushDigit bound) acc = some n ↔
      (∀ c ∈ digits, c.isDigit) ∧ Nat.ofDigitChars 10 digits acc = n ∧ n < bound := by
  induction digits generalizing acc with
  | nil =>
    constructor
    · rintro ⟨⟩
      exact ⟨by simp, rfl, hacc⟩
    · rintro ⟨-, rfl, -⟩
      rfl
  | cons c digits ih =>
    have hle := le_ofDigitChars digits (10 * acc + (c.toNat - '0'.toNat))
    rw [List.foldlM_cons, pushDigit, Nat.ofDigitChars_cons, List.forall_mem_cons]
    by_cases hc : c.isDigit ∧ 10 * acc + (c.toNat - '0'.toNat) < bound
    · rw [if_pos hc]
      refine (ih hc.2).trans ?_
      rw [and_iff_right hc.1]
    · rw [if_neg hc]
      refine iff_of_false nofun ?_
      rintro ⟨⟨hdigit, -⟩, rfl, hlt⟩
      exact hc ⟨hdigit, hle.trans_lt hlt⟩

/-- A text that is read as a number: digits, maybe behind a `+`. -/
structure Denotes (bound : ℕ) (val : String) (n : ℕ) (digits : List Char) : Prop where
  text : val.toList = digits ∨ val.toList = '+' :: digits
  decimal : digits ≠ [] ∧ ∀ c ∈ digits, c.isDigit
  value : Nat.ofDigitChars 10 digits 0 = n
  inRange : n < bound

/-- **Exactly these texts are read as a number.** -/
theorem parseUnsigned_iff {bound n : ℕ} {val : String} (hbound : 0 < bound) :
    parseUnsigned bound val = some n ↔ ∃ digits, Denotes bound val n digits := by
  have hplus : ('+' : Char).isDigit = false := by decide
  unfold parseUnsigned
  split
  · next hval =>
    refine iff_of_false nofun ?_
    rintro ⟨digits, htext | htext, ⟨hne, -⟩, -⟩
    · exact hne (htext.symm.trans hval)
    · cases htext.symm.trans hval
  · next hval =>
    refine iff_of_false nofun ?_
    rintro ⟨digits, htext | htext, ⟨hne, hall⟩, -⟩
    · rw [← htext, hval] at hall
      simp [hplus] at hall
    · cases htext.symm.trans hval
      exact hne rfl
  · next digits hnil hval =>
    rw [foldlM_pushDigit hbound]
    constructor
    · rintro ⟨hall, hvalue, hlt⟩
      exact ⟨digits, .inr hval, ⟨fun h => hnil (by rw [h]), hall⟩, hvalue, hlt⟩
    · rintro ⟨digits', htext | htext, ⟨-, hall⟩, hvalue, hlt⟩
      · rw [← htext, hval] at hall
        simp [hplus] at hall
      · cases hval.symm.trans htext
        exact ⟨hall, hvalue, hlt⟩
  · next hnil hsign hplus' =>
    rw [foldlM_pushDigit hbound]
    constructor
    · rintro ⟨hall, hvalue, hlt⟩
      exact ⟨val.toList, .inl rfl, ⟨hnil, hall⟩, hvalue, hlt⟩
    · rintro ⟨digits, htext | htext, ⟨-, hall⟩, hvalue, hlt⟩
      · rw [htext]
        exact ⟨hall, hvalue, hlt⟩
      · exact absurd htext (hplus' digits)

theorem parseUnsigned_toString {bound n : ℕ} (hn : n < bound) :
    parseUnsigned bound (toString n) = some n := by
  have hlist : (toString n).toList = Nat.toDigits 10 n := by
    rw [Nat.toString_eq_ofList_toDigits, String.toList_ofList]
  have hdecimal : Nat.toDigits 10 n ≠ [] ∧ ∀ c ∈ Nat.toDigits 10 n, c.isDigit :=
    ⟨List.ne_nil_of_length_pos Nat.length_toDigits_pos,
      fun c hc => Nat.isDigit_of_mem_toDigits (by decide) (by decide) hc⟩
  exact (parseUnsigned_iff (Nat.zero_lt_of_lt hn)).mpr
    ⟨_, .inl hlist, hdecimal, Nat.ofDigitChars_ten_toDigits, hn⟩

theorem envUnsigned_lt {bound default : ℕ} (hdefault : default < bound) (env : Environment)
    (key : String) : envUnsigned bound env key default < bound := by
  unfold envUnsigned
  cases h : (env key).bind (parseUnsigned bound) with
  | none => exact hdefault
  | some n =>
    obtain ⟨val, -, hn⟩ := Option.bind_eq_some_iff.mp h
    obtain ⟨digits, hdigits⟩ := (parseUnsigned_iff (Nat.zero_lt_of_lt hdefault)).mp hn
    exact hdigits.inRange

theorem fromEnv_inRange (env : Environment) : (AppConfig.fromEnv env).InRange := by
  have hperMin : envU32 env "RATE_LIMIT_PER_MIN" 60 < u32Values :=
    envUnsigned_lt (by decide) env _
  have hburst : envU32 env "RATE_LIMIT_BURST" 20 < u32Values := envUnsigned_lt (by decide) env _
  exact ⟨hperMin, hburst, envUnsigned_lt hperMin env _, envUnsigned_lt hburst env _,
    envUnsigned_lt (by decide) env _, envUnsigned_lt (by decide) env _,
    envUnsigned_lt (by decide) env _⟩

theorem envUnsigned_set {bound n : ℕ} (env : Environment) (key : String)
    (hset : env key = some (toString n)) (hn : n < bound) (default : ℕ) :
    envUnsigned bound env key default = n := by
  rw [envUnsigned, hset, Option.bind_some, parseUnsigned_toString hn, Option.getD_some]

/-- **What is written to the environment is read back.** -/
theorem fromEnv_environment {c : AppConfig} (h : c.InRange) :
    AppConfig.fromEnv c.environment = c := by
  unfold AppConfig.fromEnv envU32 envUsize
  dsimp only
  rw [envUnsigned_set c.environment "RATE_LIMIT_PER_MIN" rfl h.rateLimitPerMin,
    envUnsigned_set c.environment "RATE_LIMIT_BURST" rfl h.rateLimitBurst,
    envUnsigned_set c.environment "BINARY_RATE_LIMIT_PER_MIN" rfl h.binaryRateLimitPerMin,
    envUnsigned_set c.environment "BINARY_RATE_LIMIT_BURST" rfl h.binaryRateLimitBurst,
    envUnsigned_set c.environment "SSE_BROADCAST_CAPACITY" rfl h.sseBroadcastCapacity,
    envUnsigned_set c.environment "SSE_BACKLOG_LIMIT" rfl h.sseBacklogLimit,
    envUnsigned_set c.environment "BINARY_POOL_SIZE" rfl h.binaryPoolSize]
  rfl

/-! ## The database -/

/-- The databases that are supported. -/
inductive DbBackend
  | sqlite
  | postgres
  deriving DecidableEq

/-- What stands in front of the first `://`. -/
def schemeOf : List Char → Option (List Char)
  | ':' :: '/' :: '/' :: _ => some []
  | [] => none
  | c :: cs => (schemeOf cs).map (c :: ·)

/-- `backend_from_url`; a url without a scheme is a file of SQLite. -/
def backendFromUrl (databaseUrl : String) : Except String DbBackend :=
  match schemeOf databaseUrl.toList with
  | some scheme =>
    let scheme := String.ofList scheme
    if scheme = "postgres" ∨ scheme = "postgresql" then .ok .postgres
    else if scheme = "sqlite" then .ok .sqlite
    else .error ("unsupported DATABASE_URL scheme: " ++ scheme)
  | none => .ok .sqlite

namespace Models

/-- A row of the table `network`. -/
structure NetworkRow where
  networkName : String
  chainName : String

/-- A row of the table `config`. -/
structure ConfigRow where
  networkName : String
  rest : String
  sse : String
  rpc : String
  binary : String
  gossip : String

/-- `NetworkConfig` with all its columns. -/
structure NetworkConfig where
  networkName : String
  chainName : String
  rest : String
  sse : String
  rpc : String
  binary : String
  gossip : String

/-- `from_rows`: one row of the join. -/
def NetworkConfig.fromRows (network : NetworkRow) (config : ConfigRow) : NetworkConfig where
  networkName := network.networkName
  chainName := network.chainName
  rest := config.rest
  sse := config.sse
  rpc := config.rpc
  binary := config.binary
  gossip := config.gossip

end Models

open Models (NetworkRow ConfigRow)

/-- `load_networks`: the inner join of the two tables, in one of the orders that it may have. -/
def loadNetworks (networks : List NetworkRow) (configs : List ConfigRow) :
    List Models.NetworkConfig :=
  networks.flatMap fun network =>
    (configs.filter fun config => config.networkName = network.networkName).map
      (.fromRows network)

/-! ## `run` -/

/-- What is set up for a network: what handlers read of it, and the address of its binary port. -/
structure NetworkSetup where
  state : NetworkState
  address : String

/-- What `run` has made before it serves. -/
structure Startup where
  config : AppConfig
  /-- `network_map`. -/
  networks : List (String × NetworkSetup)
  /-- The calls of `spawn_listener`, with the name and the endpoint. -/
  listeners : List (String × String)

/-- What the loop of `run` makes of a row. -/
def setup (cfg : Models.NetworkConfig) : NetworkSetup :=
  ⟨⟨⟨cfg.networkName, cfg.chainName, cfg.rpc⟩⟩, cfg.binary⟩

/-- `network_map.insert` for one row after another. -/
def networkMap (rows : List Models.NetworkConfig) : List (String × NetworkSetup) :=
  Members.collect .byKey (rows.map fun cfg => (cfg.networkName, setup cfg))

/-- `run`, when the database can be reached and holds these rows. -/
def run (env : Environment) (rows : List Models.NetworkConfig) : Except String Startup :=
  let config := AppConfig.fromEnv env
  match backendFromUrl config.databaseUrl with
  | .error err => .error err
  | .ok _ => .ok
    ⟨config, networkMap rows, rows.map fun cfg => (cfg.networkName, cfg.sse)⟩

/-- `AppState`, as far as the handlers read it. -/
def Startup.state (s : Startup) : AppState := ⟨s.networks.map fun p => (p.1, p.2.state)⟩

/-! ## What is served -/

section Tables

variable {networks : List NetworkRow} {configs : List ConfigRow}

theorem mem_loadNetworks {cfg : Models.NetworkConfig} : cfg ∈ loadNetworks networks configs ↔
    ∃ network ∈ networks, ∃ config ∈ configs, config.networkName = network.networkName ∧
      cfg = .fromRows network config := by
  simp only [loadNetworks, List.mem_flatMap, List.mem_map, List.mem_filter, decide_eq_true_eq]
  constructor
  · rintro ⟨network, hn, config, ⟨hc, hname⟩, rfl⟩
    exact ⟨network, hn, config, hc, hname, rfl⟩
  · rintro ⟨network, hn, config, hc, hname, rfl⟩
    exact ⟨network, hn, config, ⟨hc, hname⟩, rfl⟩

theorem matching_sublist (hc : (configs.map ConfigRow.networkName).Nodup) (network : NetworkRow) :
    (((configs.filter fun config => config.networkName = network.networkName).map
      (.fromRows network)).map Models.NetworkConfig.networkName).Sublist [network.networkName] := by
  have hnames : ((configs.filter fun config => config.networkName = network.networkName).map
      (.fromRows network)).map Models.NetworkConfig.networkName =
      (configs.map ConfigRow.networkName).filter (· = network.networkName) := by
    rw [List.filter_map, List.map_map]
    refine List.map_congr_left fun config hmem => ?_
    exact (of_decide_eq_true (List.mem_filter.mp hmem).2).symm
  rw [hnames, List.filter_eq]
  exact List.replicate_sublist_replicate network.networkName |>.mpr
    (List.nodup_iff_count_le_one.mp hc network.networkName)

theorem names_sublist (hc : (configs.map ConfigRow.networkName).Nodup) :
    ((loadNetworks networks configs).map Models.NetworkConfig.networkName).Sublist
      (networks.map NetworkRow.networkName) := by
  induction networks with
  | nil => exact List.Sublist.refl []
  | cons network networks ih =>
    rw [loadNetworks, List.flatMap_cons, List.map_append, List.map_cons, ← List.singleton_append]
    exact (matching_sublist hc network).append ih

variable {rows : List Models.NetworkConfig}

theorem names_nodup (hn : (networks.map NetworkRow.networkName).Nodup)
    (hc : (configs.map ConfigRow.networkName).Nodup)
    (hrows : rows.Perm (loadNetworks networks configs)) :
    (rows.map Models.NetworkConfig.networkName).Nodup :=
  (hrows.map _).nodup_iff.mpr (hn.sublist (names_sublist hc))

theorem lookup_networkMap (hrows : (rows.map Models.NetworkConfig.networkName).Nodup)
    {name : String} {network : NetworkSetup} : (networkMap rows).lookup name = some network ↔
      ∃ cfg ∈ rows, cfg.networkName = name ∧ network = setup cfg := by
  have hkeys :
      (((rows.map fun cfg => (cfg.networkName, setup cfg)).reverse).map Prod.fst).Nodup := by
    rw [List.map_reverse, List.nodup_reverse, List.map_map]
    exact hrows
  rw [networkMap, Members.lookup_collect, Members.lookup_eq_some_iff hkeys, List.mem_reverse,
    List.mem_map]
  constructor
  · rintro ⟨cfg, hmem, he⟩
    cases he
    exact ⟨cfg, hmem, rfl, rfl⟩
  · rintro ⟨cfg, hmem, rfl, rfl⟩
    exact ⟨cfg, hmem, rfl⟩

theorem networkMap_perm {rows' : List Models.NetworkConfig}
    (hrows : (rows.map Models.NetworkConfig.networkName).Nodup) (hperm : rows.Perm rows') :
    networkMap rows = networkMap rows' := by
  have hrows' := (hperm.map Models.NetworkConfig.networkName).nodup_iff.mp hrows
  refine ((Members.ordered_collect _ _).sorted rfl).ext
    ((Members.ordered_collect _ _).sorted rfl) fun name => ?_
  refine Option.ext fun network => ?_
  change (networkMap rows).lookup name = some network ↔
    (networkMap rows').lookup name = some network
  rw [lookup_networkMap hrows, lookup_networkMap hrows']
  simp only [hperm.mem_iff]

theorem getNetwork_startup {s : Startup} {name : String} {network : NetworkState} :
    s.state.getNetwork name = .ok network ↔
      ∃ setup, s.networks.lookup name = some setup ∧ network = setup.state := by
  have hlookup : s.state.networks.lookup name = (s.networks.lookup name).map NetworkSetup.state :=
    Members.lookup_map _ _ _
  rw [AppState.getNetwork, hlookup]
  cases s.networks.lookup name with
  | none => simp
  | some setup => simp [eq_comm]

/-- **What is served is what the tables say.** When `run` serves what the tables with their primary
keys hold, then whatever the environment is and in whatever order the rows come: exactly the names
in both tables are networks, each under its name with the url and the chain name of its rows;
`network_map` does not depend on the order; and one listener is spawned for each of them, at its own
endpoint. -/
theorem run_serves {env : Environment} {s : Startup} (hrun : run env rows = .ok s)
    (hn : (networks.map NetworkRow.networkName).Nodup)
    (hc : (configs.map ConfigRow.networkName).Nodup)
    (hrows : rows.Perm (loadNetworks networks configs)) :
    (∀ name network, s.state.getNetwork name = .ok network ↔
      ∃ n ∈ networks, ∃ c ∈ configs, n.networkName = name ∧ c.networkName = name ∧
        network = ⟨⟨name, n.chainName, c.rpc⟩⟩) ∧
    s.networks = networkMap (loadNetworks networks configs) ∧
    (s.listeners.map Prod.fst).Nodup ∧
    ∀ name sse, (name, sse) ∈ s.listeners ↔
      ∃ n ∈ networks, ∃ c ∈ configs, n.networkName = name ∧ c.networkName = name ∧ c.sse = sse := by
  have hnames := names_nodup hn hc hrows
  have hs : s =
      ⟨.fromEnv env, networkMap rows, rows.map fun cfg => (cfg.networkName, cfg.sse)⟩ := by
    unfold run at hrun
    dsimp only at hrun
    split at hrun
    · cases hrun
    · exact (Except.ok.inj hrun).symm
  subst hs
  refine ⟨fun name network => ?_, networkMap_perm hnames hrows, ?_, fun name sse => ?_⟩
  · rw [getNetwork_startup]
    simp only [lookup_networkMap hnames, hrows.mem_iff, mem_loadNetworks]
    constructor
    · rintro ⟨_, ⟨cfg, ⟨n, hn, c, hc, hname, rfl⟩, rfl, rfl⟩, rfl⟩
      exact ⟨n, hn, c, hc, rfl, hname, rfl⟩
    · rintro ⟨n, hn, c, hc, rfl, hname, rfl⟩
      exact ⟨_, ⟨.fromRows n c, ⟨n, hn, c, hc, hname, rfl⟩, rfl, rfl⟩, rfl⟩
  · rw [List.map_map]
    exact hnames
  · rw [List.mem_map]
    constructor
    · rintro ⟨cfg, hmem, he⟩
      cases he
      obtain ⟨n, hn, c, hc, hname, rfl⟩ := mem_loadNetworks.mp (hrows.mem_iff.mp hmem)
      exact ⟨n, hn, c, hc, rfl, hname, rfl⟩
    · rintro ⟨n, hn, c, hc, rfl, hname, rfl⟩
      have hmem := mem_loadNetworks.mpr ⟨n, hn, c, hc, hname, rfl⟩
      exact ⟨.fromRows n c, hrows.mem_iff.mpr hmem, rfl⟩

end Tables

/-- Two networks, of which the second one has no config row. -/
def devnetNetworks : List NetworkRow := [⟨"devnet", "casper-devnet"⟩, ⟨"idle", "casper-idle"⟩]

/-- The config row of the first one. -/
def devnetConfigs : List ConfigRow :=
  [⟨"devnet", "http://127.0.0.1:14101", "http://127.0.0.1:18101/events",
    "http://127.0.0.1:11101/rpc", "127.0.0.1:28101", "127.0.0.1:22101"⟩]

theorem run_serves_devnet :
    ∃ s, run (fun _ => none) (loadNetworks devnetNetworks devnetConfigs) = .ok s ∧
      s.state.getNetwork "devnet" =
        .ok ⟨⟨"devnet", "casper-devnet", "http://127.0.0.1:11101/rpc"⟩⟩ ∧
      ∀ network, s.state.getNetwork "idle" ≠ .ok network := by
  have hrun : ∃ s, run (fun _ => none) (loadNetworks devnetNetworks devnetConfigs) = .ok s :=
    ⟨_, rfl⟩
  obtain ⟨s, hs⟩ := hrun
  have hrows : (loadNetworks devnetNetworks devnetConfigs).Perm
      (loadNetworks devnetNetworks devnetConfigs) := .refl _
  have hserved := (run_serves hs (by decide) (by decide) hrows).1
  refine ⟨s, hs, (hserved _ _).mpr ?_, fun network hidle => ?_⟩
  · exact ⟨_, List.mem_cons_self, _, List.mem_cons_self, rfl, rfl, rfl⟩
  · obtain ⟨n, -, c, hc, -, hname, -⟩ := (hserved _ _).mp hidle
    rw [devnetConfigs, List.mem_singleton] at hc
    rw [hc] at hname
    exact absurd hname (by decide)

end CasperNodeProxy
