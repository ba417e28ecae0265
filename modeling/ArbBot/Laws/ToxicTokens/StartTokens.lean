import ArbBot.Laws.TxSender.Filed

/-!
# Start tokens on the blacklist

No strike puts a start token on the blacklist, or takes it off. But the file the blacklist is filled
from is loaded without regard to start tokens: one that it names is on the blacklist from the start,
and stays there, and every path that starts from it is skipped.
-/

namespace ArbBot.TxSender

open Lib ToxicTokens

variable {keys : Keyring} {c : Config} {t : Address} {instant : Bool} {w : Worker}

/-! ## Strikes -/

theorem strikeToken_mem_start (ht : t ∈ c.startTokens) (token : Address) :
    t ∈ (strikeToken c instant w token).blacklistedTokens ↔ t ∈ w.blacklistedTokens := by
  by_cases htoken : t = token
  · subst htoken
    rw [strikeToken, if_pos ht]
  · exact strikeToken_mem_of_ne htoken

theorem strikeTokens_mem_start (ht : t ∈ c.startTokens) (tokens : List Address) (w : Worker) :
    t ∈ (tokens.foldl (strikeToken c instant) w).blacklistedTokens ↔ t ∈ w.blacklistedTokens := by
  induction tokens generalizing w with
  | nil => exact Iff.rfl
  | cons token tokens ih =>
    rw [List.foldl_cons, ih]
    exact strikeToken_mem_start ht token

theorem recordResult_mem_start (ht : t ∈ c.startTokens) (valid : ValidPath)
    (result : Except String String) :
    t ∈ (recordResult c w valid result).blacklistedTokens ↔ t ∈ w.blacklistedTokens := by
  by_cases hcounted : Counted result
  · rw [recordResult_of_counted hcounted]
    exact strikeTokens_mem_start ht _ _
  · rw [recordResult_of_not_counted hcounted]

/-- The step lemma: a round neither blacklists a start token nor frees one. -/
theorem step_mem_start (ht : t ∈ c.startTokens) {s s' : State} {i : ValidPath × Answers}
    (h : Step keys c s i s') :
    t ∈ s'.worker.blacklistedTokens ↔ t ∈ s.worker.blacklistedTokens := by
  obtain ⟨nonce, head, ⟨-, hworker⟩ | ⟨send, -, -, hworker⟩⟩ := step_sendOf h
  · rw [hworker]
    rfl
  · rw [hworker, recordResult_mem_start ht]
    rfl

/-- The run lemma. -/
theorem run_mem_start (ht : t ∈ c.startTokens) {s s' : State} {is : List (ValidPath × Answers)}
    (h : Run (Step keys c) s is s') :
    t ∈ s'.worker.blacklistedTokens ↔ t ∈ s.worker.blacklistedTokens := by
  induction h with
  | nil => exact Iff.rfl
  | cons hstep _ ih => exact ih.trans (step_mem_start ht hstep)

/-! ## The check of the simulators -/

/-- A path is skipped when one of its tokens is blacklisted. -/
theorem hasToxic_iff {tokens : Finset Address} {path : SwapPath} :
    hasToxic tokens path = true ↔ ∃ token ∈ ends path, token ∈ tokens := by
  rw [hasToxic, List.any_eq_true]
  unfold ends
  constructor
  · rintro ⟨step, hstep, htoxic⟩
    rcases Bool.or_eq_true _ _ |>.mp htoxic with hin | hout
    · exact ⟨_, List.mem_flatMap.mpr ⟨step, hstep, List.mem_cons_self⟩, of_decide_eq_true hin⟩
    · exact ⟨_, List.mem_flatMap.mpr ⟨step, hstep, List.mem_cons_of_mem _ List.mem_cons_self⟩,
        of_decide_eq_true hout⟩
  · rintro ⟨token, htoken, hmem⟩
    obtain ⟨step, hstep, hend⟩ := List.mem_flatMap.mp htoken
    refine ⟨step, hstep, (Bool.or_eq_true _ _).mpr ?_⟩
    rcases List.mem_cons.mp hend with rfl | hend
    · exact .inl (decide_eq_true hmem)
    · obtain rfl := List.mem_singleton.mp hend
      exact .inr (decide_eq_true hmem)

/-- No start token is blacklisted, and a path is skipped only for a token that is none. -/
structure StartTokensFree (startTokens blacklistedTokens : Finset Address) : Prop where
  free : ∀ token ∈ startTokens, token ∉ blacklistedTokens
  skipped : ∀ path, hasToxic blacklistedTokens path = true →
    ∃ token ∈ ends path, token ∉ startTokens ∧ token ∈ blacklistedTokens

theorem startTokensFree_iff {startTokens tokens : Finset Address} :
    StartTokensFree startTokens tokens ↔ ∀ token ∈ startTokens, token ∉ tokens := by
  refine ⟨StartTokensFree.free, fun h => ⟨h, fun path hpath => ?_⟩⟩
  obtain ⟨token, htoken, hmem⟩ := hasToxic_iff.mp hpath
  exact ⟨token, htoken, fun hstart => h token hstart hmem, hmem⟩

/-! ## From the start on -/

/-- The file names no start token: none of the entries the loader goes by is the address of one. -/
def NamesNoStartToken (f : ToxicFile) (file : Option Text) (startTokens : Finset Address) : Prop :=
  f.path = "" ∨ ∀ entry ∈ loaderEntries f.toml file, ∀ token ∈ startTokens,
    addressFromStr entry ≠ some token

theorem namesNoStartToken_iff {f : ToxicFile} {file : Option Text} {startTokens : Finset Address} :
    NamesNoStartToken f file startTokens ↔
      ∀ token ∈ startTokens, token ∉ loadToxicTokens f.toml f.path file := by
  unfold NamesNoStartToken loadToxicTokens
  by_cases hpath : f.path = ""
  · simp [hpath]
  · rw [if_neg hpath, or_iff_right hpath]
    simp only [List.mem_toFinset, List.mem_filterMap, not_exists, not_and]
    exact ⟨fun h token ht entry he => h entry he token ht, fun h entry he token ht =>
      h token ht entry he⟩

/-- **Start tokens stay off the blacklist exactly if the file names none.** For every configuration,
every library, every content of the file and every run: in all states reached no start token is
blacklisted, and a path is skipped only for a token that is no start token, if and only if no entry
of the file is the address of a start token. -/
theorem startTokensFree_run_iff (keys : Keyring) (p : Ignition.PipelineConfig) (logInfo : Bool)
    (f : ToxicFile) (file : Option Text) (count head : Option UInt64) (s : State)
    (hstart : startTxSender keys p logInfo f file count head = some s) :
    (∀ is s', Run (Step keys (Ignition.txSenderConfig p logInfo)) s is s' →
        StartTokensFree (Ignition.txSenderConfig p logInfo).startTokens
          s'.worker.blacklistedTokens) ↔
      NamesNoStartToken f file (Ignition.txSenderConfig p logInfo).startTokens := by
  have hloaded : s.worker.blacklistedTokens = loadToxicTokens f.toml f.path file := by
    obtain ⟨nonce, -, rfl⟩ := Option.map_eq_some_iff.mp hstart
    rfl
  rw [namesNoStartToken_iff, ← hloaded]
  constructor
  · exact fun h => (h [] s (.nil s)).free
  · intro h is s' hrun
    exact startTokensFree_iff.mpr fun token htoken hmem =>
      h token htoken ((run_mem_start htoken hrun).mp hmem)

/-! ### Samples -/

/-- A pipeline whose one start token is the native one. -/
def nativePipeline : Ignition.PipelineConfig where
  botAddress := 2
  signerKey := ""
  chainId := 56
  dryRun := true
  useFlashloan := false
  flashLoanFeeBps := 0
  flashLoanProvider := "none"
  nativeToken := 0xEE
  tokenPricePools := []
  maxGasLimit := 1000000
  profitShareBps := 5000
  minSubmitProfitWei := 0
  minSimProfitWei := 0
  optimizationSteps := 8
  minInputWei := 1
  maxInputWei := 2
  maxStaleBlocks := 3
  strikeThreshold := 3

/-- A file that names the native token. -/
def nativeFile : Text := fileBody smallToml [formatAddress 0xEE]

/-- The native token is blacklisted from the start, and every path through it is skipped. -/
theorem native_blacklisted :
    ∃ s, startTxSender sampleKeys nativePipeline true sampleToxicFile (some nativeFile) none none =
        some s ∧
      (0xEE : Address) ∈ (Ignition.txSenderConfig nativePipeline true).startTokens ∧
      (0xEE : Address) ∈ s.worker.blacklistedTokens ∧
      ∀ path, (0xEE : Address) ∈ ends path → hasToxic s.worker.blacklistedTokens path = true := by
  have hmem : (0xEE : Address) ∈ loadToxicTokens smallToml "cache/.toxic-tokens.toml"
      (some nativeFile) :=
    (mem_loadToxicTokens_body smallToml_readsBack (by decide)).mpr
      ⟨_, List.mem_cons_self, addressFromStr_format 0xEE⟩
  exact ⟨_, rfl, by decide, hmem, fun path hpath => hasToxic_iff.mpr ⟨_, hpath, hmem⟩⟩

/-- Without a file no start token is blacklisted. -/
theorem startTokensFree_run_fresh :
    ∃ s, startTxSender sampleKeys nativePipeline true sampleToxicFile none none none = some s ∧
      ∀ is s', Run (Step sampleKeys (Ignition.txSenderConfig nativePipeline true)) s is s' →
        StartTokensFree (Ignition.txSenderConfig nativePipeline true).startTokens
          s'.worker.blacklistedTokens :=
  ⟨_, rfl, (startTokensFree_run_iff sampleKeys nativePipeline true sampleToxicFile none none none _
    rfl).mpr (.inr nofun)⟩

end ArbBot.TxSender
