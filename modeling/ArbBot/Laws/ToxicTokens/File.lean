import ArbBot.Laws.Addresses
import ArbBot.ToxicTokens

/-!
# The toxic-token file over many runs

Once the file has an array that is not empty, every token that is persisted is added to it once, and
the loader reads back what was there and what was added. The file `main` seeds has an empty array.
The writer takes this for a legacy file, and puts the lines of the seed among the addresses.
-/

namespace ArbBot.ToxicTokens

open Lib

/-- What the library is relied on for: an array is read back as it was printed, and the array of the
seed is empty. -/
structure TomlCrate.ReadsBack (toml : TomlCrate) : Prop where
  body : ∀ addresses, toml.items (fileBody toml addresses) = some (addresses.map TomlValue.string)
  seed : toml.items seedFile = some []

variable {toml : TomlCrate} {path : String} {file : Option Text} {tokens : List Address}
  {xs ys zs : List Text}

/-! ## Entries -/

/-- No two entries are equal up to case, and an entry that spells an address is read as one. -/
structure Tidy (xs : List Text) : Prop where
  distinct : (xs.map Text.lower).Nodup
  readable : ∀ x ∈ xs, ∀ a, Text.lower x = formatAddress a → addressFromStr x = some a

/-- The entries after some tokens were added: those before, and for each token one. -/
structure Grown (xs : List Text) (tokens : List Address) (ys : List Text) : Prop where
  tidy : Tidy ys
  kept : ∀ x ∈ xs, x ∈ ys
  fresh : ∀ y ∈ ys, y ∈ xs ∨ ∃ token ∈ tokens, y = formatAddress token
  added : ∀ token ∈ tokens, ∃ y ∈ ys, Text.lower y = formatAddress token

theorem Grown.refl (h : Tidy xs) : Grown xs [] xs :=
  ⟨h, fun _ hx => hx, fun _ hy => .inl hy, fun _ htoken => by cases htoken⟩

theorem Grown.trans {token : Address} (h : Grown xs [token] ys) (h' : Grown ys tokens zs) :
    Grown xs (token :: tokens) zs := by
  refine ⟨h'.tidy, fun x hx => h'.kept x (h.kept x hx), fun z hz => ?_, fun t ht => ?_⟩
  · rcases h'.fresh z hz with hy | ⟨t, ht, rfl⟩
    · rcases h.fresh z hy with hx | ⟨t, ht, rfl⟩
      · exact .inl hx
      · exact .inr ⟨t, List.mem_cons.mpr (.inl (List.mem_singleton.mp ht)), rfl⟩
    · exact .inr ⟨t, List.mem_cons_of_mem token ht, rfl⟩
  · rcases List.mem_cons.mp ht with rfl | ht
    · obtain ⟨y, hy, hlower⟩ := h.added t List.mem_cons_self
      exact ⟨y, h'.kept y hy, hlower⟩
    · exact h'.added t ht

/-- The step lemma: adding a token to tidy entries keeps them, and brings it in if it is new. -/
theorem grown_addEntry (h : Tidy xs) (token : Address) :
    Grown xs [token] (addEntry xs (formatAddress token)) := by
  have htoken := lower_formatAddress token
  unfold addEntry
  by_cases hany : xs.any fun a => Text.lower a = Text.lower (formatAddress token)
  · obtain ⟨x, hx, hlower⟩ := List.any_eq_true.mp hany
    rw [if_pos hany]
    refine ⟨h, fun _ hx => hx, fun _ hy => .inl hy, fun t ht => ⟨x, hx, ?_⟩⟩
    obtain rfl := List.mem_singleton.mp ht
    exact (of_decide_eq_true hlower).trans htoken
  · have hnew : ∀ x ∈ xs, Text.lower x ≠ formatAddress token := fun x hx hlower =>
      hany (List.any_eq_true.mpr ⟨x, hx, decide_eq_true (hlower.trans htoken.symm)⟩)
    have hdistinct : ((xs ++ [formatAddress token]).map Text.lower).Nodup := by
      rw [List.map_append, List.map_singleton, htoken]
      refine List.nodup_append.mpr ⟨h.distinct, List.nodup_singleton _, fun k hk l hl => ?_⟩
      obtain ⟨x, hx, rfl⟩ := List.mem_map.mp hk
      rw [List.mem_singleton.mp hl]
      exact hnew x hx
    have hmem : ∀ y, y ∈ sortDedup Text.lower (· ≤ ·) (xs ++ [formatAddress token]) ↔
        y ∈ xs ∨ y = formatAddress token := fun y => by
      rw [mem_sortDedup_of_nodup_keys hdistinct, List.mem_append, List.mem_singleton]
    rw [if_neg hany]
    refine ⟨⟨nodup_keys_sortDedup (together_of_nodup_keys hdistinct), fun y hy a hlower => ?_⟩,
      fun x hx => (hmem x).mpr (.inl hx), fun y hy => ?_, fun t ht => ?_⟩
    · rcases (hmem y).mp hy with hy | rfl
      · exact h.readable y hy a hlower
      · rw [formatAddress_injective (htoken.symm.trans hlower), addressFromStr_format]
    · exact ((hmem y).mp hy).imp_right fun hy => ⟨token, List.mem_cons_self, hy⟩
    · obtain rfl := List.mem_singleton.mp ht
      exact ⟨_, (hmem _).mpr (.inr rfl), htoken⟩

/-! ## Files -/

/-- The file after the tokens were persisted, one after the other. -/
def persistAll (toml : TomlCrate) (path : String) (file : Option Text) (tokens : List Address) :
    Option Text :=
  tokens.foldl (persistToxicTokenFile toml path) file

theorem strings_eq (xs : List Text) : (xs.map TomlValue.string).filterMap TomlValue.asStr = xs := by
  rw [List.filterMap_map]
  exact List.filterMap_some

theorem writerEntries_body (htoml : toml.ReadsBack) (hne : xs ≠ []) :
    writerEntries toml (some (fileBody toml xs)) = xs := by
  rw [writerEntries, htoml.body, Option.getD_some, strings_eq]
  exact if_neg hne

theorem mem_loadToxicTokens_body (htoml : toml.ReadsBack) (hpath : path ≠ "") {a : Address} :
    a ∈ loadToxicTokens toml path (some (fileBody toml xs)) ↔
      ∃ x ∈ xs, addressFromStr x = some a := by
  rw [loadToxicTokens, if_neg hpath, loaderEntries, htoml.body]
  dsimp only
  rw [strings_eq, List.mem_toFinset, List.mem_filterMap]

/-- The first token that is persisted goes into the entries the writer finds. -/
theorem persist_grown (hpath : path ≠ "") (h : Tidy (writerEntries toml file)) (token : Address) :
    ∃ ys, persistToxicTokenFile toml path file token = some (fileBody toml ys) ∧
      Grown (writerEntries toml file) [token] ys ∧ ys ≠ [] := by
  have hgrown := grown_addEntry h token
  refine ⟨_, if_neg hpath, hgrown, fun hnil => ?_⟩
  obtain ⟨y, hy, -⟩ := hgrown.added token List.mem_cons_self
  rw [hnil] at hy
  cases hy

/-- The run lemma, for a file that has an array. -/
theorem persistAll_body (htoml : toml.ReadsBack) (hpath : path ≠ "") (hne : xs ≠ []) (h : Tidy xs)
    (tokens : List Address) :
    ∃ ys, persistAll toml path (some (fileBody toml xs)) tokens = some (fileBody toml ys) ∧
      Grown xs tokens ys := by
  unfold persistAll
  induction tokens generalizing xs with
  | nil => exact ⟨xs, rfl, .refl h⟩
  | cons token tokens ih =>
    have hentries := writerEntries_body htoml hne
    have hfirst : Tidy (writerEntries toml (some (fileBody toml xs))) := hentries.symm ▸ h
    obtain ⟨ys, hfile, hgrown, hys⟩ := persist_grown hpath hfirst token
    rw [hentries] at hgrown
    obtain ⟨zs, hrest, hgrown'⟩ := ih hys hgrown.tidy
    exact ⟨zs, by rw [List.foldl_cons, hfile, hrest], hgrown.trans hgrown'⟩

/-- The run lemma, for any file whose entries are tidy to the writer. -/
theorem persistAll_grown (htoml : toml.ReadsBack) (hpath : path ≠ "")
    (h : Tidy (writerEntries toml file)) (hne : tokens ≠ []) :
    ∃ ys, persistAll toml path file tokens = some (fileBody toml ys) ∧
      Grown (writerEntries toml file) tokens ys := by
  cases tokens with
  | nil => exact absurd rfl hne
  | cons token tokens =>
    obtain ⟨ys, hfile, hgrown, hys⟩ := persist_grown hpath h token
    obtain ⟨zs, hrest, hgrown'⟩ := persistAll_body htoml hpath hys hgrown.tidy tokens
    refine ⟨zs, ?_, hgrown.trans hgrown'⟩
    unfold persistAll at hrest ⊢
    rw [List.foldl_cons, hfile, hrest]

/-! ## The files a run starts from -/

/-- No file, the seed, or a file an earlier run persisted. -/
inductive Earlier (toml : TomlCrate) (path : String) : Option Text → Prop
  | missing : Earlier toml path none
  | seed : Earlier toml path (some seedFile)
  | persisted {file : Option Text} (token : Address) : Earlier toml path file →
      Earlier toml path (persistToxicTokenFile toml path file token)

/-- What the writer takes for the entries of the seed. -/
def seedLines : List Text := ["[toxic_tokens]".toList, "addresses = []".toList]

theorem writerEntries_seed (htoml : toml.ReadsBack) :
    writerEntries toml (some seedFile) = seedLines := by
  rw [writerEntries, htoml.seed]
  decide

/-- No address is spelled like a line of the seed. -/
theorem lower_seedLines {x : Text} (hx : x ∈ seedLines) (a : Address) :
    Text.lower x ≠ formatAddress a := by
  have hheads : ∀ x ∈ seedLines, (Text.lower x).head? ≠ some '0' := by decide
  exact fun hlower => hheads x hx (hlower ▸ rfl)

theorem tidy_nil : Tidy [] := ⟨List.nodup_nil, fun _ hx => by cases hx⟩

theorem tidy_seedLines : Tidy seedLines :=
  ⟨by decide, fun _ hx a hlower => absurd hlower (lower_seedLines hx a)⟩

theorem Earlier.cases_body (htoml : toml.ReadsBack) (hpath : path ≠ "") (h : Earlier toml path file) :
    file = none ∨ file = some seedFile ∨
      ∃ xs, file = some (fileBody toml xs) ∧ xs ≠ [] ∧ Tidy xs := by
  induction h with
  | missing => exact .inl rfl
  | seed => exact .inr (.inl rfl)
  | @persisted file token _ ih =>
    have htidy : Tidy (writerEntries toml file) := by
      rcases ih with rfl | rfl | ⟨xs, rfl, hne, hxs⟩
      · exact tidy_nil
      · exact (writerEntries_seed htoml).symm ▸ tidy_seedLines
      · exact (writerEntries_body htoml hne).symm ▸ hxs
    obtain ⟨ys, hfile, hgrown, hys⟩ := persist_grown hpath htidy token
    exact .inr (.inr ⟨ys, hfile, hys, hgrown.tidy⟩)

/-! ## Integrity -/

/-- The strings of the array of a file. -/
def arrayEntries (toml : TomlCrate) (file : Option Text) : List Text :=
  ((file.bind toml.items).getD []).filterMap TomlValue.asStr

/-- The array of the file is the list of these strings; a missing file has none. -/
def HoldsArray (toml : TomlCrate) (file : Option Text) (xs : List Text) : Prop :=
  match file with
  | none => xs = []
  | some contents => toml.items contents = some (xs.map TomlValue.string)

/-- The array holds the starting addresses and the tokens, each once up to case and nothing else,
and the loader reads back that set. -/
def Intact (toml : TomlCrate) (path : String) (starting : List Text) (tokens : List Address)
    (file : Option Text) : Prop :=
  ∃ ys, HoldsArray toml file ys ∧ (ys.map Text.lower).Nodup ∧
    (∀ k, k ∈ ys.map Text.lower ↔
      k ∈ (starting ++ tokens.map formatAddress).map Text.lower) ∧
    ∀ a, a ∈ loadToxicTokens toml path file ↔
      a ∈ tokens ∨ ∃ s ∈ starting, addressFromStr s = some a

/-- Entries that have grown hold what was there and the tokens. -/
theorem Grown.intact (htoml : toml.ReadsBack) (hpath : path ≠ "") (h : Grown xs tokens ys) :
    Intact toml path xs tokens (some (fileBody toml ys)) := by
  refine ⟨ys, htoml.body ys, h.tidy.distinct, fun k => ⟨fun hk => ?_, fun hk => ?_⟩, fun a => ?_⟩
  · obtain ⟨y, hy, rfl⟩ := List.mem_map.mp hk
    refine List.mem_map_of_mem (List.mem_append.mpr ((h.fresh y hy).imp_right ?_))
    rintro ⟨token, htoken, rfl⟩
    exact List.mem_map_of_mem htoken
  · obtain ⟨s, hs, rfl⟩ := List.mem_map.mp hk
    rcases List.mem_append.mp hs with hs | hs
    · exact List.mem_map_of_mem (h.kept s hs)
    · obtain ⟨token, htoken, rfl⟩ := List.mem_map.mp hs
      obtain ⟨y, hy, hlower⟩ := h.added token htoken
      rw [lower_formatAddress, ← hlower]
      exact List.mem_map_of_mem hy
  · rw [mem_loadToxicTokens_body htoml hpath]
    constructor
    · rintro ⟨y, hy, hread⟩
      rcases h.fresh y hy with hx | ⟨token, htoken, rfl⟩
      · exact .inr ⟨y, hx, hread⟩
      · obtain rfl := Option.some.inj ((addressFromStr_format token).symm.trans hread)
        exact .inl htoken
    · rintro (ha | ⟨x, hx, hread⟩)
      · obtain ⟨y, hy, hlower⟩ := h.added a ha
        exact ⟨y, hy, h.tidy.readable y hy a hlower⟩
      · exact ⟨x, h.kept x hx, hread⟩

/-- Files without an entry are intact as they are. -/
theorem intact_of_no_entries (hpath : path ≠ "") (harray : HoldsArray toml file [])
    (hloader : loaderEntries toml file = []) : Intact toml path [] [] file := by
  refine ⟨[], harray, List.nodup_nil, fun k => Iff.rfl, fun a => ?_⟩
  rw [loadToxicTokens, if_neg hpath, hloader]
  simp

/-- With a token persisted onto it, the seed holds its own lines as addresses. -/
theorem not_intact_seed (htoml : toml.ReadsBack) (hpath : path ≠ "") (hne : tokens ≠ []) :
    ¬ Intact toml path [] tokens (persistAll toml path (some seedFile) tokens) := by
  have hentries := writerEntries_seed htoml
  have htidy : Tidy (writerEntries toml (some seedFile)) := hentries.symm ▸ tidy_seedLines
  obtain ⟨ys, hfile, hgrown⟩ := persistAll_grown htoml hpath htidy hne
  rw [hentries] at hgrown
  rw [hfile]
  rintro ⟨zs, hholds, -, hexact, -⟩
  have hstrings : ys.map TomlValue.string = zs.map TomlValue.string :=
    Option.some.inj ((htoml.body ys).symm.trans hholds)
  obtain rfl : ys = zs := by
    rw [← strings_eq ys, hstrings, strings_eq]
  have hline : "[toxic_tokens]".toList ∈ seedLines := List.mem_cons_self
  have hkey := (hexact _).mp (List.mem_map_of_mem (hgrown.kept _ hline))
  obtain ⟨s, hs, hlower⟩ := List.mem_map.mp hkey
  obtain ⟨token, -, rfl⟩ := List.mem_map.mp hs
  exact lower_seedLines hline token (hlower.symm.trans (lower_formatAddress token))

/-- **The file keeps its integrity unless a token is persisted onto the seed.** For a file that is
missing, seeded or persisted by an earlier run, and every sequence of tokens: the array holds the
starting addresses and the tokens, each once up to case and nothing else, and the loader reads back
that set, exactly if the file is not the seed or no token is persisted. -/
theorem persistAll_intact_iff (toml : TomlCrate) (htoml : toml.ReadsBack) (path : String)
    (hpath : path ≠ "") (file : Option Text) (hfile : Earlier toml path file)
    (tokens : List Address) :
    Intact toml path (arrayEntries toml file) tokens (persistAll toml path file tokens) ↔
      (file = some seedFile → tokens = []) := by
  rcases hfile.cases_body htoml hpath with rfl | rfl | ⟨xs, rfl, hne, htidy⟩
  · refine iff_of_true ?_ (fun h => by cases h)
    by_cases htokens : tokens = []
    · subst htokens
      exact intact_of_no_entries hpath rfl rfl
    · have hempty : Tidy (writerEntries toml none) := tidy_nil
      obtain ⟨ys, hys, hgrown⟩ := persistAll_grown htoml hpath hempty htokens
      rw [hys]
      exact hgrown.intact htoml hpath
  · have hnone : arrayEntries toml (some seedFile) = [] := by
      rw [arrayEntries, Option.bind_some, htoml.seed]
      rfl
    rw [hnone]
    by_cases htokens : tokens = []
    · subst htokens
      refine iff_of_true (intact_of_no_entries hpath htoml.seed ?_) fun _ => rfl
      change loaderEntries toml (some seedFile) = []
      rw [loaderEntries, htoml.seed]
      rfl
    · exact iff_of_false (not_intact_seed htoml hpath htokens) fun h => htokens (h rfl)
  · have hxs : arrayEntries toml (some (fileBody toml xs)) = xs := by
      rw [arrayEntries, Option.bind_some, htoml.body]
      exact strings_eq xs
    obtain ⟨ys, hys, hgrown⟩ := persistAll_body htoml hpath hne htidy tokens
    rw [hxs, hys]
    refine iff_of_true (hgrown.intact htoml hpath) fun h => ?_
    have hsame : xs.map TomlValue.string = [] := Option.some.inj
      ((htoml.body xs).symm.trans ((congrArg toml.items (Option.some.inj h)).trans htoml.seed))
    exact absurd (List.map_eq_nil_iff.mp hsame) hne

/-! ### A small library -/

/-- A character of a quoted string. -/
def escapeChar (c : Char) : Text := if c = '"' ∨ c = '\\' then ['\\', c] else [c]

def quoteString (s : Text) : Text := '"' :: (s.flatMap escapeChar ++ ['"'])

/-- Quoted strings with commas between them. -/
def printItems : List Text → Text
  | [] => []
  | [x] => quoteString x
  | x :: y :: xs => quoteString x ++ (',' :: ' ' :: printItems (y :: xs))

/-- The strings up to the end of the array; `some s` when `s` was read of a string. -/
def readItems : Option Text → Text → Option (List Text)
  | none, [']', '\n'] => some []
  | none, '"' :: rest => readItems (some []) rest
  | none, ',' :: ' ' :: rest => readItems none rest
  | some s, '"' :: rest => (readItems none rest).map (s :: ·)
  | some s, '\\' :: c :: rest => readItems (some (s ++ [c])) rest
  | some s, c :: rest => readItems (some (s ++ [c])) rest
  | _, _ => none

/-- What stands before the strings of the array. -/
def fileHead : Text := "[toxic_tokens]\naddresses = [".toList

/-- A library that knows one array of strings. -/
def smallToml : TomlCrate where
  fromStr contents :=
    if fileHead <+: contents then
      (readItems none (contents.drop fileHead.length)).map fun strings =>
        .table [("toxic_tokens".toList,
          .table [("addresses".toList, .array (strings.map TomlValue.string))])]
    else none
  arrayToString addresses := '[' :: (printItems addresses ++ [']'])

theorem readItems_chars (x rest : Text) : ∀ s : Text,
    readItems (some s) (x.flatMap escapeChar ++ '"' :: rest) =
      (readItems none rest).map ((s ++ x) :: ·) := by
  induction x with
  | nil =>
    intro s
    rw [List.flatMap_nil, List.nil_append, List.append_nil, readItems]
  | cons c x ih =>
    intro s
    have hstep : readItems (some s) (escapeChar c ++ (x.flatMap escapeChar ++ '"' :: rest)) =
        readItems (some (s ++ [c])) (x.flatMap escapeChar ++ '"' :: rest) := by
      unfold escapeChar
      by_cases hc : c = '"' ∨ c = '\\'
      · rw [if_pos hc]
        rfl
      · rw [if_neg hc, List.singleton_append, readItems]
        · exact fun h => hc (.inl h)
        · exact fun d rest' h _ => hc (.inr h)
    rw [List.flatMap_cons, List.append_assoc, hstep, ih, List.append_assoc, List.singleton_append]

theorem readItems_quote (x rest : Text) :
    readItems none (quoteString x ++ rest) = (readItems none rest).map (x :: ·) := by
  have hchars := readItems_chars x rest []
  rw [List.nil_append] at hchars
  rw [quoteString, List.cons_append, List.append_assoc, List.singleton_append, readItems, hchars]

theorem readItems_print (xs : List Text) :
    readItems none (printItems xs ++ [']', '\n']) = some xs := by
  induction xs with
  | nil => rfl
  | cons x xs ih =>
    cases xs with
    | nil =>
      rw [printItems, readItems_quote]
      rfl
    | cons y xs =>
      rw [printItems, List.append_assoc, readItems_quote, List.cons_append, List.cons_append,
        readItems, ih]
      rfl

theorem smallToml_items {contents : Text} {xs : List Text}
    (h : contents = fileHead ++ (printItems xs ++ [']', '\n'])) :
    smallToml.items contents = some (xs.map TomlValue.string) := by
  have hread : smallToml.fromStr contents = some (.table [("toxic_tokens".toList,
      .table [("addresses".toList, .array (xs.map TomlValue.string))])]) := by
    change (if _ then _ else _) = _
    rw [h, if_pos (List.prefix_append _ _), List.drop_left, readItems_print]
    rfl
  rw [TomlCrate.items, hread]
  rfl

theorem smallToml_readsBack : smallToml.ReadsBack := by
  constructor
  · intro addresses
    -- stated for any head, since the texts of the file are not to be computed with
    have hbody : ∀ head feed items : Text, head ++ ['['] = fileHead → feed = ['\n'] →
        head ++ ('[' :: (items ++ [']'])) ++ feed = fileHead ++ (items ++ [']', '\n']) := by
      rintro head feed items hhead rfl
      simp [← hhead]
    exact smallToml_items (hbody _ _ (printItems addresses) (by decide) (by decide))
  · have hseed : seedFile = fileHead ++ (printItems [] ++ [']', '\n']) := by decide
    exact smallToml_items hseed

/-! ### Samples -/

/-- A run that persists one token onto the seed. -/
theorem seed_not_intact :
    ¬ Intact smallToml "cache/.toxic-tokens.toml" (arrayEntries smallToml (some seedFile)) [0xAB]
      (persistAll smallToml "cache/.toxic-tokens.toml" (some seedFile) [0xAB]) :=
  not_intact_seed smallToml_readsBack (by decide) (by decide)

/-- A run without a file that persists a token, another, and the first again. -/
theorem persistAll_intact_three :
    Intact smallToml "cache/.toxic-tokens.toml" (arrayEntries smallToml none) [0xAB, 0xCD, 0xAB]
      (persistAll smallToml "cache/.toxic-tokens.toml" none [0xAB, 0xCD, 0xAB]) :=
  (persistAll_intact_iff smallToml smallToml_readsBack "cache/.toxic-tokens.toml" (by decide) none
    .missing [0xAB, 0xCD, 0xAB]).mpr fun h => by cases h

end ArbBot.ToxicTokens
