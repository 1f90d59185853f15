import PapQuic.Lib.Firsts
import PapQuic.Script.Algorithms

/-! # The matrix of algorithms

`build_algorithm_matrix` of `scripts/run_benchmarks.py`: the pairs of a key exchange group and a
signature that a benchmark runs. Both are available and either wanted or classic, and the mode
filters the pairs.

Every pair is classified before the mode filters it, so one unclassified name makes the whole matrix
fail as soon as there is something to pair it with. Otherwise the matrix has exactly the pairs the
mode allows, each once (`buildAlgorithmMatrix_spec`). -/

namespace PapQuic.Script.Matrix

open Lib.Printf Lib.PyDict Lib.Firsts Script.Algorithms

/-! ### The matrix -/

structure AlgorithmCombo where
  kem : Text
  signature : Text
  kemCategory : Category
  sigCategory : Category
  groupsArgument : Text
  signatureId : Text
  deriving DecidableEq, Repr

/-- The names that are available, by their spelling in lower case. -/
def normalised (L : Lower) (available : List Text) : Dict Text Text :=
  ofItems (available.map fun name => (L.lower name, name))

/-- A step of `_resolve_available`, on the names that are selected and missing. An empty name counts
as missing. -/
def resolveEntry (L : Lower) (available : List Text) (result : List Text × List Text)
    (entry : Text) : List Text × List Text :=
  let resolved := ((normalised L available).lookup (L.lower entry)).getD []
  if resolved ≠ [] then
    if resolved ∈ result.1 then result else (result.1 ++ [resolved], result.2)
  else (result.1, result.2 ++ [entry])

/-- `_resolve_available`. -/
def resolveAvailable (L : Lower) (wanted available : List Text) : List Text × List Text :=
  wanted.foldl (resolveEntry L available) ([], [])

/-- `classic_groups` and `classic_sigs`. -/
def classicOf (f : Family) (L : Lower) (available : List Text) : List Text :=
  available.filter fun name => (f.categoryMap L).lookup (L.lower name) = some .classic

/-- `combos` and `seen_pairs`. -/
structure Schedule where
  combos : List AlgorithmCombo
  seenPairs : List (Text × Text)

/-- `add_combo`. -/
def addCombo (L : Lower) (m : Schedule) (kemName sigName : Text) : Except BenchmarkError Schedule :=
  let key := (L.lower kemName, L.lower sigName)
  if key ∈ m.seenPairs then .ok m
  else do
    let kemCategory ← classifyGroup L kemName
    let sigCategory ← classifySignature L sigName
    return ⟨m.combos ++ [⟨kemName, sigName, kemCategory, sigCategory, kemName, sigName⟩],
      key :: m.seenPairs⟩

/-- The two inner loops. -/
def addRow (L : Lower) (selectedSigs classicSigs : List Text) (m : Schedule) (kem : Text) :
    Except BenchmarkError Schedule := do
  let m ← selectedSigs.foldlM (fun m sig => addCombo L m kem sig) m
  classicSigs.foldlM (fun m sig => addCombo L m kem sig) m

/-- `_mode_allows_combo`. -/
def modeAllowsCombo (L : Lower) (mode : Mode) (allowedKemNames allowedSigNames : List Text)
    (combo : AlgorithmCombo) : Except BenchmarkError Bool :=
  if L.lower combo.kem ∉ allowedKemNames then .ok false
  else if L.lower combo.signature ∉ allowedSigNames then .ok false
  else if mode = .pqc ∧ (combo.kemCategory = .pqcHybrid ∨ combo.sigCategory = .pqcHybrid)
    then .ok false
  else if mode = .pqcLevel then
    if combo.kemCategory ≠ .pqc ∨ combo.sigCategory ≠ .pqc then .ok false
    else do
      let kemLevel ← kemNistLevel L combo.kem
      let sigLevel ← sigNistLevel L combo.signature
      return kemLevel = sigLevel
  else .ok true

/-- `[combo for combo in combos if allows(combo)]`, where `allows` may fail. -/
def filterCombos (allows : AlgorithmCombo → Except BenchmarkError Bool) :
    List AlgorithmCombo → Except BenchmarkError (List AlgorithmCombo)
  | [] => .ok []
  | combo :: combos => do
    let keep ← allows combo
    let kept ← filterCombos allows combos
    return if keep then combo :: kept else kept

/-- The names that are spelled as asked for, or else those that differ in case only. -/
def candidates (L : Lower) (available : List Text) (specific : Text) : List Text :=
  if available.filter (· = specific) ≠ [] then available.filter (· = specific)
  else available.filter (L.lower · = L.lower specific)

/-- The branch of the mode `one`. -/
def oneCombo (L : Lower) (specificKem specificSig : Option Text)
    (groupsAvail sigsAvail : List Text) : Except BenchmarkError (List AlgorithmCombo) :=
  match specificKem.getD [], specificSig.getD [] with
  | [], _ | _, [] => .error ⟨"mode=one requires both --kem and --sig".toList⟩
  | kem, sig =>
    match candidates L groupsAvail kem, candidates L sigsAvail sig with
    | [], _ => .error ⟨"KEM '".toList ++ kem ++ "' not available in this build".toList⟩
    | _, [] => .error ⟨"Signature '".toList ++ sig ++ "' not available in this build".toList⟩
    | kemName :: _, sigName :: _ => Schedule.combos <$> addCombo L ⟨[], []⟩ kemName sigName

/-- `build_algorithm_matrix`, with what `openssl list` offers and what is wanted. -/
def buildAlgorithmMatrix (L : Lower) (mode : Mode) (specificKem specificSig : Option Text)
    (groupsAvail sigsAvail wantedKems wantedSigs : List Text) :
    Except BenchmarkError (List AlgorithmCombo) :=
  let selectedKems := (resolveAvailable L wantedKems groupsAvail).1
  let selectedSigs := (resolveAvailable L wantedSigs sigsAvail).1
  let classicGroups := classicOf kems L groupsAvail
  let classicSigs := classicOf sigs L sigsAvail
  if mode = .one then oneCombo L specificKem specificSig groupsAvail sigsAvail
  else
    match buildModeAllowList (kems.categoryMap L) mode,
      buildModeAllowList (sigs.categoryMap L) mode with
    | some allowedKemNames, some allowedSigNames => do
      let m ← selectedKems.foldlM (addRow L selectedSigs classicSigs) ⟨[], []⟩
      let m ← classicGroups.foldlM (addRow L selectedSigs classicSigs) m
      filterCombos (modeAllowsCombo L mode allowedKemNames allowedSigNames) m.combos
    | _, _ => .error ⟨"Unsupported mode: ".toList ++ mode.text⟩

/-! ### What is asked for -/

/-- A name that is available, in any case. -/
def Available (L : Lower) (available : List Text) (name : Text) : Prop :=
  name ≠ [] ∧ L.lower name ∈ available.map L.lower

/-- A name that is wanted, in any case. -/
def Wanted (L : Lower) (wanted : List Text) (name : Text) : Prop :=
  L.lower name ∈ wanted.map L.lower

/-- A name of no table. -/
def Unclassified (f : Family) (L : Lower) (name : Text) : Prop :=
  ¬f.IsClassic L name ∧ ¬f.IsPure L name ∧ ¬f.IsHybrid L name

/-- A name that takes part: available, and either wanted or classic. -/
def Offered (f : Family) (L : Lower) (available wanted : List Text) (name : Text) : Prop :=
  Available L available name ∧ (Wanted L wanted name ∨ f.IsClassic L name)

/-- **The pairs a mode allows.** -/
def Allows (L : Lower) (mode : Mode) (kem sig : Text) : Prop :=
  match mode with
  | .all => True
  | .pqc => ¬kems.IsHybrid L kem ∧ ¬sigs.IsHybrid L sig
  | .pqcLevel => kems.IsPure L kem ∧ sigs.IsPure L sig ∧
      kems.levels.lookup (L.lower kem) = sigs.levels.lookup (L.lower sig)
  | .hybrid => kems.IsHybrid L kem ∧ sigs.IsHybrid L sig
  | .classic => kems.IsClassic L kem ∧ sigs.IsClassic L sig
  | .one => False

/-! ### Names that take part -/

section Names

variable {L : Lower} {available wanted : List Text} {name : Text}

theorem lower_eq_nil : L.lower name = [] ↔ name = [] := by
  constructor
  · intro h
    by_contra hne
    exact L.lower_ne_nil name hne h
  · rintro rfl
    exact L.lower_ascii [] (by simp)

/-- What a spelling is resolved to. -/
theorem resolved_spec (h : Available L available name) :
    ∃ resolved ∈ available, (normalised L available).lookup (L.lower name) = some resolved ∧
      L.lower resolved = L.lower name ∧ resolved ≠ [] := by
  obtain ⟨hne, hm⟩ := h
  rcases hl : (normalised L available).lookup (L.lower name) with _ | resolved
  · rw [normalised, lookup_ofItems_eq_none, List.map_map] at hl
    exact absurd hm hl
  · obtain ⟨a, ha, he⟩ := List.mem_map.mp (mem_of_lookup_ofItems hl)
    obtain ⟨hlow, rfl⟩ := Prod.mk.inj he
    refine ⟨a, ha, rfl, hlow, fun hnil => hne ?_⟩
    rw [← lower_eq_nil (L := L), ← hlow, hnil, lower_eq_nil]

theorem resolveEntry_of_not (h : ¬Available L available name) (result : List Text × List Text) :
    (resolveEntry L available result name).1 = result.1 := by
  have hnil : ((normalised L available).lookup (L.lower name)).getD [] = [] := by
    rcases hl : (normalised L available).lookup (L.lower name) with _ | resolved
    · rfl
    · obtain ⟨a, ha, he⟩ := List.mem_map.mp (mem_of_lookup_ofItems hl)
      obtain ⟨hlow, rfl⟩ := Prod.mk.inj he
      by_contra hne
      refine h ⟨fun hname => hne ?_, hlow ▸ List.mem_map_of_mem ha⟩
      rw [hname] at hlow
      exact lower_eq_nil.mp (hlow.trans (lower_eq_nil.mpr rfl))
  simp [resolveEntry, hnil]

theorem resolveEntry_of_available (h : Available L available name)
    (result : List Text × List Text) :
    ∃ resolved ∈ available, L.lower resolved = L.lower name ∧ resolved ≠ [] ∧
      ∀ k, k ∈ (resolveEntry L available result name).1 ↔ k ∈ result.1 ∨ k = resolved := by
  obtain ⟨resolved, hm, hl, hlow, hne⟩ := resolved_spec h
  refine ⟨resolved, hm, hlow, hne, fun k => ?_⟩
  simp only [resolveEntry, hl, Option.getD_some, if_pos hne]
  split_ifs with hin
  · exact ⟨.inl, fun h => h.elim id fun he => he ▸ hin⟩
  · simp

/-- **The names that are selected**: available ones, in some spelling of a name that is wanted. -/
theorem mem_foldl_resolveEntry (result : List Text × List Text) (wanted : List Text) :
    (∀ k ∈ (wanted.foldl (resolveEntry L available) result).1, k ∈ result.1 ∨ k ∈ available) ∧
    ∀ name, L.lower name ∈ (wanted.foldl (resolveEntry L available) result).1.map L.lower ↔
      L.lower name ∈ result.1.map L.lower ∨
        Wanted L wanted name ∧ Available L available name := by
  induction wanted generalizing result with
  | nil => exact ⟨fun k hk => .inl hk, fun name => by simp [Wanted]⟩
  | cons entry wanted ih =>
    obtain ⟨hsub, hmem⟩ := ih (resolveEntry L available result entry)
    rw [List.foldl_cons]
    by_cases ha : Available L available entry
    · obtain ⟨resolved, hm, hlow, hne, hk⟩ := resolveEntry_of_available ha result
      refine ⟨fun k hin => ?_, fun name => ?_⟩
      · rcases hsub k hin with h | h
        · rcases (hk k).mp h with h | rfl
          · exact .inl h
          · exact .inr hm
        · exact .inr h
      · have hstep : L.lower name ∈ (resolveEntry L available result entry).1.map L.lower ↔
            L.lower name ∈ result.1.map L.lower ∨ L.lower name = L.lower entry := by
          simp only [List.mem_map, hk, or_and_right, exists_or, exists_eq_left, hlow]
          rw [eq_comm (a := L.lower entry)]
        have havail : L.lower name = L.lower entry → Available L available name := fun he =>
          ⟨fun hnil => ha.1 (lower_eq_nil.mp (he ▸ lower_eq_nil.mpr hnil)), he ▸ ha.2⟩
        rw [hmem name, hstep, Wanted, Wanted, List.map_cons, List.mem_cons]
        tauto
    · rw [resolveEntry_of_not ha result] at hsub hmem
      refine ⟨hsub, fun name => ?_⟩
      have hnot : L.lower name = L.lower entry → ¬Available L available name := fun he h =>
        ha ⟨fun hnil => h.1 (lower_eq_nil.mp (he ▸ lower_eq_nil.mpr hnil)), he ▸ h.2⟩
      rw [hmem name, Wanted, Wanted, List.map_cons, List.mem_cons]
      tauto

/-- The names that take part, as the loops go over them. -/
def names (f : Family) (L : Lower) (available wanted : List Text) : List Text :=
  (resolveAvailable L wanted available).1 ++ classicOf f L available

theorem mem_of_mem_names {f : Family} {k : Text} (h : k ∈ names f L available wanted) :
    k ∈ available := by
  rcases List.mem_append.mp h with h | h
  · exact ((mem_foldl_resolveEntry ([], []) wanted).1 k h).resolve_left List.not_mem_nil
  · exact (List.mem_filter.mp h).1

/-- **The names that take part.** -/
theorem lower_mem_names {f : Family} (hf : f.WellFormed) :
    L.lower name ∈ (names f L available wanted).map L.lower ↔
    Offered f L available wanted name := by
  have hselected := (@mem_foldl_resolveEntry L available ([], []) wanted).2 name
  have hclassic : L.lower name ∈ (classicOf f L available).map L.lower ↔
      Available L available name ∧ f.IsClassic L name := by
    constructor
    · intro h
      obtain ⟨k, hk, he⟩ := List.mem_map.mp h
      obtain ⟨hm, hc⟩ := List.mem_filter.mp hk
      have hcl : f.IsClassic L name := by
        unfold Family.IsClassic
        rw [← he]
        exact (hf.lookup_categoryMap .classic).mp (of_decide_eq_true hc)
      exact ⟨⟨fun hnil => hf.nil_not_classic (hnil ▸ hcl), he ▸ List.mem_map_of_mem hm⟩, hcl⟩
    · rintro ⟨⟨-, hm⟩, hc⟩
      obtain ⟨k, hk, he⟩ := List.mem_map.mp hm
      refine List.mem_map.mpr ⟨k, List.mem_filter.mpr ⟨hk, decide_eq_true ?_⟩, he⟩
      rw [he]
      exact (hf.lookup_categoryMap .classic).mpr hc
  rw [names, List.map_append, List.mem_append, hclassic]
  rw [List.map_nil] at hselected
  rw [resolveAvailable, hselected, Offered]
  simp only [List.not_mem_nil, false_or]
  tauto

end Names

/-! ### The loops -/

section Loops

variable {L : Lower}

/-- `add_combo` of a pair. -/
def addPair (L : Lower) (m : Schedule) (pair : Text × Text) : Except BenchmarkError Schedule :=
  addCombo L m pair.1 pair.2

/-- A pair in lower case. -/
def pairKey (L : Lower) (pair : Text × Text) : Text × Text := (L.lower pair.1, L.lower pair.2)

theorem foldlM_flatMap {α β σ ε : Type*} (step : σ → β → Except ε σ) (g : α → List β) (l : List α)
    (s : σ) : l.foldlM (fun s a => (g a).foldlM step s) s = (l.flatMap g).foldlM step s := by
  induction l generalizing s with
  | nil => rfl
  | cons a l ih =>
    rw [List.foldlM_cons, List.flatMap_cons, List.foldlM_append]
    simp only [ih]

/-- **The four loops are one loop over all pairs.** -/
theorem loops_eq (selectedKems classicGroups selectedSigs classicSigs : List Text) (m : Schedule) :
    (do
      let m ← selectedKems.foldlM (addRow L selectedSigs classicSigs) m
      classicGroups.foldlM (addRow L selectedSigs classicSigs) m) =
    ((selectedKems ++ classicGroups) ×ˢ (selectedSigs ++ classicSigs)).foldlM (addPair L) m := by
  have hrow : addRow L selectedSigs classicSigs = fun m kem =>
      ((selectedSigs ++ classicSigs).map (Prod.mk kem)).foldlM (addPair L) m := by
    funext m kem
    rw [List.foldlM_map, List.foldlM_append]
    rfl
  rw [← List.foldlM_append, hrow, foldlM_flatMap]
  rfl

/-- Both names of a pair in lower case are classified. -/
def Classified (L : Lower) (key : Text × Text) : Prop :=
  ((kems.categoryMap L).lookup key.1).isSome ∧ ((sigs.categoryMap L).lookup key.2).isSome

/-- The combination of a pair. -/
def comboOf (L : Lower) (pair : Text × Text) : AlgorithmCombo where
  kem := pair.1
  signature := pair.2
  kemCategory := ((kems.categoryMap L).lookup (L.lower pair.1)).getD .classic
  sigCategory := ((sigs.categoryMap L).lookup (L.lower pair.2)).getD .classic
  groupsArgument := pair.1
  signatureId := pair.2

theorem addPair_seen {m : Schedule} {pair : Text × Text} (h : pairKey L pair ∈ m.seenPairs) :
    addPair L m pair = .ok m :=
  if_pos h

theorem addPair_new {m : Schedule} {pair : Text × Text} (h : pairKey L pair ∉ m.seenPairs)
    (hc : Classified L (pairKey L pair)) :
    addPair L m pair = .ok ⟨m.combos ++ [comboOf L pair], pairKey L pair :: m.seenPairs⟩ := by
  obtain ⟨hk, hs⟩ := hc
  obtain ⟨kemCategory, hk⟩ := Option.isSome_iff_exists.mp hk
  obtain ⟨sigCategory, hs⟩ := Option.isSome_iff_exists.mp hs
  change (kems.categoryMap L).lookup (L.lower pair.1) = _ at hk
  change (sigs.categoryMap L).lookup (L.lower pair.2) = _ at hs
  unfold addPair addCombo classifyGroup classifySignature Family.classify
  rw [comboOf, hk, hs]
  exact if_neg h

theorem addPair_error {m : Schedule} {pair : Text × Text} (h : pairKey L pair ∉ m.seenPairs)
    (hc : ¬Classified L (pairKey L pair)) : ∃ e, addPair L m pair = .error e := by
  have hif : addPair L m pair = (do
      let kemCategory ← classifyGroup L pair.1
      let sigCategory ← classifySignature L pair.2
      return ⟨m.combos ++ [⟨pair.1, pair.2, kemCategory, sigCategory, pair.1, pair.2⟩],
        pairKey L pair :: m.seenPairs⟩) := if_neg h
  rw [hif]
  unfold classifyGroup classifySignature Family.classify
  rcases hk : (kems.categoryMap L).lookup (L.lower pair.1) with _ | kemCategory
  · exact ⟨_, rfl⟩
  · rcases hs : (sigs.categoryMap L).lookup (L.lower pair.2) with _ | sigCategory
    · exact ⟨_, rfl⟩
    · refine absurd ⟨?_, ?_⟩ hc
      · simp [pairKey, hk]
      · simp [pairKey, hs]

/-- **The loop over classified pairs** keeps the first pair of each spelling. -/
theorem foldlM_addPair (pairs : List (Text × Text)) (m : Schedule)
    (h : ∀ pair ∈ pairs, Classified L (pairKey L pair)) :
    ∃ seen, pairs.foldlM (addPair L) m =
      .ok ⟨m.combos ++ (firstsBy (pairKey L) m.seenPairs pairs).map (comboOf L), seen⟩ := by
  induction pairs generalizing m with
  | nil => exact ⟨m.seenPairs, by simp [pure, Except.pure]⟩
  | cons pair pairs ih =>
    obtain ⟨hp, hps⟩ := List.forall_mem_cons.mp h
    rw [List.foldlM_cons]
    by_cases hs : pairKey L pair ∈ m.seenPairs
    · rw [addPair_seen hs, firstsBy_cons_pos hs]
      exact ih m hps
    · rw [addPair_new hs hp, firstsBy_cons_neg hs]
      obtain ⟨seen, he⟩ := ih ⟨m.combos ++ [comboOf L pair], pairKey L pair :: m.seenPairs⟩ hps
      refine ⟨seen, he.trans ?_⟩
      simp

/-- **The loop fails** on a pair that is not classified. -/
theorem foldlM_addPair_error (pairs : List (Text × Text)) (m : Schedule)
    (hseen : ∀ key ∈ m.seenPairs, Classified L key)
    {bad : Text × Text} (hm : bad ∈ pairs) (hbad : ¬Classified L (pairKey L bad)) :
    ∃ e, pairs.foldlM (addPair L) m = .error e := by
  induction pairs generalizing m with
  | nil => cases hm
  | cons pair pairs ih =>
    have hrest : Classified L (pairKey L pair) → bad ∈ pairs := fun hc =>
      (List.mem_cons.mp hm).resolve_left fun he => hbad (he ▸ hc)
    rw [List.foldlM_cons]
    by_cases hs : pairKey L pair ∈ m.seenPairs
    · rw [addPair_seen hs]
      exact ih m hseen (hrest (hseen _ hs))
    · by_cases hc : Classified L (pairKey L pair)
      · rw [addPair_new hs hc]
        exact ih _ (List.forall_mem_cons.mpr ⟨hc, hseen⟩) (hrest hc)
      · obtain ⟨e, he⟩ := addPair_error hs hc
        rw [he]
        exact ⟨e, rfl⟩

end Loops

/-! ### The filter -/

section Filter

variable {L : Lower} {mode : Mode}

theorem filterCombos_spec {allows : AlgorithmCombo → Except BenchmarkError Bool}
    (combos : List AlgorithmCombo) (h : ∀ combo ∈ combos, ∃ keep, allows combo = .ok keep) :
    ∃ kept, filterCombos allows combos = .ok kept ∧ kept.Sublist combos ∧
      ∀ combo, combo ∈ kept ↔ combo ∈ combos ∧ allows combo = .ok true := by
  induction combos with
  | nil => exact ⟨[], rfl, .refl _, by simp⟩
  | cons combo combos ih =>
    obtain ⟨⟨keep, hkeep⟩, hrest⟩ := List.forall_mem_cons.mp h
    obtain ⟨kept, hkept, hsub, hmem⟩ := ih hrest
    have hcons : filterCombos allows (combo :: combos) =
        .ok (if keep then combo :: kept else kept) := by
      rw [filterCombos, hkeep, hkept]
      rfl
    refine ⟨_, hcons, ?_, fun c => ?_⟩
    · cases keep with
      | true => exact hsub.cons_cons combo
      | false => exact hsub.cons combo
    · cases keep with
      | true =>
        simp only [if_true, List.mem_cons, hmem]
        constructor
        · rintro (rfl | ⟨hm, ha⟩)
          · exact ⟨.inl rfl, hkeep⟩
          · exact ⟨.inr hm, ha⟩
        · rintro ⟨rfl | hm, ha⟩
          · exact .inl rfl
          · exact .inr ⟨hm, ha⟩
      | false =>
        simp only [Bool.false_eq_true, if_false, List.mem_cons, hmem]
        constructor
        · rintro ⟨hm, ha⟩
          exact ⟨.inr hm, ha⟩
        · rintro ⟨rfl | hm, ha⟩
          · rw [hkeep] at ha
            cases ha
          · exact ⟨hm, ha⟩

theorem nistLevel_of_isPure {f : Family} (hf : f.WellFormed) {name : Text} (h : f.IsPure L name) :
    ∃ level, f.levels.lookup (L.lower name) = some level ∧ f.nistLevel L name = .ok level := by
  obtain ⟨level, hl⟩ := hf.exists_level h
  exact ⟨level, hl, by rw [Family.nistLevel, hl]⟩

/-- The pairs a mode allows, by the categories of the two names. -/
theorem allows_iff (hmode : mode ≠ .one) {kem sig : Text} {ck cs : Category}
    (hk : (kems.categoryMap L).lookup (L.lower kem) = some ck)
    (hs : (sigs.categoryMap L).lookup (L.lower sig) = some cs) :
    Allows L mode kem sig ↔ mode.admits ck = true ∧ mode.admits cs = true ∧
      (mode = .pqcLevel →
        kems.levels.lookup (L.lower kem) = sigs.levels.lookup (L.lower sig)) := by
  have hkem := fun c => @Family.WellFormed.lookup_categoryMap kems L kem wellFormed_kems c
  have hsig := fun c => @Family.WellFormed.lookup_categoryMap sigs L sig wellFormed_sigs c
  simp only [hk, hs, Option.some.injEq] at hkem hsig
  have hkc := hkem .classic
  have hkp := hkem .pqc
  have hkh := hkem .pqcHybrid
  have hsc := hsig .classic
  have hsp := hsig .pqc
  have hsh := hsig .pqcHybrid
  simp only at hkc hkp hkh hsc hsp hsh
  cases mode <;> simp [Allows, Mode.admits, ← hkc, ← hkp, ← hkh, ← hsc, ← hsp, ← hsh] at hmode ⊢

/-- **The filter of a mode** never fails on classified pairs, and keeps those the mode allows. -/
theorem modeAllowsCombo_spec (hmode : mode ≠ .one) {allowedKems allowedSigs : List Text}
    (hk : buildModeAllowList (kems.categoryMap L) mode = some allowedKems)
    (hs : buildModeAllowList (sigs.categoryMap L) mode = some allowedSigs) {pair : Text × Text}
    (hc : Classified L (pairKey L pair)) :
    ∃ keep, modeAllowsCombo L mode allowedKems allowedSigs (comboOf L pair) = .ok keep ∧
      (keep = true ↔ Allows L mode pair.1 pair.2) := by
  obtain ⟨ck, hck⟩ := Option.isSome_iff_exists.mp hc.1
  obtain ⟨cs, hcs⟩ := Option.isSome_iff_exists.mp hc.2
  change (kems.categoryMap L).lookup (L.lower pair.1) = _ at hck
  change (sigs.categoryMap L).lookup (L.lower pair.2) = _ at hcs
  have hkem : L.lower pair.1 ∈ allowedKems ↔ mode.admits ck = true := by
    simp [mem_buildModeAllowList hk, hck]
  have hsig : L.lower pair.2 ∈ allowedSigs ↔ mode.admits cs = true := by
    simp [mem_buildModeAllowList hs, hcs]
  rw [allows_iff hmode hck hcs]
  simp only [modeAllowsCombo, comboOf, hkem, hsig, hck, hcs, Option.getD_some]
  by_cases hak : mode.admits ck = true
  · by_cases has : mode.admits cs = true
    · rw [if_neg (not_not.mpr hak), if_neg (not_not.mpr has)]
      by_cases hlevel : mode = .pqcLevel
      · subst hlevel
        obtain rfl : ck = .pqc := by simpa [Mode.admits] using hak
        obtain rfl : cs = .pqc := by simpa [Mode.admits] using has
        obtain ⟨kemLevel, hlk, hnk⟩ := nistLevel_of_isPure wellFormed_kems
          ((wellFormed_kems.lookup_categoryMap .pqc).mp hck)
        obtain ⟨sigLevel, hls, hns⟩ := nistLevel_of_isPure wellFormed_sigs
          ((wellFormed_sigs.lookup_categoryMap .pqc).mp hcs)
        refine ⟨decide (kemLevel = sigLevel), ?_, ?_⟩
        · simp [kemNistLevel, sigNistLevel, hnk, hns, bind, Except.bind, pure, Except.pure]
        · simp [hlk, hls, Mode.admits]
      · have hpqc : ¬(mode = .pqc ∧ (ck = .pqcHybrid ∨ cs = .pqcHybrid)) := by
          rintro ⟨rfl, rfl | rfl⟩
          · simp [Mode.admits] at hak
          · simp [Mode.admits] at has
        rw [if_neg hpqc, if_neg hlevel]
        exact ⟨true, rfl, by simp [hak, has, hlevel]⟩
    · rw [if_neg (not_not.mpr hak), if_pos has]
      exact ⟨false, rfl, by simp [has]⟩
  · rw [if_pos hak]
    exact ⟨false, rfl, by simp [hak]⟩

end Filter

/-! ### The result -/

/-- **The matrix cannot be built**: an unclassified name that is wanted and available, and a name of
the other kind that takes part. -/
def Fails (L : Lower) (groupsAvail sigsAvail wantedKems wantedSigs : List Text) : Prop :=
  (∃ kem, Wanted L wantedKems kem ∧ Available L groupsAvail kem ∧ Unclassified kems L kem ∧
    ∃ sig, Offered sigs L sigsAvail wantedSigs sig) ∨
  ∃ sig, Wanted L wantedSigs sig ∧ Available L sigsAvail sig ∧ Unclassified sigs L sig ∧
    ∃ kem, Offered kems L groupsAvail wantedKems kem

section Result

variable {L : Lower} {groupsAvail sigsAvail wantedKems wantedSigs : List Text}

theorem isSome_lookup_iff {f : Family} (hf : f.WellFormed) {name : Text} :
    ((f.categoryMap L).lookup (L.lower name)).isSome ↔ ¬Unclassified f L name := by
  rw [Option.isSome_iff_exists]
  simp only [hf.lookup_categoryMap, Unclassified]
  constructor
  · rintro ⟨category, h⟩ ⟨hc, hp, hh⟩
    cases category with
    | classic => exact hc h
    | pqc => exact hp h
    | pqcHybrid => exact hh h
  · intro h
    by_contra hnone
    exact h ⟨fun hc => hnone ⟨.classic, hc⟩, fun hp => hnone ⟨.pqc, hp⟩,
      fun hh => hnone ⟨.pqcHybrid, hh⟩⟩

theorem classified_pairKey {pair : Text × Text} : Classified L (pairKey L pair) ↔
    ¬Unclassified kems L pair.1 ∧ ¬Unclassified sigs L pair.2 :=
  and_congr (isSome_lookup_iff wellFormed_kems) (isSome_lookup_iff wellFormed_sigs)

theorem unclassified_congr {f : Family} {a b : Text} (h : L.lower a = L.lower b) :
    Unclassified f L a ↔ Unclassified f L b := by
  unfold Unclassified Family.IsClassic Family.IsPure Family.IsHybrid
  rw [h]

theorem offered_of_mem {f : Family} (hf : f.WellFormed) {available wanted : List Text} {name : Text}
    (h : name ∈ names f L available wanted) : Offered f L available wanted name :=
  (lower_mem_names hf).mp (List.mem_map_of_mem h)

theorem exists_of_offered {f : Family} (hf : f.WellFormed) {available wanted : List Text}
    {name : Text} (h : Offered f L available wanted name) :
    ∃ k ∈ names f L available wanted, L.lower k = L.lower name :=
  List.mem_map.mp ((lower_mem_names hf).mpr h)

/-- **A pair that is not classified** is there exactly if an unclassified name has something to be
paired with. -/
theorem exists_not_classified_iff :
    (∃ pair ∈ names kems L groupsAvail wantedKems ×ˢ names sigs L sigsAvail wantedSigs,
      ¬Classified L (pairKey L pair)) ↔ Fails L groupsAvail sigsAvail wantedKems wantedSigs := by
  constructor
  · rintro ⟨⟨kem, sig⟩, hm, hc⟩
    obtain ⟨hk, hs⟩ := List.pair_mem_product.mp hm
    have hok := offered_of_mem wellFormed_kems hk
    have hos := offered_of_mem wellFormed_sigs hs
    by_cases huk : Unclassified kems L kem
    · exact .inl ⟨kem, hok.2.resolve_right huk.1, hok.1, huk, sig, hos⟩
    · have hus : Unclassified sigs L sig := by
        by_contra hus
        exact hc (classified_pairKey.mpr ⟨huk, hus⟩)
      exact .inr ⟨sig, hos.2.resolve_right hus.1, hos.1, hus, kem, hok⟩
  · rintro (⟨kem, hw, ha, hu, sig, ho⟩ | ⟨sig, hw, ha, hu, kem, ho⟩)
    · obtain ⟨k, hk, hek⟩ := exists_of_offered wellFormed_kems ⟨ha, .inl hw⟩
      obtain ⟨s, hs, -⟩ := exists_of_offered wellFormed_sigs ho
      refine ⟨(k, s), List.pair_mem_product.mpr ⟨hk, hs⟩, fun hc => ?_⟩
      exact (classified_pairKey.mp hc).1 ((unclassified_congr hek).mpr hu)
    · obtain ⟨s, hs, hes⟩ := exists_of_offered wellFormed_sigs ⟨ha, .inl hw⟩
      obtain ⟨k, hk, -⟩ := exists_of_offered wellFormed_kems ho
      refine ⟨(k, s), List.pair_mem_product.mpr ⟨hk, hs⟩, fun hc => ?_⟩
      exact (classified_pairKey.mp hc).2 ((unclassified_congr hes).mpr hu)

theorem allows_congr {mode : Mode} {k k' s s' : Text} (hk : L.lower k = L.lower k')
    (hs : L.lower s = L.lower s') : Allows L mode k s ↔ Allows L mode k' s' := by
  unfold Allows Family.IsClassic Family.IsPure Family.IsHybrid
  rw [hk, hs]

/-- The matrix as one loop over the pairs and a filter. -/
theorem buildAlgorithmMatrix_eq {mode : Mode} (hmode : mode ≠ .one)
    (specificKem specificSig : Option Text) :
    ∃ allowedKems allowedSigs, buildModeAllowList (kems.categoryMap L) mode = some allowedKems ∧
      buildModeAllowList (sigs.categoryMap L) mode = some allowedSigs ∧
      buildAlgorithmMatrix L mode specificKem specificSig groupsAvail sigsAvail wantedKems
        wantedSigs =
        ((names kems L groupsAvail wantedKems ×ˢ names sigs L sigsAvail wantedSigs).foldlM
          (addPair L)
          ⟨[], []⟩ >>= fun m => filterCombos (modeAllowsCombo L mode allowedKems allowedSigs)
            m.combos) := by
  have hsome : ∀ categoryMap, ∃ allowed, buildModeAllowList categoryMap mode = some allowed := by
    intro categoryMap
    cases mode with
    | one => exact absurd rfl hmode
    | _ => exact ⟨_, rfl⟩
  obtain ⟨allowedKems, hk⟩ := hsome (kems.categoryMap L)
  obtain ⟨allowedSigs, hs⟩ := hsome (sigs.categoryMap L)
  refine ⟨allowedKems, allowedSigs, hk, hs, ?_⟩
  unfold buildAlgorithmMatrix names
  rw [← loops_eq, bind_assoc]
  simp only [if_neg hmode, hk, hs]

/-- A combination in lower case. -/
def comboKey (L : Lower) (combo : AlgorithmCombo) : Text × Text :=
  (L.lower combo.kem, L.lower combo.signature)

/-- **What the loop and the filter give** on classified pairs. -/
theorem filterCombos_firstsBy {mode : Mode} (hmode : mode ≠ .one)
    {allowedKems allowedSigs : List Text}
    (hk : buildModeAllowList (kems.categoryMap L) mode = some allowedKems)
    (hs : buildModeAllowList (sigs.categoryMap L) mode = some allowedSigs)
    {pairs : List (Text × Text)} (hall : ∀ pair ∈ pairs, Classified L (pairKey L pair)) :
    ∃ kept, filterCombos (modeAllowsCombo L mode allowedKems allowedSigs)
        ((firstsBy (pairKey L) [] pairs).map (comboOf L)) = .ok kept ∧
      (kept.map (comboKey L)).Nodup ∧
      (∀ combo ∈ kept, (combo.kem, combo.signature) ∈ pairs) ∧
      ∀ key, key ∈ kept.map (comboKey L) ↔
        ∃ pair ∈ pairs, pairKey L pair = key ∧ Allows L mode pair.1 pair.2 := by
  have hfirst : ∀ pair ∈ firstsBy (pairKey L) [] pairs, pair ∈ pairs := fun pair hm =>
    (sublist_firstsBy _ _).subset hm
  have hspec := fun pair hm => modeAllowsCombo_spec hmode hk hs (hall pair hm)
  obtain ⟨kept, hkept, hsub, hmem⟩ := @filterCombos_spec
    (modeAllowsCombo L mode allowedKems allowedSigs)
    ((firstsBy (pairKey L) [] pairs).map (comboOf L)) fun combo hm => by
      obtain ⟨pair, hp, rfl⟩ := List.mem_map.mp hm
      obtain ⟨keep, hkeep, -⟩ := hspec pair (hfirst pair hp)
      exact ⟨keep, hkeep⟩
  have hcombo : ∀ combo, combo ∈ kept ↔
      ∃ pair ∈ firstsBy (pairKey L) [] pairs, comboOf L pair = combo ∧
      Allows L mode pair.1 pair.2 := by
    intro combo
    rw [hmem, List.mem_map]
    constructor
    · rintro ⟨⟨pair, hp, rfl⟩, ha⟩
      obtain ⟨keep, hkeep, hiff⟩ := hspec pair (hfirst pair hp)
      rw [hkeep] at ha
      exact ⟨pair, hp, rfl, hiff.mp (Except.ok.inj ha)⟩
    · rintro ⟨pair, hp, rfl, ha⟩
      obtain ⟨keep, hkeep, hiff⟩ := hspec pair (hfirst pair hp)
      exact ⟨⟨pair, hp, rfl⟩, by rw [hkeep, hiff.mpr ha]⟩
  refine ⟨kept, hkept, ?_, fun combo hm => ?_, fun key => ?_⟩
  · have hkeys : ((firstsBy (pairKey L) [] pairs).map (comboOf L)).map (comboKey L) =
        (firstsBy (pairKey L) [] pairs).map (pairKey L) := List.map_map
    refine List.Nodup.sublist (hsub.map (comboKey L)) ?_
    rw [hkeys]
    exact nodup_map_firstsBy _ _
  · obtain ⟨pair, hp, rfl, -⟩ := (hcombo combo).mp hm
    exact hfirst pair hp
  · constructor
    · intro h
      obtain ⟨combo, hm, rfl⟩ := List.mem_map.mp h
      obtain ⟨pair, hp, rfl, ha⟩ := (hcombo combo).mp hm
      exact ⟨pair, hfirst pair hp, rfl, ha⟩
    · rintro ⟨pair, hp, rfl, ha⟩
      -- the first pair with this spelling is kept as well
      obtain ⟨first, hf, he⟩ := List.mem_map.mp
        (mem_map_firstsBy.mpr ⟨List.not_mem_nil, List.mem_map_of_mem (f := pairKey L) hp⟩)
      obtain ⟨hek, hes⟩ := Prod.mk.inj he
      exact List.mem_map.mpr ⟨comboOf L first,
        (hcombo _).mpr ⟨first, hf, rfl, (allows_congr hek hes).mpr ha⟩, he⟩

/-- **The matrix of algorithms.** It fails exactly if an unclassified name that is wanted and
available has something to be paired with. Otherwise it has exactly the pairs of names that take
part and that the mode allows, each in one spelling. -/
theorem buildAlgorithmMatrix_spec (L : Lower) (mode : Mode) (hmode : mode ≠ .one)
    (specificKem specificSig : Option Text)
    (groupsAvail sigsAvail wantedKems wantedSigs : List Text) :
    ((∃ e, buildAlgorithmMatrix L mode specificKem specificSig groupsAvail sigsAvail wantedKems
      wantedSigs = .error e) ↔ Fails L groupsAvail sigsAvail wantedKems wantedSigs) ∧
    ∀ combos, buildAlgorithmMatrix L mode specificKem specificSig groupsAvail sigsAvail wantedKems
        wantedSigs = .ok combos →
      (combos.map (comboKey L)).Nodup ∧
      (∀ combo ∈ combos, combo.kem ∈ groupsAvail ∧ combo.signature ∈ sigsAvail) ∧
      ∀ kem sig, (L.lower kem, L.lower sig) ∈ combos.map (comboKey L) ↔
        Offered kems L groupsAvail wantedKems kem ∧ Offered sigs L sigsAvail wantedSigs sig ∧
          Allows L mode kem sig := by
  obtain ⟨allowedKems, allowedSigs, hak, has, heq⟩ :=
    @buildAlgorithmMatrix_eq L groupsAvail sigsAvail
    wantedKems wantedSigs mode hmode specificKem specificSig
  rw [heq, ← exists_not_classified_iff]
  by_cases hbad : ∃ pair ∈ names kems L groupsAvail wantedKems ×ˢ names sigs L sigsAvail wantedSigs,
      ¬Classified L (pairKey L pair)
  · obtain ⟨bad, hm, hnc⟩ := id hbad
    obtain ⟨e, he⟩ := foldlM_addPair_error _ ⟨[], []⟩ (by simp) hm hnc
    rw [he]
    exact ⟨iff_of_true ⟨e, rfl⟩ hbad, fun combos h => by cases h⟩
  · have hall : ∀ pair ∈ names kems L groupsAvail wantedKems ×ˢ names sigs L sigsAvail wantedSigs,
        Classified L (pairKey L pair) := fun pair hm => by
      by_contra hc
      exact hbad ⟨pair, hm, hc⟩
    obtain ⟨seen, hloop⟩ := foldlM_addPair _ ⟨[], []⟩ hall
    obtain ⟨kept, hkept, hnodup, hsub, hmem⟩ := filterCombos_firstsBy hmode hak has hall
    rw [hloop]
    simp only [bind, Except.bind, List.nil_append, hkept]
    refine ⟨iff_of_false (by simp) hbad, fun combos h => ?_⟩
    obtain rfl := Except.ok.inj h
    refine ⟨hnodup, fun combo hm => ?_, fun kem sig => ?_⟩
    · obtain ⟨hk, hs⟩ := List.pair_mem_product.mp (hsub combo hm)
      exact ⟨mem_of_mem_names hk, mem_of_mem_names hs⟩
    · rw [hmem]
      constructor
      · rintro ⟨⟨k, s⟩, hp, he, ha⟩
        obtain ⟨hk, hs⟩ := List.pair_mem_product.mp hp
        obtain ⟨hek, hes⟩ := Prod.mk.inj he
        rw [← lower_mem_names wellFormed_kems, ← lower_mem_names wellFormed_sigs, ← hek, ← hes]
        exact ⟨List.mem_map_of_mem hk, List.mem_map_of_mem hs, (allows_congr hek hes).mp ha⟩
      · rintro ⟨hok, hos, ha⟩
        obtain ⟨k, hk, hek⟩ := exists_of_offered wellFormed_kems hok
        obtain ⟨s, hs, hes⟩ := exists_of_offered wellFormed_sigs hos
        exact ⟨(k, s), List.pair_mem_product.mpr ⟨hk, hs⟩, Prod.ext hek hes,
          (allows_congr hek hes).mpr ha⟩

end Result

/-- Lowering of texts in ASCII. -/
def asciiLower : Lower := ⟨(·.map Char.toLower), fun _ _ => rfl, by simp⟩

/-- An unclassified group that is wanted makes the matrix fail, also where only classic pairs are
asked for. -/
theorem buildAlgorithmMatrix_unclassified :
    ∃ e, buildAlgorithmMatrix asciiLower .classic none none ["ffdhe2048".toList] ["ED25519".toList]
      ["ffdhe2048".toList] [] = .error e :=
  (buildAlgorithmMatrix_spec asciiLower .classic (by decide) none none _ _ _ _).1.mpr
    (.inl ⟨"ffdhe2048".toList, List.mem_cons_self, ⟨by decide, List.mem_cons_self⟩,
      ⟨by unfold Family.IsClassic; decide +kernel, by unfold Family.IsPure; decide +kernel,
        by unfold Family.IsHybrid; decide +kernel⟩,
      "ED25519".toList, ⟨by decide, List.mem_cons_self⟩, .inr List.mem_cons_self⟩)

end PapQuic.Script.Matrix
