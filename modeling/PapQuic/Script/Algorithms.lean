import Mathlib.Tactic.Common
import PapQuic.Lib.Printf
import PapQuic.Lib.PyDict

/-! # Algorithms

The tables of `scripts/run_benchmarks.py` that classify key exchange groups and signatures as
classic, post-quantum or hybrid, with the NIST levels of the post-quantum ones, and the names each
benchmark mode allows. Names are looked up in lower case.

The tables of a family are disjoint (`Family.WellFormed`), so a name has the category of the table
it is in (`lookup_categoryMap`), and every post-quantum name has a level (`exists_level`). -/

namespace PapQuic.Script.Algorithms

open Lib.Printf Lib.PyDict

/-- `str.lower` of Python, as far as it is used here: texts in ASCII are lowered letter by letter,
and only the empty text gets empty. -/
structure Lower where
  lower : Text → Text
  lower_ascii : ∀ s : Text, (∀ c ∈ s, c.toNat < 128) → lower s = s.map Char.toLower
  lower_ne_nil : ∀ s, s ≠ [] → lower s ≠ []

/-- `BenchmarkError`. -/
structure BenchmarkError where
  message : Text
  deriving DecidableEq, Repr

inductive Category
  | classic
  | pqc
  | pqcHybrid
  deriving DecidableEq, Repr

/-- The choices of `--mode`. -/
inductive Mode
  | all
  | pqc
  | pqcLevel
  | hybrid
  | classic
  | one
  deriving DecidableEq, Repr

def Mode.text : Mode → Text
  | .all => "all".toList
  | .pqc => "pqc".toList
  | .pqcLevel => "pqc-level".toList
  | .hybrid => "hybrid".toList
  | .classic => "classic".toList
  | .one => "one".toList

/-! ### Tables -/

/-- `CLASSIC_GROUPS`. -/
def classicGroups : List Text :=
  ["x25519", "secp256r1", "secp384r1", "secp521r1", "x448"].map String.toList

/-- `CLASSIC_SIGS`. -/
def classicSigs : List Text :=
  ["ED25519", "ED448"].map String.toList

/-- `_PURE_PQC_GROUPS`. -/
def purePqcGroups : List Text :=
  ["mlkem512", "mlkem768", "mlkem1024", "frodo640aes", "frodo640shake", "frodo976aes",
    "frodo976shake", "frodo1344aes", "frodo1344shake", "bikel1", "bikel3", "bikel5", "hqc128",
    "hqc192", "hqc256"].map String.toList

/-- `_HYBRID_GROUPS`. -/
def hybridGroups : List Text :=
  ["secp256r1mlkem768", "x25519mlkem768", "secp384r1mlkem1024", "p256_mlkem512",
    "p384_mlkem768", "p521_mlkem1024", "x25519_mlkem512", "x448_mlkem768", "p256_frodo640aes",
    "x25519_frodo640aes", "p256_frodo640shake", "x25519_frodo640shake", "p384_frodo976aes",
    "x448_frodo976aes", "p384_frodo976shake", "x448_frodo976shake", "p521_frodo1344aes",
    "p521_frodo1344shake", "p256_bikel1", "x25519_bikel1", "p384_bikel3", "x448_bikel3",
    "p521_bikel5", "p256_hqc128", "x25519_hqc128", "p384_hqc192", "x448_hqc192", "p521_hqc256",
    "bp256_mlkem512", "bp384_mlkem768", "bp512_mlkem1024"].map String.toList

/-- `_PURE_PQC_SIGS`. -/
def purePqcSigs : List Text :=
  ["mldsa44", "mldsa65", "mldsa87", "falcon512", "falcon1024", "falconpadded512",
    "falconpadded1024", "sphincssha2128fsimple", "sphincssha2128ssimple",
    "sphincssha2192fsimple", "sphincssha2192ssimple", "sphincssha2256fsimple",
    "sphincssha2256ssimple", "sphincsshake128fsimple", "sphincsshake128ssimple",
    "sphincsshake192fsimple", "sphincsshake192ssimple", "sphincsshake256fsimple",
    "sphincsshake256ssimple"].map String.toList

/-- `_HYBRID_SIGS`. -/
def hybridSigs : List Text :=
  ["p256_mldsa44", "rsa3072_mldsa44", "p384_mldsa65", "p521_mldsa87", "p256_falcon512",
    "rsa3072_falcon512", "p256_falconpadded512", "rsa3072_falconpadded512", "p521_falcon1024",
    "p521_falconpadded1024", "p256_sphincssha2128fsimple", "rsa3072_sphincssha2128fsimple",
    "p256_sphincssha2128ssimple", "rsa3072_sphincssha2128ssimple",
    "p384_sphincssha2192fsimple", "p384_sphincssha2192ssimple", "p521_sphincssha2256fsimple",
    "p521_sphincssha2256ssimple", "p256_sphincsshake128fsimple",
    "rsa3072_sphincsshake128fsimple", "p256_sphincsshake128ssimple",
    "rsa3072_sphincsshake128ssimple", "p384_sphincsshake192fsimple",
    "p384_sphincsshake192ssimple", "p521_sphincsshake256fsimple", "p521_sphincsshake256ssimple"].map
    String.toList

/-- `_PQC_KEM_LEVELS`. -/
def pqcKemLevels : Dict Text ℕ :=
  ofItems ([("mlkem512", 1), ("frodo640aes", 1), ("frodo640shake", 1), ("bikel1", 1),
    ("hqc128", 1), ("mlkem768", 3), ("frodo976aes", 3), ("frodo976shake", 3),
    ("bikel3", 3), ("hqc192", 3), ("mlkem1024", 5), ("frodo1344aes", 5),
    ("frodo1344shake", 5), ("bikel5", 5), ("hqc256", 5)].map fun (name, level) =>
      (name.toList, level))

/-- `_PQC_SIG_LEVELS`. -/
def pqcSigLevels : Dict Text ℕ :=
  ofItems ([("mldsa44", 1), ("falcon512", 1), ("falconpadded512", 1), ("sphincssha2128fsimple", 1),
    ("sphincssha2128ssimple", 1), ("sphincsshake128fsimple", 1),
    ("sphincsshake128ssimple", 1), ("mldsa65", 3), ("sphincssha2192fsimple", 3),
    ("sphincssha2192ssimple", 3), ("sphincsshake192fsimple", 3),
    ("sphincsshake192ssimple", 3), ("mldsa87", 5), ("falcon1024", 5),
    ("falconpadded1024", 5), ("sphincssha2256fsimple", 5), ("sphincssha2256ssimple", 5),
    ("sphincsshake256fsimple", 5), ("sphincsshake256ssimple", 5)].map fun (name, level) =>
      (name.toList, level))

/-- The tables of a kind of names, and what messages call it. -/
structure Family where
  label : Text
  classic : List Text
  purePqc : List Text
  hybrid : List Text
  levels : Dict Text ℕ

def kems : Family :=
  ⟨"KEM/Group".toList, classicGroups, purePqcGroups, hybridGroups, pqcKemLevels⟩

def sigs : Family :=
  ⟨"Signature".toList, classicSigs, purePqcSigs, hybridSigs, pqcSigLevels⟩

/-- `_build_category_map`. -/
def buildCategoryMap (L : Lower) (classic purePqc hybrid : List Text) : Dict Text Category :=
  ofItems (classic.map (L.lower ·, .classic) ++ purePqc.map (L.lower ·, .pqc) ++
    hybrid.map (L.lower ·, .pqcHybrid))

/-- `_KEM_CATEGORY_MAP` and `_SIG_CATEGORY_MAP`. -/
def Family.categoryMap (f : Family) (L : Lower) : Dict Text Category :=
  buildCategoryMap L (f.classic.map L.lower) f.purePqc f.hybrid

/-- The names of a category in a map. -/
def namesOf (categoryMap : Dict Text Category) (category : Category) : List Text :=
  (categoryMap.entries.filter (·.2 = category)).map Sigma.fst

/-- `_build_mode_allow_list`; there is no entry for the mode `one`. -/
def buildModeAllowList (categoryMap : Dict Text Category) : Mode → Option (List Text)
  | .all => some categoryMap.keys
  | .pqc => some (namesOf categoryMap .classic ++ namesOf categoryMap .pqc)
  | .pqcLevel => some (namesOf categoryMap .pqc)
  | .hybrid => some (namesOf categoryMap .pqcHybrid)
  | .classic => some (namesOf categoryMap .classic)
  | .one => none

/-- `classify_group` and `classify_signature`. -/
def Family.classify (f : Family) (L : Lower) (name : Text) : Except BenchmarkError Category :=
  match (f.categoryMap L).lookup (L.lower name) with
  | some category => .ok category
  | none => .error ⟨f.label ++ " '".toList ++ name ++
      "' is not present in the configured classification lists".toList⟩

/-- `_kem_nist_level` and `_sig_nist_level`. -/
def Family.nistLevel (f : Family) (L : Lower) (name : Text) : Except BenchmarkError ℕ :=
  match f.levels.lookup (L.lower name) with
  | some level => .ok level
  | none => .error ⟨f.label ++ " '".toList ++ name ++
      "' does not have an associated NIST level classification".toList⟩

def classifyGroup (L : Lower) : Text → Except BenchmarkError Category := kems.classify L

def classifySignature (L : Lower) : Text → Except BenchmarkError Category := sigs.classify L

def kemNistLevel (L : Lower) : Text → Except BenchmarkError ℕ := kems.nistLevel L

def sigNistLevel (L : Lower) : Text → Except BenchmarkError ℕ := sigs.nistLevel L

/-! ### Categories -/

section Categories

variable {f : Family} {L : Lower} {name : Text}

/-- The tables of names in ASCII: post-quantum and hybrid names in lower case, no name empty or in
two tables, and a level for each post-quantum name. -/
@[mk_iff]
structure Family.WellFormed (f : Family) : Prop where
  ascii : ∀ name ∈ f.classic ++ f.purePqc ++ f.hybrid, ∀ c ∈ name, c.toNat < 128
  lowerCase : ∀ name ∈ f.purePqc ++ f.hybrid, name.map Char.toLower = name
  classicAscii : ∀ name ∈ f.classic, ∀ c ∈ name.map Char.toLower, c.toNat < 128
  idempotent : ∀ name ∈ f.classic, (name.map Char.toLower).map Char.toLower = name.map Char.toLower
  nonempty : [] ∉ f.classic
  nodup : (f.classic.map (·.map Char.toLower) ++ f.purePqc ++ f.hybrid).Nodup
  levels : ∀ name ∈ f.purePqc, (f.levels.lookup name).isSome = true

instance : DecidablePred Family.WellFormed := fun f => decidable_of_iff' _ (Family.wellFormed_iff f)

theorem wellFormed_kems : kems.WellFormed := by decide +kernel

theorem wellFormed_sigs : sigs.WellFormed := by decide +kernel

/-- A classic name. -/
def Family.IsClassic (f : Family) (L : Lower) (name : Text) : Prop :=
  L.lower name ∈ f.classic.map L.lower

/-- A pure post-quantum name. -/
def Family.IsPure (f : Family) (L : Lower) (name : Text) : Prop := L.lower name ∈ f.purePqc

/-- A hybrid name. -/
def Family.IsHybrid (f : Family) (L : Lower) (name : Text) : Prop := L.lower name ∈ f.hybrid

/-- The names of all tables with their categories. -/
def Family.items (f : Family) (L : Lower) : List (Text × Category) :=
  (f.classic.map L.lower).map (·, .classic) ++ f.purePqc.map (·, .pqc) ++
    f.hybrid.map (·, .pqcHybrid)

namespace Family.WellFormed

variable (hf : f.WellFormed)
include hf

theorem lower_eq (h : name ∈ f.purePqc ++ f.hybrid) : L.lower name = name := by
  rw [L.lower_ascii name (hf.ascii name ?_), hf.lowerCase name h]
  rw [List.append_assoc]
  exact List.mem_append_right _ h

theorem lower_classic (h : name ∈ f.classic) : L.lower name = name.map Char.toLower :=
  L.lower_ascii name (hf.ascii name (List.mem_append_left _ (List.mem_append_left _ h)))

theorem lower_lower_classic (h : name ∈ f.classic) : L.lower (L.lower name) = L.lower name := by
  rw [hf.lower_classic h, L.lower_ascii _ (hf.classicAscii name h), hf.idempotent name h]

/-- The category map has the names as they are in the tables. -/
theorem categoryMap_eq (L : Lower) : f.categoryMap L = ofItems (f.items L) := by
  have hclassic : (f.classic.map L.lower).map (L.lower ·, Category.classic) =
      (f.classic.map L.lower).map (·, .classic) := by
    refine List.map_congr_left fun k hk => ?_
    obtain ⟨name, hn, rfl⟩ := List.mem_map.mp hk
    rw [hf.lower_lower_classic hn]
  have hpure : f.purePqc.map (L.lower ·, Category.pqc) = f.purePqc.map (·, .pqc) :=
    List.map_congr_left fun name hn => by rw [hf.lower_eq (List.mem_append_left _ hn)]
  have hhybrid : f.hybrid.map (L.lower ·, Category.pqcHybrid) = f.hybrid.map (·, .pqcHybrid) :=
    List.map_congr_left fun name hn => by rw [hf.lower_eq (List.mem_append_right _ hn)]
  rw [Family.categoryMap, buildCategoryMap, hclassic, hpure, hhybrid, Family.items]

theorem nodup_items (L : Lower) : ((f.items L).map Prod.fst).Nodup := by
  have hlower : f.classic.map L.lower = f.classic.map (·.map Char.toLower) :=
    List.map_congr_left fun name hn => hf.lower_classic hn
  simpa [Family.items, List.map_append, Function.comp_def, hlower] using hf.nodup

/-- **The category of a name** is that of the table it is in. -/
theorem lookup_categoryMap (category : Category) :
    (f.categoryMap L).lookup (L.lower name) = some category ↔
      match category with
      | .classic => f.IsClassic L name
      | .pqc => f.IsPure L name
      | .pqcHybrid => f.IsHybrid L name := by
  rw [hf.categoryMap_eq, lookup_ofItems_iff (hf.nodup_items L)]
  cases category <;> simp [Family.items, Family.IsClassic, Family.IsPure, Family.IsHybrid]

/-- No classic name is empty. -/
theorem nil_not_classic : ¬f.IsClassic L [] := by
  intro hm
  obtain ⟨name, hn, he⟩ := List.mem_map.mp hm
  rw [L.lower_ascii [] (by simp)] at he
  exact L.lower_ne_nil name (fun hnil => hf.nonempty (hnil ▸ hn)) he

/-- **Every post-quantum name has a level.** -/
theorem exists_level (h : f.IsPure L name) : ∃ level, f.levels.lookup (L.lower name) = some level :=
  Option.isSome_iff_exists.mp (hf.levels _ h)

end Family.WellFormed

theorem mem_namesOf {categoryMap : Dict Text Category} {category : Category} :
    name ∈ namesOf categoryMap category ↔ categoryMap.lookup name = some category := by
  rw [← mem_entries_iff, namesOf]
  constructor
  · intro h
    obtain ⟨⟨n, c⟩, hm, rfl⟩ := List.mem_map.mp h
    obtain ⟨hentry, hc⟩ := List.mem_filter.mp hm
    obtain rfl : c = category := of_decide_eq_true hc
    exact hentry
  · intro h
    exact List.mem_map.mpr ⟨⟨name, category⟩, List.mem_filter.mpr ⟨h, by simp⟩, rfl⟩

/-- The categories a mode admits. -/
def Mode.admits : Mode → Category → Bool
  | .all, _ => true
  | .pqc, category => category ≠ .pqcHybrid
  | .pqcLevel, category => category = .pqc
  | .hybrid, category => category = .pqcHybrid
  | .classic, category => category = .classic
  | .one, _ => false

/-- **The names a mode allows** are those whose category it admits. -/
theorem mem_buildModeAllowList {categoryMap : Dict Text Category} {mode : Mode}
    {allowed : List Text} (h : buildModeAllowList categoryMap mode = some allowed) :
    name ∈ allowed ↔ ∃ category, categoryMap.lookup name = some category ∧
      mode.admits category = true := by
  cases mode with
  | one => cases h
  | all =>
    cases h
    rw [← AList.mem_keys, ← AList.lookup_isSome, Option.isSome_iff_exists]
    simp [Mode.admits]
  | pqc =>
    cases h
    rw [List.mem_append, mem_namesOf, mem_namesOf]
    constructor
    · rintro (h | h)
      · exact ⟨_, h, rfl⟩
      · exact ⟨_, h, rfl⟩
    · rintro ⟨category, h, hc⟩
      cases category with
      | classic => exact .inl h
      | pqc => exact .inr h
      | pqcHybrid => cases hc
  | pqcLevel | hybrid | classic =>
    cases h
    rw [mem_namesOf]
    simp [Mode.admits]

end Categories

end PapQuic.Script.Algorithms
