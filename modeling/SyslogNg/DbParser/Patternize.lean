import SyslogNg.Lib.Tree
import SyslogNg.Lib.Dotted
import SyslogNg.Lib.Decimal
import Mathlib.Logic.Function.Basic
import Mathlib.Data.List.Count

/-!
# Frequent words (`modules/dbparser/patternize.c`)

A message is its text, up to the first NUL. Hash tables are kept by their entries; the order of these is not
used. An `int` of the cache that would overflow has no meaning in C, so the counts are natural numbers; a
word is counted once for each of the messages, which a `guint` holds.
-/

namespace SyslogNg.Patternize

open Lib List

abbrev Text := List UInt8

abbrev HashTable (V : Type) := GTree Text V (· < ·)

def ptzMaxwords : Nat := 512

def ptzWordlistCache : Nat := 3

/-- `ptz_str2hash`; the characters are signed. -/
def ptzStr2hash (string : Text) (modulo seed : UInt32) : UInt32 :=
  string.foldl (fun (seed : UInt32) c => seed ^^^ ((seed <<< 5) + (seed >>> 2) + c.toInt8.toInt32.toUInt32)) seed %
    modulo

/-- The loop of `g_strsplit_set`: `current` is what is read of a token, and so many tokens may be made. -/
def splitTokens (delimiters : Text) : (tokens : Nat) → (current : Text) → Text → List Text
  | _, current, [] => [current]
  | tokens, current, c :: s =>
    if c ∈ delimiters ∧ 1 < tokens then current :: splitTokens delimiters (tokens - 1) [] s
    else splitTokens delimiters tokens (current ++ [c]) s

def gStrsplitSet (string delimiters : Text) (maxTokens : Nat) : List Text :=
  if string = [] then [] else splitTokens delimiters maxTokens [] string

def wordsOf (delimiters msgstr : Text) : List Text := gStrsplitSet msgstr delimiters ptzMaxwords

/-- `hash_key`: the position of a word, a space, and the word. -/
def hashKey (j : Nat) (word : Text) : Text := decimal j ++ 32 :: word

def hashKeys : (j : Nat) → List Text → List Text
  | _, [] => []
  | j, word :: words => hashKey j word :: hashKeys (j + 1) words

/-- `wordlist_cache[cacheindex]++`. -/
def countIndex (cache : Nat → Nat) (index : Nat) : Nat → Nat := Function.update cache index (cache index + 1)

def cachePass (logs : List Text) (delimiters : Text) (index : Text → Nat) : Nat → Nat :=
  logs.foldl (fun cache msgstr =>
    (hashKeys 0 (wordsOf delimiters msgstr)).foldl (fun cache key => countIndex cache (index key)) cache)
    fun _ => 0

/-- A word goes into `wordlist`. -/
def countWord (wordlist : HashTable Nat) (key : Text) : HashTable Nat :=
  match wordlist.lookup key with
  | none => wordlist.insert key 1
  | some currCount => wordlist.insert key (currCount + 1)

def searchPass (logs : List Text) (delimiters : Text) (counts : Text → Bool) : HashTable Nat :=
  logs.foldl (fun wordlist msgstr =>
    (hashKeys 0 (wordsOf delimiters msgstr)).foldl (fun wordlist key =>
      if counts key then countWord wordlist key else wordlist) wordlist)
    GTree.empty

/-- `ptz_find_frequent_words`; `cacheseed` is what `rand` gives. -/
def ptzFindFrequentWords (logs : List Text) (support : Nat) (delimiters : Text) (twoPass : Bool)
    (cacheseed : UInt32) : HashTable Nat :=
  let cachesize := UInt32.ofNat (logs.length * ptzWordlistCache)
  let cacheindex := fun key => (ptzStr2hash key cachesize cacheseed).toNat
  let wordlistCache := cachePass logs delimiters cacheindex
  let wordlist := searchPass logs delimiters fun key => !twoPass || wordlistCache (cacheindex key) ≥ support
  wordlist.filter fun entry => ¬entry.2 < support

/-! ## Keys -/

theorem hashKey_inj {i j : Nat} {v w : Text} (h : hashKey i v = hashKey j w) : i = j ∧ v = w := by
  have hspace : ∀ n (u : Text), (hashKey n u).takeWhile (· ≠ 32) = decimal n := by
    intro n u
    have hdigits : ∀ c ∈ decimal n, (decide (c ≠ 32)) = true := by
      intro c hc
      have := (decimal_digit hc).1
      exact decide_eq_true fun heq => by
        rw [heq] at this
        exact absurd this (by decide)
    unfold hashKey
    rw [takeWhile_append_of_pos hdigits, takeWhile_cons_of_neg (by decide), append_nil]
  have hdecimal : decimal i = decimal j := by rw [← hspace i v, ← hspace j w, h]
  have hij : i = j := by rw [← readDecimal_decimal i, ← readDecimal_decimal j, hdecimal]
  subst hij
  exact ⟨rfl, List.cons.inj (append_cancel_left h) |>.2⟩

theorem mem_hashKeys {key : Text} {words : List Text} {i : Nat} (h : key ∈ hashKeys i words) :
    ∃ j word, key = hashKey j word := by
  induction words generalizing i with
  | nil => cases h
  | cons word words ih =>
    rcases mem_cons.mp h with rfl | h
    · exact ⟨i, word, rfl⟩
    · exact ih h

theorem count_hashKeys (words : List Text) (i j : Nat) (word : Text) :
    (hashKeys i words).count (hashKey j word) = if i ≤ j ∧ words[j - i]? = some word then 1 else 0 := by
  induction words generalizing i with
  | nil => rw [if_neg (by simp)]; rfl
  | cons first words ih =>
    unfold hashKeys
    rcases Nat.lt_trichotomy i j with hlt | rfl | hgt
    · have hne : hashKey i first ≠ hashKey j word := fun h => Nat.ne_of_lt hlt (hashKey_inj h).1
      have hindex : j - i = j - (i + 1) + 1 := by omega
      rw [count_cons_of_ne hne, ih, hindex, getElem?_cons_succ]
      exact if_congr ⟨fun h => ⟨Nat.le_of_lt hlt, h.2⟩, fun h => ⟨hlt, h.2⟩⟩ rfl rfl
    · have hrest : (hashKeys (i + 1) words).count (hashKey i word) = 0 := by
        rw [ih, if_neg fun h => Nat.not_succ_le_self i h.1]
      rw [Nat.sub_self, getElem?_cons_zero]
      by_cases heq : first = word
      · rw [heq, count_cons_self, hrest, if_pos ⟨Nat.le_refl i, rfl⟩]
      · have hne : hashKey i first ≠ hashKey i word := fun h => heq (hashKey_inj h).2
        rw [count_cons_of_ne hne, hrest, if_neg fun h => heq (Option.some.inj h.2)]
    · have hne : hashKey i first ≠ hashKey j word := fun h => Nat.ne_of_gt hgt (hashKey_inj h).1
      rw [count_cons_of_ne hne, ih, if_neg fun h => Nat.not_le_of_lt hgt (Nat.le_of_succ_le h.1),
        if_neg fun h => Nat.not_le_of_lt hgt h.1]

/-! ## The passes -/

def allKeys (logs : List Text) (delimiters : Text) : List Text :=
  logs.flatMap fun msgstr => hashKeys 0 (wordsOf delimiters msgstr)

/-- In how many messages a word is at a position. -/
def occurrences (logs : List Text) (delimiters : Text) (j : Nat) (word : Text) : Nat :=
  logs.countP fun msgstr => (wordsOf delimiters msgstr)[j]? = some word

section

variable {logs : List Text} {delimiters : Text}

theorem count_allKeys (j : Nat) (word : Text) :
    (allKeys logs delimiters).count (hashKey j word) = occurrences logs delimiters j word := by
  unfold allKeys occurrences
  induction logs with
  | nil => rfl
  | cons msgstr logs ih =>
    rw [flatMap_cons, count_append, count_hashKeys, ih, countP_cons, Nat.add_comm]
    congr 1
    refine if_congr ?_ rfl rfl
    simp

theorem cachePass_eq (index : Text → Nat) (i : Nat) :
    cachePass logs delimiters index i = (allKeys logs delimiters).countP fun key => index key = i := by
  have hfold : cachePass logs delimiters index =
      (allKeys logs delimiters).foldl (fun cache key => countIndex cache (index key)) fun _ => 0 :=
    (foldl_flatMap ..).symm
  rw [hfold]
  induction allKeys logs delimiters using List.reverseRecOn with
  | nil => rfl
  | append_singleton keys key ih =>
    rw [foldl_append, foldl_cons, foldl_nil, countP_append, countP_singleton, ← ih]
    by_cases h : index key = i
    · subst h
      rw [if_pos (decide_eq_true rfl)]
      exact Function.update_self ..
    · rw [if_neg (by simpa using h)]
      exact Function.update_of_ne (Ne.symm h) ..

theorem countWord_eq (wordlist : HashTable Nat) (key : Text) : countWord wordlist key = wordlist.tally key := by
  unfold countWord GTree.tally
  cases wordlist.lookup key <;> rfl

theorem lookup_searchPass (counts : Text → Bool) (key : Text) :
    (searchPass logs delimiters counts).lookup key =
      if counts key ∧ (allKeys logs delimiters).count key ≠ 0 then some ((allKeys logs delimiters).count key)
      else none := by
  have hfold : searchPass logs delimiters counts =
      ((allKeys logs delimiters).filter counts).foldl GTree.tally GTree.empty := by
    rw [foldl_filter]
    refine (foldl_flatMap ..).symm.trans (foldl_ext _ _ _ fun wordlist key _ => ?_)
    rw [countWord_eq]
  rw [hfold, GTree.lookup_tallies]
  by_cases h : counts key = true
  · rw [count_filter h, ← ite_not]
    exact if_congr ⟨fun hne => ⟨h, hne⟩, And.right⟩ rfl rfl
  · have hzero : ((allKeys logs delimiters).filter counts).count key = 0 :=
      count_eq_zero.mpr fun hmem => h (mem_filter.mp hmem).2
    rw [if_pos hzero, if_neg fun hand => h hand.1]

theorem count_le_cachePass (index : Text → Nat) (key : Text) :
    (allKeys logs delimiters).count key ≤ cachePass logs delimiters index (index key) := by
  rw [cachePass_eq]
  exact countP_mono_left fun k _ hk => by rw [beq_iff_eq.mp hk]; exact decide_eq_true rfl

theorem lookup_ptzFindFrequentWords (support : Nat) (twoPass : Bool) (cacheseed : UInt32) (key : Text) :
    (ptzFindFrequentWords logs support delimiters twoPass cacheseed).lookup key =
      if support ≤ (allKeys logs delimiters).count key ∧ (allKeys logs delimiters).count key ≠ 0 then
        some ((allKeys logs delimiters).count key)
      else none := by
  unfold ptzFindFrequentWords
  dsimp only
  rw [GTree.lookup_filter, lookup_searchPass]
  by_cases hsupport : support ≤ (allKeys logs delimiters).count key
  · -- the cell has enough support, too
    have hcell := Nat.le_trans hsupport (count_le_cachePass (fun key => (ptzStr2hash key
      (UInt32.ofNat (logs.length * ptzWordlistCache)) cacheseed).toNat) key)
    have hcounts : (!twoPass || decide (cachePass logs delimiters (fun key => (ptzStr2hash key
        (UInt32.ofNat (logs.length * ptzWordlistCache)) cacheseed).toNat) (ptzStr2hash key
        (UInt32.ofNat (logs.length * ptzWordlistCache)) cacheseed).toNat ≥ support)) = true := by
      rw [Bool.or_eq_true]
      exact .inr (decide_eq_true hcell)
    by_cases hzero : (allKeys logs delimiters).count key = 0
    · rw [if_neg fun h => h.2 hzero, if_neg fun h => h.2 hzero]
      rfl
    · rw [if_pos ⟨hcounts, hzero⟩, if_pos ⟨hsupport, hzero⟩]
      simpa using hsupport
  · have hout : ¬(support ≤ (allKeys logs delimiters).count key ∧ (allKeys logs delimiters).count key ≠ 0) :=
      fun h => hsupport h.1
    rw [if_neg hout]
    split
    · simpa using hsupport
    · rfl

end

/-- The search in two passes finds what the search in one pass finds, whatever the seeds: each word that is at
its position in enough messages, with their number. -/
theorem frequent_words (logs : List Text) (support : Nat) (delimiters : Text) (seed seed' : UInt32) :
    (∀ key, (ptzFindFrequentWords logs support delimiters true seed).lookup key =
      (ptzFindFrequentWords logs support delimiters false seed').lookup key) ∧
    (∀ key n, (ptzFindFrequentWords logs support delimiters true seed).lookup key = some n →
      ∃ j word, key = hashKey j word) ∧
    ∀ j word n, (ptzFindFrequentWords logs support delimiters true seed).lookup (hashKey j word) = some n ↔
      n = occurrences logs delimiters j word ∧ 0 < n ∧ support ≤ n := by
  refine ⟨fun key => ?_, fun key n h => ?_, fun j word n => ?_⟩
  · rw [lookup_ptzFindFrequentWords, lookup_ptzFindFrequentWords]
  · rw [lookup_ptzFindFrequentWords] at h
    split at h
    · rename_i hfound
      obtain ⟨msgstr, -, hkey⟩ := mem_flatMap.mp
        (count_pos_iff.mp (Nat.pos_of_ne_zero hfound.2) : key ∈ allKeys logs delimiters)
      exact mem_hashKeys hkey
    · cases h
  · rw [lookup_ptzFindFrequentWords, count_allKeys]
    constructor
    · intro h
      split at h
      · rename_i hfound
        cases h
        exact ⟨rfl, Nat.pos_of_ne_zero hfound.2, hfound.1⟩
      · cases h
    · rintro ⟨rfl, hpos, hsupport⟩
      rw [if_pos ⟨hsupport, Nat.ne_of_gt hpos⟩]

end SyslogNg.Patternize
