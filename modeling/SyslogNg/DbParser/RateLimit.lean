import SyslogNg.DbParser.PatternDbActions

/-!
# The rate of an action

An action with `rate='r/q'` gets `r` credits in `q` seconds, counted with a fraction of eight bits.
What a wait earns is rounded in favour of the action when `r` does not divide `256 * q`; below one
credit in `256` parts of a second the divisor is zero. A state that was last checked at second 0
counts as new. `RateFair` and `CheckFits` leave these cases out.
-/

namespace SyslogNg.DbParser

open Lib Option

variable {rule : PDBRule} {action : PDBAction} {rl rl' : PDBRateLimit} {key : PDBStateKey}
  {now : Nat} {passed : Bool}

/-- The time that one credit takes, in parts of `1 / 256` second. -/
def perCredit (action : PDBAction) : Nat := action.rateQuantum.val * 256 / action.rate.toNat

/-- What a wait earns. -/
def earned (action : PDBAction) (wait : Nat) : Nat := wait * 256 / perCredit action

/-- One credit takes some time, and no wait shorter than the quantum earns more than its share. -/
structure RateFair (action : PDBAction) : Prop where
  divisor : perCredit action ≠ 0
  share : ∀ wait < action.rateQuantum.val,
    earned action wait * action.rateQuantum.val ≤ action.rate.toNat * wait

/-- The time is not 0, and the credits earned since the last check fit into a `gint`. -/
structure CheckFits (action : PDBAction) (now : Nat) (rl : PDBRateLimit) : Prop where
  started : now ≠ 0
  small : rl.lastCheck ≠ 0 → rl.buckets + earned action (now - rl.lastCheck) < 2 ^ 31

theorem perCredit_le (action : PDBAction) : perCredit action ≤ 2 ^ 32 := by
  have hq := action.rateQuantum.isLt
  have hdiv := Nat.div_le_self (action.rateQuantum.val * 256) action.rate.toNat
  unfold perCredit
  omega

theorem newCredits_eq (hdivisor : perCredit action ≠ 0) (hle : rl.lastCheck ≤ now)
    (hsmall : earned action (now - rl.lastCheck) < 2 ^ 31) :
    PatternDB.newCredits now rl.lastCheck action.rateQuantum action.rate.toNat =
      some (earned action (now - rl.lastCheck) : Int) := by
  have hdef : earned action (now - rl.lastCheck) = (now - rl.lastCheck) * 256 / perCredit action :=
    rfl
  have hproduct : (now - rl.lastCheck) * 256 < 2 ^ 63 := by
    have hlt := (Nat.div_lt_iff_lt_mul (Nat.pos_of_ne_zero hdivisor)).1 (hdef ▸ hsmall)
    have hmul := Nat.mul_le_mul_left (2 ^ 31) (perCredit_le action)
    omega
  have hcast : ((now : Int) - rl.lastCheck) * 256 = (((now - rl.lastCheck) * 256 : Nat) : Int) := by
    push_cast [Nat.cast_sub hle]
    ring
  have hbmod : ((((now - rl.lastCheck) * 256 : Nat) : Int)).bmod (2 ^ 64) =
      ((now - rl.lastCheck) * 256 : Nat) := by
    apply Int.bmod_eq_of_le <;> omega
  unfold PatternDB.newCredits
  rw [hcast, hbmod]
  show (if perCredit action = 0 then none else _) = _
  rw [if_neg hdivisor]
  show some (wrap32 ((((now - rl.lastCheck) * 256 / perCredit action : Nat)) : Int)) = _
  rw [← hdef, wrap32_eq_self (by omega)]

structure Deposited (action : PDBAction) (now : Nat) (rl rl' : PDBRateLimit) : Prop where
  checked : rl'.lastCheck ≠ 0
  last_le : rl'.lastCheck ≤ now
  nonneg : 0 ≤ rl'.buckets
  le_rate : rl'.buckets ≤ action.rate.toNat
  /-- The credits and the time since the last check are worth no more than before. -/
  worth : rl.lastCheck ≠ 0 →
    rl'.buckets * action.rateQuantum.val + action.rate.toNat * (now - rl'.lastCheck : Int) ≤
      rl.buckets * action.rateQuantum.val + action.rate.toNat * (now - rl.lastCheck : Int)
  /-- They are worth no more than the full rate. -/
  full : rl'.buckets * action.rateQuantum.val + action.rate.toNat * (now - rl'.lastCheck : Int) ≤
    action.rate.toNat * action.rateQuantum.val

theorem wait_of_earned_zero (hdivisor : perCredit action ≠ 0) {wait : Nat}
    (h : earned action wait = 0) :
    action.rate.toNat * wait ≤ action.rateQuantum.val := by
  have hlt : wait * 256 < perCredit action := by
    rcases Nat.div_eq_zero_iff.1 h with hz | hlt
    · exact absurd hz hdivisor
    · exact hlt
  have hmul := Nat.div_mul_le_self (action.rateQuantum.val * 256) action.rate.toNat
  have hle : action.rate.toNat * (wait * 256) ≤ action.rate.toNat * perCredit action :=
    Nat.mul_le_mul_left _ (Nat.le_of_lt hlt)
  rw [Nat.mul_comm _ action.rate.toNat] at hmul
  have hall := Nat.le_trans hle hmul
  rw [← Nat.mul_assoc] at hall
  omega

theorem capped_le (hfair : RateFair action) (hnonneg : 0 ≤ rl.buckets) (wait : Nat) :
    min (rl.buckets + earned action wait) action.rate.toNat * action.rateQuantum.val ≤
      rl.buckets * action.rateQuantum.val + action.rate.toNat * (wait : Int) := by
  rcases Nat.lt_or_ge wait action.rateQuantum.val with hlt | hge
  · have hshare : (earned action wait * action.rateQuantum.val : Int) ≤ action.rate.toNat * wait :=
      mod_cast hfair.share wait hlt
    calc min (rl.buckets + earned action wait) action.rate.toNat * action.rateQuantum.val
        ≤ (rl.buckets + earned action wait) * action.rateQuantum.val :=
          Int.mul_le_mul_of_nonneg_right (min_le_left _ _) (Int.natCast_nonneg _)
      _ = rl.buckets * action.rateQuantum.val + earned action wait * action.rateQuantum.val :=
          Int.add_mul _ _ _
      _ ≤ rl.buckets * action.rateQuantum.val + action.rate.toNat * (wait : Int) := by omega
  · have hworth : (action.rate.toNat * action.rateQuantum.val : Int) ≤ action.rate.toNat * wait :=
      mod_cast Nat.mul_le_mul_left _ hge
    have hold := Int.mul_nonneg hnonneg (Int.natCast_nonneg action.rateQuantum.val)
    calc min (rl.buckets + earned action wait) action.rate.toNat * action.rateQuantum.val
        ≤ (action.rate.toNat : Int) * action.rateQuantum.val :=
          Int.mul_le_mul_of_nonneg_right (min_le_right _ _) (Int.natCast_nonneg _)
      _ ≤ rl.buckets * action.rateQuantum.val + action.rate.toNat * (wait : Int) := by omega

/-- **What a check makes of the credits.** -/
theorem deposit_spec (hfair : RateFair action) (hfits : CheckFits action now rl)
    (hnonneg : 0 ≤ rl.buckets) (hlt : rl.buckets < action.rate.toNat) (hle : rl.lastCheck ≤ now) :
    ∃ rl', PatternDB.deposit action now rl = some rl' ∧ Deposited action now rl rl' := by
  by_cases hzero : rl.lastCheck = 0
  · refine ⟨_, if_pos hzero, hfits.started, Nat.le_refl _, Int.natCast_nonneg _, Int.le_refl _,
      fun hne => absurd hzero hne, ?_⟩
    simp
  have hsmall := hfits.small hzero
  have hcredits := newCredits_eq hfair.divisor hle
    (by omega : earned action (now - rl.lastCheck) < 2 ^ 31)
  have hwait : ((now - rl.lastCheck : Nat) : Int) = now - rl.lastCheck := Nat.cast_sub hle
  have hdeposit : PatternDB.deposit action now rl =
      if (earned action (now - rl.lastCheck) : Int) = 0 then some rl
      else some { rl with
        buckets := min (wrap32 (rl.buckets + earned action (now - rl.lastCheck))) action.rate.toNat
        lastCheck := now } := by
    rw [PatternDB.deposit, if_neg hzero, hcredits]
    rfl
  rw [hdeposit]
  by_cases hnone : (earned action (now - rl.lastCheck) : Int) = 0
  · -- the fraction of a credit is still counted from the last check
    refine ⟨rl, if_pos hnone, hzero, hle, hnonneg, Int.le_of_lt hlt, fun _ => Int.le_refl _, ?_⟩
    have hfraction : (action.rate.toNat * (now - rl.lastCheck : Nat) : Int) ≤
        action.rateQuantum.val := mod_cast wait_of_earned_zero hfair.divisor (mod_cast hnone)
    have hless : rl.buckets * action.rateQuantum.val ≤
        (action.rate.toNat - 1) * action.rateQuantum.val :=
      Int.mul_le_mul_of_nonneg_right (by omega) (Int.natCast_nonneg _)
    rw [← hwait]
    rw [Int.sub_mul, Int.one_mul] at hless
    omega
  · refine ⟨_, if_neg hnone, hfits.started, Nat.le_refl _, ?_, min_le_right _ _, fun _ => ?_, ?_⟩
    · show 0 ≤ min (wrap32 _) _
      rw [wrap32_eq_self (by omega)]
      omega
    · show min (wrap32 _) _ * _ + _ * ((now : Int) - now) ≤ _
      rw [wrap32_eq_self (by omega), Int.sub_self, Int.mul_zero, Int.add_zero, ← hwait]
      exact capped_le hfair hnonneg _
    · show min (wrap32 _) _ * _ + _ * ((now : Int) - now) ≤ _
      rw [Int.sub_self, Int.mul_zero, Int.add_zero]
      exact Int.mul_le_mul_of_nonneg_right (min_le_right _ _) (Int.natCast_nonneg _)

namespace PatternDB

variable {self t : PatternDB} {ref : MsgRef}

/-- The rate-limit state that the table has for a key; one that is not there is not checked yet. -/
def rateLimitOf (self : PatternDB) (key : PDBStateKey) : PDBRateLimit :=
  match self.lookup key with
  | some (.rateLimit rl) => rl
  | _ => ⟨key, 0, 0⟩

def rateLimitKey (self : PatternDB) (rule : PDBRule) (action : PDBAction) (ref : MsgRef) :
    PDBStateKey :=
  pdbStateKeySetup .rateLimit rule (self.messages ref) (rateLimitId rule action)

theorem lookup_setRateLimit (rl : PDBRateLimit) (hkey : pdbStateKeyEqual rl.key key = true)
    (h : (self.lookup key).isSome) : (self.setRateLimit rl).lookup key = some (.rateLimit rl) := by
  obtain ⟨entry, hentry⟩ := isSome_iff_exists.1 h
  obtain ⟨found, hfind, -⟩ := map_eq_some_iff.1 hentry
  have hfound : pdbStateKeyEqual found.1 key = true := by
    have h := List.find?_some hfind
    exact h
  have hset : pdbStateKeyEqual found.1 rl.key = true := by
    rw [pdbStateKeyEqual_iff] at hfound hkey ⊢
    rw [hfound, hkey]
  have hsame : (fun e : PDBStateKey × PDBStateEntry => pdbStateKeyEqual e.1 key) ∘
      (fun e => if pdbStateKeyEqual e.1 rl.key then (e.1, .rateLimit rl) else e) =
      fun e => pdbStateKeyEqual e.1 key := by
    funext e
    simp only [Function.comp]
    split <;> rfl
  show ((self.state.map _).find? _).map _ = _
  rw [List.find?_map, hsame, hfind, map_some, map_some, if_pos hset]

theorem findRateLimit_spec (htable : TableOk self.state) (htype : key.type = .rateLimit) :
    ∃ t, self.findRateLimit key = some (t, self.rateLimitOf key) ∧ t.now = self.now ∧
      (t.lookup key).isSome ∧ pdbStateKeyEqual (self.rateLimitOf key).key key = true := by
  unfold findRateLimit rateLimitOf
  cases hlookup : self.lookup key with
  | none =>
    refine ⟨_, rfl, rfl, ?_, pdbStateKeyEqual_refl key⟩
    simp [lookup]
  | some entry =>
    obtain ⟨found, hmem, heq⟩ := lookup_eq_some hlookup
    have hkind := htable.kinds _ hmem
    cases entry with
    | context ctx =>
      have hcontext : found.type = .context := hkind
      rw [type_eq_of_normal (pdbStateKeyEqual_iff.1 heq), htype] at hcontext
      cases hcontext
    | rateLimit rl =>
      refine ⟨self, rfl, rfl, by rw [hlookup]; rfl, ?_⟩
      show pdbStateKeyEqual rl.key key = true
      rw [hkind.2]
      exact heq

/-- **A check is a check of the state that the table has for the key.** -/
theorem checkRateLimit_spec (htable : TableOk self.state) (hrate : action.rate ≠ 0)
    (hkey : self.rateLimitKey rule action ref = key)
    (hdeposit : deposit action self.now (self.rateLimitOf key) = some rl) :
    ∃ t, self.checkRateLimit rule action ref = some (t, decide (rl.buckets ≠ 0)) ∧
      t.now = self.now ∧ t.rateLimitOf key =
        if rl.buckets ≠ 0 then { rl with buckets := wrap32 (rl.buckets - 1) } else rl := by
  have htype : key.type = .rateLimit := by
    rw [← hkey]
    exact pdbStateKeySetup_type _ _ _ _
  obtain ⟨u, hfind, hnow, hsome, hequal⟩ := findRateLimit_spec htable htype
  rw [← deposit_key hdeposit] at hequal
  have hcheck : self.checkRateLimit rule action ref =
      if rl.buckets ≠ 0 then
        some (u.setRateLimit { rl with buckets := wrap32 (rl.buckets - 1) }, true)
      else some (u.setRateLimit rl, false) := by
    unfold checkRateLimit
    rw [if_neg hrate]
    unfold rateLimitKey at hkey
    rw [hkey]
    show (self.findRateLimit key).bind _ = _
    rw [hfind]
    show (deposit action u.now (self.rateLimitOf key)).bind _ = _
    rw [hnow, hdeposit]
    rfl
  rw [hcheck]
  by_cases hb : rl.buckets ≠ 0
  · refine ⟨u.setRateLimit { rl with buckets := wrap32 (rl.buckets - 1) }, ?_, hnow, ?_⟩
    · rw [if_pos hb, decide_eq_true hb]
    · rw [if_pos hb, rateLimitOf,
        lookup_setRateLimit { rl with buckets := wrap32 (rl.buckets - 1) } hequal hsome]
  · refine ⟨u.setRateLimit rl, ?_, hnow, ?_⟩
    · rw [if_neg hb, decide_eq_false hb]
    · rw [if_neg hb, rateLimitOf, lookup_setRateLimit _ hequal hsome]

end PatternDB

/-! ## Runs of checks -/

structure RateCheck where
  now : Nat
  ref : MsgRef
  passed : Bool

/-- `u` is what `s` has become at the time of a check: whatever else has happened, the state of the
key is as it was, and the time has not gone back. -/
structure CheckStarts (rule : PDBRule) (action : PDBAction) (key : PDBStateKey) (s : PatternDB)
    (now : Nat) (ref : MsgRef) (u : PatternDB) : Prop where
  table : TableOk u.state
  kept : u.rateLimitOf key = s.rateLimitOf key
  forward : s.now ≤ now
  time : u.now = now
  key_eq : u.rateLimitKey rule action ref = key
  fits : CheckFits action now (u.rateLimitOf key)

/-- A check whose conditions are met. -/
def RateNext (rule : PDBRule) (action : PDBAction) (key : PDBStateKey) (s : PatternDB) (c : RateCheck)
    (t : PatternDB) : Prop :=
  ∃ u, CheckStarts rule action key s c.now c.ref u ∧
    u.checkRateLimit rule action c.ref = some (t, c.passed)

/-- How often the action may run. -/
def passes (checks : List RateCheck) : Nat := checks.countP (·.passed)

/-- The credits between two checks. The last check has taken one, or there was none to take. -/
structure Limited (action : PDBAction) (key : PDBStateKey) (s : PatternDB) : Prop where
  nonneg : 0 ≤ (s.rateLimitOf key).buckets
  lt_rate : (s.rateLimitOf key).buckets < action.rate.toNat
  last_le : (s.rateLimitOf key).lastCheck ≤ s.now

variable {s t u : PatternDB} {ref : MsgRef} {c : RateCheck} {checks before : List RateCheck}

theorem rate_pos (hrate : action.rate ≠ 0) : 0 < action.rate.toNat := by
  rcases Nat.eq_zero_or_pos action.rate.toNat with hz | hpos
  · exact absurd (UInt16.toNat_inj.1 hz) hrate
  · exact hpos

theorem check_step (hrate : action.rate ≠ 0) (hfair : RateFair action) (hs : Limited action key s)
    (h : CheckStarts rule action key s now ref u) :
    ∃ t passed rl, u.checkRateLimit rule action ref = some (t, passed) ∧ t.now = now ∧
      Deposited action now (s.rateLimitOf key) rl ∧
      (t.rateLimitOf key).lastCheck = rl.lastCheck ∧
      (t.rateLimitOf key).buckets + passed.toNat = rl.buckets ∧ Limited action key t := by
  have hrate0 := rate_pos hrate
  have hrate16 := action.rate.toNat_lt
  obtain ⟨rl, hdeposit, hrl⟩ := deposit_spec hfair (h.kept ▸ h.fits) hs.nonneg hs.lt_rate
    (Nat.le_trans hs.last_le h.forward)
  rw [← h.time, ← h.kept] at hdeposit
  obtain ⟨t, hcheck, hnow, hstate⟩ := PatternDB.checkRateLimit_spec h.table hrate h.key_eq hdeposit
  have hnonneg := hrl.nonneg
  have hle := hrl.le_rate
  have hlast := hrl.last_le
  refine ⟨t, _, rl, hcheck, hnow.trans h.time, hrl, ?_⟩
  by_cases hb : rl.buckets ≠ 0
  · rw [if_pos hb, wrap32_eq_self (by omega)] at hstate
    rw [decide_eq_true hb]
    refine ⟨by rw [hstate], by rw [hstate]; simp, ?_, ?_, ?_⟩ <;> rw [hstate]
    · show 0 ≤ rl.buckets - 1
      omega
    · show rl.buckets - 1 < _
      omega
    · rw [hnow, h.time]
      exact hlast
  · rw [if_neg hb] at hstate
    rw [decide_eq_false hb]
    have hz : rl.buckets = 0 := by simpa using hb
    refine ⟨by rw [hstate], by rw [hstate]; simp, ?_, ?_, ?_⟩ <;> rw [hstate]
    · exact hnonneg
    · omega
    · rw [hnow, h.time]
      exact hlast

theorem RateNext.step (hrate : action.rate ≠ 0) (hfair : RateFair action)
    (hs : Limited action key s) (h : RateNext rule action key s c t) :
    ∃ rl, Deposited action c.now (s.rateLimitOf key) rl ∧ s.now ≤ c.now ∧ t.now = c.now ∧
      (t.rateLimitOf key).lastCheck = rl.lastCheck ∧
      (t.rateLimitOf key).buckets + c.passed.toNat = rl.buckets ∧ Limited action key t := by
  obtain ⟨u, hstart, hcheck⟩ := h
  obtain ⟨t', passed, rl, hcheck', hnow, hrl, hlast, hbuckets, ht⟩ := check_step hrate hfair hs hstart
  obtain ⟨rfl, rfl⟩ := Prod.mk.inj (some.inj (hcheck.symm.trans hcheck'))
  exact ⟨rl, hrl, hstart.forward, hnow, hlast, hbuckets, ht⟩

theorem Limited.run (hrate : action.rate ≠ 0) (hfair : RateFair action) (hs : Limited action key s)
    (h : Run (RateNext rule action key) s checks t) : Limited action key t := by
  refine Run.invariant (fun s c t hnext hs => ?_) h hs
  obtain ⟨-, -, -, -, -, -, ht⟩ := hnext.step hrate hfair hs
  exact ht

theorem passes_cons (c : RateCheck) (checks : List RateCheck) :
    passes (c :: checks) = passes checks + c.passed.toNat := by
  unfold passes
  rw [List.countP_cons]
  cases c.passed <;> rfl

/-- **The checks of a run are paid with the credits at its start and those of its time.** -/
theorem passes_le (hrate : action.rate ≠ 0) (hfair : RateFair action)
    (h : Run (RateNext rule action key) s checks t) (hs : Limited action key s)
    (hchecked : (s.rateLimitOf key).lastCheck ≠ 0) :
    s.now ≤ t.now ∧ (passes checks * action.rateQuantum.val : Int) ≤
      (s.rateLimitOf key).buckets * action.rateQuantum.val +
        action.rate.toNat * (t.now - (s.rateLimitOf key).lastCheck : Int) := by
  induction h with
  | refl s =>
    have hb := Int.mul_nonneg hs.nonneg (Int.natCast_nonneg action.rateQuantum.val)
    have hwait : (0 : Int) ≤ s.now - (s.rateLimitOf key).lastCheck := by
      have := hs.last_le
      omega
    have ht := Int.mul_nonneg (Int.natCast_nonneg action.rate.toNat) hwait
    simp only [passes, List.countP_nil]
    omega
  | step hnext hrest ih =>
    next s t v c checks =>
    obtain ⟨rl, hrl, hforward, hnow, hlast, hbuckets, ht⟩ := hnext.step hrate hfair hs
    obtain ⟨hle, hpaid⟩ := ih ht (hlast ▸ hrl.checked)
    have hworth := hrl.worth hchecked
    rw [hlast] at hpaid
    rw [passes_cons]
    push_cast
    refine ⟨by omega, ?_⟩
    have hpass : (t.rateLimitOf key).buckets = rl.buckets - c.passed.toNat := by omega
    rw [hpass] at hpaid
    linarith

/-- **The rate of a fair action is kept.** Between the checks of a run that meet the conditions the
credits are between 0 and the rate, the next check does not divide by zero, and over any span the
action passes no more often than the rate and the share of the span. -/
theorem rate_limit_kept (hrate : action.rate ≠ 0) (hfair : RateFair action)
    (hnew : s.lookup key = none) (hrun : Run (RateNext rule action key) s before t) :
    (0 ≤ (t.rateLimitOf key).buckets ∧ (t.rateLimitOf key).buckets ≤ action.rate.toNat) ∧
    (∀ now ref u, CheckStarts rule action key t now ref u → (u.checkRateLimit rule action ref).isSome) ∧
    ∀ c span v, Run (RateNext rule action key) t (c :: span) v →
      passes (c :: span) * action.rateQuantum.val ≤
        action.rate.toNat * action.rateQuantum.val + action.rate.toNat * (v.now - c.now) := by
  have hrate0 := rate_pos hrate
  have hempty : s.rateLimitOf key = ⟨key, 0, 0⟩ := by
    unfold PatternDB.rateLimitOf
    rw [hnew]
  have hs : Limited action key s := by
    constructor
    · rw [hempty]
    · rw [hempty]
      show (0 : Int) < action.rate.toNat
      exact mod_cast hrate0
    · rw [hempty]
      exact Nat.zero_le _
  have ht := hs.run hrate hfair hrun
  refine ⟨⟨ht.nonneg, Int.le_of_lt ht.lt_rate⟩, ?_, ?_⟩
  · intro now ref u hstart
    obtain ⟨t', passed, -, hcheck, -⟩ := check_step hrate hfair ht hstart
    rw [hcheck]
    rfl
  · intro c span v hspan
    cases hspan with
    | step hnext hrest =>
      next w =>
      obtain ⟨rl, hrl, -, hnow, hlast, hbuckets, hw⟩ := hnext.step hrate hfair ht
      obtain ⟨hle, hpaid⟩ := passes_le hrate hfair hrest hw (hlast ▸ hrl.checked)
      have hfull := hrl.full
      rw [hlast] at hpaid
      have hpass : (w.rateLimitOf key).buckets = rl.buckets - c.passed.toNat := by omega
      rw [hpass] at hpaid
      have hspan : ((v.now - c.now : Nat) : Int) = v.now - c.now := Nat.cast_sub (by omega)
      rw [passes_cons]
      zify [hspan]
      linarith

/-- An action with a rate. -/
def rateAction (rate : UInt16) (rateQuantum : Fin (2 ^ 24)) : PDBAction where
  condition := none
  trigger := .onMatch
  content := none
  rate := rate
  id := 0
  rateQuantum := rateQuantum
  inheritProperties := false

/-- A rule for all messages alike. -/
def globalRule : PDBRule where
  ruleId := [114]
  msg := ⟨[]⟩
  contextTimeout := 0
  contextScope := .global
  contextIdTemplate := none
  actions := []

/-- An empty database at some time. -/
def emptyAt (now : Nat) : PatternDB := { patternDbNew ⟨0, 0⟩ true with now := now }

theorem rate_limit_kept_two_in_ten : ∃ key t,
    Run (RateNext globalRule (rateAction 2 10) key) (emptyAt 100) [⟨100, .input 0, true⟩] t ∧
    ∀ c span v, Run (RateNext globalRule (rateAction 2 10) key) t (c :: span) v →
      passes (c :: span) * 10 ≤ 2 * 10 + 2 * (v.now - c.now) := by
  have hsome : ((emptyAt 100).checkRateLimit globalRule (rateAction 2 10) (.input 0)).map (·.2) =
      some true := by decide
  obtain ⟨⟨t, passed⟩, hcheck, rfl⟩ := map_eq_some_iff.1 hsome
  have hfair : RateFair (rateAction 2 10) := ⟨by decide, by decide⟩
  have hrun : Run (RateNext globalRule (rateAction 2 10) _) (emptyAt 100)
      [⟨100, .input 0, true⟩] t :=
    .single ⟨emptyAt 100, ⟨.nil, rfl, Nat.le_refl _, rfl, rfl, ⟨by decide, by decide⟩⟩, hcheck⟩
  exact ⟨_, t, hrun, (rate_limit_kept (by decide) hfair rfl hrun).2.2⟩

/-- With 512 credits in a second one credit takes no time at all, and the second check divides by
zero. At second 0 a rate of one credit in ten seconds lets three checks pass. -/
theorem rate_limit_broken :
    (((emptyAt 1).checkRateLimit globalRule (rateAction 512 1) (.input 0)).map fun r =>
      (r.2, (r.1.checkRateLimit globalRule (rateAction 512 1) (.input 0)).isSome)) =
        some (true, false) ∧
    (((emptyAt 0).checkRateLimit globalRule (rateAction 1 10) (.input 0)).bind fun r =>
      (r.1.checkRateLimit globalRule (rateAction 1 10) (.input 0)).bind fun r' =>
        (r'.1.checkRateLimit globalRule (rateAction 1 10) (.input 0)).map fun r'' =>
          (r.2, r'.2, r''.2)) = some (true, true, true) := by
  decide +kernel

end SyslogNg.DbParser
