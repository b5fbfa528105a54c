import SyslogNg.AffileDest.Writers

/-!
# Reaping idle files while messages arrive

`Inv` ties the table, the writers, the source threads and the reaper together; the writer of a thread
that is on its way has `queue_pending` set, which is what keeps the reaper off. `reap_loses_nothing`:
the runs whose steps all meet `Action.Meets`.
-/

namespace SyslogNg.AffileDest

open Lib Function

variable {F : Type} [DecidableEq F] {o : Options F} {s s' : FileDest F} {dw : Nat}

section Updates

variable (o) (s : FileDest F) (dw : Nat) (w : FileWriter F) (t : Nat) (src : Source F)

@[simp] theorem find_setWriter (filename : F) :
    (s.setWriter dw w).find o filename = s.find o filename := rfl

@[simp] theorem setWriter_writers_self : (s.setWriter dw w).writers dw = w :=
  update_self _ _ _

theorem setWriter_writers_of_ne {d : Nat} (h : d ≠ dw) : (s.setWriter dw w).writers d = s.writers d :=
  update_of_ne h _ _

@[simp] theorem setSource_sources_self : (s.setSource t src).sources t = src :=
  update_self _ _ _

theorem setSource_sources_of_ne {t' : Nat} (h : t' ≠ t) : (s.setSource t src).sources t' = s.sources t' :=
  update_of_ne h _ _

end Updates

/-- The reaper has decided to reap the writer. -/
def FileDest.Reaping (s : FileDest F) (dw : Nat) : Prop :=
  s.reaper = .removing dw ∨ s.reaper = .deiniting dw

/-- The queue of the writer and its input queues are empty. -/
def FileWriter.Empty (w : FileWriter F) : Prop := w.length = 0 ∧ ∀ t, w.input t = 0

structure Inv (o : Options F) (s : FileDest F) : Prop where
  linked : ∀ dw, (s.writers dw).initialized = true → s.reaper ≠ .deiniting dw →
    s.find o (s.writers dw).filename = some dw
  found : ∀ filename dw, s.find o filename = some dw →
    (s.writers dw).initialized = true ∧ s.reaper ≠ .deiniting dw ∧
      (o.noExpand = false → (s.writers dw).filename = filename)
  removing : ∀ dw, s.reaper = .removing dw → (s.writers dw).initialized = true
  deiniting : ∀ dw, s.reaper = .deiniting dw →
    (s.writers dw).initialized = true ∧ s.find o (s.writers dw).filename = none
  fresh : ∀ dw, s.created ≤ dw → (s.writers dw).initialized = false
  timer : ∀ dw, (s.writers dw).reapTimer = true → (s.writers dw).initialized = true
  onWay : ∀ t dw, (s.sources t).OnWay dw →
    (s.writers dw).initialized = true ∧ (s.writers dw).queuePending = true ∧ ¬ s.Reaping dw
  reaping : ∀ dw, s.Reaping dw →
    hasPendingWrites (s.writers dw) = false ∧ (s.writers dw).Empty
  released : ∀ dw, (s.writers dw).initialized = false → (s.writers dw).Empty

theorem Inv.start (o : Options F) : Inv o (fileDestStart o) := by
  have hfind : ∀ filename, (fileDestStart o).find o filename = none := by
    intro filename
    unfold FileDest.find
    split <;> rfl
  refine ⟨by simp [fileDestStart, dwNew], fun filename dw h => ?_, by simp [fileDestStart],
    by simp [fileDestStart], fun _ _ => rfl, by simp [fileDestStart, dwNew], fun t dw h => ?_,
    fun dw h => ?_, fun dw _ => ⟨rfl, fun _ => rfl⟩⟩
  · cases (hfind filename).symm.trans h
  · obtain h | h | h | h := h <;> cases h
  · obtain h | h := h <;> cases h

theorem Inv.setWriter (h : Inv o s) {w : FileWriter F} (hname : w.filename = (s.writers dw).filename)
    (hinit : w.initialized = (s.writers dw).initialized)
    (htimer : w.reapTimer = true → w.initialized = true)
    (hpending : w.queuePending = true ∨ ∀ t, ¬ (s.sources t).OnWay dw)
    (hreaping : s.Reaping dw → hasPendingWrites w = false ∧ w.Empty)
    (hreleased : w.initialized = false → w.Empty) : Inv o (s.setWriter dw w) := by
  have hnames : ∀ d, ((s.setWriter dw w).writers d).filename = (s.writers d).filename := by
    intro d
    by_cases hd : d = dw
    · rw [hd, setWriter_writers_self, hname]
    · rw [setWriter_writers_of_ne _ _ _ hd]
  have hinits : ∀ d, ((s.setWriter dw w).writers d).initialized = (s.writers d).initialized := by
    intro d
    by_cases hd : d = dw
    · rw [hd, setWriter_writers_self, hinit]
    · rw [setWriter_writers_of_ne _ _ _ hd]
  refine ⟨fun d hd hr => ?_, fun filename d hd => ?_, fun d hd => ?_, fun d hd => ?_, fun d hd => ?_,
    fun d hd => ?_, fun t d hd => ?_, fun d hd => ?_, fun d hd => ?_⟩
  · rw [hinits] at hd
    rw [hnames, find_setWriter]
    exact h.linked d hd hr
  · rw [hinits, hnames]
    exact h.found filename d hd
  · rw [hinits]
    exact h.removing d hd
  · rw [hinits, hnames]
    exact h.deiniting d hd
  · rw [hinits]
    exact h.fresh d hd
  · by_cases he : d = dw
    · rw [he, setWriter_writers_self] at hd ⊢
      exact htimer hd
    · rw [setWriter_writers_of_ne _ _ _ he] at hd ⊢
      exact h.timer d hd
  · obtain ⟨hi, hp, hr⟩ := h.onWay t d hd
    refine ⟨(hinits d).trans hi, ?_, hr⟩
    by_cases he : d = dw
    · rw [he, setWriter_writers_self]
      obtain hp | hnone := hpending
      · exact hp
      · exact absurd (he ▸ hd) (hnone t)
    · rw [setWriter_writers_of_ne _ _ _ he]
      exact hp
  · by_cases he : d = dw
    · rw [he, setWriter_writers_self]
      exact hreaping (he ▸ hd)
    · rw [setWriter_writers_of_ne _ _ _ he]
      exact h.reaping d hd
  · by_cases he : d = dw
    · rw [he, setWriter_writers_self] at hd ⊢
      exact hreleased hd
    · rw [setWriter_writers_of_ne _ _ _ he] at hd ⊢
      exact h.released d hd

theorem Inv.setSource (h : Inv o s) {t : Nat} {src : Source F}
    (hway : ∀ dw, src.OnWay dw → (s.writers dw).initialized = true ∧
      (s.writers dw).queuePending = true ∧ ¬ s.Reaping dw) : Inv o (s.setSource t src) := by
  refine ⟨h.linked, h.found, h.removing, h.deiniting, h.fresh, h.timer, fun t' d hd => ?_, h.reaping,
    h.released⟩
  by_cases he : t' = t
  · rw [he, setSource_sources_self] at hd
    exact hway d hd
  · rw [setSource_sources_of_ne _ _ _ he] at hd
    exact h.onWay t' d hd

theorem Inv.setWriter_keep (h : Inv o s) {w : FileWriter F} (hname : w.filename = (s.writers dw).filename)
    (hinit : w.initialized = (s.writers dw).initialized)
    (htimer : w.reapTimer = true → w.initialized = true)
    (hpending : w.queuePending = (s.writers dw).queuePending) (hlength : w.length = (s.writers dw).length)
    (hinput : w.input = (s.writers dw).input)
    (hwatches : w.watchesRunning = (s.writers dw).watchesRunning) : Inv o (s.setWriter dw w) := by
  have hempty : (s.writers dw).Empty → w.Empty := fun he =>
    ⟨hlength.trans he.1, fun t => (congrFun hinput t).trans (he.2 t)⟩
  refine h.setWriter hname hinit htimer ?_ (fun hr => ⟨?_, hempty (h.reaping dw hr).2⟩)
    fun hi => hempty (h.released dw (hinit ▸ hi))
  · rw [hpending]
    by_cases hp : (s.writers dw).queuePending = true
    · exact .inl hp
    · exact .inr fun t ht => hp (h.onWay t dw ht).2.1
  · rw [hasPendingWrites, hlength, hwatches]
    exact (h.reaping dw hr).1

theorem Inv.not_reaping (h : Inv o s) {filename : F} (hfind : s.find o filename = some dw)
    (hnot : s.reaper ≠ .removing dw) : ¬ s.Reaping dw := by
  rintro (hr | hr)
  · exact hnot hr
  · exact (h.found filename dw hfind).2.1 hr

theorem Inv.expect (h : Inv o s) {t : Nat} {filename : F} (hfind : s.find o filename = some dw)
    (hnot : s.reaper ≠ .removing dw) :
    Inv o ((s.setWriter dw (dwExpect (s.writers dw))).setSource t (.entering dw)) := by
  have hinit := (h.found filename dw hfind).1
  have hreap := h.not_reaping hfind hnot
  have hset : Inv o (s.setWriter dw (dwExpect (s.writers dw))) :=
    h.setWriter rfl rfl (h.timer dw) (.inl rfl) (fun hr => absurd hr hreap) (h.released dw)
  refine hset.setSource fun d hd => ?_
  obtain rfl : dw = d := by
    obtain hd | hd | hd | hd := hd <;> cases hd
    rfl
  rw [setWriter_writers_self]
  exact ⟨hinit, rfl, hreap⟩

theorem find_insert (o : Options F) (s : FileDest F) (filename g : F) (dw : Nat) :
    (s.insert o filename dw).find o g =
      if o.noExpand = true ∨ g = filename then some dw else s.find o g := by
  unfold FileDest.insert FileDest.find
  by_cases hexp : o.noExpand = true
  · simp [hexp]
  · simp [hexp, update_apply]

section Insert

variable (o : Options F) (s : FileDest F) (filename : F) (dw : Nat)

@[simp] theorem insert_writers : (s.insert o filename dw).writers = s.writers := by
  unfold FileDest.insert
  split <;> rfl

@[simp] theorem insert_sources : (s.insert o filename dw).sources = s.sources := by
  unfold FileDest.insert
  split <;> rfl

@[simp] theorem insert_reaper : (s.insert o filename dw).reaper = s.reaper := by
  unfold FileDest.insert
  split <;> rfl

@[simp] theorem insert_created : (s.insert o filename dw).created = s.created := by
  unfold FileDest.insert
  split <;> rfl

end Insert

theorem find_remove (hs : s.remove o dw = some s') (g : F) :
    s'.find o g = if o.noExpand = true ∨ g = (s.writers dw).filename then none else s.find o g := by
  unfold FileDest.remove at hs
  by_cases hexp : o.noExpand = true
  · rw [if_pos hexp] at hs
    split at hs
    · cases hs
      simp [FileDest.find, hexp]
    · cases hs
  · rw [if_neg hexp] at hs
    cases hs
    simp [FileDest.find, hexp, update_apply]

theorem remove_eq (hs : s.remove o dw = some s') :
    s' = { s with singleWriter := s'.singleWriter, writerHash := s'.writerHash } := by
  unfold FileDest.remove at hs
  split at hs
  · split at hs
    · cases hs
      rfl
    · cases hs
  · cases hs
    rfl

theorem dwInit_spec {inits opens : Bool} {filename : F} {w : FileWriter F}
    (hw : dwInit o inits opens (dwNew filename) = some w) :
    w.filename = filename ∧ w.initialized = true ∧ w.length = 0 ∧ ∀ t, w.input t = 0 := by
  unfold dwInit at hw
  split at hw
  · cases hw
    cases opens <;> exact ⟨rfl, rfl, rfl, fun _ => rfl⟩
  · cases hw

theorem Inv.create (h : Inv o s) (hidle : s.reaper = .idle) {filename : F} {w : FileWriter F}
    (hname : w.filename = filename) (hinit : w.initialized = true) (hnone : s.find o filename = none)
    (hwriters : s'.writers = update s.writers s.created w) (hfind : ∀ g, s'.find o g =
      if o.noExpand = true ∨ g = filename then some s.created else s.find o g)
    (hsources : s'.sources = s.sources) (hreaper : s'.reaper = s.reaper)
    (hcreated : s'.created = s.created + 1) : Inv o s' := by
  have hnew : s'.writers s.created = w := by rw [hwriters, update_self]
  have hold : ∀ d, d ≠ s.created → s'.writers d = s.writers d := fun d hd => by
    rw [hwriters, update_of_ne hd]
  have hother : ∀ d, (s.writers d).initialized = true → d ≠ s.created := by
    rintro d hd rfl
    rw [h.fresh _ (Nat.le_refl _)] at hd
    cases hd
  have hnot : ∀ g d, s.find o g = some d → ¬ (o.noExpand = true ∨ g = filename) := by
    rintro g d hg (hexp | rfl)
    · have : s.find o g = s.find o filename := by simp only [FileDest.find, if_pos hexp]
      cases (hg.symm.trans this).trans hnone
    · cases hg.symm.trans hnone
  have hreap : ∀ r, r ≠ .idle → s'.reaper ≠ r := fun r hr hs => hr (hs.symm.trans (hreaper.trans hidle))
  have hnever : ∀ d, ¬ s'.Reaping d := by
    rintro d (hr | hr)
    · exact hreap _ (by simp) hr
    · exact hreap _ (by simp) hr
  refine ⟨fun d hd _ => ?_, fun g d hd => ?_, fun d hd => absurd hd (hreap _ (by simp)),
    fun d hd => absurd hd (hreap _ (by simp)), fun d hd => ?_, fun d hd => ?_, fun t d hd => ?_,
    fun d hd => absurd hd (hnever d), fun d hd => ?_⟩
  · rw [hfind]
    by_cases he : d = s.created
    · rw [he, hnew, hname, if_pos (.inr rfl)]
    · rw [hold d he] at hd ⊢
      have hl := h.linked d hd (by rw [hidle]; simp)
      rw [if_neg (hnot _ _ hl), hl]
  · rw [hfind] at hd
    split at hd
    · next hcase =>
      cases hd
      rw [hnew]
      refine ⟨hinit, hreap _ (by simp), fun hexp => ?_⟩
      obtain hexp' | rfl := hcase
      · cases hexp.symm.trans hexp'
      · exact hname
    · obtain ⟨hi, -, hf⟩ := h.found g d hd
      rw [hold d (hother d hi)]
      exact ⟨hi, hreap _ (by simp), hf⟩
  · rw [hcreated] at hd
    rw [hold d (by omega)]
    exact h.fresh d (by omega)
  · by_cases he : d = s.created
    · rw [he, hnew]
      exact hinit
    · rw [hold d he] at hd ⊢
      exact h.timer d hd
  · rw [hsources] at hd
    obtain ⟨hi, hp, -⟩ := h.onWay t d hd
    rw [hold d (hother d hi)]
    exact ⟨hi, hp, hnever d⟩
  · by_cases he : d = s.created
    · rw [he, hnew, hinit] at hd
      cases hd
    · rw [hold d he] at hd ⊢
      exact h.released d hd

theorem Inv.openWriter (h : Inv o s) (hidle : s.reaper = .idle) {t : Nat} {inits opens : Bool}
    {filename : F} {w : FileWriter F} (hw : dwInit o inits opens (dwNew filename) = some w)
    (hnone : s.find o filename = none) :
    Inv o (({ s.setWriter s.created (dwExpect w) with created := s.created + 1 }.insert o filename
      s.created).setSource t (.entering s.created)) := by
  obtain ⟨hname, hinit, -⟩ := dwInit_spec hw
  have hset : Inv o ({ s.setWriter s.created (dwExpect w) with created := s.created + 1 }.insert o
      filename s.created) :=
    h.create hidle (show (dwExpect w).filename = filename from hname) hinit hnone (insert_writers ..)
      (find_insert o _ filename · s.created) (insert_sources ..) (insert_reaper ..)
      (insert_created ..)
  refine hset.setSource fun d hd => ?_
  obtain rfl : s.created = d := by
    obtain hd | hd | hd | hd := hd <;> cases hd
    rfl
  have hnew : (({ s.setWriter s.created (dwExpect w) with created := s.created + 1 }.insert o filename
      s.created).writers s.created) = dwExpect w := by
    rw [insert_writers]
    exact update_self _ _ _
  rw [hnew]
  refine ⟨hinit, rfl, fun hr => ?_⟩
  unfold FileDest.Reaping at hr
  rw [insert_reaper] at hr
  obtain hr | hr := hr <;> cases hidle.symm.trans hr

theorem Inv.decide (h : Inv o s) (hidle : s.reaper = .idle) (htimer : (s.writers dw).reapTimer = true)
    (hwrites : hasPendingWrites (s.writers dw) = false) (hpending : (s.writers dw).queuePending = false)
    (hinput : ∀ t, (s.writers dw).input t = 0) :
    Inv o { s.setWriter dw { s.writers dw with reapTimer := false } with reaper := .removing dw } := by
  have hinit := h.timer dw htimer
  have hempty : (s.writers dw).Empty := by
    refine ⟨?_, hinput⟩
    simp only [hasPendingWrites, Bool.or_eq_false_iff, decide_eq_false_iff_not] at hwrites
    omega
  have hset : Inv o (s.setWriter dw { s.writers dw with reapTimer := false }) :=
    h.setWriter_keep rfl rfl (by simp) rfl rfl rfl rfl
  have hway : ∀ t, ¬ (s.sources t).OnWay dw := fun t ht => by
    have := (h.onWay t dw ht).2.1
    rw [hpending] at this
    cases this
  refine ⟨fun d hd _ => hset.linked d hd ?_, fun g d hd => ?_, fun d hd => ?_, by simp, hset.fresh,
    hset.timer, fun t d hd => ?_, fun d hd => ?_, hset.released⟩
  · exact fun hr => by cases hidle.symm.trans hr
  · obtain ⟨hi, -, hf⟩ := hset.found g d hd
    exact ⟨hi, by simp, hf⟩
  · cases hd
    rw [setWriter_writers_self]
    exact hinit
  · obtain ⟨hi, hp, -⟩ := hset.onWay t d hd
    refine ⟨hi, hp, ?_⟩
    rintro (hr | hr)
    · cases hr
      exact hway t hd
    · cases hr
  · obtain rfl : dw = d := by
      obtain hr | hr := hd <;> cases hr
      rfl
    rw [setWriter_writers_self]
    exact ⟨hwrites, hempty⟩

theorem Inv.removed (h : Inv o s) (hr : s.reaper = .removing dw) {u : FileDest F}
    (hu : s.remove o dw = some u) : Inv o { u with reaper := .deiniting dw } := by
  have hfind : ∀ g, FileDest.find o { u with reaper := .deiniting dw } g =
      if o.noExpand = true ∨ g = (s.writers dw).filename then none else s.find o g :=
    fun g => find_remove hu g
  have hrest := remove_eq hu
  have hlink := h.linked dw (h.removing dw hr) (by rw [hr]; simp)
  have hwriters : u.writers = s.writers := by rw [hrest]
  have hsources : u.sources = s.sources := by rw [hrest]
  have hcreated : u.created = s.created := by rw [hrest]
  have hreap : ∀ d, FileDest.Reaping { u with reaper := .deiniting dw } d → d = dw := by
    rintro d (hd | hd) <;> cases hd
    rfl
  refine ⟨fun d hd hne => ?_, fun g d hd => ?_, by simp, fun d hd => ?_, fun d hd => ?_,
    fun d hd => ?_, fun t d hd => ?_, fun d hd => ?_, fun d hd => ?_⟩
  · dsimp only at hd ⊢
    rw [hwriters] at hd
    have hl := h.linked d hd (by rw [hr]; simp)
    refine (hfind _).trans ?_
    rw [hwriters, if_neg, hl]
    rintro (hexp | hname)
    · simp only [FileDest.find, if_pos hexp] at hl hlink
      cases hl.symm.trans hlink
      exact hne rfl
    · rw [hname] at hl
      cases hl.symm.trans hlink
      exact hne rfl
  · rw [hfind] at hd
    split at hd
    · cases hd
    next hcase =>
    obtain ⟨hi, -, hf⟩ := h.found g d hd
    dsimp only
    rw [hwriters]
    refine ⟨hi, fun he => ?_, hf⟩
    cases he
    rw [not_or, Bool.not_eq_true] at hcase
    exact hcase.2 (hf hcase.1).symm
  · cases hd
    refine ⟨?_, (hfind _).trans ?_⟩
    · dsimp only
      rw [hwriters]
      exact h.removing dw hr
    · rw [hwriters, if_pos (.inr rfl)]
  · dsimp only at hd ⊢
    rw [hwriters]
    exact h.fresh d (hcreated ▸ hd)
  · dsimp only at hd ⊢
    rw [hwriters] at hd ⊢
    exact h.timer d hd
  · dsimp only at hd ⊢
    rw [hsources] at hd
    rw [hwriters]
    obtain ⟨hi, hp, hn⟩ := h.onWay t d hd
    refine ⟨hi, hp, fun hd => hn ?_⟩
    rw [hreap d hd]
    exact .inl hr
  · dsimp only
    rw [hreap d hd, hwriters]
    exact h.reaping dw (.inl hr)
  · dsimp only at hd ⊢
    rw [hwriters] at hd ⊢
    exact h.released d hd

theorem Inv.deinited (h : Inv o s) (hr : s.reaper = .deiniting dw) :
    Inv o { s.setWriter dw (dwDeinit (s.writers dw)) with reaper := .idle } := by
  obtain ⟨hinit, hgone⟩ := h.deiniting dw hr
  have hother : ∀ d, d ≠ dw → (s.setWriter dw (dwDeinit (s.writers dw))).writers d = s.writers d :=
    fun d hd => setWriter_writers_of_ne s dw _ hd
  have hself := setWriter_writers_self s dw (dwDeinit (s.writers dw))
  have hne : ∀ d, d ≠ dw → s.reaper ≠ .deiniting d := by
    rintro d hd he
    cases hr.symm.trans he
    exact hd rfl
  refine ⟨fun d hd _ => ?_, fun g d hd => ?_, by simp, by simp, fun d hd => ?_, fun d hd => ?_,
    fun t d hd => ?_, fun d hd => ?_, fun d hd => ?_⟩
  · dsimp only at hd ⊢
    by_cases he : d = dw
    · rw [he, hself] at hd
      cases hd
    · rw [hother d he] at hd ⊢
      exact h.linked d hd (hne d he)
  · obtain ⟨hi, hd', hf⟩ := h.found g d hd
    have he : d ≠ dw := by
      rintro rfl
      exact hd' hr
    dsimp only
    rw [hother d he]
    exact ⟨hi, by simp, hf⟩
  · dsimp only
    by_cases he : d = dw
    · rw [he, hself]
      rfl
    · rw [hother d he]
      exact h.fresh d hd
  · dsimp only at hd ⊢
    by_cases he : d = dw
    · rw [he, hself] at hd
      cases hd
    · rw [hother d he] at hd ⊢
      exact h.timer d hd
  · obtain ⟨hi, hp, hn⟩ := h.onWay t d hd
    have he : d ≠ dw := by
      rintro rfl
      exact hn (.inr hr)
    dsimp only
    rw [hother d he]
    refine ⟨hi, hp, ?_⟩
    rintro (hd | hd) <;> cases hd
  · obtain hd | hd := hd <;> cases hd
  · dsimp only at hd ⊢
    by_cases he : d = dw
    · rw [he, hself]
      exact (h.reaping dw (.inr hr)).2
    · rw [hother d he] at hd ⊢
      exact h.released d hd

theorem Inv.moveInput (h : Inv o s) (t : Nat) (dropped : Nat → Nat) :
    Inv o { s with writers := fun dw => dwMoveInput t (dropped dw) (s.writers dw) } := by
  have hempty : ∀ d, (s.writers d).Empty → dwMoveInput t (dropped d) (s.writers d) =
      s.writers d := by
    rintro d ⟨-, hinput⟩
    have hupd : update (s.writers d).input t 0 = (s.writers d).input := by
      rw [← hinput t, update_eq_self]
    simp only [dwMoveInput, hinput t, Nat.zero_sub, Nat.add_zero, hupd]
  refine ⟨h.linked, h.found, h.removing, h.deiniting, h.fresh, h.timer, h.onWay, fun d hd => ?_,
    fun d hd => ?_⟩
  · dsimp only
    obtain ⟨hw, he⟩ := h.reaping d hd
    rw [hempty d he]
    exact ⟨hw, he⟩
  · dsimp only at hd ⊢
    have he := h.released d hd
    rw [hempty d he]
    exact he

theorem Inv.proceed (h : Inv o s) {t : Nat} {w : FileWriter F} {src : Source F}
    (hway : (s.sources t).OnWay dw) (hname : w.filename = (s.writers dw).filename)
    (hinit : w.initialized = (s.writers dw).initialized)
    (hpending : w.queuePending = (s.writers dw).queuePending) (hsrc : ∀ d, src.OnWay d → d = dw) :
    Inv o ((s.setWriter dw w).setSource t src) := by
  obtain ⟨hi, hp, hr⟩ := h.onWay t dw hway
  have hset : Inv o (s.setWriter dw w) :=
    h.setWriter hname hinit (fun _ => hinit.trans hi) (.inl (hpending.trans hp))
      (fun hr' => absurd hr' hr) fun hi' => by
        rw [hinit, hi] at hi'
        cases hi'
  refine hset.setSource fun d hd => ?_
  rw [hsrc d hd, setWriter_writers_self]
  exact ⟨hinit.trans hi, hpending.trans hp, hr⟩

theorem Source.OnWay.eq {src : Source F} {d : Nat} (h : src.OnWay d)
    (hsrc : src = .entering dw ∨ src = .reopening dw ∨ src = .reopened dw ∨ src = .forwarding dw) :
    d = dw := by
  obtain rfl | rfl | rfl | rfl := hsrc <;> obtain h | h | h | h := h <;> cases h <;> rfl

theorem dwReopen_keep (opens : Bool) (w : FileWriter F) :
    (dwReopen opens w).filename = w.filename ∧ (dwReopen opens w).initialized = w.initialized ∧
      (dwReopen opens w).queuePending = w.queuePending := by
  cases opens <;> exact ⟨rfl, rfl, rfl⟩

theorem dwPut_keep (t : Nat) (put : Put) (w : FileWriter F) :
    (dwPut t put w).filename = w.filename ∧ (dwPut t put w).initialized = w.initialized ∧
      (dwPut t put w).queuePending = w.queuePending := by
  cases put <;> exact ⟨rfl, rfl, rfl⟩

theorem step_inv (h : Inv o s) {action : Action F} (hs : step o s action = some s')
    (hmeets : action.Meets o s) : Inv o s' := by
  cases action with
  | lookUp t filename =>
    dsimp only [step] at hs
    split at hs
    swap
    · cases hs
    split at hs
    · next dw hfind =>
      cases hs
      exact h.expect hfind (hmeets dw hfind)
    · cases hs
      refine h.setSource fun d hd => ?_
      obtain hd | hd | hd | hd := hd <;> cases hd
  | openWriter t inits opens =>
    dsimp only [step] at hs
    split at hs
    swap
    · cases hs
    next filename hsrc hidle =>
    split at hs
    · next dw hfind =>
      cases hs
      exact h.expect hfind (by rw [hidle]; simp)
    next hnone =>
    split at hs
    · next w hw =>
      cases hs
      refine h.openWriter hidle hw ?_
      by_cases hexp : o.noExpand = true
      · simpa [FileDest.find, hexp] using hnone
      · rw [if_neg hexp]
        exact hnone
    · cases hs
      refine h.setSource fun d hd => ?_
      obtain hd | hd | hd | hd := hd <;> cases hd
  | enter t now =>
    dsimp only [step] at hs
    split at hs
    swap
    · cases hs
    next dw hsrc =>
    have hway : (s.sources t).OnWay dw := .inl hsrc
    split at hs
    · cases hs
      exact h.proceed hway rfl rfl rfl fun d hd => hd.eq (.inr (.inl rfl))
    · cases hs
      exact h.proceed hway rfl rfl rfl fun d hd => hd.eq (.inr (.inr (.inr rfl)))
  | reopen t opens =>
    dsimp only [step] at hs
    split at hs
    swap
    · cases hs
    next dw hsrc _ =>
    cases hs
    obtain ⟨hname, hinit, hpending⟩ := dwReopen_keep opens (s.writers dw)
    exact h.proceed (.inr (.inl hsrc)) hname hinit hpending fun d hd => hd.eq (.inr (.inr (.inl rfl)))
  | reopened t =>
    dsimp only [step] at hs
    split at hs
    swap
    · cases hs
    next dw hsrc =>
    cases hs
    exact h.proceed (.inr (.inr (.inl hsrc))) rfl rfl rfl fun d hd => hd.eq (.inr (.inr (.inr rfl)))
  | forward t put =>
    dsimp only [step] at hs
    split at hs
    swap
    · cases hs
    next dw hsrc =>
    cases hs
    obtain ⟨hname, hinit, hpending⟩ := dwPut_keep t put (s.writers dw)
    refine h.proceed (.inr (.inr (.inr hsrc))) hname hinit hpending fun d hd => ?_
    obtain hd | hd | hd | hd := hd <;> cases hd
  | clear t =>
    dsimp only [step] at hs
    split at hs
    swap
    · cases hs
    next dw hsrc =>
    cases hs
    have hnone : ∀ t', ¬ (s.sources t').OnWay dw := by
      intro t' ht'
      by_cases he : t' = t
      · rw [he, hsrc] at ht'
        obtain hd | hd | hd | hd := ht' <;> cases hd
      · exact hmeets dw t' hsrc he ht'
    have hset : Inv o (s.setWriter dw { s.writers dw with queuePending := false }) :=
      h.setWriter rfl rfl (h.timer dw) (.inr hnone) (h.reaping dw) (h.released dw)
    refine hset.setSource fun d hd => ?_
    obtain hd | hd | hd | hd := hd <;> cases hd
  | unref t =>
    dsimp only [step] at hs
    split at hs
    swap
    · cases hs
    next dw _ =>
    cases hs
    have hset : Inv o (s.setWriter dw { s.writers dw with refs := (s.writers dw).refs - 1 }) :=
      h.setWriter_keep rfl rfl (h.timer dw) rfl rfl rfl rfl
    refine hset.setSource fun d hd => ?_
    obtain hd | hd | hd | hd := hd <;> cases hd
  | moveInput t dropped =>
    dsimp only [step] at hs
    split at hs
    · cases hs
      exact h.moveInput t dropped
    · cases hs
  | reap dw now =>
    dsimp only [step] at hs
    split at hs
    swap
    · cases hs
    next hcond =>
    split at hs
    · next hdecide =>
      cases hs
      exact h.decide hcond.1 hcond.2 hdecide.1 hdecide.2.1
        (hmeets hdecide.1 hdecide.2.1 hdecide.2.2)
    · cases hs
      exact h.setWriter_keep rfl rfl (fun _ => h.timer dw hcond.2) rfl rfl rfl rfl
  | remove =>
    dsimp only [step] at hs
    split at hs
    swap
    · cases hs
    next dw hr =>
    obtain ⟨u, hu, rfl⟩ := Option.map_eq_some_iff.1 hs
    exact h.removed hr hu
  | deinit =>
    dsimp only [step] at hs
    split at hs
    swap
    · cases hs
    next dw hr =>
    cases hs
    exact h.deinited hr
  | watch dw running =>
    dsimp only [step] at hs
    split at hs
    swap
    · cases hs
    next hcond =>
    cases hs
    have hnot : ¬ s.Reaping dw := by
      rintro (hr | hr) <;> cases hcond.1.symm.trans hr
    refine h.setWriter rfl rfl (h.timer dw) ?_ (fun hr => absurd hr hnot) (h.released dw)
    by_cases hp : (s.writers dw).queuePending = true
    · exact .inl hp
    · exact .inr fun t ht => hp (h.onWay t dw ht).2.1
  | consume dw =>
    dsimp only [step] at hs
    split at hs
    swap
    · cases hs
    next hcond =>
    cases hs
    have hfull : ¬ (s.writers dw).Empty := fun he => by
      have := he.1
      omega
    refine h.setWriter rfl rfl (h.timer dw) ?_ (fun hr => absurd (h.reaping dw hr).2 hfull)
      fun hi => absurd (h.released dw hi) hfull
    by_cases hp : (s.writers dw).queuePending = true
    · exact .inl hp
    · exact .inr fun t ht => hp (h.onWay t dw ht).2.1

theorem Inv.run {actions : List (Action F)} (hrun : Run (Next o) (fileDestStart o) actions s) : Inv o s :=
  hrun.invariant (fun _ _ _ hn h => step_inv h hn.1 hn.2) (.start o)

theorem Inv.unique (h : Inv o s) {d d' : Nat} (hd : (s.writers d).initialized = true)
    (hd' : (s.writers d').initialized = true) (hname : (s.writers d).filename = (s.writers d').filename) :
    d = d' := by
  have hone : ∀ {a b}, (s.writers b).initialized = true → s.reaper = .deiniting a →
      (s.writers a).filename = (s.writers b).filename → a = b := by
    intro a b hb ha hab
    by_contra hne
    have hlink := h.linked b hb fun hr => hne (by cases ha.symm.trans hr; rfl)
    rw [← hab, (h.deiniting a ha).2] at hlink
    cases hlink
  by_cases hr : s.reaper = .deiniting d
  · exact hone hd' hr hname
  by_cases hr' : s.reaper = .deiniting d'
  · exact (hone hd hr' hname.symm).symm
  have hlink := h.linked d hd hr
  rw [hname, h.linked d' hd' hr'] at hlink
  cases hlink
  rfl

/-- The writer is being reaped although a message is on its way to it, or waits in an input queue. -/
def FileDest.Losing (s : FileDest F) (dw : Nat) : Prop :=
  s.Reaping dw ∧ ((∃ t, (s.sources t).OnWay dw) ∨ ∃ t, (s.writers dw).input t ≠ 0)

/-- Nothing keeps the reaper off a writer that a thread is on its way to: it is reaped when its timer
elapses and it has been idle for long enough. -/
def FileDest.Exposed (o : Options F) (s : FileDest F) (dw : Nat) : Prop :=
  (∃ t, (s.sources t).OnWay dw) ∧ ∀ now, s.reaper = .idle → (s.writers dw).reapTimer = true →
    hasPendingWrites (s.writers dw) = false → o.timeReap ≤ now - (s.writers dw).lastMsgStamp →
      ∃ s', step o s (.reap dw now) = some s' ∧ s'.Losing dw

theorem exposed_of_not_pending (hway : ∃ t, (s.sources t).OnWay dw)
    (hpending : (s.writers dw).queuePending = false) : s.Exposed o dw := by
  refine ⟨hway, fun now hidle htimer hwrites hnow => ?_⟩
  refine ⟨{ s.setWriter dw { s.writers dw with reapTimer := false } with reaper := .removing dw },
    ?_, .inl rfl, .inl hway⟩
  show (if _ then _ else _) = _
  rw [if_pos ⟨hidle, htimer⟩, if_pos ⟨hwrites, hpending, hnow⟩]

theorem step_not_meets {action : Action F} (hs : step o s action = some s') (hnot : ¬ action.Meets o s) :
    ∃ dw, s'.Losing dw ∨ s'.Exposed o dw := by
  cases action with
  | lookUp t filename =>
    simp only [Action.Meets] at hnot
    push Not at hnot
    obtain ⟨dw, hfind, hr⟩ := hnot
    dsimp only [step] at hs
    split at hs
    swap
    · cases hs
    rw [hfind] at hs
    cases hs
    refine ⟨dw, .inl ⟨.inl hr, .inl ⟨t, .inl ?_⟩⟩⟩
    rw [setSource_sources_self]
  | clear t =>
    simp only [Action.Meets] at hnot
    push Not at hnot
    obtain ⟨dw, t', hsrc, hne, hway⟩ := hnot
    dsimp only [step] at hs
    rw [hsrc] at hs
    cases hs
    refine ⟨dw, .inr (exposed_of_not_pending ⟨t', ?_⟩ ?_)⟩
    · rw [setSource_sources_of_ne _ _ _ hne]
      exact hway
    · show ((s.setWriter dw { s.writers dw with queuePending := false }).writers dw).queuePending = false
      rw [setWriter_writers_self]
  | reap dw now =>
    simp only [Action.Meets] at hnot
    push Not at hnot
    obtain ⟨hwrites, hpending, hnow, t, hinput⟩ := hnot
    dsimp only [step] at hs
    split at hs
    swap
    · cases hs
    rw [if_pos ⟨hwrites, hpending, hnow⟩] at hs
    cases hs
    refine ⟨dw, .inl ⟨.inl rfl, .inr ⟨t, ?_⟩⟩⟩
    dsimp only
    rw [setWriter_writers_self]
    exact hinput
  | openWriter t inits opens => exact absurd trivial hnot
  | enter t now => exact absurd trivial hnot
  | reopen t opens => exact absurd trivial hnot
  | reopened t => exact absurd trivial hnot
  | forward t put => exact absurd trivial hnot
  | unref t => exact absurd trivial hnot
  | moveInput t dropped => exact absurd trivial hnot
  | remove => exact absurd trivial hnot
  | deinit => exact absurd trivial hnot
  | watch dw running => exact absurd trivial hnot
  | consume dw => exact absurd trivial hnot

end SyslogNg.AffileDest
