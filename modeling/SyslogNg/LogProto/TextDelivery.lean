import SyslogNg.Lib.Run
import SyslogNg.LogProto.TextFetch

/-!
# What the text server delivers

A text server on a stream returns the messages of the stream (`textMessages`), whatever the reads
are, and whether or not `queued` is called between the fetches.
-/

namespace SyslogNg.LogProto

open Lib List

/-- A connection as the source of a text server. -/
def transportSource : Source LogTransport := ⟨logTransportRead, readsLeft, true⟩

theorem transportSource_lawful : Lawful transportSource Splits where
  eof {t s count t'} hd hc hread := by
    have h := logTransportRead_step hd hc
    have hread : logTransportRead t count = (.eof, t') := hread
    rw [hread] at h
    cases h with
    | eof hs _ => exact ⟨rfl, hs, ⟨by simp, rfl⟩⟩
  noError {t s count t'} hd hc hread := by
    have h := logTransportRead_step hd hc
    have hread : logTransportRead t count = (.error, t') := hread
    rw [hread] at h
    cases h
  again {t s count t'} hd hc hread := by
    have h := logTransportRead_step hd hc
    have hread : logTransportRead t count = (.again, t') := hread
    rw [hread] at h
    cases h with
    | again hs hlt => exact ⟨hs, Nat.le_of_lt hlt, .inl hlt⟩
  bytes {t s count t' bs} hd hc hread := by
    have h := logTransportRead_step hd hc
    have hread : logTransportRead t count = (.bytes bs, t') := hread
    rw [hread] at h
    cases h with
    | bytes _ hle hs hsplit hlt => exact ⟨hle, hlt, _, hs, hsplit⟩

/-! ## The messages of a stream -/

section

variable {n : Nat} {s msg : List UInt8}

theorem textMessages_line (h : scanLines n [] s = ([msg], [])) (s' : List UInt8) :
    textMessages n (s ++ s') = msg :: textMessages n s' := by
  have hwhole := scanLines_whole h s'
  unfold textMessages completeLines unfinishedLine at *
  rw [hwhole]
  rfl

theorem textMessages_unfinished (h : scanLines n [] s = ([], s)) (hne : s ≠ []) :
    textMessages n s = [s] := by
  unfold textMessages completeLines unfinishedLine
  rw [h, if_neg hne]
  rfl

theorem textMessages_nil (n : Nat) : textMessages n [] = [] := rfl

theorem isLineEnd_of_isEom {c : UInt8} (h : isEom c = true) : isLineEnd c = true := by
  simp only [isEom, isLineEnd, Bool.or_eq_true, beq_iff_eq] at h ⊢
  tauto

theorem stripLine_filter (line : List UInt8) :
    (stripLine line).filter (!isLineEnd ·) = line.filter (!isLineEnd ·) := by
  induction line using List.reverseRecOn with
  | nil => rfl
  | append_singleton line c ih =>
    unfold stripLine at ih ⊢
    by_cases hc : isLineEnd c = true
    · rw [rdropWhile_concat_pos _ _ _ hc, ih]
      simp [hc]
    · rw [rdropWhile_concat_neg _ _ _ hc]

theorem scanLines_filter (n : Nat) (line s : List UInt8) :
    ((scanLines n line s).1.flatten ++ (scanLines n line s).2).filter (!isLineEnd ·) =
      (line ++ s).filter (!isLineEnd ·) := by
  induction s generalizing line with
  | nil => simp [scanLines]
  | cons c s ih =>
    rw [scanLines]
    split
    · next hc =>
      have ih := ih []
      simp only [flatten_cons, append_assoc, filter_append, stripLine_filter] at ih ⊢
      rw [ih]
      simp [isLineEnd_of_isEom hc]
    split
    · have ih := ih []
      have happ : line ++ c :: s = line ++ ([c] ++ s) := rfl
      rw [happ]
      simp only [flatten_cons, append_assoc, filter_append] at ih ⊢
      rw [ih]
      simp
    · rw [ih, append_assoc]
      rfl

theorem scanLines_sublist (n : Nat) (line s : List UInt8) :
    ((scanLines n line s).1.flatten ++ (scanLines n line s).2).Sublist (line ++ s) := by
  induction s generalizing line with
  | nil => simp [scanLines]
  | cons c s ih =>
    have ih0 := ih []
    rw [scanLines]
    split
    · rw [flatten_cons, append_assoc]
      have hstrip : (stripLine line).Sublist line :=
        ( rdropWhile_prefix _ _).sublist
      exact hstrip.append (ih0.trans (sublist_cons_self c s))
    split
    · have happ : line ++ c :: s = (line ++ [c]) ++ s := by simp
      rw [flatten_cons, append_assoc, happ]
      exact (List.Sublist.refl _).append ih0
    · have happ : line ++ c :: s = (line ++ [c]) ++ s := by simp
      rw [happ]
      exact ih (line ++ [c])

theorem textMessages_flatten (n : Nat) (s : List UInt8) :
    (textMessages n s).flatten = (scanLines n [] s).1.flatten ++ (scanLines n [] s).2 := by
  unfold textMessages completeLines unfinishedLine
  split
  · next h => simp [h]
  · simp

end

/-! ## Every run -/

/-- A server, its transport, the messages `fetch` has returned, and its last status. -/
structure TextWorld where
  server : LogProtoTextServer
  transport : LogTransport
  delivered : List (List UInt8)
  status : LogProtoStatus

inductive TextOp where
  | fetch (mayRead : Bool)
  | queued

def textStart (noMultiRead : Bool) (transport : LogTransport) : TextWorld :=
  ⟨logProtoTextServerNew noMultiRead, transport, [], .success⟩

def textStep (options : LogProtoServerOptions) (junk : UInt8) (addr : Nat) (w : TextWorld) :
    TextOp → Option TextWorld
  | .fetch mayRead =>
    (w.server.fetch transportSource options junk addr w.transport mayRead).map
      fun (status, msg, server, transport) =>
        ⟨server, transport, w.delivered ++ msg.toList, status⟩
  | .queued => some { w with server := w.server.queued }

/-- The messages that are still ahead of a server, given the bytes its transport delivers. -/
def messagesAhead (options : LogProtoServerOptions) (server : LogProtoTextServer)
    (stream : List UInt8) : List (List UInt8) :=
  if server.status = .success then
    textMessages options.initBufferSize (server.pending ++ stream)
  else []

/-- The invariant of a run: the messages of the stream are those delivered and those ahead. -/
structure TextInv (options : LogProtoServerOptions) (msgs rest : List (List UInt8))
    (w : TextWorld) : Prop where
  valid : w.server.Valid options
  untracked : w.server.posTracking = false
  noError : w.status ≠ .error
  final : w.server.status = .success ∨ w.server.status = .eof
  ahead : ∃ stream, Splits w.transport stream ∧
    rest = messagesAhead options w.server stream
  delivered : msgs = w.delivered ++ rest
  eof : w.status = .eof → rest = []

theorem TextInv.start (options : LogProtoServerOptions) (noMultiRead : Bool)
    {transport : LogTransport} {stream : List UInt8} (hs : Splits transport stream) :
    TextInv options (textMessages options.initBufferSize stream)
      (textMessages options.initBufferSize stream) (textStart noMultiRead transport) where
  valid := .inr ⟨rfl, rfl, rfl, rfl⟩
  untracked := rfl
  noError := by simp [textStart]
  final := .inl rfl
  ahead := ⟨stream, hs, rfl⟩
  delivered := rfl
  eof := by simp [textStart]

def textFetchesLeft (w : TextWorld) (rest : List (List UInt8)) : Nat :=
  readsLeft w.transport + rest.length

section

variable {options : LogProtoServerOptions} {junk : UInt8} {addr : Nat}
  {msgs rest : List (List UInt8)} {w : TextWorld}

theorem fetch_after_eof (junk : UInt8) (addr : Nat) (h : TextInv options msgs rest w) (hst : w.server.status = .eof)
    (mayRead : Bool) :
    textStep options junk addr w (.fetch mayRead) = some { w with status := .eof } ∧
      TextInv options msgs [] { w with status := .eof } := by
  have hrest : rest = [] := by
    obtain ⟨stream, -, hr⟩ := h.ahead
    rw [hr, messagesAhead, hst]
    rfl
  constructor
  · simp [textStep, LogProtoTextServer.fetch, hst]
  · have hd := h.delivered
    obtain ⟨stream, hs, hr⟩ := h.ahead
    rw [hrest] at hd hr
    exact ⟨h.valid, h.untracked, by simp, h.final, ⟨stream, hs, hr⟩, hd, fun _ => rfl⟩

theorem fetch_inv (hinit : 0 < options.initBufferSize) (hmax : options.initBufferSize < 2 ^ 31)
    (h : TextInv options msgs rest w) (mayRead : Bool) :
    ∃ w' rest', textStep options junk addr w (.fetch mayRead) = some w' ∧
      TextInv options msgs rest' w' ∧ (rest = [] → rest' = []) ∧
      (rest' = [] ∨ textFetchesLeft w' rest' + mayRead.toNat ≤ textFetchesLeft w rest) := by
  have hmay : mayRead.toNat ≤ 1 := Bool.toNat_le mayRead
  rcases h.final with hst | hst
  swap
  · obtain ⟨hstep, hinv⟩ := fetch_after_eof junk addr h hst mayRead
    exact ⟨_, [], hstep, hinv, fun _ => rfl, .inl rfl⟩
  obtain ⟨stream, hs, hrest⟩ := h.ahead
  rw [messagesAhead, if_pos hst] at hrest
  have hraw : w.server.RawOk := fun ht => by simp [h.untracked] at ht
  obtain ⟨start, status, msg, server, transport, halloc, hf, hfetched⟩ :=
    LogProtoTextServer.fetch_spec transportSource_lawful junk addr hinit hmax hst h.valid hraw hs
      mayRead
  have hstep : textStep options junk addr w (.fetch mayRead) =
      some ⟨server, transport, w.delivered ++ msg.toList, status⟩ := by
    rw [textStep, hf]
    rfl
  rw [← halloc.pending] at hrest
  have hinv : ∀ {rest'}, server.Valid options → server.posTracking = start.posTracking →
      status ≠ .error → (server.status = .success ∨ server.status = .eof) →
      (∃ stream', Splits transport stream' ∧ rest' = messagesAhead options server stream') →
      rest = msg.toList ++ rest' → (status = .eof → rest' = []) →
      TextInv options msgs rest' ⟨server, transport, w.delivered ++ msg.toList, status⟩ := by
    intro rest' hv ht he hfin ha hr heof
    refine ⟨hv, ht.trans (halloc.posTracking.trans h.untracked), he, hfin, ha, ?_, heof⟩
    rw [h.delivered, hr, append_assoc]
  have hahead : ∀ stream', server.status = start.status →
      messagesAhead options server stream' =
        textMessages options.initBufferSize (server.pending ++ stream') := by
    intro stream' hsame
    rw [messagesAhead, if_pos (hsame.trans (halloc.status.trans hst))]
  cases hfetched with
  | line hk hsame hle hused =>
    next msg stream' =>
    obtain ⟨used, hbytes, hscan⟩ := hused
    rw [halloc.bufferSize] at hscan
    have hr : rest = msg :: textMessages options.initBufferSize (server.pending ++ stream') := by
      rw [hrest, hbytes, textMessages_line hscan]
    have hle : readsLeft transport ≤ readsLeft w.transport := hle
    have hlen := congrArg List.length hr
    rw [length_cons] at hlen
    refine ⟨_, textMessages options.initBufferSize (server.pending ++ stream'), hstep,
      hinv (.inl ⟨hk.bounds, hk.bufferSize.trans halloc.bufferSize⟩) hk.posTracking (by simp)
        (.inl (hsame.trans (halloc.status.trans hst)))
        ⟨stream', hk.delivers, (hahead stream' hsame).symm⟩ hr (by simp), ?_, ?_⟩
    · intro hnil
      rw [hnil] at hr
      cases hr
    · right
      show readsLeft transport + _ + _ ≤ readsLeft w.transport + _
      omega
  | wait hk hsame hle hcached hp hprog =>
    next stream' =>
    rw [← hp] at hrest
    have hle : readsLeft transport ≤ readsLeft w.transport := hle
    refine ⟨_, rest, hstep,
      hinv (.inl ⟨hk.bounds, hk.bufferSize.trans halloc.bufferSize⟩) hk.posTracking (by simp)
        (.inl (hsame.trans (halloc.status.trans hst)))
        ⟨stream', hk.delivers, hrest.trans (hahead stream' hsame).symm⟩ rfl (by simp), id, ?_⟩
    right
    show readsLeft transport + rest.length + mayRead.toNat ≤ readsLeft w.transport + rest.length
    cases mayRead with
    | false => simpa using hle
    | true =>
      rcases hprog rfl with hlt | ⟨hends, -⟩
      · have hlt : readsLeft transport < readsLeft w.transport := hlt
        simp only [Bool.toNat_true]
        omega
      · cases hends
  | rest _ hk heof hnil hne hscan =>
    rw [halloc.bufferSize] at hscan
    rw [textMessages_unfinished hscan hne] at hrest
    refine ⟨_, [], hstep,
      hinv (.inl ⟨hk.bounds, hk.bufferSize.trans halloc.bufferSize⟩) hk.posTracking (by simp)
        (.inr heof) ⟨[], hk.delivers, ?_⟩ hrest (by simp), fun _ => rfl, .inl rfl⟩
    rw [messagesAhead, heof]
    rfl
  | eof _ hk heof hnil he =>
    rw [he, textMessages_nil] at hrest
    refine ⟨_, [], hstep,
      hinv (.inl ⟨hk.bounds, hk.bufferSize.trans halloc.bufferSize⟩) hk.posTracking (by simp)
        (.inr heof) ⟨[], hk.delivers, ?_⟩ hrest (fun _ => rfl), fun _ => rfl, .inl rfl⟩
    rw [messagesAhead, heof]
    rfl

theorem queued_inv (h : TextInv options msgs rest w) :
    TextInv options msgs rest { w with server := w.server.queued } := by
  have hq := LogProtoTextServer.queued_spec h.valid
  obtain ⟨stream, hs, hr⟩ := h.ahead
  refine ⟨hq.valid, hq.posTracking.trans h.untracked, h.noError, ?_, ⟨stream, hs, ?_⟩, h.delivered, h.eof⟩
  · rw [hq.status]
    exact h.final
  · rw [hr, messagesAhead, messagesAhead, hq.status, hq.pending]

/-- The number of fetches that may read. -/
def readingFetches : List TextOp → Nat
  | [] => 0
  | .fetch mayRead :: ops => mayRead.toNat + readingFetches ops
  | .queued :: ops => readingFetches ops

theorem textRun_inv (hinit : 0 < options.initBufferSize) (hmax : options.initBufferSize < 2 ^ 31)
    (junk : UInt8) (addr : Nat) (ops : List TextOp) (h : TextInv options msgs rest w) :
    ∃ w' rest', exec (textStep options junk addr) w ops = some w' ∧
      TextInv options msgs rest' w' ∧ (rest = [] → rest' = []) ∧
      (rest' = [] ∨ textFetchesLeft w' rest' + readingFetches ops ≤ textFetchesLeft w rest) := by
  induction ops generalizing w rest with
  | nil => exact ⟨w, rest, rfl, h, id, .inr (Nat.le_refl _)⟩
  | cons op ops ih =>
    cases op with
    | queued =>
      obtain ⟨w', rest', hex, h', hnil, hleft⟩ := ih (queued_inv h)
      exact ⟨w', rest', by rw [exec]; exact hex, h', hnil, hleft⟩
    | fetch mayRead =>
      obtain ⟨w1, rest1, hstep, h1, hnil1, hleft1⟩ := fetch_inv hinit hmax h mayRead
      obtain ⟨w', rest', hex, h', hnil', hleft'⟩ := ih h1
      refine ⟨w', rest', ?_, h', fun hr => hnil' (hnil1 hr), ?_⟩
      · rw [exec, hstep]
        exact hex
      rcases hleft1 with hz | hle1
      · exact .inl (hnil' hz)
      rcases hleft' with hz | hle'
      · exact .inl hz
      · right
        rw [readingFetches]
        omega

end

/-- **Text framing does not depend on the chunks**: in every run of fetches, with or without
`queued` between them, on every split of `stream`, the messages returned are the first messages of
`stream`; once there were as many fetches as the stream has reads and messages, all of them. No
byte but line ends is lost, and none is duplicated. -/
theorem text_server_delivers (options : LogProtoServerOptions) (junk : UInt8) (addr : Nat)
    (hinit : 1 ≤ options.initBufferSize) (hmax : options.maxBufferSize = options.initBufferSize)
    (hint : options.maxBufferSize < 2 ^ 31) (noMultiRead : Bool) (transport : LogTransport)
    (stream : List UInt8) (hs : Splits transport stream) (ops : List TextOp) :
    (∃ w, exec (textStep options junk addr) (textStart noMultiRead transport) ops = some w ∧
      w.delivered <+: textMessages options.initBufferSize stream ∧ w.status ≠ .error ∧
      (w.status = .eof → w.delivered = textMessages options.initBufferSize stream) ∧
      (readsLeft transport + (textMessages options.initBufferSize stream).length ≤
        readingFetches ops → w.delivered = textMessages options.initBufferSize stream)) ∧
    (textMessages options.initBufferSize stream).flatten.Sublist stream ∧
    (textMessages options.initBufferSize stream).flatten.filter (!isLineEnd ·) =
      stream.filter (!isLineEnd ·) := by
  refine ⟨?_, ?_, ?_⟩
  · obtain ⟨w, rest, hex, hinv, -, hleft⟩ := textRun_inv hinit (by omega) junk addr ops
      (TextInv.start options noMultiRead hs)
    have hd := hinv.delivered
    have hall : rest = [] → w.delivered = textMessages options.initBufferSize stream := by
      rintro rfl
      rw [append_nil] at hd
      exact hd.symm
    refine ⟨w, hex, ⟨rest, hd.symm⟩, hinv.noError, fun he => hall (hinv.eof he), ?_⟩
    intro hle
    apply hall
    rcases hleft with hz | hc
    · exact hz
    · have hstart : textFetchesLeft (textStart noMultiRead transport)
          (textMessages options.initBufferSize stream) = readsLeft transport +
          (textMessages options.initBufferSize stream).length := rfl
      unfold textFetchesLeft at hc hstart
      exact eq_nil_of_length_eq_zero (by omega)
  · rw [textMessages_flatten]
    exact scanLines_sublist _ [] stream
  · rw [textMessages_flatten]
    exact scanLines_filter _ [] stream

/-- Two lines, one of them longer than the buffer of four bytes, and an unfinished one. -/
theorem text_server_delivers_four :
    ∃ w, exec (textStep ⟨4, 4, 4⟩ 0 0)
        (textStart false [.data 97 [98], .again, .data 13 [10, 104, 101, 108, 108], .data 111 [0, 120]])
        (List.replicate 20 [.fetch true, .queued]).flatten = some w ∧
      w.delivered = [[97, 98], [104, 101, 108, 108], [111], [120]] := by
  obtain ⟨⟨w, hex, -, -, -, hall⟩, -, -⟩ := text_server_delivers ⟨4, 4, 4⟩ 0 0 (by decide)
    (by decide) (by decide) false
    [.data 97 [98], .again, .data 13 [10, 104, 101, 108, 108], .data 111 [0, 120]]
    [97, 98, 13, 10, 104, 101, 108, 108, 111, 0, 120] ⟨by decide, by decide⟩
    (List.replicate 20 [.fetch true, .queued]).flatten
  refine ⟨w, hex, (hall ?_).trans ?_⟩
  · decide
  · decide

end SyslogNg.LogProto
