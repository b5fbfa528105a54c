import SyslogNg.LogProto.FramedServer

/-!
# What the framed server tells of a complete message

`prepare` takes whatever is in the buffer for a message, unless a read has found that it is half of
one. After a fetch that succeeds the flag is right.
-/

namespace SyslogNg.LogProto

open Lib
open Option (bind_eq_some_iff map_eq_some_iff)

namespace LogProtoFramedServer

variable {self t : LogProtoFramedServer} {options : LogProtoServerOptions} {junk : UInt8}
  {transport transport' : LogTransport} {mayRead tryRead : Bool} {status : LogProtoStatus}
  {msg : Option (List UInt8)}

/-- `log_proto_framed_server_prepare`. -/
def prepare (self : LogProtoFramedServer) : Bool :=
  !self.halfMessageInBuffer && self.bufferPos ≠ self.bufferEnd

/-- The rest of the message whose header has been read, or a frame with its header. -/
def HoldsMessage (self : LogProtoFramedServer) : Prop :=
  (self.state = .messageRead ∧ self.frameLen ≤ usub32 self.bufferEnd self.bufferPos) ∨
    (self.state = .frameRead ∧ ∃ pos frameLen,
      scanHeader self.buffer self.bufferPos (self.bufferEnd - self.bufferPos) self.bufferPos 0 =
        some (.found pos, frameLen) ∧ frameLen ≤ usub32 self.bufferEnd pos)

/-- The buffer has a message when `prepare` says so. -/
def Told (self : LogProtoFramedServer) : Prop := self.HoldsMessage → self.prepare = true

theorem shift_state (h : self.shift = some t) : t.state = self.state := by
  unfold shift at h
  obtain ⟨buffer, -, rfl⟩ := map_eq_some_iff.1 h
  rfl

theorem makeSpace_state (h : self.makeSpace = some t) : t.state = self.state := by
  have hreset : (if self.bufferPos = self.bufferEnd then
      { self with bufferPos := 0, bufferEnd := 0 } else self).state = self.state := by
    split <;> rfl
  unfold makeSpace at h
  dsimp only at h
  generalize (if self.bufferPos = self.bufferEnd then
      { self with bufferPos := 0, bufferEnd := 0 } else self) = s at h hreset
  split at h
  · exact (shift_state h).trans hreset
  · cases h
    exact hreset

theorem fetchData_state {status : LogProtoStatus}
    (h : self.fetchData transport mayRead = some (status, t, transport')) :
    t.state = self.state := by
  unfold fetchData at h
  obtain ⟨s, hs, h⟩ := bind_eq_some_iff.1 h
  have hstate := makeSpace_state hs
  split at h
  · cases h
    exact hstate
  split at h
  · cases h
    exact hstate
  · cases h
    exact hstate
  · cases h
    exact hstate
  · obtain ⟨buffer, -, hres⟩ := map_eq_some_iff.1 h
    cases hres
    exact hstate

theorem told_of_needMoreData (hstate : self.state = .frameRead)
    (h : self.extractFrameLength = some (.needMoreData, t)) : t.Told := by
  unfold extractFrameLength at h
  obtain ⟨⟨scan, n⟩, hscan, hres⟩ := map_eq_some_iff.1 h
  have hscan' : scan = .needMoreData ∧ t = { self with frameLen := n } := by
    cases scan <;> cases hres
    exact ⟨rfl, rfl⟩
  obtain ⟨rfl, rfl⟩ := hscan'
  rintro (⟨hm, -⟩ | ⟨-, pos, frameLen, hfound, -⟩)
  · cases hstate.symm.trans hm
  · cases hscan.symm.trans hfound

theorem told_of_message (hstate : self.state = .frameRead) (hhalf : self.halfMessageInBuffer = false) :
    self.Told := by
  rintro (⟨hm, -⟩ | ⟨-, pos, frameLen, hfound, -⟩)
  · cases hstate.symm.trans hm
  · have hne : self.bufferPos ≠ self.bufferEnd := by
      intro he
      rw [he, Nat.sub_self] at hfound
      cases hfound
    simp [prepare, hhalf, hne]

theorem takeMessage_told (hstate : self.state = .messageRead)
    (h : self.takeMessage = some (msg, t)) :
    t.Told ∧ (msg = none → t = self) := by
  unfold takeMessage at h
  split at h
  · split at h
    · cases h
      exact ⟨told_of_message rfl rfl, by simp⟩
    · cases h
  · next hpart =>
    cases h
    refine ⟨?_, fun _ => rfl⟩
    rintro (⟨-, hm⟩ | ⟨hf, -⟩)
    · exact absurd hm hpart
    · cases hstate.symm.trans hf

theorem readMessage_told (hstate : self.state = .messageRead)
    (h : self.readMessage transport mayRead tryRead = some (.success, msg, t, transport')) :
    t.Told := by
  unfold readMessage at h
  obtain ⟨⟨m, u⟩, hu, h⟩ := bind_eq_some_iff.1 h
  obtain ⟨htold, hsame⟩ := takeMessage_told hstate hu
  cases m with
  | some m =>
    cases h
    exact htold
  | none =>
    dsimp only at h
    split at h
    swap
    · cases h
      exact htold
    obtain ⟨⟨st, v, tr⟩, hv, h⟩ := bind_eq_some_iff.1 h
    cases st with
    | success =>
      obtain ⟨⟨m', w⟩, hw, hres⟩ := map_eq_some_iff.1 h
      cases hres
      have hsv : v.state = .messageRead := by
        rw [fetchData_state hv, hsame rfl]
        exact hstate
      exact (takeMessage_told hsv hw).1
    | error => cases h
    | eof => cases h

theorem makeRoom_state (h : self.makeRoom options junk = some t) : t.state = self.state := by
  have hresize : (self.resize options junk).state = self.state := by
    unfold resize
    split <;> rfl
  unfold makeRoom at h
  dsimp only at h
  split at h
  · exact (shift_state h).trans hresize
  · cases h
    exact hresize

theorem extractFrameLength_state {scan : HeaderScan} (h : self.extractFrameLength = some (scan, t)) :
    t.state = self.state := by
  unfold extractFrameLength at h
  obtain ⟨⟨scan', n⟩, -, hres⟩ := map_eq_some_iff.1 h
  cases scan' <;> cases hres <;> rfl

/-- **A fetch that succeeds** leaves a server that tells of a complete message. -/
theorem fetch_told (h : self.fetch options junk transport mayRead =
    some (.success, msg, t, transport')) : t.Told := by
  unfold fetch at h
  generalize hself : self.allocate options junk = start at h
  dsimp only at h
  cases hstate : start.state with
  | messageRead =>
    rw [hstate] at h
    exact readMessage_told hstate h
  | frameRead =>
    rw [hstate] at h
    obtain ⟨⟨res, u, tr⟩, hu, h⟩ := bind_eq_some_iff.1 h
    cases res with
    | header tryRead =>
      dsimp only at h
      split at h
      · cases h
      obtain ⟨v, hv, h⟩ := bind_eq_some_iff.1 h
      exact readMessage_told (makeRoom_state hv) h
    | done st =>
      cases h
      unfold readFrame at hu
      obtain ⟨⟨scan, v⟩, hv, hu⟩ := bind_eq_some_iff.1 hu
      have hsv := extractFrameLength_state hv
      cases scan with
      | invalid => cases hu
      | found pos => cases hu
      | needMoreData =>
        obtain ⟨⟨st', w, tr'⟩, hw, hu⟩ := bind_eq_some_iff.1 hu
        have hsw := fetchData_state hw
        cases st' with
        | error => cases hu
        | eof => cases hu
        | success =>
          obtain ⟨⟨scan', x⟩, hx, hres⟩ := map_eq_some_iff.1 hu
          cases scan' with
          | invalid => cases hres
          | found pos => cases hres
          | needMoreData =>
            cases hres
            exact told_of_needMoreData (hsw.trans (hsv.trans hstate)) hx

end LogProtoFramedServer

end SyslogNg.LogProto
