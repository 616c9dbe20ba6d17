-- SUMMARY: What one turn of the download loop can do, and what the loop has done when it is left.
import HomeNode.Ota.Task

/-!
# The download loop

`TurnKind` lists the ways one turn of the loop can go, once. The facts about the
whole loop are inductions over the reads that use only this list.
-/

namespace HomeNode.Ota

/-- `l'` differs from `l` in the buffer, the counters and nothing else. -/
structure Loop.SameUpdate (l l' : Loop) : Prop where
  handle : l'.handle = l.handle
  checked : l'.headerChecked = l.headerChecked

/-- `l'` writes to the update `h`. -/
structure Loop.Updates (l' : Loop) (h : Handle) : Prop where
  handle : l'.handle = h
  checked : l'.headerChecked = true

/-- The ways a turn can go: its `break`, the variables after it, its calls. -/
inductive TurnKind (p : Partition) (l : Loop) : Turn → Prop where
  | readError : TurnKind p l ⟨some .readError, l, [.firmwareRead .error, .clientClose]⟩
  /-- the first empty read -/
  | ignored {l' : Loop} (hl : l.SameUpdate l') :
      TurnKind p l ⟨none, l', [.firmwareRead (.data [])]⟩
  | connReset {l' : Loop} (hl : l.SameUpdate l') :
      TurnKind p l ⟨some .connReset, l', [.firmwareRead (.data [])]⟩
  | waiting {l' : Loop} (hl : l.SameUpdate l') :
      TurnKind p l ⟨none, l', [.firmwareRead (.data []), .isComplete false]⟩
  | finished {l' : Loop} (hl : l.SameUpdate l') :
      TurnKind p l ⟨some .finished, l', [.firmwareRead (.data []), .isComplete true]⟩
  | shortPacket {l' : Loop} {bs : List UInt8} (hl : l.SameUpdate l')
      (hc : l.headerChecked = false) (hbs : bs ≠ []) :
      TurnKind p l ⟨some .shortPacket, l', [.firmwareRead (.data bs), .clientClose]⟩
  | beginFailed {l' : Loop} {bs : List UInt8} (hc : l.headerChecked = false) (hbs : bs ≠ []) :
      TurnKind p l ⟨some .beginFailed, l',
        [.firmwareRead (.data bs), .otaBegin p none, .clientClose]⟩
  | begun {l' : Loop} {bs : List UInt8} {h : Handle} (hl : l'.Updates h)
      (hc : l.headerChecked = false) (hbs : bs ≠ []) :
      TurnKind p l ⟨none, l',
        [.firmwareRead (.data bs), .otaBegin p (some h), .otaWrite h bs true]⟩
  | begunWriteFailed {l' : Loop} {bs : List UInt8} {h : Handle} (hl : l'.Updates h)
      (hc : l.headerChecked = false) (hbs : bs ≠ []) :
      TurnKind p l ⟨some .writeFailed, l', [.firmwareRead (.data bs), .otaBegin p (some h),
        .otaWrite h bs false, .clientClose, .otaAbort h]⟩
  | written {l' : Loop} {bs : List UInt8} (hl : l'.Updates l.handle)
      (hc : l.headerChecked = true) (hbs : bs ≠ []) :
      TurnKind p l ⟨none, l', [.firmwareRead (.data bs), .otaWrite l.handle bs true]⟩
  | writeFailed {l' : Loop} {bs : List UInt8} (hl : l'.Updates l.handle)
      (hc : l.headerChecked = true) (hbs : bs ≠ []) :
      TurnKind p l ⟨some .writeFailed, l', [.firmwareRead (.data bs),
        .otaWrite l.handle bs false, .clientClose, .otaAbort l.handle]⟩

theorem downloadTurn_kind (p : Partition) (l : Loop) (e : ReadEnv) :
    TurnKind p l (downloadTurn p l e) := by
  unfold downloadTurn
  cases e.read with
  | error => exact .readError
  | data bs =>
    simp only
    split_ifs with hbs
    · rw [hbs]
      unfold handleEmptyRead
      split_ifs
      · exact .ignored ⟨rfl, rfl⟩
      · exact .connReset ⟨rfl, rfl⟩
      · exact .finished ⟨rfl, rfl⟩
      · exact .waiting ⟨rfl, rfl⟩
    · obtain ⟨checked, attempts, handle, buffer, fileLength⟩ := l
      unfold handlePacket writePacket
      cases checked with
      | true =>
        cases e.writeOk with
        | true => exact .written ⟨rfl, rfl⟩ rfl hbs
        | false => exact .writeFailed ⟨rfl, rfl⟩ rfl hbs
      | false =>
        by_cases hlen : imageHeaderSize < (bs.take maxHttpRecvBuffer).length
        · simp only [Bool.false_eq_true, if_false, hlen, if_true]
          cases e.begin with
          | none => exact .beginFailed rfl hbs
          | some h =>
            cases e.writeOk with
            | true => exact .begun ⟨rfl, rfl⟩ rfl hbs
            | false => exact .begunWriteFailed ⟨rfl, rfl⟩ rfl hbs
        · simp only [Bool.false_eq_true, if_false, hlen]
          exact .shortPacket ⟨rfl, rfl⟩ rfl hbs

/-! ## Turns by what was read -/

/-- The bytes of a read. -/
def Read.bytes : Read → List UInt8
  | .error => []
  | .data bs => bs

theorem downloadTurn_error {p : Partition} {l : Loop} {e : ReadEnv} (h : e.read = .error) :
    downloadTurn p l e = ⟨some .readError, l, [.firmwareRead .error, .clientClose]⟩ := by
  rw [downloadTurn, h]

theorem downloadTurn_empty {p : Partition} {l : Loop} {e : ReadEnv} (h : e.read = .data []) :
    downloadTurn p l e = (handleEmptyRead { l with buffer := l.buffer.write 0 [] } e).after
      [.firmwareRead (.data [])] := by
  simp only [downloadTurn, h, List.take_nil, if_true]

theorem downloadTurn_packet {p : Partition} {l : Loop} {e : ReadEnv} {bs : List UInt8}
    (h : e.read = .data bs) (hbs : bs ≠ []) :
    downloadTurn p l e =
      (handlePacket p { l with buffer := l.buffer.write 0 (bs.take maxHttpRecvBuffer) } e
        (bs.take maxHttpRecvBuffer)).after [.firmwareRead (.data (bs.take maxHttpRecvBuffer))] := by
  have htake : bs.take maxHttpRecvBuffer ≠ [] := by
    simpa [List.take_eq_nil_iff, maxHttpRecvBuffer] using hbs
  simp only [downloadTurn, h, htake, if_false]

/-- When a zero-length read goes on, and what it leaves. -/
theorem handleEmptyRead_left_eq_none_iff (l : Loop) (e : ReadEnv) :
    (handleEmptyRead l e).left = none ↔
      (l.attempts ≠ 0 → e.connReset = false ∧ e.complete = false) := by
  unfold handleEmptyRead
  split_ifs <;> simp_all

theorem handleEmptyRead_loop (l : Loop) (e : ReadEnv) :
    (handleEmptyRead l e).loop.headerChecked = l.headerChecked ∧
      ((handleEmptyRead l e).left = none → (handleEmptyRead l e).loop.attempts ≠ 0) := by
  unfold handleEmptyRead
  split_ifs <;> simp_all

theorem handleEmptyRead_finished {l : Loop} {e : ReadEnv}
    (h : (handleEmptyRead l e).left = some .finished) : e.complete = true := by
  unfold handleEmptyRead at h
  split_ifs at h <;> simp_all

/-- When a packet goes on, and what it leaves. -/
theorem handlePacket_left_eq_none_iff (p : Partition) (l : Loop) (e : ReadEnv)
    (bs : List UInt8) :
    (handlePacket p l e bs).left = none ↔ e.writeOk = true ∧
      (l.headerChecked = false → imageHeaderSize < bs.length ∧ e.begin ≠ none) := by
  unfold handlePacket writePacket
  cases l.headerChecked <;> cases e.writeOk <;> cases e.begin <;> simp <;> split_ifs <;> simp_all

theorem handlePacket_left_ne_finished (p : Partition) (l : Loop) (e : ReadEnv)
    (bs : List UInt8) : (handlePacket p l e bs).left ≠ some .finished := by
  unfold handlePacket writePacket
  cases l.headerChecked <;> cases e.writeOk <;> cases e.begin <;> simp <;> split_ifs <;> simp

theorem handlePacket_loop (p : Partition) (l : Loop) (e : ReadEnv) (bs : List UInt8) :
    (handlePacket p l e bs).loop.attempts = l.attempts ∧
      ((handlePacket p l e bs).left = none →
        (handlePacket p l e bs).loop.headerChecked = true) := by
  unfold handlePacket writePacket
  cases hc : l.headerChecked <;> cases e.writeOk <;> cases e.begin <;> simp [hc] <;>
    split_ifs <;> simp

/-- One turn, then the rest of the loop. -/
theorem downloadLoop_cons {p : Partition} {l : Loop} {e : ReadEnv} {es : List ReadEnv}
    {turn : Turn} (h : downloadTurn p l e = turn) :
    downloadLoop p l (e :: es) =
      match turn.left with
      | some _ => turn
      | none => (downloadLoop p turn.loop es).after turn.calls := by
  subst h
  rw [downloadLoop]
  cases hleft : (downloadTurn p l e).left with
  | none => rfl
  | some b => simp [← hleft]

end HomeNode.Ota
