-- SUMMARY: How far the outcome of the download loop depends on how the network cut the image.
import HomeNode.Ota.Decision

/-!
# Cuts of an image

A cut delivers an image in packets, with quiet empty reads in between. The loop
takes the header from the first packet alone, so the outcome depends on whether
that packet holds it, and on nothing else about the cut.
-/

namespace HomeNode.Ota

/-- The bytes handed to `esp_ota_write`, in order. -/
def writtenBytes (calls : List Call) : List UInt8 := (otaWrites calls).flatMap fun w => w.2.1

@[simp] theorem writtenBytes_nil : writtenBytes [] = [] := rfl

@[simp] theorem writtenBytes_append (cs ds : List Call) :
    writtenBytes (cs ++ ds) = writtenBytes cs ++ writtenBytes ds := by
  simp [writtenBytes]

/-- What the flash answers, whatever the sizes of the writes: the handle of the update,
and whether it takes these bytes. -/
structure Flash where
  handle : Option Handle
  takes : List UInt8 → Bool
  initial : ∀ front bs, takes (front ++ bs) = true → takes front = true

/-- The reads deliver `img` behind the `front` bytes delivered before, in packets of 1 to
1024 bytes and quiet empty reads, to a flash that answers as `fl`. -/
inductive Cut (fl : Flash) : List UInt8 → List UInt8 → List ReadEnv → Prop where
  | done {front : List UInt8} : Cut fl front [] []
  | quiet {front img : List UInt8} {e : ReadEnv} {es : List ReadEnv} (hread : e.read = .data [])
      (hreset : e.connReset = false) (hcomplete : e.complete = false) (hrest : Cut fl front img es) :
      Cut fl front img (e :: es)
  | packet {front bs img : List UInt8} {e : ReadEnv} {es : List ReadEnv} (hread : e.read = .data bs)
      (hpos : 0 < bs.length) (hsize : bs.length ≤ maxHttpRecvBuffer) (hbegin : e.begin = fl.handle)
      (hwrite : e.writeOk = fl.takes (front ++ bs)) (hrest : Cut fl (front ++ bs) img es) :
      Cut fl front (bs ++ img) (e :: es)

/-- The first packet, if there is one. -/
def firstPacket (es : List ReadEnv) : Option (List UInt8) :=
  (es.map fun e => e.read.bytes).find? (· ≠ [])

/-- The first packet, if there is one, holds the whole image header. -/
def headerWhole (es : List ReadEnv) : Bool :=
  match firstPacket es with
  | none => true
  | some bs => imageHeaderSize < bs.length

/-- Where the loop goes once the reads are all `e`. -/
def ReadEnv.finalBreak (e : ReadEnv) : Option Break :=
  match e.read with
  | .error => some .readError
  | .data _ =>
    if e.connReset then some .connReset
    else if e.complete then some .finished
    else none

/-! ## Turns -/

/-- The turn leaves by `b`, or goes on without one, and has handed `bs` to the flash. -/
structure Turn.Hands (turn : Turn) (b : Option Break) (checked : Bool) (bs : List UInt8) : Prop where
  left : turn.left = b
  checked : turn.loop.headerChecked = checked
  written : writtenBytes turn.calls = bs

section

variable {p : Partition} {l : Loop} {e : ReadEnv}

/-- A turn that goes on, and what the loop does behind it. -/
theorem Turn.Hands.cons {es : List ReadEnv} {b : Option Break} {c c' : Bool} {bs cs : List UInt8}
    (h : (downloadTurn p l e).Hands none c bs)
    (hrest : (downloadLoop p (downloadTurn p l e).loop es).Hands b c' cs) :
    (downloadLoop p l (e :: es)).Hands b c' (bs ++ cs) := by
  rw [downloadLoop_cons rfl]
  simp only [h.left]
  exact ⟨hrest.left, hrest.checked, by simp [h.written, hrest.written]⟩

/-- A turn that leaves the loop. -/
theorem Turn.Hands.stop {es : List ReadEnv} {b : Break} {c : Bool} {bs : List UInt8}
    (h : (downloadTurn p l e).Hands (some b) c bs) :
    (downloadLoop p l (e :: es)).Hands (some b) c bs := by
  rw [downloadLoop_cons rfl]
  simp only [h.left]
  exact h

theorem downloadTurn_ignored (hread : e.read = .data []) (hfirst : l.attempts = 0) :
    (downloadTurn p l e).Hands none l.headerChecked [] ∧
      (downloadTurn p l e).loop.attempts ≠ 0 := by
  rw [downloadTurn_empty hread, handleEmptyRead, if_pos hfirst]
  exact ⟨⟨rfl, rfl, rfl⟩, Nat.one_ne_zero⟩

theorem downloadTurn_again (hread : e.read.bytes = []) (hagain : l.attempts ≠ 0) :
    (downloadTurn p l e).Hands e.finalBreak l.headerChecked [] ∧
      (downloadTurn p l e).loop.attempts = l.attempts := by
  cases h : e.read with
  | error =>
    rw [downloadTurn_error h, ReadEnv.finalBreak, h]
    exact ⟨⟨rfl, rfl, rfl⟩, rfl⟩
  | data bs =>
    obtain rfl : bs = [] := by simpa [h, Read.bytes] using hread
    rw [downloadTurn_empty h, handleEmptyRead, if_neg hagain, ReadEnv.finalBreak, h]
    cases e.connReset <;> cases e.complete <;> exact ⟨⟨rfl, rfl, rfl⟩, rfl⟩

/-- A quiet empty read does nothing. -/
theorem downloadTurn_waits (hread : e.read = .data []) (hreset : e.connReset = false)
    (hcomplete : e.complete = false) : (downloadTurn p l e).Hands none l.headerChecked [] := by
  by_cases hfirst : l.attempts = 0
  · exact (downloadTurn_ignored hread hfirst).1
  · have hbreak : e.finalBreak = none := by simp [ReadEnv.finalBreak, hread, hreset, hcomplete]
    exact hbreak ▸ (downloadTurn_again (by rw [hread]; rfl) hfirst).1

theorem writePacket_hands (l : Loop) (e : ReadEnv) (bs : List UInt8) :
    (writePacket l e bs).Hands (if e.writeOk then none else some .writeFailed) l.headerChecked bs := by
  unfold writePacket
  cases e.writeOk <;> exact ⟨rfl, rfl, by simp [writtenBytes, Call.otaWrites]⟩

variable {bs : List UInt8}

/-- A packet is written once the header was seen. -/
theorem downloadTurn_write (hread : e.read = .data bs) (hpos : 0 < bs.length)
    (hchecked : l.headerChecked = true) :
    (downloadTurn p l e).Hands (if e.writeOk then none else some .writeFailed) true
      (bs.take maxHttpRecvBuffer) := by
  have hbs : bs ≠ [] := List.ne_nil_of_length_pos hpos
  rw [downloadTurn_packet hread hbs, handlePacket, if_pos hchecked]
  obtain ⟨hleft, hc, hwritten⟩ := writePacket_hands
    { l with buffer := l.buffer.write 0 (bs.take maxHttpRecvBuffer) } e
    (bs.take maxHttpRecvBuffer)
  exact ⟨hleft, hc.trans hchecked, hwritten⟩

theorem headerSize_lt_take {bs : List UInt8} :
    imageHeaderSize < (bs.take maxHttpRecvBuffer).length ↔ imageHeaderSize < bs.length := by
  rw [List.length_take, imageHeaderSize, maxHttpRecvBuffer]
  omega

/-- The first packet opens the update. -/
theorem downloadTurn_begin (hread : e.read = .data bs) (hlong : imageHeaderSize < bs.length)
    (hchecked : l.headerChecked = false) :
    (downloadTurn p l e).Hands
      (if e.begin = none then some .beginFailed else if e.writeOk then none else some .writeFailed)
      true (if e.begin = none then [] else bs.take maxHttpRecvBuffer) := by
  have hbs : bs ≠ [] := List.ne_nil_of_length_pos (Nat.zero_lt_of_lt hlong)
  rw [downloadTurn_packet hread hbs, handlePacket, if_neg (by simp [hchecked]),
    if_pos (headerSize_lt_take.mpr hlong)]
  cases e.begin with
  | none => exact ⟨rfl, rfl, rfl⟩
  | some h =>
    obtain ⟨hleft, hc, hwritten⟩ := writePacket_hands
      { l with
        buffer := l.buffer.write 0 (bs.take maxHttpRecvBuffer)
        headerChecked := true
        handle := h } e (bs.take maxHttpRecvBuffer)
    exact ⟨by simpa using hleft, hc, by simpa [writtenBytes, Call.otaWrites] using hwritten⟩

/-- A first packet without the whole header ends the loop. -/
theorem downloadTurn_short (hread : e.read = .data bs) (hpos : 0 < bs.length)
    (hshort : bs.length ≤ imageHeaderSize) (hchecked : l.headerChecked = false) :
    (downloadTurn p l e).Hands (some .shortPacket) false [] := by
  have hbs : bs ≠ [] := List.ne_nil_of_length_pos hpos
  rw [downloadTurn_packet hread hbs, handlePacket, if_neg (by simp [hchecked]),
    if_neg (mt headerSize_lt_take.mp (not_lt.mpr hshort))]
  exact ⟨rfl, hchecked, rfl⟩

/-! ## Behind the image -/

/-- From the second read without a byte on, the loop goes where the last of them says. -/
theorem downloadLoop_final_again (hread : e.read.bytes = []) (hagain : l.attempts ≠ 0) (k : Nat) :
    (downloadLoop p l (List.replicate (k + 1) e)).Hands e.finalBreak l.headerChecked [] := by
  obtain ⟨hturn, hattempts⟩ := downloadTurn_again (p := p) hread hagain
  rw [List.replicate_succ]
  cases hfinal : e.finalBreak with
  | some b => exact (hfinal ▸ hturn).stop
  | none =>
    refine Turn.Hands.cons (hfinal ▸ hturn) ?_
    induction k generalizing l with
    | zero => exact ⟨rfl, hturn.checked, rfl⟩
    | succ k ih =>
      obtain ⟨hturn', hattempts'⟩ := downloadTurn_again (p := p) hread (hattempts ▸ hagain)
      have hrest := ih (hattempts ▸ hagain) hturn' hattempts'
      rw [hturn.checked] at hrest hturn'
      exact Turn.Hands.cons (hfinal ▸ hturn') hrest

theorem downloadLoop_final (hread : e.read.bytes = []) (k : Nat) :
    (downloadLoop p l (List.replicate (k + 2) e)).Hands e.finalBreak l.headerChecked [] := by
  by_cases hfirst : l.attempts = 0
  case neg => exact downloadLoop_final_again hread hfirst (k + 1)
  cases h : e.read with
  | error =>
    have hturn : (downloadTurn p l e).Hands (some .readError) l.headerChecked [] := by
      rw [downloadTurn_error h]
      exact ⟨rfl, rfl, rfl⟩
    have hfinal : e.finalBreak = some .readError := by rw [ReadEnv.finalBreak, h]
    rw [hfinal, List.replicate_succ]
    exact hturn.stop
  | data bs =>
    obtain rfl : bs = [] := by simpa [h, Read.bytes] using hread
    obtain ⟨hturn, hattempts⟩ := downloadTurn_ignored (p := p) h hfirst
    have hrest := downloadLoop_final_again (p := p) hread hattempts k
    rw [hturn.checked] at hrest
    exact hturn.cons hrest

end

/-! ## Cuts -/

section

variable {fl : Flash} {front img : List UInt8} {es : List ReadEnv} {final : ReadEnv}
  {p : Partition} {l : Loop}

/-- Behind the first packet a cut is written as far as the flash takes it. -/
theorem downloadLoop_cut_open (hcut : Cut fl front img es) (hfront : fl.takes front = true)
    (hchecked : l.headerChecked = true) (hfinal : final.read.bytes = []) (k : Nat) :
    ∃ bs, bs <+: img ∧ (fl.takes (front ++ img) = true → bs = img) ∧
      (downloadLoop p l (es ++ List.replicate (k + 2) final)).Hands
        (if fl.takes (front ++ img) then final.finalBreak else some .writeFailed) true bs := by
  induction hcut generalizing l with
  | done =>
    refine ⟨[], List.nil_prefix, fun _ => rfl, ?_⟩
    rw [List.append_nil, if_pos hfront, ← hchecked]
    exact downloadLoop_final hfinal k
  | quiet hread hreset hcomplete _ ih =>
    have hturn := downloadTurn_waits (p := p) (l := l) hread hreset hcomplete
    obtain ⟨bs, hpre, hall, hrest⟩ := ih hfront (hturn.checked.trans hchecked)
    exact ⟨bs, hpre, hall, hturn.cons hrest⟩
  | @packet front bs img e es hread hpos hsize _ hwrite _ ih =>
    have hturn := downloadTurn_write (p := p) hread hpos hchecked
    rw [List.take_of_length_le hsize] at hturn
    rw [← List.append_assoc]
    cases htakes : fl.takes (front ++ bs) with
    | true =>
      rw [hwrite, htakes, if_pos rfl] at hturn
      obtain ⟨cs, hpre, hall, hrest⟩ := ih htakes hturn.checked
      refine ⟨bs ++ cs, ?_, fun h => by rw [hall h], hturn.cons hrest⟩
      exact (List.prefix_append_right_inj bs).mpr hpre
    | false =>
      rw [hwrite, htakes, if_neg Bool.false_ne_true] at hturn
      have hfail : fl.takes (front ++ bs ++ img) ≠ true := fun h => by
        simp [fl.initial (front ++ bs) img h] at htakes
      refine ⟨bs, List.prefix_append bs img, fun h => absurd h hfail, ?_⟩
      rw [if_neg hfail]
      exact hturn.stop

/-- Where the loop goes on a cut of `img`. -/
def cutBreak (fl : Flash) (img : List UInt8) (final : ReadEnv) (whole : Bool) : Option Break :=
  if img = [] then final.finalBreak
  else if !whole then some .shortPacket
  else if fl.handle = none then some .beginFailed
  else if fl.takes img then final.finalBreak
  else some .writeFailed

/-- What it hands to the flash when no write fails. -/
def cutBytes (fl : Flash) (img : List UInt8) (whole : Bool) : List UInt8 :=
  if whole = true ∧ fl.handle ≠ none then img else []

theorem headerWhole_cons_empty {e : ReadEnv} (h : e.read = .data []) :
    headerWhole (e :: es) = headerWhole es := by
  simp [headerWhole, firstPacket, h, Read.bytes]

theorem headerWhole_cons_packet {e : ReadEnv} {bs : List UInt8} (h : e.read = .data bs)
    (hpos : 0 < bs.length) : headerWhole (e :: es) = decide (imageHeaderSize < bs.length) := by
  simp [headerWhole, firstPacket, h, Read.bytes, List.ne_nil_of_length_pos hpos]

/-- The loop on a cut: the image counts, and whether the first packet holds its header. -/
theorem downloadLoop_cut (hcut : Cut fl front img es) (hfront : front = [])
    (hchecked : l.headerChecked = false) (hfinal : final.read.bytes = []) (k : Nat) :
    ∃ bs, bs <+: img ∧
      (cutBreak fl img final (headerWhole es) ≠ some .writeFailed →
        bs = cutBytes fl img (headerWhole es)) ∧
      (downloadLoop p l (es ++ List.replicate (k + 2) final)).Hands
        (cutBreak fl img final (headerWhole es)) (!img.isEmpty && headerWhole es) bs := by
  induction hcut generalizing l with
  | done =>
    refine ⟨[], List.nil_prefix, fun _ => by simp [cutBytes], ?_⟩
    rw [cutBreak, if_pos rfl]
    simpa [hchecked] using downloadLoop_final (p := p) (l := l) hfinal k
  | @quiet front img e es hread hreset hcomplete _ ih =>
    have hturn := downloadTurn_waits (p := p) (l := l) hread hreset hcomplete
    obtain ⟨bs, hpre, hall, hrest⟩ := ih hfront (hturn.checked.trans hchecked)
    rw [headerWhole_cons_empty hread]
    exact ⟨bs, hpre, hall, hturn.cons hrest⟩
  | @packet front bs img e es hread hpos hsize hbegin hwrite hcut _ =>
    subst hfront
    have hne : bs ++ img ≠ [] := by simp [List.ne_nil_of_length_pos hpos]
    have hsome : (!(bs ++ img).isEmpty) = true := by simpa using hne
    rw [headerWhole_cons_packet hread hpos, cutBreak, if_neg hne, hsome, Bool.true_and]
    by_cases hlong : imageHeaderSize < bs.length
    case neg =>
      -- the guard on the packet length
      refine ⟨[], List.nil_prefix, fun _ => by simp [cutBytes, hlong], ?_⟩
      simpa [hlong] using (downloadTurn_short hread hpos (not_lt.mp hlong) hchecked).stop
    have hturn := downloadTurn_begin (p := p) hread hlong hchecked
    rw [hbegin, hwrite, List.nil_append, List.take_of_length_le hsize] at hturn
    by_cases hhandle : fl.handle = none
    · refine ⟨[], List.nil_prefix, fun _ => by simp [cutBytes, hhandle], ?_⟩
      rw [if_pos hhandle, if_pos hhandle] at hturn
      simpa [hlong, hhandle] using hturn.stop
    rw [if_neg hhandle, if_neg hhandle] at hturn
    simp only [hlong, decide_true, Bool.not_true, Bool.false_eq_true, if_false, hhandle, cutBytes,
      ne_eq, not_false_eq_true, and_self, if_true]
    cases htakes : fl.takes bs with
    | false =>
      rw [htakes, if_neg Bool.false_ne_true] at hturn
      have hfail : fl.takes (bs ++ img) ≠ true := fun h => by
        simp [fl.initial bs img h] at htakes
      refine ⟨bs, List.prefix_append bs img, fun h => absurd (if_neg hfail) h, ?_⟩
      rw [if_neg hfail]
      exact hturn.stop
    | true =>
      rw [htakes, if_pos rfl] at hturn
      obtain ⟨cs, hpre, hall, hrest⟩ := downloadLoop_cut_open (p := p) hcut htakes hturn.checked
        hfinal k
      rw [List.nil_append] at hall hrest
      refine ⟨bs ++ cs, (List.prefix_append_right_inj bs).mpr hpre, fun h => ?_, hturn.cons hrest⟩
      by_cases hwhole : fl.takes (bs ++ img) = true
      · rw [hall hwhole]
      · exact absurd (if_neg hwhole) h

end

/-! ## Two cuts of one image -/

/-- An iteration that downloads the reads `es` and then nothing but `final`. -/
def cutDownload (s : OtaState) (e : CycleEnv) (redirected : Bool) (p : Partition)
    (es : List ReadEnv) (final : ReadEnv) (k : Nat) : CycleResult :=
  otaDownload s { e with nextPartition := some p, reads := es ++ List.replicate (k + 2) final }
    redirected

/-- The exit of a cut download. -/
def cutExit (fl : Flash) (img : List UInt8) (final : ReadEnv) (whole : Bool) (e : CycleEnv)
    (redirected : Bool) : Exit :=
  match cutBreak fl img final whole with
  | none => .blocked
  | some .finished => e.commitExit redirected (!img.isEmpty && whole)
  | some b => .download redirected b (!img.isEmpty && whole)

section

variable {fl : Flash} {img : List UInt8} {es es' : List ReadEnv} {final : ReadEnv}

theorem cutDownload_spec (s : OtaState) (e : CycleEnv) (redirected : Bool) (p : Partition)
    (hcut : Cut fl [] img es) (hfinal : final.read.bytes = []) (k : Nat) :
    (cutDownload s e redirected p es final k).exit =
        cutExit fl img final (headerWhole es) e redirected ∧
      writtenBytes (cutDownload s e redirected p es final k).calls <+: img ∧
      (cutBreak fl img final (headerWhole es) ≠ some .writeFailed →
        writtenBytes (cutDownload s e redirected p es final k).calls =
          cutBytes fl img (headerWhole es)) := by
  obtain ⟨bs, hpre, hall, hleft, hchecked, hwritten⟩ :=
    downloadLoop_cut (p := p) (l := .start s) hcut rfl rfl hfinal k
  rw [cutDownload, otaDownload_eq rfl, otaAfterLoop_exit, hleft, hchecked, writtenBytes,
    otaAfterLoop_otaWrites, ← writtenBytes, hwritten]
  refine ⟨?_, hpre, hall⟩
  rfl

theorem cutBreak_ne_writeFailed (htakes : fl.takes img = true) (whole : Bool) :
    cutBreak fl img final whole ≠ some .writeFailed := by
  have hfinal : final.finalBreak ≠ some .writeFailed := by
    unfold ReadEnv.finalBreak
    cases final.read <;> cases final.connReset <;> cases final.complete <;> simp
  unfold cutBreak
  split_ifs <;> simp_all

/-- Only a packet can be too short. -/
theorem Cut.ne_nil {front : List UInt8} (hcut : Cut fl front img es)
    (hshort : headerWhole es = false) : img ≠ [] := by
  induction hcut with
  | done => simp [headerWhole, firstPacket] at hshort
  | quiet hread _ _ _ ih =>
    rw [headerWhole_cons_empty hread] at hshort
    exact ih hshort
  | packet _ hpos => simp [List.ne_nil_of_length_pos hpos]

/-- Cuts that agree on whether the first packet holds the header lead to the same exit and
hand the same bytes to the flash, unless it refuses one of the writes. A first packet
without the whole header ends the iteration before anything is written. -/
theorem cutDownload_independent (s s' : OtaState) (e : CycleEnv) (redirected : Bool)
    (p : Partition) (hcut : Cut fl [] img es) (hcut' : Cut fl [] img es')
    (hfinal : final.read.bytes = []) (hsame : headerWhole es = headerWhole es') (k k' : Nat) :
    let r := cutDownload s e redirected p es final k
    let r' := cutDownload s' e redirected p es' final k'
    r.exit = r'.exit ∧
      (fl.takes img = true → writtenBytes r.calls = writtenBytes r'.calls) ∧
      (writtenBytes r.calls <+: img ∧ writtenBytes r'.calls <+: img) ∧
      (headerWhole es = false → writtenBytes r.calls = [] ∧
        r.exit = .download redirected .shortPacket false) := by
  obtain ⟨hexit, hpre, hall⟩ :=
    cutDownload_spec s e redirected p hcut hfinal k
  obtain ⟨hexit', hpre', hall'⟩ :=
    cutDownload_spec s' e redirected p hcut' hfinal k'
  refine ⟨?_, fun htakes => ?_, ⟨hpre, hpre'⟩, fun hshort => ?_⟩
  · rw [hexit, hexit', hsame]
  · rw [hall (cutBreak_ne_writeFailed htakes _), hall' (cutBreak_ne_writeFailed htakes _), hsame]
  · have hne := hcut.ne_nil hshort
    have hbreak : cutBreak fl img final false = some .shortPacket := by simp [cutBreak, hne]
    rw [hshort, hbreak] at hall
    rw [hexit, cutExit, hshort, hbreak, Bool.and_false]
    exact ⟨by simpa [cutBytes] using hall, rfl⟩

end

/-! ## An image of 300 bytes -/

/-- The packet of `n` equal bytes, for an update under the handle 1. -/
def samplePacket (n : Nat) : ReadEnv := { read := .data (List.replicate n 1), begin := some 1 }

/-- The flash takes everything. -/
def sampleFlash : Flash := ⟨some 1, fun _ => true, fun _ _ _ => rfl⟩

/-- The empty read behind a complete response. -/
def sampleFinal : ReadEnv := { read := .data [], complete := true }

theorem cut_whole (n : Nat) (hn : 0 < n) (hle : n ≤ maxHttpRecvBuffer) :
    Cut sampleFlash [] (List.replicate n 1) [samplePacket n] := by
  have h : Cut sampleFlash [] (List.replicate n 1 ++ []) [samplePacket n] :=
    .packet rfl (by simpa using hn) (by simpa using hle) rfl rfl .done
  rwa [List.append_nil] at h

theorem cut_pair (m n : Nat) (hm : 0 < m) (hn : 0 < n) (hsum : m + n ≤ maxHttpRecvBuffer) :
    Cut sampleFlash [] (List.replicate (m + n) 1)
      [samplePacket m, { read := .data [] }, samplePacket n] := by
  have hlast : Cut sampleFlash ([] ++ List.replicate m 1) (List.replicate n 1 ++ [])
      [samplePacket n] :=
    .packet rfl (by simpa using hn) (by simp; omega) rfl rfl .done
  have h := Cut.packet (e := samplePacket m) rfl (by simpa using hm) (by simp; omega) rfl rfl
    (Cut.quiet (e := { read := .data [] }) rfl rfl rfl hlast)
  rwa [List.append_nil, List.replicate_append_replicate] at h

theorem cutDownload_independent_sample :
    (cutDownload .init installCycle true 1 [samplePacket 300] sampleFinal 0).exit =
      (cutDownload .init installCycle true 1
        [samplePacket 289, { read := .data [] }, samplePacket 11] sampleFinal 1).exit :=
  (cutDownload_independent .init .init installCycle true 1
    (cut_whole 300 (by decide) (by decide)) (cut_pair 289 11 (by decide) (by decide) (by decide))
    rfl (by decide +kernel) 0 1).1

/-- Cut behind its 100th byte, the image is not installed. -/
theorem not_cutDownload_independent :
    ¬ ∀ (fl : Flash) (img : List UInt8) (es es' : List ReadEnv) (final : ReadEnv) (k k' : Nat),
      Cut fl [] img es → Cut fl [] img es' → final.read.bytes = [] →
      (cutDownload .init installCycle true 1 es final k).exit =
        (cutDownload .init installCycle true 1 es' final k').exit := by
  intro h
  have hexit := h sampleFlash (List.replicate 300 1) _ _ sampleFinal 0 0
    (cut_whole 300 (by decide) (by decide)) (cut_pair 100 200 (by decide) (by decide) (by decide)) rfl
  exact absurd hexit (by decide +kernel)

end HomeNode.Ota
