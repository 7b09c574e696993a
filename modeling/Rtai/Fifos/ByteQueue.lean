import Rtai.Fifos.Fifo

/-!
# The fifos as byte queues

`queueStep` is what the calls do to a queue of at most `size` bytes and
`Holds m q` says that the buffer `m` holds the queue `q`.
-/

namespace Rtai.Fifos

open Function Rtai.Lib

variable {P : Type}

/-- A call on a queue of capacity `size`. -/
def queueStep (size : Nat) : State.Call → List UInt8 → List UInt8 × State.Result
  | .put buf, q =>
      let b := buf.take (size - q.length)
      (q ++ b, { value := b.length })
  | .putIf buf, q =>
      if q.length + buf.length ≤ size then (q ++ buf, { value := buf.length })
      else (q, { value := 0 })
  | .ovrwrPut buf, q => ((q ++ buf).drop ((q ++ buf).length - size), { value := 0 })
  | .get count, q => (q.drop count, { value := (q.take count).length, bytes := q.take count })
  | .getIf buf, q =>
      if buf.length ≤ q.length then
        (q.drop buf.length, { value := buf.length, bytes := q.take buf.length })
      else (q, { value := 0 })
  | .evdrp count, q => (q, { value := (q.take count).length, bytes := q.take count })
  | .reset, _ => ([], { value := 0 })

namespace FMbx

/-- The bytes from `fbyte` on are the queue, and the rest of the buffer is free. -/
structure Holds (m : FMbx P) (q : List UInt8) : Prop where
  size : 0 < m.size
  fbyte : 0 ≤ m.fbyte ∧ m.fbyte < m.size
  lbyte : m.lbyte = (m.fbyte + q.length) % m.size
  avbs : m.avbs = q.length
  frbs : m.frbs = m.size - q.length
  fits : q.length ≤ m.size
  bytes : window m.bufadr m.size m.fbyte q.length = q

/-- What a loop over the buffer leaves alone. -/
structure Keeps (m m' : FMbx P) : Prop where
  size : m'.size = m.size
  sndsem : m'.sndsem = m.sndsem
  rcvsem : m'.rcvsem = m.rcvsem
  waitingTask : m'.waitingTask = m.waitingTask

variable {m m' m'' : FMbx P} {q msg : List UInt8} {t msgSize : Int} {k : Nat}

theorem Keeps.refl (m : FMbx P) : Keeps m m := ⟨rfl, rfl, rfl, rfl⟩

theorem Keeps.trans (h : Keeps m m') (h' : Keeps m' m'') : Keeps m m'' :=
  ⟨h'.size.trans h.size, h'.sndsem.trans h.sndsem, h'.rcvsem.trans h.rcvsem,
    h'.waitingTask.trans h.waitingTask⟩

theorem putRound_keeps : Keeps m (m.putRound msg t) := ⟨rfl, rfl, rfl, rfl⟩

theorem getRound_keeps : Keeps m (m.getRound t) := ⟨rfl, rfl, rfl, rfl⟩

theorem modSize_eq {i : Int} (low : 0 ≤ i) (round : i < 2 * m.size) :
    m.modSize i = i % m.size := around_eq low round

/-- A round copies something, and no more than there is. -/
theorem tocpy_spec {pos there : Int} (inside : pos < m.size) (want : 0 < msgSize)
    (have_ : 0 < there) : 0 < m.tocpy pos msgSize there ∧ m.tocpy pos msgSize there ≤ msgSize ∧
      m.tocpy pos msgSize there ≤ there ∧ m.tocpy pos msgSize there ≤ m.size - pos := by
  unfold tocpy
  dsimp only
  split <;> split <;> omega

namespace Holds

theorem queued (h : Holds m q) : Queued m.bufadr m.size m.fbyte m.lbyte m.avbs m.frbs q :=
  ⟨h.size, h.fbyte, h.lbyte, h.avbs, h.frbs, h.bytes⟩

theorem of_queued (queued : Queued m.bufadr m.size m.fbyte m.lbyte m.avbs m.frbs q)
    (fits : q.length ≤ m.size) : Holds m q :=
  ⟨queued.pos, queued.start, queued.behind, queued.count, queued.room, fits, queued.cells⟩

theorem lbyte_bounds (h : Holds m q) : 0 ≤ m.lbyte ∧ m.lbyte < m.size := h.queued.last_bounds

theorem putRound (h : Holds m q) (low : 0 ≤ t) (some : t ≤ msg.length) (room : t ≤ m.frbs)
    (block : t ≤ m.size - m.lbyte) : Holds (m.putRound msg t) (q ++ msg.take t.toNat) := by
  have bounds := h.lbyte_bounds
  have len := length_take low some
  have appended := h.queued.append (b := msg.take t.toNat) (by omega) (by omega)
  have left := appended.room
  rw [len, ← modSize_eq (by omega) (by omega)] at appended
  refine .of_queued appended ?_
  show _ ≤ m.size
  omega

variable (h : Holds m q) (low : 0 ≤ t) (there : t ≤ m.avbs) (block : t ≤ m.size - m.fbyte)
include h low there block

theorem getRound : Holds (m.getRound t) (q.drop t.toNat) := by
  have fbyte := h.fbyte
  have fits := h.fits
  have size := h.size
  have dropped := h.queued.drop low there
  have left := dropped.room
  have frbs := h.frbs
  rw [← modSize_eq (by omega) (by omega)] at dropped
  refine .of_queued dropped ?_
  show _ ≤ m.size
  omega

/-- What a receiver copies is the front of the queue. -/
theorem read : m.read m.fbyte t = q.take t.toNat := h.queued.front low there (by omega)

end Holds

/-- `mbx_put` appends as much of the message as there is room for. -/
theorem putLoop_spec (h : Holds m q) (len : msgSize = msg.length) (fuel : msg.length < k) :
    ∃ m', m.putLoop k msg msgSize = some (m', msgSize - (msg.take m.frbs.toNat).length) ∧
      Holds m' (q ++ msg.take m.frbs.toNat) ∧ Keeps m m' := by
  induction k generalizing m q msg msgSize with
  | zero => omega
  | succ k ih =>
      have frbs := h.frbs
      have fits := h.fits
      unfold putLoop
      split
      next more =>
        obtain ⟨pos, want, there, block⟩ :=
          tocpy_spec h.lbyte_bounds.2 more.1 (show 0 < m.frbs by omega)
        dsimp only
        generalize m.tocpy m.lbyte msgSize m.frbs = t at pos want there block
        have h₁ : Holds (m.putRound msg t) (q ++ msg.take t.toNat) :=
          h.putRound (by omega) (by omega) there block
        have rest : (msg.drop t.toNat).length = msg.length - t.toNat := List.length_drop
        obtain ⟨m', eq, holds, keeps⟩ :=
          ih h₁ (show msgSize - t = (msg.drop t.toNat).length by omega) (by omega)
        have split : msg.take m.frbs.toNat =
            msg.take t.toNat ++ (msg.drop t.toNat).take (m.putRound msg t).frbs.toNat :=
          take_turn pos.le there msg
        refine ⟨m', ?_, ?_, putRound_keeps.trans keeps⟩
        · rw [eq, split, List.length_append, Nat.cast_add, length_take pos.le (by omega),
            Int.sub_sub]
        · rw [split, ← List.append_assoc]
          exact holds
      next done =>
        have nothing := (no_turn (show m.frbs ≤ 0 ∨ msg.length = 0 by omega)).1
        exact ⟨m, by simp [nothing], by simpa [nothing] using h, .refl m⟩

/-- `mbx_get` delivers the front of the queue. -/
theorem getLoop_spec (h : Holds m q) (got : List UInt8) (low : 0 ≤ msgSize)
    (fuel : msgSize.toNat < k) :
    ∃ m', m.getLoop k got msgSize = some (m', msgSize - (q.take msgSize.toNat).length,
        got ++ q.take msgSize.toNat) ∧
      Holds m' (q.drop msgSize.toNat) ∧ Keeps m m' := by
  induction k generalizing m q got msgSize with
  | zero => omega
  | succ k ih =>
      have avbs := h.avbs
      unfold getLoop
      split
      next more =>
        obtain ⟨pos, want, there, block⟩ :=
          tocpy_spec h.fbyte.2 more.1 (show 0 < m.avbs by omega)
        dsimp only
        generalize m.tocpy m.fbyte msgSize m.avbs = t at pos want there block
        rw [h.read (by omega) there block]
        obtain ⟨m', eq, holds, keeps⟩ := ih (h.getRound (by omega) there block)
          (got ++ q.take t.toNat) (show 0 ≤ msgSize - t by omega) (by omega)
        refine ⟨m', ?_, ?_, getRound_keeps.trans keeps⟩
        · rw [eq, take_turn pos.le want, List.length_append, Nat.cast_add,
            length_take pos.le (by omega), List.append_assoc, Int.sub_sub]
        · rwa [drop_turn pos.le want]
      next done =>
        obtain ⟨nothing, all⟩ := no_turn (show msgSize ≤ 0 ∨ q.length = 0 by omega)
        exact ⟨m, by simp [nothing], by rwa [all], .refl m⟩

/-- Making room drops the front of the queue. -/
theorem roomLoop_spec (h : Holds m q) (want : msgSize ≤ m.size)
    (fuel : (msgSize - m.frbs).toNat < k) :
    ∃ m', m.roomLoop msgSize k = some m' ∧ Holds m' (q.drop (msgSize - m.frbs).toNat) ∧
      Keeps m m' := by
  induction k generalizing m q with
  | zero => omega
  | succ k ih =>
      have avbs := h.avbs
      have frbs := h.frbs
      unfold roomLoop
      dsimp only
      split
      next more =>
        obtain ⟨pos, need, there, block⟩ :=
          tocpy_spec h.fbyte.2 more (show 0 < m.avbs by omega)
        generalize m.tocpy m.fbyte (msgSize - m.frbs) m.avbs = t at pos need there block
        have left : (m.getRound t).frbs = m.frbs + t := rfl
        obtain ⟨m', eq, holds, keeps⟩ := ih (h.getRound (by omega) there block) want (by omega)
        refine ⟨m', eq, ?_, getRound_keeps.trans keeps⟩
        rw [left, ← Int.sub_sub] at holds
        rwa [drop_turn pos.le need]
      next done =>
        have none : (msgSize - m.frbs).toNat = 0 := by omega
        exact ⟨m, rfl, by rwa [none, List.drop_zero], .refl m⟩

/-- The copy of `mbx_ovrwr_put`, made if there is room for anything. -/
theorem ovrwrCopy_spec (h : Holds m q) (len : msgSize = msg.length) (more : 0 < msgSize) :
    ∃ t, (if m.frbs ≠ 0 then m.tocpy m.lbyte msgSize m.frbs else 0) = t ∧ 0 ≤ t ∧ t ≤ msgSize ∧
      (m.frbs ≠ 0 → 0 < t) ∧
      Holds (if m.frbs ≠ 0 then m.putRound msg t else m) (q ++ msg.take t.toNat) ∧
      Keeps m (if m.frbs ≠ 0 then m.putRound msg t else m) := by
  by_cases room : m.frbs = 0
  · refine ⟨0, by simp [room], le_refl _, more.le, fun ne => absurd room ne, ?_, ?_⟩
    · simpa [room] using h
    · simpa [room] using Keeps.refl m
  · have frbs := h.frbs
    have fits := h.fits
    obtain ⟨pos, want, there, block⟩ :=
      tocpy_spec h.lbyte_bounds.2 more (show 0 < m.frbs by omega)
    refine ⟨_, if_pos room, pos.le, want, fun _ => pos, ?_, ?_⟩
    · rw [if_pos room]
      exact h.putRound pos.le (by omega) there block
    · rw [if_pos room]
      exact putRound_keeps

/-- The room that is made for the rest of the message, if there is one. -/
theorem ovrwrRoom_spec (h : Holds m q) (low : 0 ≤ msgSize) (fits : msgSize ≤ m.size) :
    ∃ m', (if msgSize ≠ 0 then m.roomLoop msgSize (msgSize.toNat + 1) else some m) = some m' ∧
      Holds m' (q.drop (msgSize - m.frbs).toNat) ∧ Keeps m m' := by
  have frbs := h.frbs
  have qfits := h.fits
  by_cases all : msgSize = 0
  · have none : (msgSize - m.frbs).toNat = 0 := by omega
    exact ⟨m, if_neg (not_not.mpr all), by rwa [none, List.drop_zero], .refl m⟩
  · rw [if_pos all]
    exact roomLoop_spec h fits (by omega)

/-- `mbx_ovrwr_put` of a message that fits into the buffer drops the bytes at the
front it needs the place of. -/
theorem ovrwrLoop_spec (h : Holds m q) (len : msgSize = msg.length) (fits : msgSize ≤ m.size)
    (fuel : msg.length + 2 ≤ k ∨ msg.length + 1 ≤ k ∧ (msg = [] ∨ m.frbs ≠ 0)) :
    ∃ m', m.ovrwrLoop k msg msgSize = some m' ∧
      Holds m' ((q ++ msg).drop (q.length + msgSize - m.size).toNat) ∧ Keeps m m' := by
  induction k generalizing m q msg msgSize with
  | zero => omega
  | succ k ih =>
      have qfits := h.fits
      unfold ovrwrLoop
      split
      next more =>
        obtain ⟨t, copied, low, want, some, h₁, keeps₁⟩ := ovrwrCopy_spec h len more
        dsimp only
        rw [copied]
        generalize (if m.frbs ≠ 0 then m.putRound msg t else m) = m₁ at h₁ keeps₁
        have frbs₁ := h₁.frbs
        have size₁ := keeps₁.size
        have taken : (q ++ msg.take t.toNat).length = q.length + t.toNat := by
          rw [List.length_append, List.length_take]
          omega
        obtain ⟨m₂, made, h₂, keeps₂⟩ :=
          ovrwrRoom_spec h₁ (show 0 ≤ msgSize - t by omega) (by omega)
        rw [show (msgSize - t - m₁.frbs).toNat = (q.length + msgSize - m.size).toNat by omega] at h₂
        rw [made]
        generalize dropped : (q.length + msgSize - m.size).toNat = d at h₂
        have length₂ : ((q ++ msg.take t.toNat).drop d).length = q.length + t.toNat - d := by
          rw [List.length_drop, taken]
        have rest : (msg.drop t.toNat).length = msg.length - t.toNat := List.length_drop
        have size₂ : m₂.size = m.size := keeps₂.size.trans size₁
        have none : (((q ++ msg.take t.toNat).drop d).length + (msgSize - t) - m₂.size).toNat =
            0 := by
          clear ih fuel
          omega
        have fuel' : (msg.drop t.toNat).length + 2 ≤ k ∨
            (msg.drop t.toNat).length + 1 ≤ k ∧ (msg.drop t.toNat = [] ∨ m₂.frbs ≠ 0) := by
          refine .inr ⟨?_, ?_⟩
          · clear ih none
            rcases fuel with long | ⟨long, empty | room⟩
            · omega
            · simp [empty] at len
              omega
            · have := some room
              omega
          · have frbs₂ := h₂.frbs
            clear ih fuel none
            by_cases all : msgSize - t = 0
            · exact .inl (List.eq_nil_of_length_eq_zero (by omega))
            · exact .inr (by omega)
        have left : msgSize - t = (msg.drop t.toNat).length := by
          clear ih fuel fuel' none
          omega
        have fits' : msgSize - t ≤ m₂.size := by
          clear ih fuel fuel' none
          omega
        obtain ⟨m', eq, holds, keeps⟩ := ih h₂ left fits' fuel'
        refine ⟨m', eq, ?_, (keeps₁.trans keeps₂).trans keeps⟩
        rw [none, List.drop_zero, ← List.drop_append_of_le_length (by omega), List.append_assoc,
          List.take_append_drop] at holds
        exact holds
      next done =>
        have empty : msg = [] := List.eq_nil_of_length_eq_zero (by omega)
        have none : (q.length + msgSize - m.size).toNat = 0 := by omega
        refine ⟨m, rfl, ?_, .refl m⟩
        rwa [none, List.drop_zero, empty, List.append_nil]

/-- `mbx_evdrp` delivers what `mbx_get` would. -/
theorem evdrpLoop_eq (got : List UInt8) (size : m'.size = m.size) (bufadr : m'.bufadr = m.bufadr) :
    m.evdrpLoop k got msgSize m'.fbyte m'.avbs =
      (m'.getLoop k got msgSize).map fun r => (r.2.1, r.2.2) := by
  induction k generalizing m' got msgSize with
  | zero => rfl
  | succ k ih =>
      have tocpy : m.tocpy m'.fbyte msgSize m'.avbs = m'.tocpy m'.fbyte msgSize m'.avbs := by
        rw [FMbx.tocpy, ← size]
        rfl
      have read : ∀ t, m.read m'.fbyte t = m'.read m'.fbyte t := fun t => by
        rw [FMbx.read, ← bufadr]
        rfl
      unfold evdrpLoop getLoop
      split
      next more =>
        have modSize : m.modSize = m'.modSize := by
          unfold FMbx.modSize
          rw [size]
        dsimp only
        rw [tocpy, read, modSize]
        exact @ih (m'.getRound _) _ _ size bufadr
      next done => rfl

end FMbx

/-! ## The calls -/

/-- The fifo of `size` bytes is open and holds the queue, and no process waits
for it. -/
structure Fifo.IsQueue (size : Nat) (f : Fifo P) (q : List UInt8) : Prop where
  opened : f.opncnt ≠ 0
  size : f.mbx.size = size
  holds : f.mbx.Holds q
  sndsem : f.mbx.sndsem.free = 1 ∧ f.mbx.sndsem.queue = []
  rcvsem : f.mbx.rcvsem.free = 1 ∧ f.mbx.rcvsem.queue = []

namespace State

variable [DecidableEq P] {s : State P} {minor size : Nat} {q q' : List UInt8} {left msgSize : Int}
  {put : FMbx P → Option (FMbx P × Int)} {bufadr : Int → UInt8} {cs : List Call}

theorem mbxSignal_fifo (s : State P) (minor : Nat) : ∃ w, (s.mbxSignal minor).fifo minor =
    { s.fifo minor with mbx := { (s.fifo minor).mbx with waitingTask := w } } := by
  unfold mbxSignal
  dsimp only
  split
  · exact ⟨none, update_self _ _ _⟩
  next e => exact ⟨none, by rw [← e]⟩

theorem requestPoll_fifo (s : State P) (minor : Nat) : ∃ b, (s.requestPoll minor).fifo minor =
    { s.fifo minor with polAsynPended := b } := by
  unfold requestPoll
  dsimp only
  split
  · exact ⟨true, update_self _ _ _⟩
  · exact ⟨_, rfl⟩

theorem signal_fifo {r : SemRef} (here : r.fifop = some minor) (empty : (s.sem r).queue = []) :
    ∃ b, (s.mbxSemSignal r).fifo minor =
      { (s.setFree r 1).fifo minor with polAsynPended := b } := by
  unfold mbxSemSignal
  simp only [empty, here]
  exact requestPoll_fifo _ minor

section

variable {r : SemRef} (here : r = .sndsem minor ∨ r = .rcvsem minor)
  (h : (s.fifo minor).IsQueue size q)
include here h

omit [DecidableEq P] in
/-- A process in the mailbox finds the bytes as they were. -/
theorem entered : ((s.setFree r 0).fifo minor).mbx.Holds q ∧
    ((s.setFree r 0).fifo minor).mbx.size = size := by
  rcases here with rfl | rfl <;>
    simp only [setFree, setSem, setMbx, setFifo, update_self] <;>
    exact ⟨{ h.holds with }, h.size⟩

/-- A process that moved bytes gives its semaphore back. -/
theorem left_isQueue {m' : FMbx P} (holds : m'.Holds q')
    (keeps : ((s.setFree r 0).fifo minor).mbx.Keeps m') :
    (((((s.setFree r 0).setMbx minor m').mbxSignal minor).mbxSemSignal r).fifo minor).IsQueue
      size q' := by
  obtain ⟨w, e⟩ := mbxSignal_fifo ((s.setFree r 0).setMbx minor m') minor
  generalize ((s.setFree r 0).setMbx minor m').mbxSignal minor = s₁ at e ⊢
  have put : (s₁.fifo minor).mbx = { m' with waitingTask := w } := by
    rw [e]
    simp [setMbx, setFifo]
  have size' : m'.size = size := keeps.size.trans (entered here h).2
  obtain ⟨-, sndsem, rcvsem, -⟩ := keeps
  have fifop : r.fifop = some minor := by rcases here with rfl | rfl <;> rfl
  have empty : (s₁.sem r).queue = [] := by
    rcases here with rfl | rfl <;> simp only [sem, put]
    · simpa [sndsem, setFree, setSem, setMbx, setFifo, sem] using h.sndsem.2
    · simpa [rcvsem, setFree, setSem, setMbx, setFifo, sem] using h.rcvsem.2
  obtain ⟨b, e₂⟩ := signal_fifo fifop empty
  rw [e₂]
  rcases here with rfl | rfl <;>
    simp only [setFree, setSem, setMbx, setFifo, update_self, sem] at sndsem rcvsem e ⊢ <;>
    refine ⟨?_, by rw [put]; exact size', by rw [put]; exact { holds with }, ?_, ?_⟩ <;>
    simp [e, sndsem, rcvsem, h.opened, h.sndsem, h.rcvsem]

end

/-- A sender that gets in. -/
theorem sendNow_spec (h : (s.fifo minor).IsQueue size q)
    (spec : ∀ m : FMbx P, m.Holds q → m.size = size →
      ∃ m', put m = some (m', left) ∧ m'.Holds q' ∧ m.Keeps m') :
    ∃ s', s.sendNow minor true put msgSize = some (s', left) ∧
      (s'.fifo minor).IsQueue size q' := by
  have now : (s.fifo minor).mbx.sndsem.free ≠ 0 ∧ true = true :=
    ⟨by rw [h.sndsem.1]; decide, rfl⟩
  obtain ⟨inside, room⟩ := entered (.inl rfl) h
  obtain ⟨m', eq, holds, keeps⟩ := spec _ inside room
  unfold sendNow
  rw [if_pos now]
  dsimp only
  rw [eq]
  exact ⟨_, rfl, left_isQueue (.inl rfl) h holds keeps⟩

/-- A sender that does not get in. -/
theorem sendNow_refused : s.sendNow minor false put msgSize = some (s, msgSize) := by
  simp [sendNow]

theorem mbxReceiveWp_spec (count : Nat) (h : (s.fifo minor).IsQueue size q) :
    ∃ s' : State P, s.mbxReceiveWp minor count =
        some (s', (count : Int) - (q.take count).length, q.take count) ∧
      (s'.fifo minor).IsQueue size (q.drop count) := by
  unfold mbxReceiveWp
  by_cases some : (s.fifo minor).mbx.avbs = 0
  · have none : q = [] := by
      have := h.holds.avbs
      exact List.eq_nil_of_length_eq_zero (by omega)
    subst none
    exact ⟨s, by simp [some], by simpa using h⟩
  obtain ⟨m', eq, holds, keeps⟩ := FMbx.getLoop_spec (entered (.inr rfl) h).1 []
    (Int.natCast_nonneg count) (Nat.lt_succ_self _)
  rw [Int.toNat_natCast, List.nil_append] at eq
  rw [Int.toNat_natCast] at holds
  rw [if_pos ⟨by rw [h.rcvsem.1]; decide, some⟩]
  dsimp only
  rw [FMbx.mbxGet, Int.toNat_natCast, eq]
  exact ⟨_, rfl, left_isQueue (.inr rfl) h holds keeps⟩

/-- `mbx_put` where it takes the whole message, or what there is room for. -/
theorem mbxPut_spec (msg : List UInt8) {m : FMbx P} (h : m.Holds q) (fits : m.size = size) :
    ∃ m', m.mbxPut msg msg.length =
        some (m', (msg.length : Int) - (msg.take (size - q.length)).length) ∧
      m'.Holds (q ++ msg.take (size - q.length)) ∧ m.Keeps m' := by
  have room : m.frbs.toNat = size - q.length := by
    have := h.frbs
    omega
  rw [← room]
  exact FMbx.putLoop_spec h rfl (by simp)

/-- `mbx_ovrwr_put` skips what could never fit. -/
theorem mbxOvrwrPut_spec (msg : List UInt8) {m : FMbx P} (h : m.Holds q) (fits : m.size = size) :
    ∃ m', m.mbxOvrwrPut msg msg.length = some (m', 0) ∧
      m'.Holds ((q ++ msg).drop ((q ++ msg).length - size)) ∧ m.Keeps m' := by
  have qfits := h.fits
  unfold FMbx.mbxOvrwrPut
  dsimp only
  generalize skipped : (if (msg.length : Int) - m.size > 0 then (msg.length : Int) - m.size else 0)
    = skip
  have bounds : skip.toNat = msg.length - size ∧ 0 ≤ skip := by
    rw [← skipped]
    split <;> omega
  have rest : (msg.drop skip.toNat).length = msg.length - skip.toNat := List.length_drop
  obtain ⟨m', eq, holds, keeps⟩ := FMbx.ovrwrLoop_spec h
    (show (msg.length : Int) - skip = (msg.drop skip.toNat).length by omega) (by omega)
    (.inl (show _ ≤ ((msg.length : Int) - skip).toNat + 2 by omega))
  refine ⟨m', by rw [eq]; rfl, ?_, keeps⟩
  have length : (q ++ msg).length = q.length + msg.length := List.length_append
  by_cases long : (msg.length : Int) ≤ m.size
  · rw [show skip.toNat = 0 by omega, List.drop_zero] at holds
    rwa [show (q.length + ((msg.length : Int) - skip) - m.size).toNat = (q ++ msg).length - size
      by omega] at holds
  · rw [show (q.length + ((msg.length : Int) - skip) - m.size).toNat = q.length by omega,
      List.drop_left] at holds
    rw [show (q ++ msg).length - size = q.length + skip.toNat by omega, ← List.drop_drop,
      List.drop_left]
    exact holds

section

variable (msg : List UInt8) (h : (s.fifo minor).IsQueue size q)
include msg h

theorem mbxSendWp_spec :
    ∃ s', s.mbxSendWp minor msg =
        some (s', (msg.length : Int) - (msg.take (size - q.length)).length) ∧
      (s'.fifo minor).IsQueue size (q ++ msg.take (size - q.length)) := by
  unfold mbxSendWp
  by_cases room : (s.fifo minor).mbx.frbs = 0
  · have none : size - q.length = 0 := by
      have frbs := h.holds.frbs
      rw [h.size] at frbs
      omega
    simp only [room, ne_eq, not_true_eq_false, decide_false, sendNow_refused]
    exact ⟨s, by simp [none], by simpa [none] using h⟩
  · simp only [room, ne_eq, not_false_eq_true, decide_true]
    exact sendNow_spec h fun m => mbxPut_spec msg

theorem mbxSendIf_spec (fits : q.length + msg.length ≤ size) :
    ∃ s', s.mbxSendIf minor msg = some (s', 0) ∧ (s'.fifo minor).IsQueue size (q ++ msg) := by
  have room : (s.fifo minor).mbx.frbs ≥ msg.length := by
    have frbs := h.holds.frbs
    rw [h.size] at frbs
    omega
  unfold mbxSendIf
  rw [decide_eq_true room]
  refine sendNow_spec h fun m hm fm => ?_
  have all : msg.take (size - q.length) = msg := List.take_of_length_le (by omega)
  have put := mbxPut_spec msg hm fm
  rw [all, sub_self] at put
  exact put

theorem mbxSendIf_refused (full : size < q.length + msg.length) :
    s.mbxSendIf minor msg = some (s, (msg.length : Int)) := by
  have room : ¬(s.fifo minor).mbx.frbs ≥ msg.length := by
    have frbs := h.holds.frbs
    rw [h.size] at frbs
    omega
  unfold mbxSendIf
  rw [decide_eq_false room, sendNow_refused]

theorem mbxOvrwrSend_spec :
    ∃ s', s.mbxOvrwrSend minor msg = some (s', 0) ∧
      (s'.fifo minor).IsQueue size ((q ++ msg).drop ((q ++ msg).length - size)) :=
  sendNow_spec h fun _ => mbxOvrwrPut_spec msg

end

omit [DecidableEq P] in
theorem mbxEvdrp_spec {m : FMbx P} {count : Nat} (h : m.Holds q) :
    m.mbxEvdrp count = some ((count : Int) - (q.take count).length, q.take count) := by
  obtain ⟨m', eq, -⟩ := FMbx.getLoop_spec h [] (Int.natCast_nonneg count) (Nat.lt_succ_self _)
  rw [FMbx.mbxEvdrp, FMbx.evdrpLoop_eq [] rfl rfl, eq]
  simp

theorem mbxDelete_fifo (s : State P) (minor : Nat) : ∃ w v v', (s.mbxDelete minor).fifo minor =
    { s.fifo minor with mbx := { (s.fifo minor).mbx with
      waitingTask := w, sndsem := v, rcvsem := v' } } := by
  obtain ⟨w, e⟩ := mbxSignal_fifo s minor
  refine ⟨w, { (s.fifo minor).mbx.sndsem with queue := [] },
    { (s.fifo minor).mbx.rcvsem with queue := [] }, ?_⟩
  simp [mbxDelete, mbxSemDelete, setSem, setMbx, setFifo, sem, e]

omit [DecidableEq P] in
/-- A fresh buffer holds the empty queue. -/
theorem mbxInit_holds (pos : 0 < size) : (FMbx.mbxInit (P := P) size bufadr).Holds [] where
  size := Int.natCast_pos.mpr pos
  fbyte := ⟨le_refl _, Int.natCast_pos.mpr pos⟩
  lbyte := by simp [FMbx.mbxInit]
  avbs := rfl
  frbs := by simp [FMbx.mbxInit]
  fits := Int.natCast_nonneg size
  bytes := rfl

/-- Whether the source's `rtf_get_if` does what it should: it puts the caller's
buffer into the fifo, if there is room. -/
def getIfAgrees (size : Nat) (c : Call) (q : List UInt8) : Bool :=
  match c with
  | .getIf buf => buf = [] || (size < q.length + buf.length && q.length < buf.length)
  | _ => true

/-- A call is the step of the queue. -/
theorem call_spec (c : Call) (valid : minor < MAX_FIFOS) (h : (s.fifo minor).IsQueue size q)
    (agrees : getIfAgrees size c q = true) :
    ∃ s', s.call minor c = some (s', (queueStep size c q).2) ∧
      (s'.fifo minor).IsQueue size (queueStep size c q).1 := by
  have fits := h.holds.fits
  have frbs := h.holds.frbs
  rw [h.size] at fits frbs
  unfold call
  rw [if_neg (by omega), if_neg h.opened]
  cases c with
  | put buf =>
      obtain ⟨s', eq, h'⟩ := mbxSendWp_spec buf h
      simp only [body, eq]
      exact ⟨s', by simp [queueStep], h'⟩
  | putIf buf =>
      by_cases room : q.length + buf.length ≤ size
      · obtain ⟨s', eq, h'⟩ := mbxSendIf_spec buf h room
        simp only [body, eq, queueStep, if_pos room]
        exact ⟨s', by simp, h'⟩
      · simp only [body, mbxSendIf_refused buf h (not_le.mp room), queueStep, if_neg room]
        exact ⟨s, by simp, h⟩
  | ovrwrPut buf =>
      obtain ⟨s', eq, h'⟩ := mbxOvrwrSend_spec buf h
      simp only [body, eq]
      exact ⟨s', rfl, h'⟩
  | get count =>
      obtain ⟨s', eq, h'⟩ := mbxReceiveWp_spec count h
      simp only [body, eq]
      exact ⟨s', by simp [queueStep], h'⟩
  | getIf buf =>
      rcases (Bool.or_eq_true _ _).mp agrees with empty | short
      · obtain rfl : buf = [] := of_decide_eq_true empty
        obtain ⟨s', eq, h'⟩ := mbxSendIf_spec [] h (by simpa using fits)
        simp only [body, eq]
        exact ⟨s', by simp [queueStep], by simpa [queueStep] using h'⟩
      · simp only [Bool.and_eq_true, decide_eq_true_eq] at short
        simp only [body, mbxSendIf_refused buf h short.1, queueStep, if_neg (not_le.mpr short.2)]
        exact ⟨s, by simp, h⟩
  | evdrp count =>
      simp only [body, mbxEvdrp_spec h.holds]
      exact ⟨s, by simp [queueStep], h⟩
  | reset =>
      obtain ⟨w, v, v', e⟩ := mbxDelete_fifo s minor
      refine ⟨_, rfl, ?_⟩
      have pos : 0 < size := by
        have := h.holds.size
        rw [h.size] at this
        omega
      show ((State.setMbx minor _ _).fifo minor).IsQueue size []
      simp only [setMbx, setFifo, update_self, e]
      rw [h.size]
      exact ⟨h.opened, rfl, mbxInit_holds pos, ⟨rfl, rfl⟩, rfl, rfl⟩

/-! ## Sequences of calls -/

/-- The fifo goes through the calls as the queue does. -/
def Behaves (size minor : Nat) : List Call → List UInt8 → State P → Prop
  | [], q, s => (s.fifo minor).mbx.Holds q
  | c :: cs, q, s => (s.fifo minor).mbx.Holds q ∧ ∃ s',
      s.call minor c = some (s', (queueStep size c q).2) ∧
        Behaves size minor cs (queueStep size c q).1 s'

/-- `rtf_get_if` does what it should whenever it is called. -/
def getIfsAgree (size : Nat) : List Call → List UInt8 → Bool
  | [], _ => true
  | c :: cs, q => getIfAgrees size c q && getIfsAgree size cs (queueStep size c q).1

theorem Behaves.holds (h : Behaves size minor cs q s) : (s.fifo minor).mbx.Holds q := by
  cases cs with
  | nil => exact h
  | cons c cs => exact h.1

/-- A `rtf_get_if` that does something else is seen in its result or in the
length of the queue. -/
theorem getIf_agrees {buf : List UInt8} {s' : State P} (valid : minor < MAX_FIFOS)
    (h : (s.fifo minor).IsQueue size q)
    (called : s.call minor (.getIf buf) = some (s', (queueStep size (.getIf buf) q).2))
    (holds : (s'.fifo minor).mbx.Holds (queueStep size (.getIf buf) q).1) :
    getIfAgrees size (.getIf buf) q = true := by
  unfold call at called
  rw [if_neg (by omega), if_neg h.opened] at called
  by_cases full : q.length + buf.length ≤ size
  · obtain ⟨s₁, eq, h₁⟩ := mbxSendIf_spec buf h full
    simp only [body, eq] at called
    obtain ⟨rfl, result⟩ := Prod.mk.inj (Option.some.inj called)
    by_cases there : buf.length ≤ q.length
    · have avbs := holds.avbs
      simp only [h₁.holds.avbs, queueStep, if_pos there, List.length_append, List.length_drop]
        at avbs
      have : buf.length = 0 := by omega
      simp [getIfAgrees, List.eq_nil_of_length_eq_zero this]
    · have value := congrArg Result.value result
      simp only [queueStep, if_neg there] at value
      omega
  · simp only [body, mbxSendIf_refused buf h (not_le.mp full)] at called
    obtain ⟨rfl, result⟩ := Prod.mk.inj (Option.some.inj called)
    by_cases there : buf.length ≤ q.length
    · have value := congrArg Result.value result
      simp only [queueStep, if_pos there] at value
      have fits := h.holds.fits
      rw [h.size] at fits
      have : buf.length = 0 := by omega
      simp [getIfAgrees, List.eq_nil_of_length_eq_zero this]
    · simp [getIfAgrees, not_le.mp full, not_le.mp there]

theorem behaves_iff (valid : minor < MAX_FIFOS) (h : (s.fifo minor).IsQueue size q) :
    Behaves size minor cs q s ↔ getIfsAgree size cs q = true := by
  induction cs generalizing s q with
  | nil => exact ⟨fun _ => rfl, fun _ => h.holds⟩
  | cons c cs ih =>
      rw [Behaves, getIfsAgree, Bool.and_eq_true]
      constructor
      · rintro ⟨-, s', called, rest⟩
        have agrees : getIfAgrees size c q = true := by
          cases c with
          | getIf buf => exact getIf_agrees valid h called rest.holds
          | _ => rfl
        obtain ⟨s₁, called₁, h₁⟩ := call_spec c valid h agrees
        obtain ⟨rfl, -⟩ := Prod.mk.inj (Option.some.inj (called.symm.trans called₁))
        exact ⟨agrees, (ih h₁).mp rest⟩
      · rintro ⟨agrees, rest⟩
        obtain ⟨s', called, h'⟩ := call_spec c valid h agrees
        exact ⟨h.holds, s', called, (ih h').mpr rest⟩

theorem created_isQueue (closed : (s.fifo minor).opncnt = 0) (pos : 0 < size) :
    ((s.created minor size bufadr).fifo minor).IsQueue size [] := by
  simp only [created, setFifo, update_self, closed]
  exact ⟨show (0 : Int) + 1 ≠ 0 by decide, rfl, mbxInit_holds pos, ⟨rfl, rfl⟩, rfl, rfl⟩

/-- A fifo that was created behaves as a byte queue in a sequence of calls exactly
if every `rtf_get_if` in it does. -/
theorem fifo_is_queue (bufadr : Int → UInt8) (cs : List Call) (valid : minor < MAX_FIFOS)
    (closed : (s.fifo minor).opncnt = 0) (pos : 0 < size) :
    Behaves size minor cs [] (s.created minor size bufadr) ↔ getIfsAgree size cs [] = true :=
  behaves_iff valid (created_isQueue closed pos)

/-- A fifo of four bytes that goes around, is overwritten, and is asked for bytes
it does not have. -/
theorem fifo_is_queue_around :
    Behaves 4 0 [.put [1, 2, 3], .get 2, .putIf [4, 5], .evdrp 4, .ovrwrPut [6, 7], .getIf [],
      .reset] [] (State.created 0 4 (fun _ => 0) ({} : State Nat)) ↔
      getIfsAgree 4 [.put [1, 2, 3], .get 2, .putIf [4, 5], .evdrp 4, .ovrwrPut [6, 7], .getIf [],
        .reset] [] = true :=
  fifo_is_queue _ _ (by decide) rfl (by decide)

/-- `rtf_get_if` puts the caller's buffer into an empty fifo. -/
theorem fifo_is_no_queue : ¬∀ (size : Nat) (cs : List Call), 0 < size →
    Behaves size 0 cs [] (State.created 0 size (fun _ => 0) ({} : State Nat)) := by
  intro h
  have agrees := (behaves_iff (by decide) (created_isQueue rfl (by decide))).mp
    (h 4 [.getIf [7]] (by decide))
  exact absurd agrees (by decide)

end State

end Rtai.Fifos
