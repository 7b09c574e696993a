import Rtai.Spdrv.Port

/-!
# The rings of a port

`OutRing` relates the output ring to the bytes that have been accepted and sent, and `InRing` the
input ring to those that have been kept and delivered.  Each takes of the interrupt routine only
what it is doing with that ring, and is kept by the steps of either side.
-/

namespace Rtai.Spdrv

open Rtai.Lib

variable {cfg : Config} {m m' : Mbx} {n : Int}

/-- A ring with its queue, and how far the consumer and the producer are behind. -/
def Mbx.Holds (cfg : Config) (m : Mbx) (get put : Int) (stage q : List UInt8) : Prop :=
  Exchange m.bufadr cfg.spbufsiz m.fbyte m.lbyte m.avbs m.frbs get put stage q

theorem limited_bounds {rest msgSize there : Int} (rest_pos : 0 < rest) (msgSize_pos : 0 < msgSize)
    (there_pos : 0 < there) : 0 < limited rest msgSize there ∧ limited rest msgSize there ≤ rest ∧
      limited rest msgSize there ≤ msgSize ∧ limited rest msgSize there ≤ there := by
  unfold limited
  dsimp only
  split_ifs <;> omega

/-! ## Output -/

namespace IsrPc

/-- How far the routine is behind in the output ring. -/
def outLag : IsrPc → Int
  | .getMove _ => 1
  | _ => 0

/-- The byte that is the first in the output ring, and has been read. -/
def loaded : IsrPc → Option UInt8
  | .getCount c => some c
  | _ => none

/-- The byte that has been taken out of the output ring and not been written to the chip. -/
def inHand : IsrPc → List UInt8
  | .getMove c | .txb c => [c]
  | _ => []

/-- How far the routine is behind in the input ring. -/
def inLag : IsrPc → Int
  | .putMove => 1
  | _ => 0

/-- The byte that has been put into the input ring and not counted. -/
def fresh : IsrPc → List UInt8
  | .putCount c => [c]
  | _ => []

end IsrPc

/-- What the writer has worked out. -/
def Writer.Fits (cfg : Config) (m : Mbx) (w : Writer) : WriterPc → Prop
  | .idle => w.copied = 0
  | .limit => 0 < w.msgSize ∧ 0 < m.frbs
  | .copy n => (0 ≤ n ∧ n ≤ w.msgSize) ∧ n ≤ m.frbs ∧ m.lbyte + n ≤ cfg.spbufsiz
  | .count n => 0 ≤ n ∧ n ≤ w.msgSize
  | .test | .move _ | .enable | .out _ => True

/-- The next `n` bytes of the message. -/
def Writer.chunk (w : Writer) (n : Int) : List UInt8 :=
  (List.range n.toNat).map fun k => w.msg (w.copied + k)

def Writer.staged (w : Writer) : List UInt8 :=
  match w.pc with
  | .count n => w.chunk n
  | _ => []

def Writer.lag (w : Writer) : Int :=
  match w.pc with
  | .move n => n
  | _ => 0

/-- The output ring. -/
structure OutRing (cfg : Config) (m : Mbx) (lag : Int) (loaded : Option UInt8)
    (inHand : List UInt8) (w : Writer) (writes : List Write) (sent q : List UInt8) : Prop where
  ring : m.Holds cfg lag w.lag w.staged q
  bytes : accepted writes w = sent ++ inHand ++ q
  first : ∀ c, loaded = some c → ∃ q', q = c :: q'
  count : w.pc ≠ .idle → (w.copied : Int) + w.msgSize = sized w.size
  fits : w.Fits cfg m w.pc

namespace OutRing

variable {lag : Int} {loaded : Option UInt8} {inHand : List UInt8} {w : Writer}
  {writes : List Write} {sent q : List UInt8} {c : UInt8}

theorem init (pos : 0 < cfg.spbufsiz) : OutRing cfg (mbxInit cfg) 0 none [] {} [] [] [] where
  ring := Exchange.init pos
  bytes := rfl
  first := fun _ some => (nomatch some)
  count := fun busy => absurd rfl busy
  fits := rfl

section

variable (h : OutRing cfg m lag loaded inHand w writes sent q)
include h

/-- A call is refused. -/
theorem refuse (msg : Nat → UInt8) (size : Int32) :
    OutRing cfg m lag loaded inHand w (writes ++ [⟨msg, size, sized size⟩]) sent q := by
  refine ⟨h.ring, ?_, h.first, h.count, h.fits⟩
  have none : Write.accepted ⟨msg, size, sized size⟩ = [] := by
    simp [Write.accepted]
  rw [← h.bytes, accepted, accepted, List.flatMap_append, List.flatMap_singleton, none,
    List.append_nil]

/-- A call begins. -/
theorem call (idle : w.pc = .idle) (msg : Nat → UInt8) (size : Int32) :
    OutRing cfg m lag loaded inHand { pc := .test, msg := msg, size := size, msgSize := sized size }
      writes sent q := by
  obtain ⟨ring, bytes, first, -, fits⟩ := h
  rw [Writer.lag, Writer.staged, idle] at ring
  have none : w.progress = [] := by
    rw [idle] at fits
    rw [Writer.progress, show w.copied = 0 from fits]
    rfl
  refine ⟨ring, ?_, first, fun _ => zero_add _, trivial⟩
  rw [← bytes, accepted, accepted, none]
  rfl

/-- The writer goes on and leaves the ring alone. -/
theorem goTo (pc : WriterPc) (busy : w.pc ≠ .idle) (still : { w with pc := pc }.lag = w.lag)
    (staged : { w with pc := pc }.staged = w.staged) (fits : w.Fits cfg m pc) :
    OutRing cfg m lag loaded inHand { w with pc := pc } writes sent q := by
  refine ⟨?_, h.bytes, h.first, fun _ => h.count busy, ?_⟩
  · rw [still, staged]
    exact h.ring
  · cases pc <;> exact fits

theorem test (here : w.pc = .test) :
    OutRing cfg m lag loaded inHand
      { w with pc := if 0 < w.msgSize ∧ m.frbs ≠ 0 then .limit else .enable } writes sent q := by
  have busy : w.pc ≠ .idle := by rw [here]; exact WriterPc.noConfusion
  have room := h.ring.room.1
  split_ifs with more
  · refine h.goTo .limit busy ?_ ?_ ⟨more.1, ?_⟩
    · rw [Writer.lag, Writer.lag, here]
    · rw [Writer.staged, Writer.staged, here]
    · rw [Writer.staged, here] at room
      exact lt_of_le_of_ne room more.2.symm
  · refine h.goTo .enable busy ?_ ?_ trivial
    · rw [Writer.lag, Writer.lag, here]
    · rw [Writer.staged, Writer.staged, here]

theorem limit (here : w.pc = .limit) :
    OutRing cfg m lag loaded inHand
      { w with pc := .copy (limited (cfg.spbufsiz - m.lbyte) w.msgSize m.frbs) } writes sent q := by
  have busy : w.pc ≠ .idle := by rw [here]; exact WriterPc.noConfusion
  have fits := h.fits
  have back := h.ring.back.1
  rw [here] at fits
  obtain ⟨low, end_, asked, room⟩ := limited_bounds (Int.sub_pos_of_lt back.2) fits.1 fits.2
  refine h.goTo _ busy ?_ ?_ ⟨⟨low.le, asked⟩, room, by omega⟩
  · rw [Writer.lag, Writer.lag, here]
  · rw [Writer.staged, Writer.staged, here]

end

theorem chunk_length (w : Writer) (low : 0 ≤ n) : ((w.chunk n).length : Int) = n := by
  rw [Writer.chunk, List.length_map, List.length_range]
  exact Int.toNat_of_nonneg low

theorem copy (h : OutRing cfg m lag loaded inHand w writes sent q) (here : w.pc = .copy n) :
    OutRing cfg (m.copyIn (w.chunk n)) lag loaded inHand { w with pc := .count n } writes sent q := by
  have busy : w.pc ≠ .idle := by rw [here]; exact WriterPc.noConfusion
  obtain ⟨ring, bytes, first, count, fits⟩ := h
  rw [here] at fits
  obtain ⟨⟨low, asked⟩, room, block⟩ := fits
  rw [Writer.lag, Writer.staged, here] at ring
  have len := chunk_length w low
  exact ⟨ring.stage_block (len.le.trans room) (by rw [len]; exact block), bytes, first,
    fun _ => count busy, ⟨low, asked⟩⟩

theorem progress_add (w : Writer) (n : Int) (pc : WriterPc) (left : Int) :
    { w with pc := pc, msgSize := left, copied := w.copied + n.toNat }.progress =
      w.progress ++ w.chunk n := by
  rw [Writer.progress, List.range_add, List.map_append, List.map_map]
  rfl

section

variable (h : OutRing cfg m lag loaded inHand w writes sent q)
include h

theorem counted (here : w.pc = .count n) :
    OutRing cfg (m.countIn n) lag loaded inHand
      { w with pc := .move n, msgSize := w.msgSize - n, copied := w.copied + n.toNat } writes sent
      (q ++ w.chunk n) := by
  have busy : w.pc ≠ .idle := by rw [here]; exact WriterPc.noConfusion
  obtain ⟨ring, bytes, first, count, fits⟩ := h
  have count := count busy
  rw [here] at fits
  obtain ⟨low, asked⟩ : 0 ≤ n ∧ n ≤ w.msgSize := fits
  rw [Writer.lag, Writer.staged, here] at ring
  have counted := ring.count
  rw [chunk_length w low] at counted
  refine ⟨counted, ?_, fun c some => ?_, fun _ => ?_, trivial⟩
  · rw [accepted, progress_add, ← List.append_assoc, ← List.append_assoc, ← bytes, accepted]
  · obtain ⟨q', rfl⟩ := first c some
    exact ⟨_, rfl⟩
  · show ((w.copied + n.toNat : Nat) : Int) + (w.msgSize - n) = sized w.size
    omega

theorem move (here : w.pc = .move n) :
    OutRing cfg (m.moveIn cfg n) lag loaded inHand { w with pc := .test } writes sent q := by
  have busy : w.pc ≠ .idle := by rw [here]; exact WriterPc.noConfusion
  obtain ⟨ring, bytes, first, count, -⟩ := h
  rw [Writer.lag, Writer.staged, here] at ring
  exact ⟨ring.settle, bytes, first, fun _ => count busy, trivial⟩

/-- A call returns. -/
theorem return_ {ier : UInt8} (here : w.pc = .out ier) :
    OutRing cfg m lag loaded inHand {} (writes ++ [⟨w.msg, w.size, w.msgSize⟩]) sent q := by
  have busy : w.pc ≠ .idle := by rw [here]; exact WriterPc.noConfusion
  obtain ⟨ring, bytes, first, count, -⟩ := h
  rw [Writer.lag, Writer.staged, here] at ring
  have done : Write.accepted ⟨w.msg, w.size, w.msgSize⟩ = w.progress := by
    rw [Write.accepted, Writer.progress, ← count busy, add_sub_cancel_right, Int.toNat_natCast]
  refine ⟨ring, ?_, first, fun busy => absurd rfl busy, rfl⟩
  rw [← bytes, accepted, accepted, List.flatMap_append, List.flatMap_singleton, done]
  exact List.append_nil _

end

/-! ### The interrupt routine -/

theorem fits_mono {pc : WriterPc} (fits : w.Fits cfg m pc) (more : m.frbs ≤ m'.frbs)
    (same : m'.lbyte = m.lbyte) : w.Fits cfg m' pc := by
  cases pc with
  | limit => exact ⟨fits.1, lt_of_lt_of_le fits.2 more⟩
  | copy n => exact ⟨fits.1, fits.2.1.trans more, by rw [same]; exact fits.2.2⟩
  | _ => exact fits

theorem load (h : OutRing cfg m 0 none [] w writes sent q) (some : m.avbs ≠ 0) :
    OutRing cfg m 0 (Option.some (m.bufadr m.fbyte)) [] w writes sent q := by
  obtain ⟨ring, bytes, -, count, fits⟩ := h
  refine ⟨ring, bytes, fun c here => ?_, count, fits⟩
  cases here
  have counts := ring.counts
  have front := ring.front
  have head := ring.peek (t := 1) Int.one_nonneg (by omega) (by omega)
  cases q with
  | nil => exact absurd counts.1 some
  | cons a q =>
      simp at head
      exact ⟨q, by rw [head]⟩

theorem take (h : OutRing cfg m 0 (some c) [] w writes sent q) :
    ∃ q', OutRing cfg (m.countOut 1) 1 none [c] w writes sent q' := by
  obtain ⟨ring, bytes, first, count, fits⟩ := h
  obtain ⟨q', rfl⟩ := first c rfl
  have counts := ring.counts
  have front := ring.front
  rw [List.length_cons, Nat.cast_add, Nat.cast_one] at counts
  have rest := ring.release (t := 1) Int.one_nonneg (by omega) (by omega)
  refine ⟨q', rest, ?_, fun _ some => (nomatch some), count,
    fits_mono fits (le_add_of_nonneg_right Int.one_nonneg) rfl⟩
  rw [bytes]
  simp

theorem settle (h : OutRing cfg m 1 none inHand w writes sent q) :
    OutRing cfg (m.moveOut cfg 1) 0 none inHand w writes sent q :=
  ⟨h.ring.settleFront, h.bytes, h.first, h.count, fits_mono h.fits le_rfl rfl⟩

theorem send (h : OutRing cfg m 0 none [c] w writes sent q) :
    OutRing cfg m 0 none [] w writes (sent ++ [c]) q :=
  ⟨h.ring, by rw [h.bytes, List.append_nil], h.first, h.count, h.fits⟩

end OutRing

/-! ## Input -/

/-- How many bytes a call is to read, when `there` are in the ring. -/
def wanted (size : Int32) (there : Int) : Nat :=
  if 0 < size ∨ sized size ≤ there then (sized size).toNat else 0

/-- A call has got the next bytes, as far as it wants them, of those that were there and of `more`
that came later, and returns how many it has not got. -/
structure Fetch.Serves (f : Fetch) (kept : List UInt8) (more : Nat) : Prop where
  got : f.got = ((kept.drop f.start).take (f.there.toNat + more)).take (wanted f.size f.there)
  ret : f.ret = sized f.size - f.got.length
  room : f.start + (f.there.toNat + more) ≤ kept.length

theorem Fetch.Serves.mono {f : Fetch} {kept kept' : List UInt8} {more : Nat}
    (h : f.Serves kept more) (longer : kept <+: kept') : f.Serves kept' more := by
  obtain ⟨l, rfl⟩ := longer
  have room := h.room
  refine ⟨?_, h.ret, ?_⟩
  · rw [List.drop_append_of_le_length (by omega), List.take_append_of_le_length]
    · exact h.got
    · rw [List.length_drop]
      omega
  · rw [List.length_append]
    omega

/-- What the reader has worked out. -/
def Reader.Fits (cfg : Config) (m : Mbx) (r : Reader) (q : List UInt8) : ReaderPc → Prop
  | .idle | .snapshot => r.got = []
  | .test | .move _ => True
  | .limit => 0 < r.msgSize ∧ 0 < m.avbs
  | .copy n => (0 ≤ n ∧ n ≤ r.msgSize) ∧ n ≤ m.avbs ∧ m.fbyte + n ≤ cfg.spbufsiz
  | .count b => b <+: q ∧ (b.length : Int) ≤ r.msgSize ∧ m.fbyte + b.length ≤ cfg.spbufsiz
  | .rts => ∃ more, r.there.toNat + more ≤ r.got.length + q.length ∧
      r.got = ((r.got ++ q).take (r.there.toNat + more)).take (wanted r.size r.there)
  | .peek fbyte avbs => fbyte = (m.fbyte + r.got.length) % cfg.spbufsiz ∧
      (0 ≤ avbs ∧ avbs + r.got.length = r.there ∧ r.there ≤ q.length) ∧ r.got <+: q

def Reader.lag (r : Reader) : Int :=
  match r.pc with
  | .move n => n
  | _ => 0

/-- What a call of the reader keeps. -/
structure Reader.Calls (reads : List Fetch) (r : Reader) (q : List UInt8) : Prop where
  asked : 0 < r.size ∨ sized r.size ≤ r.there
  count : r.got.length + r.msgSize = sized r.size
  none : r.msgSize < 0 → r.got = []
  start : r.start = (reads.flatMap Fetch.got).length
  there : 0 ≤ r.there ∧ r.there ≤ r.taken.length + q.length

/-- The input ring. -/
structure InRing (cfg : Config) (m : Mbx) (lag : Int) (fresh : List UInt8) (r : Reader)
    (received : List (UInt8 × Bool)) (reads : List Fetch) (q : List UInt8) : Prop where
  ring : m.Holds cfg r.lag lag fresh q
  bytes : kept received = delivered reads r ++ q ++ fresh
  calls : r.pc ≠ .idle → r.Calls reads q
  fits : r.Fits cfg m q r.pc

namespace InRing

variable {lag : Int} {fresh : List UInt8} {r : Reader} {received : List (UInt8 × Bool)}
  {reads : List Fetch} {q : List UInt8}

theorem init (pos : 0 < cfg.spbufsiz) : InRing cfg (mbxInit cfg) 0 [] {} [] [] [] where
  ring := Exchange.init pos
  bytes := rfl
  calls := fun busy => absurd rfl busy
  fits := rfl

section

variable {size : Int32} {fbyte avbs : Int} (h : InRing cfg m lag fresh r received reads q)
include h

theorem taken_idle (idle : r.pc = .idle) : r.taken = [] := by
  have fits := h.fits
  rw [idle] at fits
  rw [Reader.taken, idle]
  exact fits

/-- A call begins. -/
theorem call (idle : r.pc = .idle) (asked : 0 < size ∨ sized size ≤ m.avbs) (pc : ReaderPc)
    (begins : pc = .test ∨ pc = .snapshot) :
    InRing cfg m lag fresh
      { pc := pc
        size := size
        msgSize := sized size
        start := (delivered reads r).length
        there := m.avbs } received reads q := by
  have none := h.taken_idle idle
  have counts := h.ring.counts.1
  obtain ⟨ring, bytes, -, -⟩ := h
  rw [delivered, none, List.append_nil] at bytes ⊢
  rw [Reader.lag, idle] at ring
  have calls (pc : ReaderPc) : Reader.Calls reads
      { pc := pc
        size := size
        msgSize := sized size
        start := (reads.flatMap Fetch.got).length
        there := m.avbs } q := by
    refine ⟨asked, zero_add _, fun _ => rfl, rfl, ?_, ?_⟩
    · exact counts ▸ Int.natCast_nonneg _
    · exact counts ▸ le_add_of_nonneg_left (Int.natCast_nonneg _)
  rcases begins with rfl | rfl
  · exact ⟨ring, by rw [bytes]; simp [delivered, Reader.taken], fun _ => calls _, trivial⟩
  · exact ⟨ring, by rw [bytes]; simp [delivered, Reader.taken], fun _ => calls _, rfl⟩

/-- A call is refused. -/
theorem refused (idle : r.pc = .idle) (refused : ¬(0 < size ∨ sized size ≤ m.avbs)) :
    Fetch.Serves ⟨size, [], sized size, (delivered reads r).length, m.avbs⟩ (kept received) 0 := by
  have none := h.taken_idle idle
  have counts := h.ring.counts.1
  refine ⟨?_, (sub_zero _).symm, ?_⟩
  · rw [wanted, if_neg refused, List.take_zero]
  · show (delivered reads r).length + (m.avbs.toNat + 0) ≤ _
    rw [h.bytes, counts, Int.toNat_natCast, List.length_append, List.length_append]
    omega

theorem refuse (f : Fetch) (none : f.got = []) :
    InRing cfg m lag fresh r received (reads ++ [f]) q := by
  have same : (reads ++ [f]).flatMap Fetch.got = reads.flatMap Fetch.got := by
    rw [List.flatMap_append, List.flatMap_singleton, none, List.append_nil]
  obtain ⟨ring, bytes, calls, fits⟩ := h
  refine ⟨ring, ?_, fun busy => ?_, fits⟩
  · rw [bytes, delivered, delivered, same]
  · obtain ⟨asked, count, sign, start, there⟩ := calls busy
    exact ⟨asked, count, sign, by rw [same]; exact start, there⟩

/-- The reader goes on and leaves the ring alone. -/
theorem goTo (pc : ReaderPc) (busy : r.pc ≠ .idle) (still : { r with pc := pc }.lag = r.lag)
    (taken : { r with pc := pc }.taken = r.taken) (fits : r.Fits cfg m q pc) :
    InRing cfg m lag fresh { r with pc := pc } received reads q := by
  obtain ⟨ring, bytes, calls, -⟩ := h
  obtain ⟨asked, count, sign, start, there⟩ := calls busy
  refine ⟨?_, ?_, fun _ => ⟨asked, count, sign, start, ?_⟩, ?_⟩
  · rw [still]
    exact ring
  · rw [delivered, taken]
    exact bytes
  · rw [taken]
    exact there
  · cases pc <;> exact fits

theorem test (here : r.pc = .test) :
    InRing cfg m lag fresh { r with pc := if 0 < r.msgSize ∧ m.avbs ≠ 0 then .limit else .rts }
      received reads q := by
  have busy : r.pc ≠ .idle := by rw [here]; exact ReaderPc.noConfusion
  have counts := h.ring.counts.1
  obtain ⟨asked, count, sign, start, low, high⟩ := h.calls busy
  rw [Reader.taken, here] at high
  replace high : r.there ≤ (r.got.length : Int) + q.length := high
  split_ifs with more
  · refine h.goTo .limit busy ?_ ?_ ⟨more.1, by omega⟩
    · rw [Reader.lag, Reader.lag, here]
    · rw [Reader.taken, Reader.taken, here]
  · refine h.goTo .rts busy ?_ ?_ ⟨r.got.length + q.length - r.there.toNat, by omega, ?_⟩
    · rw [Reader.lag, Reader.lag, here]
    · rw [Reader.taken, Reader.taken, here]
    · rw [show r.there.toNat + (r.got.length + q.length - r.there.toNat) = (r.got ++ q).length by
        rw [List.length_append]; omega, List.take_length, wanted, if_pos asked]
      rcases lt_trichotomy r.msgSize 0 with negative | zero | positive
      · have none := sign negative
        rw [none, List.length_nil] at count
        rw [none, show (sized r.size).toNat = 0 by omega, List.take_zero]
      · rw [show (sized r.size).toNat = r.got.length by omega, List.take_left]
      · have empty : q = [] := List.eq_nil_of_length_eq_zero (by
          have : ¬m.avbs ≠ 0 := fun some => more ⟨positive, some⟩
          omega)
        rw [empty, List.append_nil, List.take_of_length_le (by omega)]

theorem limit (here : r.pc = .limit) :
    InRing cfg m lag fresh
      { r with pc := .copy (limited (cfg.spbufsiz - m.fbyte) r.msgSize m.avbs) } received reads q := by
  have busy : r.pc ≠ .idle := by rw [here]; exact ReaderPc.noConfusion
  have fits := h.fits
  have front := h.ring.front.1
  rw [here] at fits
  obtain ⟨low, end_, asked, room⟩ := limited_bounds (Int.sub_pos_of_lt front.2) fits.1 fits.2
  refine h.goTo _ busy ?_ ?_ ⟨⟨low.le, asked⟩, room, by omega⟩
  · rw [Reader.lag, Reader.lag, here]
  · rw [Reader.taken, Reader.taken, here]

theorem copy (here : r.pc = .copy n) :
    InRing cfg m lag fresh { r with pc := .count (m.copyOut m.fbyte n) } received reads q := by
  have busy : r.pc ≠ .idle := by rw [here]; exact ReaderPc.noConfusion
  have fits := h.fits
  have ring := h.ring
  rw [here] at fits
  obtain ⟨⟨low, asked⟩, room, block⟩ := fits
  rw [Reader.lag, here] at ring
  have front : m.copyOut m.fbyte n = q.take n.toNat := ring.peek low room block
  have len : ((m.copyOut m.fbyte n).length : Int) = n := by
    rw [Mbx.copyOut, List.length_map, List.length_range, Int.toNat_of_nonneg low]
  refine h.goTo _ busy ?_ ?_ ⟨front ▸ List.take_prefix _ _, len.le.trans asked, by omega⟩
  · rw [Reader.lag, Reader.lag, here]
  · rw [Reader.taken, Reader.taken, here]

theorem counted {b : List UInt8} (here : r.pc = .count b) :
    ∃ q', InRing cfg (m.countOut b.length) lag fresh
      { r with pc := .move b.length, msgSize := r.msgSize - b.length, got := r.got ++ b }
      received reads q' := by
  have busy : r.pc ≠ .idle := by rw [here]; exact ReaderPc.noConfusion
  obtain ⟨ring, bytes, calls, fits⟩ := h
  obtain ⟨asked, count, sign, start, low, there⟩ := calls busy
  have counts := ring.counts.1
  rw [here] at fits
  obtain ⟨⟨q', rfl⟩, short, block⟩ := fits
  rw [Reader.lag, here] at ring
  rw [List.length_append] at counts
  have rest := ring.release (Int.natCast_nonneg b.length) (by omega) block
  rw [Int.toNat_natCast, List.drop_left] at rest
  refine ⟨q', rest, ?_, fun _ => ⟨asked, ?_, fun negative => ?_, start, low, ?_⟩, trivial⟩
  · rw [bytes, delivered, delivered, Reader.taken, here]
    simp [Reader.taken]
  · rw [List.length_append, Nat.cast_add]
    dsimp only
    omega
  · dsimp only at negative
    omega
  · rw [Reader.taken, here, List.length_append] at there
    replace there : r.there ≤ (r.got.length : Int) + (b.length + q'.length : Nat) := there
    show r.there ≤ ((r.got ++ b).length : Int) + q'.length
    rw [List.length_append]
    omega

theorem move (here : r.pc = .move n) :
    InRing cfg (m.moveOut cfg n) lag fresh { r with pc := .test } received reads q := by
  have busy : r.pc ≠ .idle := by rw [here]; exact ReaderPc.noConfusion
  obtain ⟨ring, bytes, calls, -⟩ := h
  obtain ⟨asked, count, sign, start, there⟩ := calls busy
  rw [Reader.lag, here] at ring
  rw [delivered, Reader.taken, here] at bytes
  rw [Reader.taken, here] at there
  exact ⟨ring.settleFront, bytes, fun _ => ⟨asked, count, sign, start, there⟩, trivial⟩

/-- A call of `rt_spread` returns. -/
theorem return_ (here : r.pc = .rts) :
    InRing cfg m lag fresh {} received (reads ++ [⟨r.size, r.got, r.msgSize, r.start, r.there⟩]) q ∧
    ∃ more, Fetch.Serves ⟨r.size, r.got, r.msgSize, r.start, r.there⟩ (kept received) more := by
  have busy : r.pc ≠ .idle := by rw [here]; exact ReaderPc.noConfusion
  obtain ⟨ring, bytes, calls, fits⟩ := h
  obtain ⟨asked, count, sign, start, low, high⟩ := calls busy
  rw [here] at fits
  obtain ⟨more, room, got⟩ := fits
  rw [Reader.lag, here] at ring
  rw [delivered, Reader.taken, here] at bytes
  replace bytes : kept received = reads.flatMap Fetch.got ++ (r.got ++ q ++ fresh) := by
    rw [bytes, List.append_assoc, List.append_assoc, List.append_assoc]
  refine ⟨⟨ring, ?_, fun busy => absurd rfl busy, rfl⟩, more, ?_, by dsimp only; omega, ?_⟩
  · rw [bytes, delivered, List.flatMap_append, List.flatMap_singleton]
    simp [Reader.taken]
  · rw [bytes, start, List.drop_left, List.take_append_of_le_length]
    · exact got
    · rw [List.length_append]
      exact room
  · dsimp only
    rw [bytes, start, List.length_append, List.length_append, List.length_append]
    omega

theorem snapshot (here : r.pc = .snapshot) :
    InRing cfg m lag fresh { r with pc := .peek m.fbyte m.avbs, there := m.avbs } received reads q := by
  have busy : r.pc ≠ .idle := by rw [here]; exact ReaderPc.noConfusion
  obtain ⟨ring, bytes, calls, fits⟩ := h
  obtain ⟨asked, count, sign, start, low, high⟩ := calls busy
  have counts := ring.counts.1
  have front := ring.front.1
  rw [here] at fits
  have none : r.got = [] := fits
  rw [Reader.lag, here] at ring
  rw [delivered, Reader.taken, here] at bytes
  rw [Reader.taken, here] at high
  replace high : r.there ≤ ((0 : Nat) : Int) + q.length := high
  refine ⟨ring, bytes, fun _ => ⟨?_, count, sign, start, ?_, ?_⟩, ?_, ⟨?_, ?_, ?_⟩, ?_⟩
  · have more : r.there ≤ m.avbs := by omega
    exact asked.imp_right fun le => le.trans more
  · exact counts ▸ Int.natCast_nonneg _
  · exact counts ▸ le_add_of_nonneg_left (Int.natCast_nonneg _)
  · show m.fbyte = (m.fbyte + r.got.length) % cfg.spbufsiz
    rw [none, List.length_nil, Int.natCast_zero, add_zero, Int.emod_eq_of_lt front.1 front.2]
  · exact counts ▸ Int.natCast_nonneg _
  · show m.avbs + r.got.length = m.avbs
    rw [none, List.length_nil, Int.natCast_zero, add_zero]
  · exact counts.le
  · show r.got <+: q
    rw [none]
    exact List.nil_prefix

/-- The next bytes are copied, and stay in the ring. -/
theorem peek (here : r.pc = .peek fbyte avbs) (more : 0 < r.msgSize ∧ avbs ≠ 0)
    (tocpy : n = limited (cfg.spbufsiz - fbyte) r.msgSize avbs) :
    InRing cfg m lag fresh
      { r with
        pc := .peek (MOD_SIZE cfg (fbyte + n)) (avbs - n)
        msgSize := r.msgSize - n
        got := r.got ++ m.copyOut fbyte n } received reads q := by
  have busy : r.pc ≠ .idle := by rw [here]; exact ReaderPc.noConfusion
  obtain ⟨ring, bytes, calls, fits⟩ := h
  obtain ⟨asked, count, sign, start, low, high⟩ := calls busy
  have counts := ring.counts.1
  have pos := ring.pos
  have front := ring.front.1
  rw [here] at fits
  obtain ⟨place, ⟨nonneg, rest, there⟩, got⟩ := fits
  rw [Reader.lag, here] at ring
  rw [delivered, Reader.taken, here] at bytes
  rw [Reader.taken, here] at high
  have inside : 0 ≤ fbyte ∧ fbyte < cfg.spbufsiz := by
    rw [place]
    exact ⟨Int.emod_nonneg _ pos.ne', Int.emod_lt_of_pos _ pos⟩
  obtain ⟨some, block, short, few⟩ := limited_bounds (Int.sub_pos_of_lt inside.2) more.1
    (lt_of_le_of_ne nonneg more.2.symm)
  rw [← tocpy] at some block short few
  -- The queue behind what has been copied.
  have queued := ring.queued
  rw [add_zero, Int.emod_eq_of_lt front.1 front.2] at queued
  have behind := queued.drop (t := r.got.length) (Int.natCast_nonneg _) (by omega)
  rw [← place, Int.toNat_natCast] at behind
  have next : m.copyOut fbyte n = (q.drop r.got.length).take n.toNat :=
    behind.front some.le (by omega) (by omega)
  have len : ((m.copyOut fbyte n).length : Int) = n := by
    rw [Mbx.copyOut, List.length_map, List.length_range, Int.toNat_of_nonneg some.le]
  have longer : ((r.got ++ m.copyOut fbyte n).length : Int) = r.got.length + n := by
    rw [List.length_append, Nat.cast_add, len]
  refine ⟨ring, bytes, fun _ => ⟨asked, ?_, fun negative => ?_, start, low, high⟩, ?_,
    ⟨?_, ?_, there⟩, ?_⟩
  · rw [longer]
    dsimp only
    omega
  · dsimp only at negative
    omega
  · rw [longer, MOD_SIZE, around_eq (by omega) (by omega), place, Int.emod_add_emod, add_assoc]
  · omega
  · rw [longer]
    show avbs - n + (r.got.length + n) = r.there
    omega
  · obtain ⟨q', rfl⟩ := got
    rw [next, List.drop_left]
    exact (List.prefix_append_right_inj _).mpr (List.take_prefix _ _)

/-- A call of `rt_spevdrp` returns. -/
theorem peeked (here : r.pc = .peek fbyte avbs) (spent : ¬(0 < r.msgSize ∧ avbs ≠ 0)) :
    InRing cfg m lag fresh {} received reads q ∧
    Fetch.Serves ⟨r.size, r.got, r.msgSize, r.start, r.there⟩ (kept received) 0 := by
  have busy : r.pc ≠ .idle := by rw [here]; exact ReaderPc.noConfusion
  obtain ⟨ring, bytes, calls, fits⟩ := h
  obtain ⟨asked, count, sign, start, low, high⟩ := calls busy
  rw [here] at fits
  obtain ⟨place, ⟨nonneg, rest, there⟩, got⟩ := fits
  rw [Reader.lag, here] at ring
  rw [delivered, Reader.taken, here] at bytes
  have all : kept received = reads.flatMap Fetch.got ++ (q ++ fresh) := by
    rw [bytes, List.append_assoc, List.append_assoc, List.nil_append]
  refine ⟨⟨ring, bytes, fun busy => absurd rfl busy, rfl⟩, ?_, by dsimp only; omega, ?_⟩
  · dsimp only
    rw [all, start, List.drop_left, add_zero, List.take_append_of_le_length (by omega), wanted,
      if_pos asked]
    obtain ⟨q', rfl⟩ := got
    rcases lt_trichotomy r.msgSize 0 with negative | zero | positive
    · have none := sign negative
      rw [none, List.length_nil] at count
      rw [none, show (sized r.size).toNat = 0 by omega, List.take_zero]
    · rw [List.take_take, show min (sized r.size).toNat r.there.toNat = r.got.length by omega,
        List.take_left]
    · have empty : avbs = 0 := not_not.mp fun some => spent ⟨positive, some⟩
      rw [List.take_take, show min (sized r.size).toNat r.there.toNat = r.got.length by omega,
        List.take_left]
  · dsimp only
    rw [all, start, List.length_append, List.length_append]
    omega

end

/-! ### The interrupt routine -/

theorem fits_mono {pc : ReaderPc} {q' : List UInt8} (fits : r.Fits cfg m q pc)
    (more : m.avbs ≤ m'.avbs) (same : m'.fbyte = m.fbyte) : r.Fits cfg m' (q ++ q') pc := by
  cases pc with
  | limit => exact ⟨fits.1, lt_of_lt_of_le fits.2 more⟩
  | copy n => exact ⟨fits.1, fits.2.1.trans more, by rw [same]; exact fits.2.2⟩
  | count b =>
      refine ⟨fits.1.trans (List.prefix_append _ _), fits.2.1, ?_⟩
      rw [same]
      exact fits.2.2
  | rts =>
      obtain ⟨more, room, got⟩ := fits
      refine ⟨more, ?_, ?_⟩
      · rw [List.length_append]
        omega
      · rw [← List.append_assoc, List.take_append_of_le_length (by rw [List.length_append]; exact room)]
        exact got
  | peek fbyte avbs =>
      obtain ⟨place, ⟨nonneg, rest, there⟩, got⟩ := fits
      refine ⟨by rw [same]; exact place, ⟨nonneg, rest, ?_⟩, got.trans (List.prefix_append _ _)⟩
      rw [List.length_append]
      omega
  | _ => exact fits

/-- A byte is put behind the others. -/
theorem put (h : InRing cfg m 0 [] r received reads q) (room : m.frbs ≠ 0) (c : UInt8) :
    InRing cfg (m.copyIn [c]) 0 [c] r (received ++ [(c, true)]) reads q := by
  obtain ⟨ring, bytes, calls, fits⟩ := h
  have free : 0 ≤ m.frbs := ring.room.1
  have back := ring.back.1
  refine ⟨ring.stage_block ?_ ?_, ?_, calls, ?_⟩
  · rw [List.length_singleton]
    omega
  · rw [List.length_singleton]
    omega
  · rw [kept, List.filter_append, List.map_append, ← kept, bytes, List.append_nil]
    rfl
  · have fits' : r.Fits cfg (m.copyIn [c]) (q ++ []) r.pc := fits_mono fits le_rfl rfl
    rwa [List.append_nil] at fits'

theorem count (h : InRing cfg m 0 fresh r received reads q) :
    InRing cfg (m.countIn fresh.length) fresh.length [] r received reads (q ++ fresh) := by
  obtain ⟨ring, bytes, calls, fits⟩ := h
  refine ⟨ring.count, ?_, fun busy => ?_, fits_mono fits ?_ rfl⟩
  · rw [bytes, List.append_nil, List.append_assoc]
  · obtain ⟨asked, count, sign, start, low, high⟩ := calls busy
    refine ⟨asked, count, sign, start, low, ?_⟩
    rw [List.length_append]
    omega
  · exact le_add_of_nonneg_right (Int.natCast_nonneg _)

theorem settle (h : InRing cfg m lag [] r received reads q) :
    InRing cfg (m.moveIn cfg lag) 0 [] r received reads q := by
  obtain ⟨ring, bytes, calls, fits⟩ := h
  refine ⟨ring.settle, bytes, calls, ?_⟩
  have fits' : r.Fits cfg (m.moveIn cfg lag) (q ++ []) r.pc := fits_mono fits le_rfl rfl
  rwa [List.append_nil] at fits'

/-- A byte is dropped. -/
theorem drop (h : InRing cfg m lag fresh r received reads q) (c : UInt8) :
    InRing cfg m lag fresh r (received ++ [(c, false)]) reads q := by
  refine ⟨h.ring, ?_, h.calls, h.fits⟩
  rw [kept, List.filter_append, List.map_append, ← kept, h.bytes]
  exact List.append_nil _

end InRing

end Rtai.Spdrv
