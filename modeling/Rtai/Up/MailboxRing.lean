import Rtai.Up.Machine
import Rtai.Lib.Circular
import Mathlib.Data.List.DropRight
import Mathlib.Logic.Relation

/-!
# The ring of a mailbox

`mbxput`, `mbxovrwrput`, `mbxget` and `mbxevdrp` from their first statement to the last, when
nothing comes between them.  The machine of `Mailboxes` runs the same statements one by one:
`mbxput_runs`, `mbxget_runs`.

A loop is cut off with `none` after more turns than it can have, and where a byte outside of
the buffer or of the message would be read or written.
-/

namespace Rtai.Up.Mbx

open Rtai.Lib

variable {n : Nat}

/-! ## The loops -/

/-- How much a turn copies: of `want` bytes what is before the end of the buffer, and is there. -/
def tocpy (pos want there : Int) (m : Mbx n) : Int :=
  let tocpy := m.size - pos
  let tocpy := if tocpy > want then want else tocpy
  if tocpy > there then there else tocpy

/-- `memcpy(mbx->bufadr + mbx->lbyte, *msg, tocpy)`. -/
def copyIn (msg : List UInt8) (tocpy : Int) (m : Mbx n) : Option (Mbx n) :=
  if 0 ≤ m.lbyte ∧ 0 ≤ tocpy ∧ m.lbyte + tocpy ≤ m.size ∧ tocpy ≤ msg.length then
    some (m.write msg tocpy)
  else none

/-- What `memcpy(*msg, mbx->bufadr + pos, tocpy)` copies. -/
def copyOut (pos tocpy : Int) (m : Mbx n) : Option (List UInt8) :=
  if 0 ≤ pos ∧ 0 ≤ tocpy ∧ pos + tocpy ≤ m.size then some ({ m with fbyte := pos }.read tocpy)
  else none

/-- A turn of the loop of `mbxput`, and of that of `mbxovrwrput` where there is room, with what
is left of the message. -/
def putRound (msg : List UInt8) (msgSize : Int) (m : Mbx n) :
    Option (Mbx n × List UInt8 × Int) := do
  let tocpy := m.tocpy m.lbyte msgSize m.frbs
  let m ← m.copyIn msg tocpy
  return ((m.commit .snd tocpy).advance .snd tocpy, msg.drop tocpy.toNat, msgSize - tocpy)

def putLoop : Nat → List UInt8 → Int → Mbx n → Option (Mbx n × List UInt8 × Int)
  | 0, _, _, _ => none
  | k + 1, msg, msgSize, m =>
      if msgSize > 0 ∧ m.frbs ≠ 0 then do
        let (m, msg, msgSize) ← m.putRound msg msgSize
        putLoop k msg msgSize m
      else some (m, msg, msgSize)

/-- `mbxput`, with `*msg` and what it returns. -/
def mbxput (msg : List UInt8) (msgSize : Int) (m : Mbx n) : Option (Mbx n × List UInt8 × Int) :=
  m.putLoop msgSize.toNat.succ msg msgSize

/-- The inner loop of `mbxovrwrput`, which drops the oldest bytes. -/
def roomLoop : Nat → Int → Mbx n → Option (Mbx n)
  | 0, _, _ => none
  | k + 1, msgSize, m =>
      let n := msgSize - m.frbs
      if n > 0 then
        let tocpy := m.tocpy m.fbyte n m.avbs
        roomLoop k msgSize ((m.commit .rcv tocpy).advance .rcv tocpy)
      else some m

/-- The outer loop of `mbxovrwrput`. -/
def ovrwrLoop : Nat → List UInt8 → Int → Mbx n → Option (Mbx n)
  | 0, _, _, _ => none
  | k + 1, msg, msgSize, m =>
      if msgSize > 0 then do
        let (m, msg, msgSize) ← (if m.frbs ≠ 0 then m.putRound msg msgSize
          else some (m, msg, msgSize))
        let m ← (if msgSize ≠ 0 then m.roomLoop msgSize.toNat.succ msgSize else some m)
        ovrwrLoop k msg msgSize m
      else some m

/-- `mbxovrwrput`, with what it returns. -/
def mbxovrwrput (msg : List UInt8) (msgSize : Int) (m : Mbx n) : Option (Mbx n × Int) := do
  let n := msgSize - m.size
  let (msg, msgSize) := if n > 0 then (msg.drop n.toNat, msgSize - n) else (msg, msgSize)
  let m ← m.ovrwrLoop (msgSize.toNat + 2) msg msgSize
  return (m, 0)

def getLoop : Nat → List UInt8 → Int → Mbx n → Option (Mbx n × List UInt8 × Int)
  | 0, _, _, _ => none
  | k + 1, got, msgSize, m =>
      if msgSize > 0 ∧ m.avbs ≠ 0 then do
        let tocpy := m.tocpy m.fbyte msgSize m.avbs
        let bytes ← m.copyOut m.fbyte tocpy
        getLoop k (got ++ bytes) (msgSize - tocpy) ((m.commit .rcv tocpy).advance .rcv tocpy)
      else some (m, got, msgSize)

/-- `mbxget`, with what it copies and what it returns. -/
def mbxget (msgSize : Int) (m : Mbx n) : Option (Mbx n × List UInt8 × Int) :=
  m.getLoop msgSize.toNat.succ [] msgSize

/-- The loop of `mbxevdrp`, which works on copies of `fbyte` and `avbs`. -/
def evdrpLoop (m : Mbx n) : Nat → List UInt8 → Int → Int → Int → Option (List UInt8 × Int)
  | 0, _, _, _, _ => none
  | k + 1, got, msgSize, fbyte, avbs =>
      if msgSize > 0 ∧ avbs ≠ 0 then do
        let tocpy := m.tocpy fbyte msgSize avbs
        let bytes ← m.copyOut fbyte tocpy
        evdrpLoop m k (got ++ bytes) (msgSize - tocpy) (m.modSize (fbyte + tocpy)) (avbs - tocpy)
      else some (got, msgSize)

/-- `mbxevdrp`, with what it copies and what it returns.  It writes to no field of the mailbox. -/
def mbxevdrp (msgSize : Int) (m : Mbx n) : Option (List UInt8 × Int) :=
  m.evdrpLoop msgSize.toNat.succ [] msgSize m.fbyte m.avbs

/-! ## The ring -/

/-- The ring invariant. -/
structure Ring (m : Mbx n) : Prop where
  size : 0 < m.size
  avbs : 0 ≤ m.avbs
  frbs : 0 ≤ m.frbs
  total : m.avbs + m.frbs = m.size
  fbyte : 0 ≤ m.fbyte ∧ m.fbyte < m.size
  lbyte : 0 ≤ m.lbyte ∧ m.lbyte < m.size
  behind : m.lbyte ≡ m.fbyte + m.avbs [ZMOD m.size]

/-- The available bytes, from `fbyte` on. -/
def contents (m : Mbx n) : List UInt8 := window m.bufadr m.size m.fbyte m.avbs.toNat

/-- The available bytes are `q`, and the rest of the buffer is free. -/
def Holds (m : Mbx n) (q : List UInt8) : Prop :=
  Queued m.bufadr m.size m.fbyte m.lbyte m.avbs m.frbs q

variable {m m' : Mbx n} {q msg : List UInt8} {t i msgSize : Int} {k : Nat}

theorem contents_length (low : 0 ≤ m.avbs) : (m.contents.length : Int) = m.avbs := by
  rw [contents, window_length, Int.toNat_of_nonneg low]

theorem Ring.holds (ring : m.Ring) : m.Holds m.contents := by
  have length := contents_length ring.avbs
  have total := ring.total
  refine ⟨ring.size, ring.fbyte, ?_, length.symm, by omega, ?_⟩
  · rw [length, ← ring.behind]
    exact (Int.emod_eq_of_lt ring.lbyte.1 ring.lbyte.2).symm
  · rw [contents, window_length]

namespace Holds

theorem contents (h : m.Holds q) : m.contents = q := by
  rw [Mbx.contents, Queued.count h, Int.toNat_natCast, Queued.cells h]

theorem ring (h : m.Holds q) (frbs : 0 ≤ m.frbs) : m.Ring := by
  have count := Queued.count h
  have room := Queued.room h
  refine ⟨Queued.pos h, by omega, frbs, by omega, Queued.start h, Queued.last_bounds h, ?_⟩
  rw [Queued.behind h, count]
  exact Int.mod_modEq _ _

end Holds

theorem modSize_eq (low : 0 ≤ i) (round : i < 2 * m.size) : m.modSize i = i % m.size :=
  around_eq low round

/-- A turn copies something, and no more than is wanted, is there, or fits. -/
theorem tocpy_spec {pos want there : Int} (inside : pos < m.size) (more : 0 < want)
    (some : 0 < there) :
    0 < m.tocpy pos want there ∧ m.tocpy pos want there ≤ want ∧
      m.tocpy pos want there ≤ there ∧ pos + m.tocpy pos want there ≤ m.size := by
  rw [tocpy]
  split <;> split <;> omega

theorem write_bufadr (low : 0 ≤ t) (there : t ≤ msg.length) :
    (m.write msg t).bufadr = blit m.bufadr m.lbyte (msg.take t.toNat) := by
  funext i
  show (if m.lbyte ≤ i ∧ i < m.lbyte + t then msg.getD (i - m.lbyte).toNat 0 else m.bufadr i) = _
  rw [blit]
  by_cases before : m.lbyte ≤ i
  · rw [if_pos before]
    by_cases inside : i < m.lbyte + t
    · rw [if_pos ⟨before, inside⟩, List.getElem?_take_of_lt (by omega), List.getD_eq_getElem?_getD,
        List.getElem?_eq_getElem (by omega), Option.getD_some, Option.getD_some]
    · rw [if_neg fun h => inside h.2, List.getElem?_take_eq_none (by omega), Option.getD_none]
  · rw [if_neg fun h => before h.1, if_neg before]

theorem read_eq : m.read t = (List.range t.toNat).map fun k : Nat => m.bufadr (m.fbyte + k) := by
  rw [read, List.bind_eq_flatMap]
  simp only [List.pure_def, List.map_flatMap, List.map_singleton]
  exact List.flatMap_pure_eq_map _ _

namespace Holds

/-- A block of the message is copied behind the available bytes. -/
theorem copyIn (h : m.Holds q) (low : 0 ≤ t) (there : t ≤ msg.length) (room : t ≤ m.frbs)
    (block : m.lbyte + t ≤ m.size) :
    m.copyIn msg t = some (m.write msg t) ∧
      (((m.write msg t).commit .snd t).advance .snd t).Holds (q ++ msg.take t.toNat) := by
  have last := Queued.last_bounds h
  have free := Queued.room h
  have length := length_take low there
  refine ⟨if_pos ⟨last.1, low, block, there⟩, ?_⟩
  have appended := Queued.append (b := msg.take t.toNat) h (by omega) (by omega)
  rw [length, ← write_bufadr low there, ← modSize_eq (by omega) (by omega)] at appended
  exact appended

/-- The first bytes are taken. -/
theorem take (h : m.Holds q) (low : 0 ≤ t) (there : t ≤ m.avbs) (block : m.fbyte + t ≤ m.size) :
    m.copyOut m.fbyte t = some (q.take t.toNat) ∧
      ((m.commit .rcv t).advance .rcv t).Holds (q.drop t.toNat) := by
  have start := Queued.start h
  have pos := Queued.pos h
  constructor
  · rw [copyOut, if_pos ⟨start.1, low, block⟩, read_eq]
    exact congrArg some (Queued.front h low there block)
  · have dropped := Queued.drop h low there
    rw [← modSize_eq (by omega) (by omega)] at dropped
    exact dropped

end Holds

/-! ## What the loops do -/

/-- A turn puts a block of the message, and not an empty one. -/
theorem putRound_spec (h : m.Holds q) (msg : List UInt8) (more : 0 < msg.length) (room : 0 < m.frbs) :
    ∃ (t : Nat) (m' : Mbx n), 0 < t ∧ t ≤ msg.length ∧ (t : Int) ≤ m.frbs ∧
      m.putRound msg msg.length = some (m', msg.drop t, ((msg.drop t).length : Int)) ∧
      m'.Holds (q ++ msg.take t) ∧ m'.size = m.size ∧ m'.frbs = m.frbs - t := by
  have last := Queued.last_bounds h
  obtain ⟨positive, enough, there, block⟩ :=
    tocpy_spec (m := m) last.2 (show 0 < (msg.length : Int) by omega) room
  rw [putRound]
  generalize m.tocpy m.lbyte msg.length m.frbs = t at positive enough there block
  obtain ⟨t, rfl⟩ := Int.eq_ofNat_of_zero_le positive.le
  obtain ⟨copied, holds⟩ := h.copyIn positive.le enough there block
  rw [Int.toNat_natCast] at holds
  have left : ((msg.drop t).length : Int) = msg.length - t := by
    rw [List.length_drop]
    omega
  refine ⟨t, _, by omega, by omega, there, ?_, holds, rfl, rfl⟩
  rw [copied, left]
  rfl

theorem putLoop_spec (h : m.Holds q) (msg : List UInt8) (low : 0 ≤ m.frbs) (turns : msg.length < k) :
    ∃ m' : Mbx n, m.putLoop k msg msg.length =
        some (m', msg.drop m.frbs.toNat, ((msg.drop m.frbs.toNat).length : Int)) ∧
      m'.Holds (q ++ msg.take m.frbs.toNat) ∧ m'.size = m.size ∧
      m'.frbs = m.frbs - (msg.take m.frbs.toNat).length := by
  induction k generalizing m q msg with
  | zero => omega
  | succ k ih =>
      rw [putLoop]
      by_cases more : (msg.length : Int) > 0 ∧ m.frbs ≠ 0
      · obtain ⟨t, m₁, positive, enough, there, turn, holds, size, frbs⟩ :=
          putRound_spec h msg (by omega) (by omega)
        have rest : (msg.drop t).length = msg.length - t := List.length_drop
        obtain ⟨m', loop, holds', size', frbs'⟩ := ih holds (msg.drop t) (by omega) (by omega)
        have sum : m.frbs.toNat = t + m₁.frbs.toNat := by omega
        have take : msg.take m.frbs.toNat = msg.take t ++ (msg.drop t).take m₁.frbs.toNat := by
          rw [sum, List.take_add]
        have drop : msg.drop m.frbs.toNat = (msg.drop t).drop m₁.frbs.toNat := by
          rw [sum, List.drop_drop]
        refine ⟨m', ?_, ?_, size'.trans size, ?_⟩
        · rw [if_pos more, turn, drop]
          exact loop
        · rwa [take, ← List.append_assoc]
        · rw [take, List.length_append, List.length_take, frbs', frbs]
          omega
      · obtain ⟨take, drop⟩ := no_turn (show m.frbs ≤ 0 ∨ msg.length = 0 by omega)
        refine ⟨m, ?_, ?_, rfl, ?_⟩
        · rw [if_neg more, drop]
        · rwa [take, List.append_nil]
        · rw [take, List.length_nil]
          omega

/-- The oldest bytes are dropped until the rest of the message has room. -/
theorem roomLoop_spec (h : m.Holds q) (low : 0 ≤ m.frbs) (fits : msgSize ≤ m.size)
    (turns : (msgSize - m.frbs).toNat < k) :
    ∃ m' : Mbx n, m.roomLoop k msgSize = some m' ∧ m'.Holds (q.drop (msgSize - m.frbs).toNat) ∧
      m'.size = m.size ∧ 0 ≤ m'.frbs ∧ msgSize ≤ m'.frbs := by
  induction k generalizing m q with
  | zero => omega
  | succ k ih =>
      have count := Queued.count h
      have room := Queued.room h
      rw [roomLoop]
      by_cases more : msgSize - m.frbs > 0
      · obtain ⟨positive, need, there, block⟩ :=
          tocpy_spec (m := m) (Queued.start h).2 more (show 0 < m.avbs by omega)
        dsimp only
        rw [if_pos more]
        generalize m.tocpy m.fbyte (msgSize - m.frbs) m.avbs = t at positive need there block
        obtain ⟨-, holds⟩ := h.take positive.le there block
        have left : ((m.commit .rcv t).advance .rcv t).frbs = m.frbs + t := rfl
        obtain ⟨m', loop, holds', size', low', made⟩ := ih holds (by omega) fits (by omega)
        refine ⟨m', loop, ?_, size', low', made⟩
        rw [left, ← Int.sub_sub] at holds'
        rwa [drop_turn positive.le need]
      · have none : (msgSize - m.frbs).toNat = 0 := by omega
        refine ⟨m, if_neg more, ?_, rfl, low, by omega⟩
        rwa [none, List.drop_zero]

/-- A message that fits into the buffer takes the place of the oldest bytes, where it needs it. -/
theorem ovrwrLoop_spec (h : m.Holds q) (msg : List UInt8) (low : 0 ≤ m.frbs) (fits : (msg.length : Int) ≤ m.size)
    (turns : msg.length + 1 < k ∨ msg.length < k ∧ (0 < m.frbs ∨ msg = [])) :
    ∃ m' : Mbx n, m.ovrwrLoop k msg msg.length = some m' ∧
      m'.Holds ((q ++ msg).drop (msg.length - m.frbs).toNat) ∧ m'.size = m.size ∧ 0 ≤ m'.frbs := by
  induction k generalizing m q msg with
  | zero => omega
  | succ k ih =>
      rw [ovrwrLoop]
      by_cases more : (msg.length : Int) > 0
      · rw [if_pos more]
        have nonempty : msg ≠ [] := List.ne_nil_of_length_pos (by omega)
        -- The free part of the buffer takes what it can.
        obtain ⟨t, m₁, turn, enough, there, some, holds₁, size₁, frbs₁⟩ : ∃ (t : Nat) (m₁ : Mbx n),
            (if m.frbs ≠ 0 then m.putRound msg msg.length else Option.some (m, msg, (msg.length : Int))) =
              Option.some (m₁, msg.drop t, ((msg.drop t).length : Int)) ∧
            t ≤ msg.length ∧ (t : Int) ≤ m.frbs ∧ (0 < m.frbs → 0 < t) ∧
            m₁.Holds (q ++ msg.take t) ∧ m₁.size = m.size ∧ m₁.frbs = m.frbs - t := by
          by_cases full : m.frbs = 0
          · refine ⟨0, m, if_neg (not_not.mpr full), by omega, by omega, by omega, ?_, rfl, by simp⟩
            rwa [List.take_zero, List.append_nil]
          · obtain ⟨t, m₁, positive, enough, there, turn, holds, size, frbs⟩ :=
              putRound_spec h msg (by omega) (by omega)
            exact ⟨t, m₁, (if_pos full).trans turn, enough, there, fun _ => positive, holds, size,
              frbs⟩
        have rest : (msg.drop t).length = msg.length - t := List.length_drop
        have need : ((msg.drop t).length : Int) - m₁.frbs = msg.length - m.frbs := by omega
        -- Then there is room for the rest.
        obtain ⟨m₂, made, holds₂, size₂, low₂, room₂⟩ : ∃ m₂ : Mbx n,
            (if ((msg.drop t).length : Int) ≠ 0 then
              m₁.roomLoop ((msg.drop t).length : Int).toNat.succ (msg.drop t).length
              else Option.some m₁) = Option.some m₂ ∧
            m₂.Holds ((q ++ msg.take t).drop (msg.length - m.frbs).toNat) ∧ m₂.size = m.size ∧
            0 ≤ m₂.frbs ∧ ((msg.drop t).length : Int) ≤ m₂.frbs := by
          by_cases all : ((msg.drop t).length : Int) = 0
          · have none : (msg.length - m.frbs).toNat = 0 := by omega
            refine ⟨m₁, if_neg (not_not.mpr all), ?_, size₁, by omega, by omega⟩
            rwa [none, List.drop_zero]
          · obtain ⟨m₂, loop, holds, size, low, room⟩ := roomLoop_spec
              holds₁ (by omega) (show ((msg.drop t).length : Int) ≤ m₁.size by omega)
              (show (((msg.drop t).length : Int) - m₁.frbs).toNat <
                ((msg.drop t).length : Int).toNat.succ by omega)
            rw [need] at holds
            exact ⟨m₂, (if_pos all).trans loop, holds, size.trans size₁, low, room⟩
        have left : 0 < m₂.frbs ∨ msg.drop t = [] := by
          rw [← List.length_eq_zero_iff]
          omega
        have fewer : (msg.drop t).length < k := by
          rcases turns with long | ⟨long, room | empty⟩
          · omega
          · have positive := some room
            omega
          · exact absurd empty nonempty
        obtain ⟨m', loop, holds', size', low'⟩ := ih holds₂ (msg.drop t) low₂ (by omega)
          (.inr ⟨fewer, left⟩)
        refine ⟨m', ?_, ?_, size'.trans size₂, low'⟩
        · rw [turn]
          show Option.bind (if ((msg.drop t).length : Int) ≠ 0 then _ else _) _ = _
          rw [made]
          exact loop
        · have none : (((msg.drop t).length : Int) - m₂.frbs).toNat = 0 := by omega
          have length : (q ++ msg.take t).length = q.length + t := by
            rw [List.length_append, List.length_take, Nat.min_eq_left enough]
          have count := Queued.count h
          have free := Queued.room h
          rw [none, List.drop_zero, ← List.drop_append_of_le_length (by omega), List.append_assoc,
            List.take_append_drop] at holds'
          exact holds'
      · obtain rfl : msg = [] := List.eq_nil_of_length_eq_zero (by omega)
        refine ⟨m, if_neg more, ?_, rfl, low⟩
        have none : ((([] : List UInt8).length : Int) - m.frbs).toNat = 0 := by
          rw [List.length_nil]
          omega
        rwa [none, List.drop_zero, List.append_nil]

theorem getLoop_spec (h : m.Holds q) (got : List UInt8) (low : 0 ≤ msgSize)
    (turns : msgSize.toNat < k) :
    ∃ m' : Mbx n, m.getLoop k got msgSize = some (m', got ++ q.take msgSize.toNat,
        msgSize - (q.take msgSize.toNat).length) ∧
      m'.Holds (q.drop msgSize.toNat) ∧ m'.size = m.size ∧ m.frbs ≤ m'.frbs := by
  induction k generalizing m q got msgSize with
  | zero => omega
  | succ k ih =>
      have count := Queued.count h
      rw [getLoop]
      by_cases more : msgSize > 0 ∧ m.avbs ≠ 0
      · obtain ⟨positive, enough, there, block⟩ :=
          tocpy_spec (m := m) (Queued.start h).2 more.1 (show 0 < m.avbs by omega)
        rw [if_pos more]
        dsimp only
        generalize m.tocpy m.fbyte msgSize m.avbs = t at positive enough there block
        obtain ⟨copied, holds⟩ := h.take positive.le there block
        have left : m.frbs ≤ ((m.commit .rcv t).advance .rcv t).frbs := by
          show m.frbs ≤ m.frbs + t
          omega
        obtain ⟨m', loop, holds', size', frbs'⟩ := ih holds (got ++ q.take t.toNat)
          (show 0 ≤ msgSize - t by omega) (by omega)
        have taken := length_take positive.le (show t ≤ q.length by omega)
        refine ⟨m', ?_, ?_, size', left.trans frbs'⟩
        · rw [copied]
          refine loop.trans ?_
          rw [take_turn positive.le enough, List.length_append, List.append_assoc, Nat.cast_add,
            taken, Int.sub_sub]
        · rwa [drop_turn positive.le enough]
      · obtain ⟨take, drop⟩ := no_turn (show msgSize ≤ 0 ∨ q.length = 0 by omega)
        refine ⟨m, ?_, ?_, rfl, le_rfl⟩
        · rw [if_neg more, take, List.append_nil, List.length_nil, Nat.cast_zero, Int.sub_zero]
        · rwa [drop]

/-- The loop of `mbxevdrp` reads what that of `mbxget` reads. -/
theorem evdrpLoop_eq (got : List UInt8) (size : m'.size = m.size) (bufadr : m'.bufadr = m.bufadr) :
    m.evdrpLoop k got msgSize m'.fbyte m'.avbs = (m'.getLoop k got msgSize).map Prod.snd := by
  induction k generalizing m' got msgSize with
  | zero => rfl
  | succ k ih =>
      have tocpy : m.tocpy m'.fbyte msgSize m'.avbs = m'.tocpy m'.fbyte msgSize m'.avbs := by
        rw [Mbx.tocpy, ← size]
        rfl
      have copyOut (t : Int) : m.copyOut m'.fbyte t = m'.copyOut m'.fbyte t := by
        rw [Mbx.copyOut, Mbx.copyOut, size, read_eq, read_eq]
        simp only [bufadr]
      have modSize : m.modSize = m'.modSize := by
        funext i
        rw [Mbx.modSize, Mbx.modSize, size]
      rw [evdrpLoop, getLoop, tocpy, modSize]
      dsimp only
      rw [copyOut]
      split
      next more =>
        cases m'.copyOut m'.fbyte (m'.tocpy m'.fbyte msgSize m'.avbs) with
        | none => rfl
        | some bytes => exact @ih ((m'.commit .rcv _).advance .rcv _) _ _ size bufadr
      next => rfl

/-! ## The functions -/

theorem mbxput_spec (ring : m.Ring) (msg : List UInt8) : ∃ m' : Mbx n,
    m.mbxput msg msg.length =
        some (m', msg.drop m.frbs.toNat, ((msg.drop m.frbs.toNat).length : Int)) ∧
      m'.Ring ∧ m'.size = m.size ∧ m'.contents = m.contents ++ msg.take m.frbs.toNat := by
  have low := ring.frbs
  have length : (msg.take m.frbs.toNat).length = min m.frbs.toNat msg.length := List.length_take
  obtain ⟨m', done, holds, size, frbs⟩ := putLoop_spec (k := (msg.length : Int).toNat.succ)
    ring.holds msg low (by omega)
  exact ⟨m', done, holds.ring (by omega), size, holds.contents⟩

theorem mbxget_spec (ring : m.Ring) (msgSize : Nat) : ∃ m' : Mbx n,
    m.mbxget msgSize = some (m', m.contents.take msgSize,
        (msgSize : Int) - (m.contents.take msgSize).length) ∧
      m'.Ring ∧ m'.size = m.size ∧ m'.contents = m.contents.drop msgSize := by
  obtain ⟨m', got, holds, size, frbs⟩ := getLoop_spec (k := (msgSize : Int).toNat.succ) ring.holds []
    (Int.natCast_nonneg msgSize) (Nat.lt_succ_self _)
  rw [Int.toNat_natCast] at got holds
  exact ⟨m', got, holds.ring (ring.frbs.trans frbs), size, holds.contents⟩

/-- `mbxput` appends what there is room for, `mbxget` takes what there is, and `mbxevdrp` reads
what `mbxget` would take. -/
theorem mailbox_copies (ring : m.Ring) (msg : List UInt8) (msgSize : Nat) :
    (∃ m' : Mbx n, m.mbxput msg msg.length = some (m', msg.drop (min (msg.length : Int) m.frbs).toNat,
        msg.length - min (msg.length : Int) m.frbs) ∧
      m'.Ring ∧ m'.size = m.size ∧
      m'.contents = m.contents ++ msg.take (min (msg.length : Int) m.frbs).toNat) ∧
    (∃ m' : Mbx n, m.mbxget msgSize = some (m', m.contents.take (min (msgSize : Int) m.avbs).toNat,
        msgSize - min (msgSize : Int) m.avbs) ∧
      m'.Ring ∧ m'.size = m.size ∧
      m'.contents = m.contents.drop (min (msgSize : Int) m.avbs).toNat) ∧
    m.mbxevdrp msgSize = some (m.contents.take (min (msgSize : Int) m.avbs).toNat,
      msgSize - min (msgSize : Int) m.avbs) := by
  have length := contents_length ring.avbs
  have frbs := ring.frbs
  have avbs := ring.avbs
  have put : (min (msg.length : Int) m.frbs).toNat = min msg.length m.frbs.toNat := by omega
  have get : (min (msgSize : Int) m.avbs).toNat = min msgSize m.contents.length := by omega
  have take : m.contents.take (min msgSize m.contents.length) = m.contents.take msgSize :=
    List.take_eq_take_min.symm
  have drop : m.contents.drop (min msgSize m.contents.length) = m.contents.drop msgSize := by
    rcases Nat.le_total msgSize m.contents.length with le | le
    · rw [Nat.min_eq_left le]
    · rw [Nat.min_eq_right le, List.drop_length, List.drop_of_length_le le]
  obtain ⟨m', got, ring', size', contents'⟩ := mbxget_spec ring msgSize
  have left : (msgSize : Int) - (m.contents.take msgSize).length =
      msgSize - min (msgSize : Int) m.avbs := by
    rw [List.length_take]
    omega
  rw [left] at got
  rw [get, take, drop]
  refine ⟨?_, ⟨m', got, ring', size', contents'⟩, ?_⟩
  · obtain ⟨m', done, ring', size', contents'⟩ := mbxput_spec ring msg
    have rest : msg.drop m.frbs.toNat = msg.drop (min msg.length m.frbs.toNat) := by
      rcases Nat.le_total msg.length m.frbs.toNat with le | le
      · rw [Nat.min_eq_left le, List.drop_length, List.drop_of_length_le le]
      · rw [Nat.min_eq_right le]
    have beyond : ((msg.drop m.frbs.toNat).length : Int) =
        msg.length - min (msg.length : Int) m.frbs := by
      rw [List.length_drop]
      omega
    have given : msg.take m.frbs.toNat = msg.take (min msg.length m.frbs.toNat) := by
      rw [List.take_eq_take_min, Nat.min_comm]
    rw [beyond, rest] at done
    rw [given] at contents'
    rw [put]
    exact ⟨m', done, ring', size', contents'⟩
  · have same : m.mbxevdrp msgSize = (m.mbxget msgSize).map Prod.snd := evdrpLoop_eq [] rfl rfl
    rw [same, got, Option.map_some]

/-- `mbxovrwrput` keeps the last bytes of the old contents and the message. -/
theorem mailbox_overwritten (ring : m.Ring) (msg : List UInt8) :
    ∃ m' : Mbx n, m.mbxovrwrput msg msg.length = some (m', 0) ∧ m'.Ring ∧ m'.size = m.size ∧
      m'.contents = (m.contents ++ msg).rtake (min m.size (m.avbs + msg.length)).toNat := by
  have holds := ring.holds
  have length := contents_length ring.avbs
  have avbs := ring.avbs
  have frbs := ring.frbs
  have total := ring.total
  rw [mbxovrwrput]
  dsimp only
  by_cases long : (msg.length : Int) - m.size > 0
  · -- Only the end of the message is copied.
    have last : ((msg.drop ((msg.length : Int) - m.size).toNat).length : Int) = m.size := by
      rw [List.length_drop]
      omega
    have turns : (msg.drop ((msg.length : Int) - m.size).toNat).length + 1 < m.size.toNat + 2 := by
      omega
    obtain ⟨m', loop, holds', size', frbs'⟩ := ovrwrLoop_spec holds _ frbs last.le (.inl turns)
    rw [last] at loop holds'
    refine ⟨m', ?_, holds'.ring frbs', size', ?_⟩
    · rw [if_pos long, Int.sub_sub_self]
      dsimp only
      rw [loop]
      rfl
    · have kept : (min m.size (m.avbs + msg.length)).toNat = m.size.toNat := by omega
      have old : (m.size - m.frbs).toNat = m.contents.length := by omega
      have before : (m.contents ++ msg).length - m.size.toNat =
          m.contents.length + ((msg.length : Int) - m.size).toNat := by
        rw [List.length_append]
        omega
      rw [holds'.contents, kept, old, List.drop_left, List.rtake, before, ← List.drop_drop,
        List.drop_left]
  · obtain ⟨m', loop, holds', size', frbs'⟩ :=
      ovrwrLoop_spec holds msg frbs (by omega)
        (.inl (show msg.length + 1 < (msg.length : Int).toNat + 2 by omega))
    refine ⟨m', ?_, holds'.ring frbs', size', ?_⟩
    · rw [if_neg long]
      dsimp only
      rw [loop]
      rfl
    · have beyond : ((msg.length : Int) - m.frbs).toNat =
          (m.contents ++ msg).length - (min m.size (m.avbs + msg.length)).toNat := by
        rw [List.length_append]
        omega
      rw [holds'.contents, beyond, List.rtake]

/-- A buffer of four bytes, of which the last one and the first one are available. -/
def wrapped : Mbx 0 where
  bufadr := fun i => i.toNat.toUInt8
  size := 4
  fbyte := 3
  lbyte := 1
  avbs := 2
  frbs := 2

theorem wrapped_ring : wrapped.Ring := by
  refine ⟨?_, ?_, ?_, ?_, ?_, ?_, ?_⟩ <;> decide

theorem mailbox_copies_wrapped : ∃ m' : Mbx 0, wrapped.mbxput [7, 8, 9] 3 = some (m', [9], 1) ∧
    m'.Ring ∧ m'.contents = [3, 0, 7, 8] := by
  obtain ⟨⟨m', put, ring, -, contents⟩, -, -⟩ := mailbox_copies wrapped_ring [7, 8, 9] 0
  exact ⟨m', put, ring, contents⟩

theorem mailbox_overwritten_wrapped : ∃ m' : Mbx 0,
    wrapped.mbxovrwrput [7, 8, 9] 3 = some (m', 0) ∧ m'.Ring ∧ m'.contents = [0, 7, 8, 9] := by
  obtain ⟨m', put, ring, -, contents⟩ := mailbox_overwritten wrapped_ring [7, 8, 9]
  exact ⟨m', put, ring, contents⟩

end Rtai.Up.Mbx

/-! ## The machine -/

namespace Rtai.Up.System

open Function

variable {n k : Nat} {s : System n} {fs : List (Frame n)} {x : Transfer} {m m' : Mbx n} {c : Clock}
  {bytes : List UInt8} {size : Int}

/-- The current task is at `p` of its copy loop, and the mailbox is `m`. -/
def copying (s : System n) (fs : List (Frame n)) (m : Mbx n) (x : Transfer) (p : CopyPoint) :
    System n :=
  { s with
    mbx := update s.mbx x.mbx m
    stack := update s.stack s.current (.mbxCopy x p :: fs) }

/-- The current task goes on, and nothing comes in between. -/
def GoesOn (c : Clock) : System n → System n → Prop :=
  Relation.ReflTransGen fun s s' => step (.resume c) s = some s'

/-- From the test to `memcpy`. -/
theorem copying_tocpy (more : x.msgSize > 0 ∧ m.fravbs x.side ≠ 0) :
    (s.copying fs m x .test).GoesOn c (s.copying fs m x
      (.copy (m.tocpy (m.position x.side) x.msgSize (m.fravbs x.side)))) := by
  have room : (s.copying fs m x .test).GoesOn c (s.copying fs m x .room) :=
    .single (by simp [copying, step, pop, proceed, mbxCopy, push, more])
  have clip : (s.copying fs m x .room).GoesOn c (s.copying fs m x
      (.clip (if m.size - m.position x.side > x.msgSize then x.msgSize
        else m.size - m.position x.side))) :=
    .single (by simp [copying, step, pop, proceed, mbxCopy, push])
  refine (room.trans clip).trans ?_
  rw [Mbx.tocpy]
  generalize (if m.size - m.position x.side > x.msgSize then x.msgSize
    else m.size - m.position x.side) = t
  by_cases large : t > m.fravbs x.side
  · rw [if_pos large]
    have assign : (s.copying fs m x (.clip t)).GoesOn c (s.copying fs m x (.assign t)) :=
      .single (by simp [copying, step, pop, proceed, mbxCopy, push, large])
    exact assign.trans (.single (by simp [copying, step, pop, proceed, mbxCopy, push]))
  · rw [if_neg large]
    exact .single (by simp [copying, step, pop, proceed, mbxCopy, push, large])

/-- From behind `memcpy` to the test. -/
theorem copying_advance {t : Int} : (s.copying fs m x (.commit t)).GoesOn c
    (s.copying fs ((m.commit x.side t).advance x.side t) { x with
      msgSize := x.msgSize - t
      bytes := if x.side = .snd then x.bytes.drop t.toNat else x.bytes } .test) := by
  have commit : (s.copying fs m x (.commit t)).GoesOn c
      (s.copying fs (m.commit x.side t) x (.advance t)) :=
    .single (by simp [copying, step, pop, proceed, mbxCopy, push, setMbx])
  exact commit.trans (.single (by simp [copying, step, pop, proceed, mbxCopy, push, setMbx]))

/-- `mbxput` is what the statements of the copy loop do, one behind the other. -/
theorem mbxput_runs (snd : x.side = .snd)
    (puts : m.putLoop k x.bytes x.msgSize = some (m', bytes, size)) :
    (s.copying fs m x .test).GoesOn c
        (s.copying fs m' { x with bytes := bytes, msgSize := size } .test) ∧
      ¬(size > 0 ∧ m'.frbs ≠ 0) := by
  obtain ⟨side, b, time, msg, msgSize, result, loops⟩ := x
  cases snd
  induction k generalizing m msg msgSize with
  | zero => cases puts
  | succ k ih =>
      rw [Mbx.putLoop] at puts
      split at puts
      next more =>
        obtain ⟨⟨m₁, rest, left⟩, turn, puts⟩ := Option.bind_eq_some_iff.mp puts
        obtain ⟨m₂, copied, turn⟩ := Option.bind_eq_some_iff.mp turn
        cases turn
        obtain ⟨-, copied⟩ := Option.ite_none_right_eq_some.mp copied
        cases copied
        obtain ⟨goesOn, done⟩ := ih _ _ puts
        have copy : (s.copying fs m ⟨.snd, b, time, msg, msgSize, result, loops⟩
            (.copy (m.tocpy m.lbyte msgSize m.frbs))).GoesOn c (s.copying fs
              (m.write msg (m.tocpy m.lbyte msgSize m.frbs))
              ⟨.snd, b, time, msg, msgSize, result, loops⟩
              (.commit (m.tocpy m.lbyte msgSize m.frbs))) :=
          .single (by simp [copying, step, pop, proceed, mbxCopy, push, setMbx])
        exact ⟨(((copying_tocpy more).trans copy).trans copying_advance).trans goesOn, done⟩
      next done =>
        cases puts
        exact ⟨.refl, done⟩

/-- `mbxget` is what the statements of the copy loop do, one behind the other. -/
theorem mbxget_runs (rcv : x.side = .rcv)
    (gets : m.getLoop k x.bytes x.msgSize = some (m', bytes, size)) :
    (s.copying fs m x .test).GoesOn c
        (s.copying fs m' { x with bytes := bytes, msgSize := size } .test) ∧
      ¬(size > 0 ∧ m'.avbs ≠ 0) := by
  obtain ⟨side, b, time, got, msgSize, result, loops⟩ := x
  cases rcv
  induction k generalizing m got msgSize with
  | zero => cases gets
  | succ k ih =>
      rw [Mbx.getLoop] at gets
      split at gets
      next more =>
        obtain ⟨read, copied, gets⟩ := Option.bind_eq_some_iff.mp gets
        obtain ⟨-, copied⟩ := Option.ite_none_right_eq_some.mp copied
        cases copied
        obtain ⟨goesOn, done⟩ := ih _ _ gets
        have copy : (s.copying fs m ⟨.rcv, b, time, got, msgSize, result, loops⟩
            (.copy (m.tocpy m.fbyte msgSize m.avbs))).GoesOn c (s.copying fs m
              ⟨.rcv, b, time, got ++ m.read (m.tocpy m.fbyte msgSize m.avbs), msgSize, result, loops⟩
              (.commit (m.tocpy m.fbyte msgSize m.avbs))) :=
          .single (by simp [copying, step, pop, proceed, mbxCopy, push])
        exact ⟨(((copying_tocpy more).trans copy).trans copying_advance).trans goesOn, done⟩
      next done =>
        cases gets
        exact ⟨.refl, done⟩

end Rtai.Up.System
