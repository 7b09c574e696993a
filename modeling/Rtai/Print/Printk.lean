import Rtai.Lib.Circular
import Rtai.Lib.Run

/-!
# The buffer of `rt_printk`

`rt_printk` puts its text into a ring with two positions and no count, and the handler of a
service request passes it on to `printk` on the side of Linux.  The part of a call that is under
the lock is one step, and its last statement, which pends the request, another.  The handler goes
on by single accesses, and `printk` by single characters, so that calls fall between any two of
them.

`written` and `printed` are a record of the run: the characters of the calls, and those that
`printk` has been given.
-/

namespace Rtai.Print.Printk

open Rtai.Lib

def PRINTK_BUF_LEN : Int := 4096 * 2

def TEMP_BUF_LEN : Int := 256

/-- What `rt_printk_sysreq_handler` does next.  In a call of `printk`, `n` characters are left and
the next one is at `p`. -/
inductive Pc where
  | idle
  | load
  | testWrap (tmp : Int)
  | tail (tmp n p : Int)
  | reset (tmp : Int)
  | testDone (tmp : Int)
  | piece (tmp n p : Int)
  | store (tmp : Int)
deriving DecidableEq

structure State where
  /-- The memory around `rt_printk_buf`. -/
  rtPrintkBuf : Int → UInt8 := fun _ => 0
  bufFront : Int := 0
  bufBack : Int := 0
  /-- The bit of the request in `global.pending_srqs`. -/
  pending : Bool := false
  /-- The calls that have left the lock and not pended the request. -/
  leaving : Nat := 0
  pc : Pc := .idle
  written : List UInt8 := []
  printed : List UInt8 := []

/-- `memcpy(rt_printk_buf + dest, buf + src, n)`. -/
structure Copy where
  dest : Int
  src : Int
  n : Int

def Copy.bytes (c : Copy) (buf : List UInt8) : List UInt8 :=
  (buf.drop c.src.toNat).take c.n.toNat

namespace State

/-- The copies of a call, and where it leaves `buf_front`. -/
def copies (len : Int) (s : State) : List Copy × Int :=
  if s.bufFront + len ≥ PRINTK_BUF_LEN then
    let i := PRINTK_BUF_LEN - s.bufFront
    ([⟨s.bufFront, 0, i⟩, ⟨0, i, len - i⟩], len - i)
  else ([⟨s.bufFront, 0, len⟩], s.bufFront + len)

/-- A call whose `vsprintf` has left `buf`. -/
def rtPrintk (buf : List UInt8) (s : State) : State :=
  let (cs, front) := s.copies buf.length
  { s with
    rtPrintkBuf := cs.foldl (fun mem c => blit mem c.dest (c.bytes buf)) s.rtPrintkBuf
    bufFront := front
    leaving := s.leaving + 1
    written := s.written ++ buf }

/-- `printk` is given the character at `p`. -/
def print (p : Int) (pc : Pc) (s : State) : State :=
  { s with pc := pc, printed := s.printed ++ [s.rtPrintkBuf p] }

/-- A step of `rt_printk_sysreq_handler`. -/
def handler (s : State) : State :=
  match s.pc with
  | .idle => s
  | .load => { s with pc := .testWrap s.bufFront }
  | .testWrap tmp =>
      if s.bufBack > tmp then { s with pc := .tail tmp (PRINTK_BUF_LEN - s.bufBack) s.bufBack }
      else { s with pc := .testDone tmp }
  | .tail tmp n p =>
      if n = 0 then { s with pc := .reset tmp } else s.print p (.tail tmp (n - 1) (p + 1))
  | .reset tmp => { s with bufBack := 0, pc := .testDone tmp }
  | .testDone tmp =>
      if s.bufBack = tmp then { s with pc := .idle }
      else { s with pc := .piece tmp (tmp - s.bufBack) s.bufBack }
  | .piece tmp n p =>
      if n = 0 then { s with pc := .store tmp } else s.print p (.piece tmp (n - 1) (p + 1))
  | .store tmp => { s with bufBack := tmp, pc := .load }

end State

inductive Event where
  /-- A call up to the release of the lock. -/
  | rtPrintk (buf : List UInt8)
  /-- The end of a call. -/
  | rtPendLinuxSrq
  /-- The handler is started; a request is not active twice. -/
  | dispatch
  | handler

def step : Event → State → Option State
  | .rtPrintk buf, s => some (s.rtPrintk buf)
  | .rtPendLinuxSrq, s =>
      if 0 < s.leaving then some { s with pending := true, leaving := s.leaving - 1 } else none
  | .dispatch, s => if s.pc = .idle then some { s with pending := false, pc := .load } else none
  | .handler, s => if s.pc = .idle then none else some s.handler

/-- The text is short, and leaves fewer characters outstanding than the buffer has. -/
def Allowed (s : State) : Event → Prop
  | .rtPrintk buf => (buf.length : Int) < TEMP_BUF_LEN ∧
      ((s.written.length + buf.length : Nat) : Int) < s.printed.length + PRINTK_BUF_LEN
  | _ => True

/-! ## The ring -/

namespace Pc

/-- The place of the next character that is printed. -/
def next (back : Int) : Pc → Int
  | .tail _ _ p | .piece _ _ p => p
  | .reset _ => 0
  | .store tmp => tmp
  | .idle | .load | .testWrap _ | .testDone _ => back

/-- How many characters are printed before `buf_front` is read again. -/
def due (back : Int) : Pc → Int
  | .idle | .load | .store _ => 0
  | .testWrap tmp => (tmp - back) % PRINTK_BUF_LEN
  | .tail tmp n _ => n + tmp
  | .reset tmp => tmp
  | .testDone tmp => tmp - back
  | .piece _ n _ => n

/-- The values that the handler has read and worked out. -/
def Fits (back : Int) : Pc → Prop
  | .idle | .load => True
  | .testWrap tmp | .reset tmp | .store tmp => 0 ≤ tmp ∧ tmp < PRINTK_BUF_LEN
  | .tail tmp n p => (0 ≤ tmp ∧ tmp < PRINTK_BUF_LEN) ∧ 0 ≤ n ∧ 0 ≤ p ∧ p + n = PRINTK_BUF_LEN
  | .testDone tmp => back ≤ tmp ∧ tmp < PRINTK_BUF_LEN
  | .piece tmp n p => tmp < PRINTK_BUF_LEN ∧ 0 ≤ n ∧ 0 ≤ p ∧ p + n = tmp

/-- What the turns of the handler lower, besides the characters that are left. -/
def rank : Pc → Nat
  | .idle => 0
  | .piece _ n _ => if n = 0 then 9 else 1
  | .store _ => 8
  | .load => 7
  | .testWrap _ => 6
  | .tail .. => 5
  | .reset _ => 4
  | .testDone _ => 3

/-- No value of `buf_front` is being used. -/
def stale : Pc → Bool
  | .load | .store _ => true
  | _ => false

end Pc

/-- The characters `q` are in the ring and have not been printed. -/
structure Sound (s : State) (q : List UInt8) : Prop where
  queued : Queued s.rtPrintkBuf PRINTK_BUF_LEN (s.pc.next s.bufBack % PRINTK_BUF_LEN) s.bufFront
    q.length (PRINTK_BUF_LEN - q.length) q
  left : s.written = s.printed ++ q
  fewer : (q.length : Int) < PRINTK_BUF_LEN
  back : 0 ≤ s.bufBack ∧ s.bufBack < PRINTK_BUF_LEN
  fits : s.pc.Fits s.bufBack
  due : 0 ≤ s.pc.due s.bufBack ∧ s.pc.due s.bufBack ≤ q.length
  /-- Nobody has written since the front was read. -/
  settled : s.pending = false → s.leaving = 0 → s.pc.stale = false → s.pc.due s.bufBack = q.length

variable {s : State} {q : List UInt8}

theorem size_pos : 0 < PRINTK_BUF_LEN := by decide

theorem Sound.init : Sound {} [] where
  queued := ⟨size_pos, ⟨le_refl _, size_pos⟩, rfl, rfl, rfl, rfl⟩
  left := rfl
  fewer := size_pos
  back := ⟨le_refl _, size_pos⟩
  fits := trivial
  due := ⟨le_refl _, le_refl _⟩
  settled := fun _ _ _ => rfl

section

variable {s' : State} {buf : List UInt8} (sound : Sound s q)
include sound

/-- The handler goes on and prints nothing. -/
theorem Sound.goes (back : Int) (pc : Pc)
    (next : pc.next back % PRINTK_BUF_LEN = s.pc.next s.bufBack % PRINTK_BUF_LEN)
    (inside : 0 ≤ back ∧ back < PRINTK_BUF_LEN) (fits : pc.Fits back)
    (due : 0 ≤ pc.due back ∧ pc.due back ≤ q.length)
    (settled : s.pending = false → s.leaving = 0 → pc.stale = false → pc.due back = q.length) :
    Sound { s with bufBack := back, pc := pc } q :=
  ⟨next ▸ sound.queued, sound.left, sound.fewer, inside, fits, due, settled⟩

/-- The handler goes on with the value of `buf_front` that it has. -/
theorem Sound.move (back : Int) (pc : Pc)
    (next : pc.next back % PRINTK_BUF_LEN = s.pc.next s.bufBack % PRINTK_BUF_LEN)
    (inside : 0 ≤ back ∧ back < PRINTK_BUF_LEN) (fits : pc.Fits back)
    (due : pc.due back = s.pc.due s.bufBack) (fresh : s.pc.stale = false) :
    Sound { s with bufBack := back, pc := pc } q :=
  sound.goes back pc next inside fits (due ▸ sound.due) fun pending leaving _ =>
    due.trans (sound.settled pending leaving fresh)

/-- The next character is printed. -/
theorem Sound.print (p : Int) (pc : Pc) (here : s.pc.next s.bufBack = p)
    (inside : 0 ≤ p ∧ p < PRINTK_BUF_LEN) (more : 0 < s.pc.due s.bufBack)
    (next : pc.next s.bufBack = p + 1) (fits : pc.Fits s.bufBack)
    (due : pc.due s.bufBack = s.pc.due s.bufBack - 1) (fresh : s.pc.stale = false) :
    ∃ q', q.length = q'.length + 1 ∧ Sound (s.print p pc) q' := by
  obtain ⟨queued, left, fewer, back, -, ⟨-, there⟩, settled⟩ := sound
  rw [here, Int.emod_eq_of_lt inside.1 inside.2] at queued
  obtain ⟨q', rfl, queued⟩ := queued.next (by omega)
  rw [List.length_cons, Nat.cast_add, Nat.cast_one] at queued fewer there settled
  refine ⟨q', rfl, ?_, ?_, ?_, back, fits, ?_, fun pending leaving _ => ?_⟩
  · simp only [State.print, next]
    convert queued using 1 <;> omega
  · simp [State.print, left]
  · omega
  · show 0 ≤ pc.due s.bufBack ∧ pc.due s.bufBack ≤ _
    omega
  · have := settled pending leaving fresh
    show pc.due s.bufBack = _
    omega

/-! ## The handler -/

def measure (s : State) : Nat := 10 * (s.written.length - s.printed.length) + s.pc.rank

theorem Sound.measure : measure s = 10 * q.length + s.pc.rank := by
  rw [Printk.measure, sound.left, List.length_append, Nat.add_sub_cancel_left]

theorem Sound.lower {q' : List UInt8} (next : Sound s' q') (eq : s.handler = s')
    (less : 10 * q'.length + s'.pc.rank < 10 * q.length + s.pc.rank) :
    ∃ q', Sound s.handler q' ∧ Printk.measure s.handler < Printk.measure s := by
  rw [eq, next.measure, sound.measure]
  exact ⟨q', next, less⟩

/-- The positions are as far apart as the characters that are outstanding. -/
theorem Sound.distance (here : s.pc.next s.bufBack = s.bufBack) :
    (s.bufFront - s.bufBack) % PRINTK_BUF_LEN = q.length := by
  have behind := sound.queued.behind
  have fewer := sound.fewer
  rw [here] at behind
  rw [behind, Int.emod_add_emod, Int.emod_sub_emod, add_sub_cancel_left]
  exact Int.emod_eq_of_lt (Int.natCast_nonneg _) fewer

/-- A step of the handler leaves the ring sound, and lowers the measure. -/
theorem Sound.handler (busy : s.pc ≠ .idle) :
    ∃ q', Sound s.handler q' ∧ Printk.measure s.handler < Printk.measure s := by
  obtain ⟨mem, front, back, pending, leaving, pc, written, printed⟩ := s
  have low : 0 ≤ back := sound.back.1
  have high : back < PRINTK_BUF_LEN := sound.back.2
  have fits : pc.Fits back := sound.fits
  cases pc with
  | idle => exact absurd rfl busy
  | load =>
      have distance : (front - back) % PRINTK_BUF_LEN = q.length := sound.distance rfl
      have due := Int.emod_nonneg (front - back) size_pos.ne'
      exact sound.lower (sound.goes back (.testWrap front) rfl sound.back sound.queued.last_bounds
        ⟨due, distance.le⟩ fun _ _ _ => distance) rfl (Nat.lt_succ_self _)
  | testWrap tmp =>
      have inside : 0 ≤ tmp ∧ tmp < PRINTK_BUF_LEN := fits
      have fewer : (Pc.testDone tmp).rank < (Pc.testWrap tmp).rank := Nat.lt_of_sub_eq_succ rfl
      by_cases wrapped : back > tmp
      · have due : PRINTK_BUF_LEN - back + tmp = (tmp - back) % PRINTK_BUF_LEN := by
          rw [← Int.add_emod_right, Int.emod_eq_of_lt (by omega) (by omega)]
          omega
        exact sound.lower (sound.move back (.tail tmp (PRINTK_BUF_LEN - back) back) rfl sound.back
          ⟨inside, by omega, low, by omega⟩ due rfl) (if_pos wrapped) (Nat.lt_succ_self _)
      · have due : tmp - back = (tmp - back) % PRINTK_BUF_LEN :=
          (Int.emod_eq_of_lt (by omega) (by omega)).symm
        exact sound.lower (sound.move back (.testDone tmp) rfl sound.back
          ⟨Int.not_lt.mp wrapped, inside.2⟩ due rfl) (if_neg wrapped) (Nat.add_lt_add_left fewer _)
  | tail tmp n p =>
      obtain ⟨inside, nonneg, start, ends⟩ := fits
      by_cases spent : n = 0
      · have wraps : 0 % PRINTK_BUF_LEN = p % PRINTK_BUF_LEN := by
          rw [show p = PRINTK_BUF_LEN by omega, Int.emod_self, Int.zero_emod]
        have due : tmp = n + tmp := by omega
        exact sound.lower (sound.move back (.reset tmp) wraps sound.back inside due rfl)
          (if_pos spent) (Nat.lt_succ_self _)
      · have some : 0 < n + tmp := by omega
        have due : n - 1 + tmp = n + tmp - 1 := by omega
        obtain ⟨q', len, goes⟩ := sound.print p (.tail tmp (n - 1) (p + 1)) rfl
          ⟨start, by omega⟩ some rfl ⟨inside, by omega, by omega, by omega⟩ due rfl
        refine sound.lower goes (if_neg spent) ?_
        simp only [State.print, Pc.rank]
        omega
  | reset tmp =>
      have inside : 0 ≤ tmp ∧ tmp < PRINTK_BUF_LEN := fits
      exact sound.lower (sound.move 0 (.testDone tmp) rfl ⟨le_refl _, size_pos⟩
        inside (sub_zero tmp) rfl) rfl (Nat.lt_succ_self _)
  | testDone tmp =>
      obtain ⟨behind, inside⟩ : back ≤ tmp ∧ tmp < PRINTK_BUF_LEN := fits
      by_cases met : back = tmp
      · have due : 0 = tmp - back := by omega
        exact sound.lower (sound.move back .idle rfl sound.back trivial due rfl) (if_pos met)
          (Nat.lt_add_of_pos_right (Nat.succ_pos 2))
      · refine sound.lower (sound.move back (.piece tmp (tmp - back) back) rfl sound.back
          ⟨inside, by omega, low, by omega⟩ rfl rfl) (if_neg met) ?_
        simp only [Pc.rank]
        split_ifs <;> omega
  | piece tmp n p =>
      obtain ⟨inside, nonneg, start, ends⟩ := fits
      by_cases spent : n = 0
      · have here : tmp % PRINTK_BUF_LEN = p % PRINTK_BUF_LEN := by
          rw [show p = tmp by omega]
        refine sound.lower (sound.move back (.store tmp) here sound.back ⟨by omega, inside⟩
          spent.symm rfl) (if_pos spent) ?_
        simp only [Pc.rank, if_pos spent]
        omega
      · have some : 0 < n := by omega
        obtain ⟨q', len, goes⟩ := sound.print p (.piece tmp (n - 1) (p + 1)) rfl
          ⟨start, by omega⟩ some rfl ⟨inside, by omega, by omega, by omega⟩ rfl rfl
        refine sound.lower goes (if_neg spent) ?_
        simp only [State.print, Pc.rank]
        split_ifs <;> omega
  | store tmp =>
      have inside : 0 ≤ tmp ∧ tmp < PRINTK_BUF_LEN := fits
      exact sound.lower (sound.goes tmp .load rfl inside trivial
        ⟨le_refl _, Int.natCast_nonneg _⟩ fun _ _ fresh => nomatch fresh) rfl
        (Nat.lt_succ_self _)

/-! ## Calls -/

/-- A copy stays inside the buffer, and inside the text. -/
def Copy.Inside (c : Copy) (len : Int) : Prop :=
  0 ≤ c.n ∧ (0 ≤ c.dest ∧ c.dest + c.n ≤ PRINTK_BUF_LEN) ∧ 0 ≤ c.src ∧ c.src + c.n ≤ len

/-- A text is copied behind the characters in the ring. -/
theorem Sound.copies (room : (q.length : Int) + buf.length < PRINTK_BUF_LEN) :
    Queued (s.rtPrintk buf).rtPrintkBuf PRINTK_BUF_LEN (s.pc.next s.bufBack % PRINTK_BUF_LEN)
      (s.rtPrintk buf).bufFront (q.length + buf.length) (PRINTK_BUF_LEN - q.length - buf.length)
      (q ++ buf) ∧
    ∀ c ∈ (s.copies buf.length).1, c.Inside buf.length := by
  have queued := sound.queued
  have ⟨low, high⟩ := queued.last_bounds
  by_cases wraps : s.bufFront + buf.length ≥ PRINTK_BUF_LEN
  · have both : s.copies buf.length = _ := if_pos wraps
    generalize whole : PRINTK_BUF_LEN - s.bufFront = i at both
    have first : (buf.take i.toNat).length = i := by
      rw [List.length_take]
      omega
    have second : (buf.drop i.toNat).length = buf.length - i := by
      rw [List.length_drop]
      omega
    have once := queued.append (b := buf.take i.toNat) (by omega) (by omega)
    rw [first, show s.bufFront + i = PRINTK_BUF_LEN by omega, Int.emod_self] at once
    have twice := once.append (b := buf.drop i.toNat) (by omega) (by omega)
    have behind : (buf.length - i) % PRINTK_BUF_LEN = buf.length - i :=
      Int.emod_eq_of_lt (by omega) (by omega)
    rw [second, zero_add, behind, List.append_assoc, List.take_append_drop] at twice
    constructor
    · have rest : (buf.drop i.toNat).take (buf.length - i).toNat = buf.drop i.toNat :=
        List.take_of_length_le (by omega)
      simp only [State.rtPrintk, both, List.foldl, Copy.bytes, Int.toNat_zero, List.drop_zero, rest]
      convert twice using 1 <;> omega
    · simp only [both, List.forall_mem_cons, Copy.Inside]
      refine ⟨by omega, by omega, List.forall_mem_nil _⟩
  · have one : s.copies buf.length = _ := if_neg wraps
    have behind : (s.bufFront + buf.length) % PRINTK_BUF_LEN = s.bufFront + buf.length :=
      Int.emod_eq_of_lt (by omega) (by omega)
    have once := queued.append (b := buf) (by omega) (by omega)
    rw [behind] at once
    constructor
    · simpa only [State.rtPrintk, one, List.foldl, Copy.bytes, Int.toNat_zero, List.drop_zero,
        Int.toNat_natCast, List.take_length] using once
    · simp only [one, List.forall_mem_cons, Copy.Inside]
      refine ⟨by omega, List.forall_mem_nil _⟩

theorem Sound.rtPrintk (room : (q.length : Int) + buf.length < PRINTK_BUF_LEN) :
    Sound (s.rtPrintk buf) (q ++ buf) := by
  have due := sound.due
  refine ⟨?_, ?_, ?_, sound.back, sound.fits, ?_, fun _ leaving => ?_⟩
  · rw [List.length_append, Nat.cast_add, ← sub_sub]
    exact (sound.copies room).1
  · have left := sound.left
    show s.written ++ buf = s.printed ++ (q ++ buf)
    rw [left, List.append_assoc]
  · rw [List.length_append, Nat.cast_add]
    exact room
  · rw [List.length_append, Nat.cast_add]
    exact ⟨due.1, le_add_of_le_of_nonneg due.2 (Int.natCast_nonneg _)⟩
  · exact absurd leaving (Nat.succ_ne_zero _)

/-! ## Runs -/

/-- The place that a step of the handler reads. -/
def Pc.reads : Pc → Option Int
  | .tail _ n p | .piece _ n p => if n = 0 then none else some p
  | _ => none

/-- A step stays inside the buffer. -/
def Confined (x : Record State Event) : Prop :=
  match x.event with
  | .rtPrintk buf => ∀ c ∈ (x.pre.copies buf.length).1, c.Inside buf.length
  | .handler => ∀ p, x.pre.pc.reads = some p → 0 ≤ p ∧ p < PRINTK_BUF_LEN
  | .rtPendLinuxSrq | .dispatch => True

/-- What is printed is what was written, and when calls stop the handler prints all of it: a run
of it ends, and nothing is left when no other is to come. -/
structure Delivers (s : State) : Prop where
  order : s.printed <+: s.written
  ends : ∃ n, (State.handler^[n] s).pc = .idle ∧
    (s.pending = false → s.leaving = 0 → (State.handler^[n] s).printed = s.written)

theorem Sound.reads {p : Int} (reads : s.pc.reads = some p) : 0 ≤ p ∧ p < PRINTK_BUF_LEN := by
  have fits := sound.fits
  unfold Pc.reads at reads
  split at reads
  next tmp n _ pc =>
    obtain ⟨some, here⟩ := Option.ite_none_left_eq_some.mp reads
    rw [pc] at fits
    obtain ⟨-, nonneg, start, ends⟩ := fits
    cases here
    omega
  next tmp n _ pc =>
    obtain ⟨some, here⟩ := Option.ite_none_left_eq_some.mp reads
    rw [pc] at fits
    obtain ⟨inside, nonneg, start, ends⟩ := fits
    cases here
    omega
  next => cases reads

theorem Sound.step {e : Event} (allowed : Allowed s e) (stepped : step e s = some s') :
    (∃ q', Sound s' q') ∧ Confined ⟨s, e, s'⟩ := by
  cases e with
  | rtPrintk buf =>
      cases stepped
      have room : (q.length : Int) + buf.length < PRINTK_BUF_LEN := by
        have few := allowed.2
        rw [sound.left, List.length_append] at few
        omega
      exact ⟨⟨_, sound.rtPrintk room⟩, (sound.copies room).2⟩
  | rtPendLinuxSrq =>
      obtain ⟨-, here⟩ := Option.ite_none_right_eq_some.mp stepped
      cases here
      exact ⟨⟨q, { sound with settled := fun pending => nomatch pending }⟩, trivial⟩
  | dispatch =>
      obtain ⟨idle, here⟩ := Option.ite_none_right_eq_some.mp stepped
      cases here
      refine ⟨⟨q, ?_⟩, trivial⟩
      have goes : Sound { s with pc := .load } q :=
        sound.goes s.bufBack .load (by rw [idle]; rfl) sound.back trivial ⟨le_refl _, Int.natCast_nonneg _⟩
          fun _ _ fresh => nomatch fresh
      exact { goes with settled := fun _ _ fresh => nomatch fresh }
  | handler =>
      obtain ⟨busy, here⟩ := Option.ite_none_left_eq_some.mp stepped
      cases here
      obtain ⟨q', next, -⟩ := sound.handler busy
      exact ⟨⟨q', next⟩, fun p reads => sound.reads reads⟩

end

theorem handler_frame (s : State) : s.handler.pending = s.pending ∧
    s.handler.leaving = s.leaving ∧ s.handler.written = s.written := by
  unfold State.handler
  split <;> try split_ifs
  all_goals exact ⟨rfl, rfl, rfl⟩

/-- The handler alone goes from `s` to `t`. -/
structure Follows (s t : State) : Prop where
  sound : ∃ q, Sound t q
  pending : t.pending = s.pending
  leaving : t.leaving = s.leaving
  written : t.written = s.written

theorem Follows.handler {t : State} (follows : Follows s t) : (t.pc = .idle ∧ Follows s t) ∨
    Follows s t.handler ∧ measure t.handler < measure t := by
  by_cases idle : t.pc = .idle
  · exact .inl ⟨idle, follows⟩
  obtain ⟨⟨q, sound⟩, pending, leaving, written⟩ := follows
  obtain ⟨q', next, less⟩ := sound.handler idle
  obtain ⟨pending', leaving', written'⟩ := handler_frame t
  exact .inr ⟨⟨⟨q', next⟩, pending'.trans pending, leaving'.trans leaving, written'.trans written⟩, less⟩

theorem Sound.delivers (sound : Sound s q) : Delivers s := by
  refine ⟨⟨q, sound.left.symm⟩, ?_⟩
  obtain ⟨n, idle, ⟨q', last⟩, pending, leaving, written⟩ :=
    iterate_ends Printk.measure (fun follows => follows.handler) (⟨⟨q, sound⟩, rfl, rfl, rfl⟩ : Follows s s)
  refine ⟨n, idle, fun none nobody => ?_⟩
  have settled := last.settled (pending.trans none) (leaving.trans nobody)
  rw [idle] at settled
  have nil : q' = [] := List.eq_nil_of_length_eq_zero (Int.natCast_inj.mp (settled rfl).symm)
  rw [← written, last.left, nil, List.append_nil]

variable {tr : List (Record State Event)}

/-- Every copy stays inside the buffer, and the characters are printed as they were written. -/
theorem printk_delivers (run : Run step Allowed {} tr s) :
    (∀ x ∈ tr, Confined x) ∧ Delivers s := by
  obtain ⟨⟨q, sound⟩, confined⟩ := run.each (P := fun s => ∃ q, Sound s q) ⟨[], Sound.init⟩
    fun ⟨_, sound⟩ allowed stepped => sound.step allowed stepped
  exact ⟨confined, sound.delivers⟩

instance (s : State) : ∀ e, Decidable (Allowed s e)
  | .rtPrintk _ => inferInstanceAs (Decidable (_ ∧ _))
  | .rtPendLinuxSrq | .dispatch | .handler => instDecidableTrue

/-- A text is printed when another has been written beside it. -/
theorem printk_delivers_two : ∃ tr s, Run step Allowed {} tr s ∧
    s.printed = [104, 105, 106] ∧ (∀ x ∈ tr, Confined x) ∧ Delivers s := by
  obtain ⟨tr, s, run, test⟩ := Run.of_execute step Allowed {}
    ([.rtPrintk [104, 105], .rtPendLinuxSrq, .dispatch, .handler, .rtPrintk [106], .rtPendLinuxSrq] ++
      List.replicate 12 .handler)
    (fun s => s.printed == [104, 105, 106]) (by decide +kernel)
  exact ⟨tr, s, run, eq_of_beq test, printk_delivers run⟩

end Rtai.Print.Printk
