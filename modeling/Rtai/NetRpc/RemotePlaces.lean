import Rtai.NetRpc.RemoteArguments

/-!
# The places of a call that is local

A type word that gives two of its places to one argument makes the stub lose one of its
pointers, and a size that is read behind the pointer of the read buffer is an address.  So the
calls that are local wherever the stub has its buffers are those whose places are apart.
-/

namespace Rtai.NetRpc.RemoteCall

open Function Rtai.Lib Rtai.Lxrt

variable {stub : Stub} {s : Server} {fn : Fn} {c : Client} {i : Nat} {msgBuf : Int32}

/-- What a local call passes is what the stub has made of the words. -/
theorem LocalCall.served (isLocal : LocalCall stub s fn c) (fits : c.Fits) :
    ∃ served result mem, served = (stub.serve s fn (c.asked c.data)).1 ∧
      (stub.serve s fn (c.asked c.data)).2.isSome ∧ AsLocal s c served result mem := by
  obtain ⟨served, result, mem, run, -, asLocal⟩ := isLocal
  rw [rtNetRpc, request_eq fits] at run
  simp only [Option.bind_eq_bind, Option.bind_some] at run
  cases reply : (stub.serve s fn (c.asked c.data)).2 with
  | none =>
      rw [reply] at run
      cases run
  | some r =>
      rw [reply] at run
      injection run with same
      injection same with same rest
      exact ⟨served, result, mem, same.symm, rfl, asLocal⟩

/-- A stub whose memory is one byte and that has its buffers at `a` and `msgBuf`. -/
def Server.plain (byte : UInt8) (a msgBuf : Int32) (room : adr msgBuf + MAX_MSG_SIZE ≤ 2 ^ 32) :
    Server where
  a := a
  msgBuf := msgBuf
  mem := fun _ => byte
  behind := fun _ => 0
  funArgs := fun _ => 0
  nano2count := id
  room := room

theorem words_of_local (isLocal : LocalCall stub s fn c) (fits : c.Fits) : c.words ≤ 10 := by
  obtain ⟨served, result, mem, same, -, asLocal⟩ := isLocal.served fits
  have length : served.args.length = 10 := by
    rw [same]
    exact length_pass
  rw [← length]
  exact asLocal.length

/-! ## Sizes -/

/-- A reply with a buffer that does not fit is not sent. -/
theorem not_local_of_large (fits : c.Fits)
    (large : MAX_MSG_SIZE < (wsize1 c.type (s.found c c.data)).toInt.toNat +
      (wsize2 c.type (s.found c c.data)).toInt.toNat) : ¬LocalCall stub s fn c := by
  intro isLocal
  obtain ⟨served, result, mem, -, replied, -⟩ := isLocal.served fits
  have unsent : (stub.serve s fn (c.asked c.data)).2 = none := by
    have whole (m : Memory) (x y : Int32) (h : MAX_MSG_SIZE < x.toInt.toNat + y.toInt.toNat) :
        ¬16 + (buffer m s.msgBuf x ++ buffer m (s.msgBuf + x) y).length ≤ MAX_MSG_SIZE := by
      rw [List.length_append, length_buffer, length_buffer]
      omega
    exact if_neg (whole _ _ _ large)
  rw [unsent] at replied
  cases replied

/-- A stub whose copies of read buffers of `c` begin at `place`. -/
def Server.copying (c : Client) (byte : UInt8) (place msgBuf : Int32)
    (room : adr msgBuf + MAX_MSG_SIZE ≤ 2 ^ 32) : Server :=
  .plain byte (place - Int32.ofNat (4 * c.words)) msgBuf room

theorem copy_copying {byte : UInt8} {place : Int32} {room : adr msgBuf + MAX_MSG_SIZE ≤ 2 ^ 32} :
    (Server.copying c byte place msgBuf room).copy c = place := Int32.sub_add_cancel ..

section

variable (isLocal : ∀ s fn, LocalCall stub s fn c) (fits : c.Fits)
include isLocal fits

theorem size1_of_local (needed : needToW c.type = true) : c.SizeApart (uspWsz1 c.type) := by
  intro some positive same
  let s := Server.copying c 0 0x40000000 0 (by decide)
  have size : wsize1 c.type (s.found c c.data) = 0x40000000 := by
    rw [wsize1, if_pos needed, Lxrt.sizeOf, if_pos some, same, found_read positive, copy_copying]
  refine not_local_of_large fits ?_ (isLocal s fun _ m => (0, m))
  rw [size]
  exact Nat.lt_of_lt_of_le (by decide) (Nat.le_add_right 0x40000000 _)

theorem size2_of_local (needed : needToW2nd c.type = true) : c.SizeApart (uspWsz2 c.type) := by
  intro some positive same
  let s := Server.copying c 0 0x40000000 0 (by decide)
  have size : wsize2 c.type (s.found c c.data) = 0x40000000 := by
    rw [wsize2, if_pos needed, Lxrt.sizeOf, if_pos some, same, found_read positive, copy_copying]
  refine not_local_of_large fits ?_ (isLocal s fun _ m => (0, m))
  rw [size]
  exact Nat.lt_of_lt_of_le (by decide) (Nat.le_add_left 0x40000000 _)

/-! ## Pointers -/

/-- What the function is called with in a local call. -/
theorem AsLocal.called (placed : c.Placed) (s : Server) (fn : Fn) :
    ∃ result mem, AsLocal s c
      ⟨s.called c stub, s.before c, (fn (s.called c stub) (s.before c)).1,
        (fn (s.called c stub) (s.before c)).2⟩ result mem := by
  obtain ⟨served, result, mem, same, -, asLocal⟩ := (isLocal s fn).served fits
  rw [serve_eq fits placed (size1_of_local isLocal fits) (size2_of_local isLocal fits)] at same
  subst same
  exact ⟨result, mem, asLocal⟩

end

/-- A pointer moves with the buffers of the stub. -/
theorem pointed_copying (points : c.Points i) : ∃ k, ∀ place room,
    (Server.copying c 0 place place room).pointed c c.data i = place + k := by
  by_cases second : c.w2size > 0 ∧ i = uspWbf2 c.type
  · obtain ⟨some, rfl⟩ := second
    exact ⟨c.wsize, fun place room => pointed_second some⟩
  · by_cases first : c.wsize > 0 ∧ i = uspWbf1 c.type
    · obtain ⟨some, rfl⟩ := first
      refine ⟨0, fun place room => ?_⟩
      rw [pointed_first (fun _ some same => second ⟨some, same⟩) some, Int32.add_zero]
      rfl
    · obtain ⟨some, rfl⟩ := points.resolve_right (not_or.mpr ⟨first, second⟩)
      refine ⟨0, fun place room => ?_⟩
      rw [pointed_of_ne (fun some same => first ⟨some, same⟩) fun some same => second ⟨some, same⟩,
        found_read some, copy_copying, Int32.add_zero]

theorem timed_of_local (isLocal : ∀ s fn, LocalCall stub s fn c) (fits : c.Fits)
    (placed : c.Placed) (timed : c.Timed i) : ¬c.Points i := by
  intro points
  have few := words_of_local (isLocal (.plain 0 0 0 (by decide)) fun _ m => (0, m)) fits
  have some : TIMED c.funExtTimed > 0 := timed.1
  have low := placed.inBlock _ (.inr ⟨some, .inl rfl⟩)
  have high := placed.inBlock _ (.inr ⟨some, .inr rfl⟩)
  have kept (place : Int32) (room : adr place + MAX_MSG_SIZE ≤ 2 ^ 32) :
      (Server.copying c 0 place place room).pointed c c.data i = c.args i := by
    obtain ⟨result, mem, asLocal⟩ :=
      AsLocal.called isLocal fits placed (.copying c 0 place place room) fun _ m => (0, m)
    have long := asLocal.timed some
    rw [Server.called, longAt_congr (arg_pass few low) (arg_pass few high), passed_timed some] at long
    obtain ⟨sameLow, sameHigh⟩ := longAt_inj long
    obtain ⟨-, rfl | rfl⟩ := timed
    · exact sameLow
    · exact sameHigh
  obtain ⟨k, moves⟩ := pointed_copying points
  have here := (moves 0 (by decide)).symm.trans (kept 0 (by decide))
  have there := (moves 1 (by decide)).symm.trans (kept 1 (by decide))
  have same := here.trans there.symm
  simp at same

/-- A word that points is passed with its pointer. -/
theorem called_pointed (isLocal : ∀ s fn, LocalCall stub s fn c) (fits : c.Fits)
    (placed : c.Placed) {retval : UInt64} {before after : Memory} (points : c.Points i) :
    Served.arg ⟨s.called c stub, before, retval, after⟩ i = s.pointed c c.data i := by
  have few := words_of_local (isLocal (.plain 0 0 0 (by decide)) fun _ m => (0, m)) fits
  exact called_points few placed (fun timed => timed_of_local isLocal fits placed timed points) points

/-- There is an address behind each copy of a read buffer. -/
theorem exists_far : ∃ far : Int32, adr far = 4096 := ⟨4096, by decide⟩

theorem room_of_far {far : Int32} (start : adr far = 4096) : adr far + MAX_MSG_SIZE ≤ 2 ^ 32 := by
  rw [start]
  decide

/-- The bytes of the caller are found at the pointer of the read buffer, wherever it is. -/
theorem not_far_of_local (isLocal : ∀ s fn, LocalCall stub s fn c) (fits : c.Fits)
    (placed : c.Placed) (positive : c.rsize > 0) (room : adr msgBuf + MAX_MSG_SIZE ≤ 2 ^ 32)
    (far : ∀ byte, 4096 ≤ adr ((Server.copying c byte 0 msgBuf room).pointed c c.data
      (uspRbf1 c.type))) : False := by
  let byte : UInt8 := if c.mem (adr (c.args (uspRbf1 c.type))) = 0 then 1 else 0
  let s := Server.copying c byte 0 msgBuf room
  obtain ⟨result, mem, asLocal⟩ := AsLocal.called isLocal fits placed s fun _ m => (0, m)
  have read := asLocal.read positive
  have first := Memory.apply_of_read read (toNat_pos positive)
  rw [called_pointed isLocal fits placed (.inl ⟨positive, rfl⟩)] at first
  have behind : c.data.length ≤ 4096 := by
    have := fits.request
    rw [length_data]
    simp only [MAX_MSG_SIZE] at this
    omega
  have copy : adr (s.copy c) = 0 := by
    rw [copy_copying]
    rfl
  have other : s.before c (adr (s.pointed c c.data (uspRbf1 c.type)) + 0) = byte :=
    Memory.write_apply_apart (.inr (Nat.le_trans (by omega) (far byte)))
  have first : s.before c (adr (s.pointed c c.data (uspRbf1 c.type)) + 0) =
      c.mem (adr (c.args (uspRbf1 c.type)) + 0) := first
  rw [other] at first
  simp only [byte, Nat.add_zero] at first
  split at first
  · next zero =>
      rw [zero] at first
      cases first
  · next ne => exact ne first.symm

theorem both_of_local (isLocal : LocalCall stub s fn c) (some₁ : c.wsize > 0)
    (some₂ : c.w2size > 0) : uspWbf1 c.type ≠ uspWbf2 c.type := by
  intro same
  obtain ⟨served, result, mem, -, -, asLocal⟩ := isLocal
  have disjoint := asLocal.disjoint some₁ some₂
  rw [same] at disjoint
  exact Nat.not_le.mpr (Nat.lt_add_of_pos_right (toNat_pos some₁)) disjoint

section

variable (isLocal : ∀ s fn, LocalCall stub s fn c) (fits : c.Fits) (placed : c.Placed)
include isLocal fits placed

theorem first_of_local (positive : c.rsize > 0) (some₁ : c.wsize > 0) :
    uspRbf1 c.type ≠ uspWbf1 c.type := by
  intro same
  obtain ⟨far, start⟩ := exists_far
  let s := Server.copying c 0 0 far (room_of_far start)
  refine not_far_of_local isLocal fits placed positive (room_of_far start) ?_
  intro byte
  rw [same, pointed_first (both_of_local (isLocal s fun _ m => (0, m))) some₁]
  exact Nat.le_of_eq start.symm

theorem second_of_local (positive : c.rsize > 0) (some₂ : c.w2size > 0) :
    uspRbf1 c.type ≠ uspWbf2 c.type := by
  intro same
  obtain ⟨far, start⟩ := exists_far
  refine not_far_of_local isLocal fits placed positive (room_of_far start) ?_
  intro byte
  have small := fits.reply
  simp only [MAX_MSG_SIZE] at small
  have behind : adr (far + c.wsize) = adr far + c.wsize.toInt.toNat :=
    adr_add fits.wsize (by rw [start]; omega)
  rw [start] at behind
  rw [same, pointed_second some₂]
  exact Nat.le_trans (Nat.le_add_right 4096 _) (Nat.le_of_eq behind.symm)

/-- The write buffers of the caller do not overlap: the function may leave ones in its first
buffer and twos in its second. -/
theorem apart_of_local (some₁ : c.wsize > 0) (some₂ : c.w2size > 0) :
    adr (c.args (uspWbf1 c.type)) + c.wsize.toInt.toNat ≤ adr (c.args (uspWbf2 c.type)) ∨
    adr (c.args (uspWbf2 c.type)) + c.w2size.toInt.toNat ≤ adr (c.args (uspWbf1 c.type)) := by
  by_contra overlap
  rw [not_or, Nat.not_le, Nat.not_le] at overlap
  obtain ⟨low, high⟩ := overlap
  let n := c.wsize.toInt.toNat
  let marked : Memory := fun x => if x < 4096 + n then 1 else 2
  obtain ⟨far, start⟩ := exists_far
  let s := Server.copying c 0 0 far (room_of_far start)
  obtain ⟨result, mem, asLocal⟩ := AsLocal.called isLocal fits placed s fun _ _ => (0, marked)
  have both := both_of_local (isLocal s fun _ m => (0, m))
  have small := fits.reply
  simp only [MAX_MSG_SIZE] at small
  have start : adr s.msgBuf = 4096 := start
  have behind : adr (s.msgBuf + c.wsize) = adr s.msgBuf + n :=
    adr_add fits.wsize (by rw [start]; omega)
  rw [start] at behind
  have first := asLocal.first some₁
  have second := asLocal.second some₂
  rw [called_pointed isLocal fits placed (.inr (.inl ⟨some₁, rfl⟩)), pointed_first both some₁,
    start] at first
  rw [called_pointed isLocal fits placed (.inr (.inr ⟨some₂, rfl⟩)), pointed_second some₂,
    behind] at second
  have pos₁ := toNat_pos some₁
  have pos₂ := toNat_pos some₂
  -- an address that is in both buffers
  let x := max (adr (c.args (uspWbf1 c.type))) (adr (c.args (uspWbf2 c.type)))
  have one := Memory.apply_of_read first (i := x - adr (c.args (uspWbf1 c.type))) (by omega)
  have two := Memory.apply_of_read second (i := x - adr (c.args (uspWbf2 c.type))) (by omega)
  have low₁ : adr (c.args (uspWbf1 c.type)) ≤ x := Nat.le_max_left ..
  have low₂ : adr (c.args (uspWbf2 c.type)) ≤ x := Nat.le_max_right ..
  rw [Nat.add_sub_cancel' low₁] at one
  rw [Nat.add_sub_cancel' low₂] at two
  have inFirst : 4096 + (x - adr (c.args (uspWbf1 c.type))) < 4096 + n := by omega
  have inSecond : ¬4096 + n + (x - adr (c.args (uspWbf2 c.type))) < 4096 + n := by omega
  simp only [marked, if_pos inFirst] at one
  simp only [marked, if_neg inSecond] at two
  rw [one] at two
  cases two

end

/-- A call with places in the block is local wherever the stub has its buffers, and whatever
the function does, if and only if its places are apart. -/
theorem localCall_iff (stub : Stub) (c : Client) (fits : c.Fits) (placed : c.Placed) :
    (∀ s fn, LocalCall stub s fn c) ↔ c.Proper := by
  refine ⟨fun isLocal => ?_, fun proper s fn => rtNetRpc_of_proper fits placed proper⟩
  exact {
    words := words_of_local (isLocal (.plain 0 0 0 (by decide)) fun _ m => (0, m)) fits
    timed := fun i timed => timed_of_local isLocal fits placed timed
    first := first_of_local isLocal fits placed
    second := second_of_local isLocal fits placed
    both := both_of_local (isLocal (.plain 0 0 0 (by decide)) fun _ m => (0, m))
    size1 := size1_of_local isLocal fits
    size2 := size2_of_local isLocal fits
    apart := apart_of_local isLocal fits placed }

/-- `UR1(1, 2) | UW1(1, 2)`: four bytes at 100 are read and written. -/
def sharing : Client where
  priority := 1
  basePriority := 1
  funExtTimed := 0
  type := ur1 1 2 ||| uw1 1 2
  args := fun i => if i = 1 then 100 else 4
  words := 2
  mem := fun x => if x < 104 then 7 else 0

/-- `UR1(2, 4) | UW1(3, 5)`, as `rt_rpcx` has them. -/
def parted : Client where
  priority := 1
  basePriority := 1
  funExtTimed := 0
  type := ur1 2 4 ||| uw1 3 5
  args := fun i => if i = 2 then 100 else if i = 3 then 200 else 4
  words := 5
  mem := fun x => if x < 104 then 7 else 0

theorem localCall_iff_parted :
    (∀ s fn, LocalCall .soft s fn parted) ↔ parted.Proper := by
  refine localCall_iff .soft parted ?_ ?_
  · constructor <;> decide
  · refine ⟨?_, ?_, ?_⟩
    · rintro i ((⟨-, rfl⟩ | ⟨-, rfl⟩ | ⟨some, -⟩) | ⟨some, -⟩)
      · decide
      · decide
      · exact absurd some (by decide)
      · exact absurd some (by decide)
    · exact fun _ _ => by decide
    · exact fun needed => absurd needed (by decide)

/-- The copy of the read buffer is at 64 and the write buffer of the stub at 128. -/
def node : Server := .plain 0 56 128 (by decide)

/-- The stub puts the address of the write buffer in place of that of the read buffer. -/
theorem sharing_not_localCall :
    sharing.Fits ∧ sharing.Placed ∧
    ¬LocalCall .soft node (fun _ m => (0, m)) sharing := by
  have fits : sharing.Fits := by constructor <;> decide
  refine ⟨fits, ⟨?_, ?_, ?_⟩, ?_⟩
  · rintro i ((⟨-, rfl⟩ | ⟨-, rfl⟩ | ⟨some, -⟩) | ⟨some, -⟩)
    · decide
    · decide
    · exact absurd some (by decide)
    · exact absurd some (by decide)
  · exact fun _ _ => by decide
  · exact fun needed => absurd needed (by decide)
  · intro isLocal
    obtain ⟨served, result, mem, same, -, asLocal⟩ := isLocal.served fits
    have read := asLocal.read (by decide)
    subst same
    exact absurd read (by decide)

end Rtai.NetRpc.RemoteCall
