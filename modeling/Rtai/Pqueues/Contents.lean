import Rtai.Lib.Priority
import Rtai.Pqueues.Calls
import Mathlib.Data.List.Chain
import Mathlib.Data.List.Perm.Subperm

/-!
# What a queue holds

A queue holds a list of entries, each a slot and the message stored in it, in the order
of the links.  `QCtrl.Holds` is the invariant that ties the entries to the memory.  The
first message put into an empty queue is compared with itself and linked to itself; it
then lies at `base`, so the queue is empty again when the link is followed.
-/

namespace Rtai.Pqueues

open Function Rtai.Lib

/-- A message as its sender sees it. -/
structure Message where
  bytes : List UInt8
  priority : Nat
deriving DecidableEq

/-- A message of the same or a lower priority stays behind. -/
def Message.Ahead (a b : Message) : Prop := b.priority ≤ a.priority

instance : DecidableRel Message.Ahead := fun a b => inferInstanceAs (Decidable (b.priority ≤ a.priority))

/-- A slot and the message in it. -/
abbrev Entry := Nat × Message

def Entry.Ahead (a b : Entry) : Prop := a.2.Ahead b.2

instance : DecidableRel Entry.Ahead := fun a b => inferInstanceAs (Decidable (a.2.Ahead b.2))

theorem Entry.ahead_total (a b : Entry) : a.Ahead b ∨ b.Ahead a := le_total ..

variable {b : Entry}

theorem Entry.ahead_trans {a c : Entry} (h : a.Ahead b) (h' : b.Ahead c) : a.Ahead c :=
  Nat.le_trans h' h

theorem Message.ahead_total (a b : Message) : a.Ahead b ∨ b.Ahead a := le_total ..

theorem Message.ahead_trans {a b c : Message} (h : a.Ahead b) (h' : b.Ahead c) : a.Ahead c :=
  Nat.le_trans h' h

/-! ## The memory -/

variable {e : Entry}

namespace Memory

variable {m m' : Memory} {p r : Nat}

@[simp] theorem setHdr_self {hdr : MsgHdr} : m.setHdr p hdr p = { m p with hdr := hdr } :=
  update_self ..

@[simp] theorem setHdr_other {hdr : MsgHdr} (h : r ≠ p) : m.setHdr p hdr r = m r :=
  update_of_ne h ..

/-- The slot holds the message. -/
structure Stored (m : Memory) (e : Entry) : Prop where
  priority : (m e.1).hdr.priority = e.2.priority
  size : (m e.1).hdr.size = e.2.bytes.length
  bytes : m.bytes e.1 e.2.bytes.length = e.2.bytes

/-- The message is not touched by writes to the other fields of its slot. -/
theorem Stored.congr (h : m.Stored e) (priority : (m' e.1).hdr.priority = (m e.1).hdr.priority)
    (size : (m' e.1).hdr.size = (m e.1).hdr.size) (data : (m' e.1).data = (m e.1).data) :
    m'.Stored e := by
  refine ⟨priority.trans h.priority, size.trans h.size, ?_⟩
  rw [Memory.bytes, data]
  exact h.bytes

theorem Stored.frame (h : m.Stored e) (same : m' e.1 = m e.1) : m'.Stored e :=
  h.congr (by rw [same]) (by rw [same]) (by rw [same])

theorem stored_store (msg : Message) : (m.store p msg.bytes msg.priority).Stored (p, msg) := by
  have self : m.store p msg.bytes msg.priority p = _ := update_self ..
  refine ⟨by rw [self], by rw [self], ?_⟩
  rw [Memory.bytes, self]
  refine List.ext_getElem (by simp) fun i hi hi' => ?_
  simp [List.getD, List.getElem?_eq_getElem hi']

end Memory

/-! ## What a queue holds -/

namespace QCtrl

variable {q q' : QCtrl} {m m' : Memory} {l back : List Entry} {p : Nat} {msg : Message}

/-- The `k`-th slot. -/
def slot (q : QCtrl) (k : Nat) : Nat := q.base + k * q.msgSize

/-- The address is that of a slot. -/
def IsSlot (q : QCtrl) (p : Nat) : Prop := ∃ k, k < q.attrs.mqMaxmsg ∧ p = q.slot k

/-- The queue holds the entries, in this order. -/
structure Holds (q : QCtrl) (m : Memory) (l : List Entry) : Prop where
  base : q.base ≠ 0
  head : q.head = (l.map Prod.fst).headD q.base
  tail : q.tail = (l.map Prod.fst).getLastD q.base
  nodup : (l.map Prod.fst).Nodup
  slots : ∀ e ∈ l, q.IsSlot e.1
  inUse : ∀ p, q.IsSlot p → ((m p).hdr.inUse = true ↔ p ∈ l.map Prod.fst)
  spare : ∀ p, q.IsSlot p → p ∉ l.map Prod.fst → (m p).hdr.next = 0
  links : (l.map Prod.fst).IsChain fun p r => (m p).hdr.next = r
  last : ∀ p ∈ (l.map Prod.fst).getLast?,
    (m p).hdr.next = 0 ∨ p = q.base ∧ (m p).hdr.next = q.base
  stored : ∀ e ∈ l, m.Stored e
  order : InOrder Entry.Ahead l
  count : q.attrs.mqCurmsgs = l.length

/-- The slots of the queue are wide enough for a message, and apart. -/
def Wide (q : QCtrl) : Prop := q.attrs.mqMsgsize + MSG_HDR_SIZE ≤ 127

theorem Wide.msgSize (wide : q.Wide) : q.msgSize = q.attrs.mqMsgsize + MSG_HDR_SIZE :=
  Nat.mod_eq_of_lt (Nat.lt_of_le_of_lt wide (by decide))

theorem Wide.charOf (wide : q.Wide) :
    charOf (q.attrs.mqMsgsize + MSG_HDR_SIZE) = q.msgSize := by
  have small := wide
  rw [Wide] at small
  rw [wide.msgSize, Pqueues.charOf, if_pos (by omega)]
  omega

theorem IsSlot.ne_zero (h : q.IsSlot p) (base : q.base ≠ 0) : p ≠ 0 := by
  obtain ⟨k, -, rfl⟩ := h
  rw [slot]
  omega

/-! ## A free slot -/

/-- The loop finds the first slot that is not in use. -/
theorem getnodeLoop_spec {size msg : Nat} : ∀ {k : Nat}, getnodeLoop m size k msg = some p →
    ∃ j < k, p = msg + j * size ∧ (m p).hdr.inUse = false ∧
      ∀ i < j, (m (msg + i * size)).hdr.inUse = true := by
  intro k h
  induction k generalizing msg with
  | zero => cases h
  | succ k ih =>
      rw [getnodeLoop] at h
      split at h
      next used =>
        obtain ⟨j, hj, rfl, free, before⟩ := ih h
        refine ⟨j + 1, by omega, by rw [Nat.succ_mul]; omega, free, fun i hi => ?_⟩
        cases i with
        | zero => simpa using used
        | succ i =>
            have at_i := before i (by omega)
            rwa [show msg + size + i * size = msg + (i + 1) * size by rw [Nat.succ_mul]; omega] at at_i
      next free =>
        cases h
        exact ⟨0, by omega, by omega, by simpa using free, by omega⟩

/-- `getnode` finds a slot that holds no message; in an empty queue it is the first. -/
theorem Holds.getnode (h : q.Holds m l) (found : getnodeLoop m q.msgSize q.attrs.mqMaxmsg q.base = some p) :
    q.IsSlot p ∧ p ∉ l.map Prod.fst ∧ (l = [] → p = q.base) := by
  obtain ⟨j, hj, rfl, free, before⟩ := getnodeLoop_spec found
  have slot : q.IsSlot (q.base + j * q.msgSize) := ⟨j, hj, rfl⟩
  refine ⟨slot, fun mem => ?_, fun empty => ?_⟩
  · rw [(h.inUse _ slot).mpr mem] at free
    cases free
  · subst empty
    rcases Nat.eq_zero_or_pos j with rfl | pos
    · rw [Nat.zero_mul, Nat.add_zero]
    · have used := before 0 pos
      have first : q.IsSlot (q.base + 0 * q.msgSize) := ⟨0, by omega, rfl⟩
      exact absurd ((h.inUse _ first).mp used) (by simp)

/-! ## Putting a message into the list -/

/-- An element comes between `front` and `back`. -/
theorem chain_insert {next next' : Nat → Nat} {front back : List Nat}
    (chain : (front ++ back).IsChain fun p r => next p = r) (nodup : (front ++ back).Nodup)
    (keeps : ∀ a ∈ front ++ back, a ∉ front.getLast? → next' a = next a)
    (prev : ∀ a ∈ front.getLast?, next' a = p) (succ : ∀ b ∈ back.head?, next' p = b) :
    (front ++ p :: back).IsChain fun p r => next' p = r := by
  obtain ⟨chainFront, chainBack, -⟩ := List.isChain_append.mp chain
  obtain ⟨nodupFront, -, disjoint⟩ := List.nodup_append.mp nodup
  refine List.isChain_append.mpr ⟨?_, List.isChain_cons.mpr ⟨succ, ?_⟩, ?_⟩
  · -- only the last of `front` is linked anew, and its link leads out of `front`
    rcases List.eq_nil_or_concat front with rfl | ⟨init, a, rfl⟩
    · exact .nil
    · rw [List.concat_eq_append] at *
      obtain ⟨chainInit, -, join⟩ := List.isChain_append.mp chainFront
      have other (b : Nat) (hb : b ∈ init) : next' b = next b := by
        refine keeps b (by simp [hb]) ?_
        rw [List.getLast?_append]
        rintro ⟨⟩
        exact (List.nodup_append.mp nodupFront).2.2 _ hb _ (List.mem_singleton_self _) rfl
      refine List.isChain_append.mpr ⟨?_, .singleton a, fun b hb => ?_⟩
      · exact chainInit.imp_of_mem_imp fun b c hb _ link => (other b hb).trans link
      · intro c hc
        exact (other b (List.mem_of_mem_getLast? hb)).trans (join b hb c hc)
  · refine chainBack.imp_of_mem_imp fun b c hb _ link => (keeps b (by simp [hb]) ?_).trans link
    exact fun mem => disjoint b (List.mem_of_mem_getLast? mem) b hb rfl
  · rintro a ha _ ⟨⟩
    exact prev a ha

/-- The memories agree, the links aside. -/
def SameBut (m m' : Memory) : Prop :=
  ∀ r, m' r = { m r with hdr := { (m r).hdr with next := (m' r).hdr.next } }

theorem SameBut.setNext {r next : Nat} : SameBut m (m.setNext r next) := by
  intro a
  rcases eq_or_ne a r with rfl | other
  · simp [Memory.setNext]
  · rw [Memory.setNext, Memory.setHdr_other other]

theorem SameBut.trans {m'' : Memory} (h : SameBut m m') (h' : SameBut m' m'') : SameBut m m'' := by
  intro r
  rw [h' r, h r]

/-- The slot with the message written to it. -/
def fill (p : Nat) (msg : Message) (m : Memory) : Memory :=
  (m.setInUse p true).store p msg.bytes msg.priority

theorem fill_other {r : Nat} (other : r ≠ p) : fill p msg m r = m r := by
  rw [fill, Memory.store, update_of_ne other, Memory.setInUse, Memory.setHdr_other other]

theorem fill_self : (fill p msg m p).hdr =
    { (m p).hdr with inUse := true, size := msg.bytes.length, priority := msg.priority } := by
  rw [fill, Memory.store, update_self, Memory.setInUse, Memory.setHdr_self]

/-- The filled slot is linked into its place. -/
theorem Holds.insert (h : q.Holds m l) (slot : q.IsSlot p) (out : p ∉ l.map Prod.fst)
    (front back : List Entry) (split : l = front ++ back)
    (placed : enqueue Entry.Ahead (p, msg) l = front ++ (p, msg) :: back)
    (same : SameBut (fill p msg m) m')
    (keeps : ∀ a, a ≠ p → a ∉ (front.map Prod.fst).getLast? → (m' a).hdr.next = (m a).hdr.next)
    (prev : ∀ a ∈ (front.map Prod.fst).getLast?, (m' a).hdr.next = p)
    (succ : ∀ b ∈ (back.map Prod.fst).head?, (m' p).hdr.next = b)
    (ending : back = [] → (m' p).hdr.next = 0 ∨ p = q.base ∧ (m' p).hdr.next = q.base)
    (base : q'.base = q.base)
    (attrs : q'.attrs = { q.attrs with mqCurmsgs := q.attrs.mqCurmsgs + 1 })
    (head : q'.head = ((front ++ (p, msg) :: back).map Prod.fst).headD q.base)
    (tail : q'.tail = ((front ++ (p, msg) :: back).map Prod.fst).getLastD q.base) :
    q'.Holds m' (enqueue Entry.Ahead (p, msg) l) := by
  have perm : (front ++ (p, msg) :: back).Perm ((p, msg) :: l) := by
    rw [split]
    exact List.perm_middle
  have pointers : ((front ++ (p, msg) :: back).map Prod.fst).Perm (p :: l.map Prod.fst) :=
    perm.map Prod.fst
  have isSlot (r : Nat) : q'.IsSlot r ↔ q.IsSlot r := by
    simp only [IsSlot, QCtrl.slot, msgSize, base, attrs]
  have outside (r : Nat) (hr : r ∈ l.map Prod.fst) : r ≠ p := fun e => out (e ▸ hr)
  rw [placed]
  refine ⟨base ▸ h.base, base ▸ head, base ▸ tail, ?_, fun e he => ?_, fun r hr => ?_, fun r hr hn => ?_,
    ?_, fun r hr => ?_, fun e he => ?_, placed ▸ h.order.enqueue Entry.ahead_total Entry.ahead_trans, ?_⟩
  · exact pointers.nodup_iff.mpr (List.nodup_cons.mpr ⟨out, h.nodup⟩)
  · refine (isSlot _).mpr ?_
    rcases List.mem_cons.mp (perm.mem_iff.mp he) with rfl | he
    · exact slot
    · exact h.slots e he
  · rw [pointers.mem_iff, List.mem_cons, same r]
    rcases eq_or_ne r p with rfl | other
    · simp [fill_self]
    · rw [fill_other other, h.inUse r ((isSlot r).mp hr)]
      simp [other]
  · rw [pointers.mem_iff, List.mem_cons, not_or] at hn
    rw [keeps r hn.1 fun mem => hn.2 ?_]
    · exact h.spare r ((isSlot r).mp hr) hn.2
    · rw [split, List.map_append]
      exact List.mem_append_left _ (List.mem_of_mem_getLast? mem)
  · have links := h.links
    have nodup := h.nodup
    rw [split, List.map_append] at links nodup
    rw [List.map_append]
    refine chain_insert links nodup (fun a ha => keeps a (outside a ?_)) prev succ
    rwa [split, List.map_append]
  · rcases List.eq_nil_or_concat back with rfl | ⟨init, e, rfl⟩
    · simp only [List.map_append, List.map_cons, List.map_nil, List.getLast?_append,
        List.getLast?_singleton, Option.some_or] at hr
      cases hr
      exact base ▸ ending rfl
    · -- the last of `back` was the last before, and is not the last of `front`
      obtain rfl : r = e.1 := by
        simp [List.getLast?_cons] at hr
        exact hr.symm
      have last : e.1 ∈ (l.map Prod.fst).getLast? := by
        rw [split]
        simp
      have inside := List.mem_of_mem_getLast? last
      rw [keeps e.1 (outside _ inside) fun mem => ?_, base]
      · exact h.last _ last
      · have nodup := h.nodup
        rw [split, List.map_append] at nodup
        refine (List.nodup_append.mp nodup).2.2 _ (List.mem_of_mem_getLast? mem) e.1 ?_ rfl
        simp
  · rcases List.mem_cons.mp (perm.mem_iff.mp he) with rfl | he
    · refine (Memory.stored_store (m := m.setInUse p true) msg).congr ?_ ?_ ?_
      all_goals rw [same]; rfl
    · have other := outside e.1 (List.mem_map_of_mem he)
      refine (h.stored e he).congr ?_ ?_ ?_
      all_goals rw [same, fill_other other]
  · rw [attrs, perm.length_eq, List.length_cons, h.count]

/-- A queue has no more messages than slots. -/
theorem Holds.length_le (h : q.Holds m l) : l.length ≤ q.attrs.mqMaxmsg := by
  have subset : l.map Prod.fst ⊆ (List.range q.attrs.mqMaxmsg).map q.slot := by
    intro p hp
    obtain ⟨e, he, rfl⟩ := List.mem_map.mp hp
    obtain ⟨k, hk, at_k⟩ := h.slots e he
    exact List.mem_map.mpr ⟨k, List.mem_range.mpr hk, at_k.symm⟩
  simpa using (List.Nodup.subperm h.nodup subset).length_le

/-- The loop stops at the first message of a lower priority. -/
theorem insertPoint_spec {prio : Nat} :
    ∀ {front : List Entry} {k i : Nat}, (∀ e ∈ front ++ b :: back, e.1 ≠ 0) →
      (∀ e ∈ front ++ b :: back, (m e.1).hdr.priority = e.2.priority) →
      (((front ++ b :: back).map Prod.fst).IsChain fun p r => (m p).hdr.next = r) →
      (∀ e ∈ front, prio ≤ e.2.priority) → b.2.priority < prio → front.length < k →
      insertPoint m prio k i (((front ++ b :: back).map Prod.fst).headD 0) =
        some ((front.map Prod.fst).getLastD i, b.1) := by
  intro front k i nonzero prios chain before behind enough
  obtain ⟨k, rfl⟩ := Nat.exists_eq_succ_of_ne_zero (Nat.ne_zero_of_lt enough)
  induction front generalizing k i with
  | nil =>
      have hb : b ∈ [] ++ b :: back := List.mem_cons_self
      have low : ¬(m b.1).hdr.priority ≥ prio := by
        rw [prios b hb]
        omega
      exact (if_neg (nonzero b hb)).trans (if_neg low)
  | cons e front ih =>
      have he : e ∈ (e :: front) ++ b :: back := List.mem_cons_self
      have high : (m e.1).hdr.priority ≥ prio := by
        rw [prios e he]
        exact before e List.mem_cons_self
      obtain ⟨link, chain⟩ := List.isChain_cons.mp chain
      have next : (m e.1).hdr.next = ((front ++ b :: back).map Prod.fst).headD 0 := by
        refine link _ ?_
        cases front <;> rfl
      have later {f : Entry} (hf : f ∈ front ++ b :: back) : f ∈ (e :: front) ++ b :: back :=
        List.mem_cons_of_mem e hf
      rw [List.length_cons] at enough
      obtain ⟨k, rfl⟩ := Nat.exists_eq_succ_of_ne_zero (n := k) (by omega)
      have rest := ih (i := e.1) (fun f hf => nonzero f (later hf)) (fun f hf => prios f (later hf))
        chain (fun f hf => before f (List.mem_cons_of_mem e hf)) k (by omega)
      rw [← next] at rest
      refine ((if_neg (nonzero e he)).trans (if_pos high)).trans (rest.trans ?_)
      rw [List.map_cons, List.getLastD_cons]

/-- What `insert_message` does with the slot `p` and the message in it. -/
def Inserts (q : QCtrl) (m : Memory) (p : Nat) (msg : Message) (l : List Entry) : Prop :=
  ∃ q' m', { q with attrs := { q.attrs with mqCurmsgs := q.attrs.mqCurmsgs + 1 } }.insertMessage
      .posix p (fill p msg m) = some (q', m') ∧
    q'.Holds m' (enqueue Entry.Ahead (p, msg) l) ∧ q'.base = q.base ∧
    q'.attrs = { q.attrs with mqCurmsgs := q.attrs.mqCurmsgs + 1 }

/-- Into an empty queue: the message is compared with itself and linked to itself. -/
theorem Holds.insertFirst (h : q.Holds m []) (slot : q.IsSlot p) (first : p = q.base) :
    q.Inserts m p msg [] := by
  have tail : q.tail = p := h.tail.trans first.symm
  have linked : ((fill p msg m).setNext q.tail p p).hdr.next = q.base := by
    rw [tail, Memory.setNext, Memory.setHdr_self, first]
  refine ⟨_, _, if_pos (le_of_eq (by rw [tail])), h.insert slot nofun [] []
    rfl rfl .setNext (fun a other _ => ?_) nofun nofun (fun _ => .inr ⟨first, linked⟩) rfl rfl
    (h.head.trans first.symm) rfl, rfl, rfl⟩
  rw [tail, Memory.setNext, Memory.setHdr_other other, fill_other other]

theorem Holds.stored_priority (h : q.Holds m l) (out : p ∉ l.map Prod.fst) (he : e ∈ l) :
    (fill p msg m e.1).hdr.priority = e.2.priority := by
  have other : e.1 ≠ p := fun same => out (same ▸ List.mem_map_of_mem he)
  rw [fill_other other, (h.stored e he).priority]

/-- Behind everything. -/
theorem Holds.insertLast {init : List Entry} {last : Entry} (h : q.Holds m (init ++ [last]))
    (slot : q.IsSlot p) (out : p ∉ (init ++ [last]).map Prod.fst) (high : last.Ahead (p, msg)) :
    q.Inserts m p msg (init ++ [last]) := by
  have tail : q.tail = last.1 := by simpa using h.tail
  have mem : last ∈ init ++ [last] := by simp
  have other : p ≠ q.tail := fun same => out (same ▸ tail ▸ List.mem_map_of_mem mem)
  have behind (e : Entry) (he : e ∈ init ++ [last]) : e.Ahead (p, msg) := by
    rcases List.mem_append.mp he with he | he
    · exact Entry.ahead_trans ((List.pairwise_append.mp h.order).2.2 e he last (by simp)) high
    · exact List.mem_singleton.mp he ▸ high
  refine ⟨_, _, if_pos ?_, h.insert slot out (init ++ [last]) [] (by simp)
    (enqueue_last behind) .setNext (fun a ha notLast => ?_) (fun a isLast => ?_) nofun
    (fun _ => .inl ?_) rfl rfl ?_ (by simp), rfl, rfl⟩
  · show (fill p msg m q.tail).hdr.priority ≥ (fill p msg m p).hdr.priority
    rw [fill_self, tail, h.stored_priority out mem]
    exact high
  · have unlinked : a ≠ q.tail := fun e => notLast (by simp [e, tail])
    rw [Memory.setNext, Memory.setHdr_other unlinked, fill_other ha]
  · obtain rfl : last.1 = a := by simpa using isLast
    rw [tail, Memory.setNext, Memory.setHdr_self]
  · rw [Memory.setNext, Memory.setHdr_other other, fill_self]
    exact h.spare p slot out
  · rw [h.head]
    cases init <;> rfl

/-- Before the first message of a lower priority. -/
theorem Holds.insertBefore {front : List Entry} (h : q.Holds m (front ++ b :: back))
    (slot : q.IsSlot p) (out : p ∉ (front ++ b :: back).map Prod.fst)
    (placed : enqueue Entry.Ahead (p, msg) (front ++ b :: back) = front ++ (p, msg) :: b :: back)
    (before : ∀ e ∈ front, e.Ahead (p, msg)) (behind : ¬b.Ahead (p, msg)) :
    q.Inserts m p msg (front ++ b :: back) := by
  have prio : (fill p msg m p).hdr.priority = msg.priority := by
    rw [fill_self]
  have outside {e : Entry} (he : e ∈ front ++ b :: back) : e.1 ≠ p := fun same =>
    out (same ▸ List.mem_map_of_mem he)
  have low : b.2.priority < msg.priority := Nat.lt_of_not_le behind
  have lowest : ¬(fill p msg m q.tail).hdr.priority ≥ (fill p msg m p).hdr.priority := by
    obtain ⟨last, isLast⟩ := Option.ne_none_iff_exists'.mp
      (mt List.getLast?_eq_none_iff.mp (List.append_ne_nil_of_right_ne_nil front (List.cons_ne_nil b back)))
    have mem := List.mem_of_mem_getLast? isLast
    have tail : q.tail = last.1 := by
      rw [h.tail, List.getLastD_eq_getLast?, List.getLast?_map, isLast]
      rfl
    have below : last.2.priority ≤ b.2.priority := by
      have order := (List.pairwise_append.mp h.order).2.1
      rw [List.getLast?_append, List.getLast?_cons, Option.some_or] at isLast
      rcases List.eq_nil_or_concat back with rfl | ⟨init, e, rfl⟩
      · cases isLast
        exact le_rfl
      · obtain rfl : e = last := by simpa using isLast
        exact (List.pairwise_cons.mp order).1 e (by simp)
    rw [tail, h.stored_priority out mem, prio]
    omega
  have chain : ((front ++ b :: back).map Prod.fst).IsChain fun a r => (fill p msg m a).hdr.next = r := by
    refine h.links.imp_of_mem_imp fun a r ha _ link => ?_
    obtain ⟨e, he, rfl⟩ := List.mem_map.mp ha
    rw [fill_other (outside he)]
    exact link
  have room : front.length < q.attrs.mqMaxmsg + 1 := by
    have fits := h.length_le
    rw [List.length_append] at fits
    omega
  have found := insertPoint_spec (i := q.head) (fun e he => (h.slots e he).ne_zero h.base)
    (fun e he => h.stored_priority out he) chain before low room
  have start : ((front ++ b :: back).map Prod.fst).headD 0 = q.head := by
    rw [h.head]
    cases front <;> rfl
  rw [start] at found
  rcases List.eq_nil_or_concat front with rfl | ⟨init, f, rfl⟩
  · -- at the head
    have atHead : b.1 = q.head := h.head.symm
    refine ⟨{ q with
        head := p, attrs := { q.attrs with mqCurmsgs := q.attrs.mqCurmsgs + 1 } },
      (fill p msg m).setNext p q.head, ?_, h.insert slot out [] (b :: back) rfl placed .setNext
      (fun a ha _ => ?_) nofun (fun r hr => ?_) nofun rfl rfl rfl ?_, rfl, rfl⟩
    · refine (if_neg lowest).trans ?_
      rw [prio]
      show (insertPoint (fill p msg m) msg.priority (q.attrs.mqMaxmsg + 1) q.head q.head >>= _) = _
      rw [found]
      exact if_pos atHead
    · rw [Memory.setNext, Memory.setHdr_other ha, fill_other ha]
    · cases hr
      rw [Memory.setNext, Memory.setHdr_self]
      exact atHead.symm
    · rw [h.tail]
      rfl
  · -- behind `f`
    rw [List.concat_eq_append] at *
    have mem : f ∈ init ++ [f] ++ b :: back := by simp
    have link : (fill p msg m f.1).hdr.next = b.1 := by
      rw [List.map_append, List.isChain_append] at chain
      exact chain.2.2 f.1 (by simp) b.1 rfl
    have inside : b.1 ≠ q.head := by
      intro same
      have nodup := h.nodup
      rw [List.map_append, List.nodup_append] at nodup
      refine nodup.2.2 q.head ?_ b.1 (by simp) same.symm
      rw [← start]
      cases init <;> simp
    have other : p ≠ f.1 := (outside mem).symm
    refine ⟨{ q with attrs := { q.attrs with mqCurmsgs := q.attrs.mqCurmsgs + 1 } },
      ((fill p msg m).setNext p b.1).setNext f.1 p, ?_, h.insert slot out (init ++ [f]) (b :: back) rfl placed (.trans .setNext .setNext)
      (fun a ha notLast => ?_) (fun a isLast => ?_) (fun r hr => ?_) nofun rfl rfl ?_ ?_, rfl, rfl⟩
    · refine (if_neg lowest).trans ?_
      rw [prio]
      show (insertPoint (fill p msg m) msg.priority (q.attrs.mqMaxmsg + 1) q.head q.head >>= _) = _
      rw [found, ← link]
      have last : ((init ++ [f]).map Prod.fst).getLastD q.head = f.1 := by simp
      rw [last]
      exact if_neg (link ▸ inside)
    · have unlinked : a ≠ f.1 := fun e => notLast (by simp [e])
      rw [Memory.setNext, Memory.setHdr_other unlinked, Memory.setNext, Memory.setHdr_other ha,
        fill_other ha]
    · obtain rfl : f.1 = a := by simpa using isLast
      rw [Memory.setNext, Memory.setHdr_self]
    · cases hr
      rw [Memory.setNext, Memory.setHdr_other other, Memory.setNext, Memory.setHdr_self]
    · rw [h.head]
      cases init <;> rfl
    · rw [h.tail]
      simp [List.getLastD_eq_getLast?, List.getLast?_cons]

/-- `insert_message` puts the message behind those of its own priority. -/
theorem Holds.insertMessage (h : q.Holds m l) (msg : Message) (slot : q.IsSlot p) (out : p ∉ l.map Prod.fst)
    (empty : l = [] → p = q.base) : q.Inserts m p msg l := by
  rcases List.eq_nil_or_concat l with rfl | ⟨init, last, rfl⟩
  · exact h.insertFirst slot (empty rfl)
  rw [List.concat_eq_append] at *
  by_cases high : last.Ahead (p, msg)
  · exact h.insertLast slot out high
  obtain ⟨front, back, split, placed, before, behind⟩ :=
    enqueue_split Entry.Ahead (p, msg) (init ++ [last])
  obtain ⟨b, back, rfl⟩ : ∃ b rest, back = b :: rest := by
    refine List.exists_cons_of_ne_nil fun none => high (before last ?_)
    rw [none, List.append_nil] at split
    simp [← split]
  rw [split] at h out placed ⊢
  exact h.insertBefore slot out placed before (behind b rfl)

/-! ## Taking the first message -/

/-- The slot at the head is given back, and the next one is the head. -/
theorem Holds.takeHead (h : q.Holds m (e :: l)) :
    (q.takeHead m).1.Holds (q.takeHead m).2 l ∧ (q.takeHead m).1.attrs.mqMsgsize = q.attrs.mqMsgsize := by
  have head : q.head = e.1 := h.head
  obtain ⟨out, nodup⟩ := List.nodup_cons.mp h.nodup
  obtain ⟨link, links⟩ := List.isChain_cons.mp h.links
  have outside {r : Nat} (hr : r ∈ l.map Prod.fst) : r ≠ e.1 := fun same => out (same ▸ hr)
  have frame {r : Nat} (hr : r ≠ e.1) : (q.takeHead m).2 r = m r := Memory.setHdr_other (head ▸ hr)
  have freed : ((q.takeHead m).2 e.1).hdr = { (m e.1).hdr with inUse := false, size := 0, next := 0 } := by
    show (m.setHdr q.head _ e.1).hdr = _
    rw [head, Memory.setHdr_self]
  have base : (q.takeHead m).1.base = q.base := by
    unfold QCtrl.takeHead
    dsimp only
    split <;> rfl
  have attrs : (q.takeHead m).1.attrs = { q.attrs with mqCurmsgs := q.attrs.mqCurmsgs - 1 } := by
    unfold QCtrl.takeHead
    dsimp only
    split <;> rfl
  have isSlot (r : Nat) : (q.takeHead m).1.IsSlot r ↔ q.IsSlot r := by
    simp only [IsSlot, QCtrl.slot, msgSize, base, attrs]
  have ends : (q.takeHead m).1.head = (l.map Prod.fst).headD q.base ∧
      (q.takeHead m).1.tail = (l.map Prod.fst).getLastD q.base := by
    cases l with
    | nil =>
        have next : (m q.head).hdr.next = 0 ∨ (m q.head).hdr.next = q.base ∧ q.tail = q.base := by
          rw [head, h.tail]
          exact (h.last e.1 rfl).imp_right fun self => ⟨self.2, self.1⟩
        unfold QCtrl.takeHead
        dsimp only
        split
        next => exact ⟨rfl, rfl⟩
        next nonzero => exact next.resolve_left nonzero
    | cons f l =>
        have next : (m q.head).hdr.next = f.1 := head ▸ link f.1 rfl
        have nonzero : ¬(m q.head).hdr.next = 0 := by
          rw [next]
          exact (h.slots f (by simp)).ne_zero h.base
        unfold QCtrl.takeHead
        dsimp only
        rw [if_neg nonzero]
        refine ⟨next, h.tail.trans ?_⟩
        simp [List.getLastD_eq_getLast?, List.getLast?_cons]
  refine ⟨⟨base ▸ h.base, base ▸ ends.1, base ▸ ends.2, nodup, fun f hf => ?_, fun r hr => ?_,
    fun r hr hn => ?_, ?_, fun r hr => ?_, fun f hf => ?_, (List.pairwise_cons.mp h.order).2, ?_⟩, ?_⟩
  · exact (isSlot _).mpr (h.slots f (List.mem_cons_of_mem e hf))
  · rcases eq_or_ne r e.1 with rfl | other
    · rw [freed]
      exact ⟨nofun, fun mem => absurd mem out⟩
    · rw [frame other, h.inUse r ((isSlot r).mp hr), List.map_cons, List.mem_cons]
      exact or_iff_right other
  · rcases eq_or_ne r e.1 with rfl | other
    · rw [freed]
    · rw [frame other]
      refine h.spare r ((isSlot r).mp hr) fun mem => ?_
      exact (List.mem_cons.mp mem).elim other hn
  · refine links.imp_of_mem_imp fun r c hr _ link => ?_
    rw [frame (outside hr)]
    exact link
  · rw [frame (outside (List.mem_of_mem_getLast? hr)), base]
    refine h.last r ?_
    rw [List.map_cons, List.getLast?_cons, hr]
    rfl
  · exact (h.stored f (List.mem_cons_of_mem e hf)).frame (frame (outside (List.mem_map_of_mem hf)))
  · rw [attrs, h.count]
    rfl
  · rw [attrs]

/-! ## A new queue -/

/-- A cleared header stays cleared. -/
theorem initialiseLoop_cleared {w : Nat} : ∀ {k msg : Nat} {m : Memory}, (m p).hdr = {} →
    (initialiseLoop w k msg m p).hdr = {}
  | 0, _, _, h => h
  | k + 1, msg, m, h => by
      refine initialiseLoop_cleared (k := k) ?_
      rcases eq_or_ne p msg with rfl | other
      · rw [Memory.setHdr_self]
        rfl
      · rwa [Memory.setHdr_other other]

theorem initialiseLoop_spec {w : Nat} : ∀ {k i j : Nat} {m : Memory}, j < k →
    (initialiseLoop w k i m (i + j * w)).hdr = {}
  | k + 1, msg, 0, m, _ => by
      refine initialiseLoop_cleared (k := k) ?_
      rw [Nat.zero_mul, Nat.add_zero, Memory.setHdr_self]
      rfl
  | k + 1, msg, j + 1, m, h => by
      have rest := initialiseLoop_spec (w := w) (i := msg + w) (j := j)
        (m := m.setHdr msg {}) (Nat.lt_of_succ_lt_succ h)
      rw [show msg + w + j * w = msg + (j + 1) * w by rw [Nat.succ_mul]; omega] at rest
      exact rest

theorem Holds.fresh (base : q.base ≠ 0) (head : q.head = q.base) (tail : q.tail = q.base)
    (count : q.attrs.mqCurmsgs = 0) (wide : q.Wide) : q.Holds (q.initialiseQueue m) [] := by
  have cleared (r : Nat) (hr : q.IsSlot r) : (q.initialiseQueue m r).hdr = {} := by
    obtain ⟨k, hk, rfl⟩ := hr
    rw [initialiseQueue, if_neg base, wide.charOf]
    exact initialiseLoop_spec hk
  refine ⟨base, head, tail, .nil, nofun, fun r hr => ?_, fun r hr _ => ?_, .nil, nofun, nofun, .nil, count⟩
  · rw [cleared r hr]
    exact ⟨nofun, nofun⟩
  · rw [cleared r hr]

/-! ## What a reader of the list finds -/

/-- The messages of `k` slots, from `p` on along the links. -/
def walk (m : Memory) : Nat → Nat → List Message
  | 0, _ => []
  | k + 1, p => ⟨m.bytes p (m p).hdr.size, (m p).hdr.priority⟩ :: walk m k (m p).hdr.next

/-- The messages of the queue, from the head on. -/
def contents (q : QCtrl) (m : Memory) : List Message := walk m q.attrs.mqCurmsgs q.head

theorem walk_eq : ∀ {l : List Entry} {p : Nat},
    ((l.map Prod.fst).IsChain fun p r => (m p).hdr.next = r) → (∀ e ∈ l, m.Stored e) →
    (∀ r ∈ (l.map Prod.fst).head?, p = r) → walk m l.length p = l.map Prod.snd
  | [], _, _, _, _ => rfl
  | e :: l, p, links, stored, head => by
      obtain ⟨link, links⟩ := List.isChain_cons.mp links
      obtain rfl : p = e.1 := head e.1 rfl
      have self := stored e List.mem_cons_self
      rw [List.length_cons, walk, self.size, self.bytes, self.priority, List.map_cons]
      exact congrArg _ (walk_eq links (fun f hf => stored f (List.mem_cons_of_mem e hf)) link)

theorem Holds.contents (h : q.Holds m l) : q.contents m = l.map Prod.snd := by
  rw [QCtrl.contents, h.count]
  refine walk_eq h.links h.stored fun r hr => ?_
  rw [h.head, List.headD_eq_head?_getD, hr]
  rfl

end QCtrl

end Rtai.Pqueues
