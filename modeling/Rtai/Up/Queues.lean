import Rtai.Up.System
import Rtai.Lib.Waiters

/-!
# The queues tasks block on

`OnQueues L b` says that the `prev`/`next` links `L` hold one ring for every
queue, and that the node of a task is on the ring of `q` exactly when
`b t = some q`.  `b` is `blocked_on` wherever the code keeps the two together.

An insertion is described by what it does to any such `b`: `Enqueues` for
`enqueue_blocked`, `Requeues` for the loops that move a blocked task to the
place of its new priority.  `Passes` says what these loops do to the
priorities.
-/

namespace Rtai.Up

open Function Rtai.Lib

variable {n : Nat}

/-- One ring for every queue, with the tasks that are blocked on it. -/
def OnQueues (L : Links (QNode n)) (b : Task n → Option (Queue n)) : Prop :=
  ∃ l, Rings L QNode.head l ∧ ∀ q x, x ∈ l q ↔ ∃ t, x = .queue t ∧ b t = some q

/-- A node of the ring of `q`, the head included. -/
def OnRing (b : Task n → Option (Queue n)) (q : Queue n) (x : QNode n) : Prop :=
  x = .head q ∨ ∃ t, x = .queue t ∧ b t = some q

variable {L : Links (QNode n)} {b b' : Task n → Option (Queue n)} {q : Queue n} {t : Task n}
  {x y : QNode n}

/-- Heads and nodes of tasks are told apart. -/
theorem nodes_separate : Separate (QNode.head (n := n)) QNode.queue := ⟨nofun, fun _ _ => QNode.queue.inj⟩

namespace OnQueues

section

variable (h : OnQueues L b)
include h

theorem congr (e : ∀ t, b' t = b t) : OnQueues L b' := OnRings.congr h e

theorem seek {stop : QNode n → Bool} {k : Nat} {x : QNode n} (hx : OnRing b q x)
    (e : seek L.next stop k x = some y) : OnRing b q y := OnRings.seek h hx e

/-- The first node of a queue is that of a task blocked on it, or the head. -/
theorem first (q : Queue n) : OnRing b q (L.next (.head q)) := OnRings.first h q

/-- Nobody is blocked on a queue whose head is its own successor. -/
theorem empty (e : L.next (.head q) = .head q) (t : Task n) : b t ≠ some q :=
  OnRings.empty h e t

/-- The head of a queue nobody is blocked on is its own neighbour. -/
theorem of_empty (e : ∀ t, b t ≠ some q) :
    L.next (.head q) = .head q ∧ L.prev (.head q) = .head q := OnRings.of_empty h e

/-- The ring of a queue holds the tasks that are blocked on it, each once. -/
theorem tasks (q : Queue n) :
    ∃ ts : List (Task n), Ring L (.head q) (ts.map .queue) ∧ ts.Nodup ∧ ∀ t, t ∈ ts ↔ b t = some q :=
  OnRings.waiters h nodes_separate q

theorem enqueue (ht : b t = none) (hx : OnRing b q x) :
    OnQueues (L.insertBefore (.queue t) x) (update b t (some q)) := OnRings.enqueue h nodes_separate ht hx

theorem dequeue (ht : b t = some q) :
    OnQueues (L.unlink (.queue t)) (update b t none) := OnRings.dequeue h nodes_separate ht

theorem reset (ht : b t = none) : OnQueues (L.reset (.queue t)) b :=
  OnRings.reset h nodes_separate ht

/-- Resetting the head of a queue nobody is blocked on. -/
theorem resetHead (e : ∀ t, b t ≠ some q) : OnQueues (L.reset (.head q)) b :=
  OnRings.resetHead h e

end

/-- `unlink` of a node whose neighbours do not name it changes nothing. -/
theorem unlink_self {a : QNode n} (hn : L.next (L.prev a) = L.next a)
    (hp : L.prev (L.next a) = L.prev a) : L.unlink a = L := by
  rw [Links.unlink_eq, ← hn, update_eq_self, hn, ← hp, update_eq_self]

end OnQueues

/-! ## What the operations do to the queues -/

/-- The task is put on the queue. -/
def Enqueues (L : Links (QNode n)) (t : Task n) (q : Queue n) (L' : Links (QNode n)) : Prop :=
  ∀ b, OnQueues L b → b t = none → OnQueues L' (update b t (some q))

namespace System

/-- Tasks blocked on queues are moved on them. -/
def Requeues (s : System n) (L' : Links (QNode n)) : Prop :=
  ∀ b, OnQueues s.queue b →
    (∀ u q, s.state u ≠ READY → s.blockedOn u = some q → b u = some q) → OnQueues L' b

/-- The priority `p` is passed to `dest` and on from there along `passedTo`. -/
structure Passes (priority : Task n → Int) (passedTo : Task n → Option (Task n)) (p : Int)
    (dest : Option (Task n)) (P : Task n → Int) : Prop where
  /-- A task keeps its priority or is raised to `p`. -/
  each : ∀ u, P u = priority u ∨ P u = p ∧ p < priority u
  /-- The first one has `p` or a more urgent one. -/
  dest : ∀ u, dest = some u → P u ≤ p
  /-- So has everyone a raised task passed its priority to. -/
  chain : ∀ u v, P u ≠ priority u → passedTo u = some v → P v ≤ p

variable {s : System n}

theorem Requeues.refl (s : System n) : s.Requeues s.queue := fun _ h _ => h

theorem queuePosition_spec {prio : Int} (h : OnQueues s.queue b) :
    Ensures (s.queuePosition q prio) (OnRing b q) := by
  refine .bind (P := OnRing b q) (fun x e => h.seek (h.first q) e) fun x hx => ?_
  exact .ite (fun _ => .some hx) fun _ => .none

theorem enqueueBlocked_spec {fifo : Bool} :
    Ensures (s.enqueueBlocked t q fifo) fun s' => ∃ L,
      s' = { s with blockedOn := update s.blockedOn t (some q), queue := L } ∧
        Enqueues s.queue t q L := by
  refine .bind (P := fun x => ∀ b, OnQueues s.queue b → OnRing b q x) ?_ fun x hx => .some ?_
  · refine .ite (fun _ => .some fun _ _ => Or.inl rfl) fun _ x e b h => ?_
    exact queuePosition_spec (s := s.setBlockedOn t (some q)) h x e
  · exact ⟨_, rfl, fun b h ht => h.enqueue ht (hx b h)⟩

theorem requeueBlocked_spec (hr : s.state t ≠ READY) :
    Ensures (s.requeueBlocked t) fun p => ∃ L, p.1 = { s with queue := L } ∧ s.Requeues L := by
  unfold requeueBlocked
  split
  · exact .some ⟨s.queue, rfl, .refl s⟩
  next q hq =>
    refine .ite (fun _ => .some ⟨s.queue, rfl, .refl s⟩) fun _ => ?_
    refine .bind (P := fun x => ∀ b, OnQueues (s.queue.unlink (.queue t)) b → OnRing b q x) ?_ ?_
    · exact fun x e b h => queuePosition_spec (s := s.unlinkQueue t) h x e
    · refine fun x hx => .some ⟨_, rfl, fun b h same => ?_⟩
      have ht : b t = some q := same t q hr hq
      have off := h.dequeue ht
      refine (off.enqueue (update_self _ _ _) (hx _ off)).congr fun u => ?_
      by_cases e : u = t
      · subst e; simp [ht]
      · simp [e]

end System

end Rtai.Up
