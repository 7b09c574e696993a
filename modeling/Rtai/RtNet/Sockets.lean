import Rtai.Lib.Listed
import Rtai.Lib.Run

/-!
# The socket table of RTnet

The sockets are the elements of an array.  `rt_socket_init` chains them, and the free ones and the
open ones are linked through the same field.  It chains `N_RT_SOCKETS` of them, while the array is
declared with `RTNET_NUM_SOCKETS`: a socket behind the array is a fault, and so is an access
through `NULL`.  What `rt_socket_init` itself writes behind the array is not counted.

`rt_udp_socket_new` returns what `rtsocket_alloc` returns, and the close operation of the protocol
leaves the lists alone.  `opened` is a record of the run: the descriptors that have been returned
and not closed, with their sockets.
-/

namespace Rtai.RtNet.Sockets

open Function Rtai.Lib

def RTNET_NUM_SOCKETS : Nat := 10

def N_RT_SOCKETS : Nat := 16

def AF_INET : Int := 2

def SOCK_DGRAM : Int := 2

def EINVAL : Int := 22

def ENOTSOCK : Int := 88

/-- The place of a socket in the array. -/
abbrev Sock := Nat

structure RtSocket where
  next : Option Sock := none
  fd : Int := 0
  useCount : Int := 0

structure State where
  rtsockets : Sock → RtSocket
  rtsocketsFree : Option Sock
  sockList : Option Sock := none
  socketFd : Int := 1
  fault : Bool := false
  opened : List (Int × Sock) := []

namespace State

/-- The links of both lists. -/
def next (s : State) (a : Sock) : Option Sock := (s.rtsockets a).next

def write (a : Sock) (v : RtSocket) (s : State) : State :=
  { s with
    rtsockets := update s.rtsockets a v
    fault := s.fault || decide (RTNET_NUM_SOCKETS ≤ a) }

def rtsocketAlloc (s : State) : Option Sock × State :=
  match s.rtsocketsFree with
  | some sock =>
      (some sock, { s with rtsocketsFree := s.next sock }.write sock { useCount := 1 })
  | none => (none, s)

def rtsocketFree (sock : Sock) (s : State) : State :=
  let v := { s.rtsockets sock with useCount := (s.rtsockets sock).useCount - 1 }
  if v.useCount = 0 then
    { s.write sock { v with next := s.rtsocketsFree } with rtsocketsFree := some sock }
  else s.write sock v

/-- A search that has not ended after `fuel` sockets is `none`. -/
def rtsocketLookup (fuel : Nat) (fd : Int) (s : State) : Option (Option Sock) :=
  (walk s.next (fun _ a => (s.rtsockets a).fd = fd) (fun u _ => u) fuel s.sockList ()).map Prod.fst

def rtSocket (domain type : Int) (s : State) : Int × State :=
  if domain ≠ AF_INET ∨ type ≠ SOCK_DGRAM then (-EINVAL, s)
  else
    match s.rtsocketAlloc with
    | (some sock, s) =>
        (s.socketFd,
          { s.write sock { s.rtsockets sock with next := s.sockList, fd := s.socketFd } with
            sockList := some sock
            socketFd := s.socketFd + 1
            opened := (s.socketFd, sock) :: s.opened })
    | (none, s) => (0, { s with fault := true })

/-- The end of `rt_close`, with the socket that has been found. -/
def link (sock : Sock) (s : State) : State :=
  match s.sockList with
  | some head =>
      { s.write head { s.rtsockets head with next := some sock } with sockList := some sock }
  | none => { s with fault := true }

/-- A search that passes all sockets does not end. -/
def rtClose (fd : Int) (s : State) : Option (Int × State) :=
  (s.rtsocketLookup (N_RT_SOCKETS + 1) fd).map fun
    | none => (-ENOTSOCK, s)
    | some sock => (0, { s.link sock with opened := s.opened.filter fun p => p.1 ≠ fd })

end State

/-- After `rt_socket_init`. -/
def loaded : State where
  rtsockets i := { next := if i < N_RT_SOCKETS - 1 then some (i + 1) else none }
  rtsocketsFree := some 0

inductive Event where
  | rtSocket (domain type protocol : Int)
  | rtClose (fd : Int)

def step : Event → State → Option State
  | .rtSocket domain type _, s => some (s.rtSocket domain type).2
  | .rtClose fd, s => (s.rtClose fd).map Prod.snd

/-- Every search ends, and finds the open sockets; these are chained, and all others are free. -/
structure Meets (s : State) : Prop where
  sound : s.fault = false
  lookup : ∀ fd, ∃ n, ∀ fuel, n ≤ fuel → ∃ r, s.rtsocketLookup fuel fd = some r ∧
    ∀ sock, r = some sock ↔ (fd, sock) ∈ s.opened
  chained : ∃ l, Chain s.next s.sockList l ∧ l.Nodup ∧ ∀ a, a ∈ l ↔ ∃ fd, (fd, a) ∈ s.opened
  available : ∃ l, Chain s.next s.rtsocketsFree l ∧
    ∀ a < RTNET_NUM_SOCKETS, (∀ fd, (fd, a) ∉ s.opened) → a ∈ l

/-- A call that opens a socket finds a free one in the array, and no open socket is closed. -/
def Spared (s : State) : Event → Prop
  | .rtSocket domain type _ => domain = AF_INET → type = SOCK_DGRAM →
      ∃ sock < RTNET_NUM_SOCKETS, s.rtsocketsFree = some sock
  | .rtClose fd => ∀ sock, (fd, sock) ∉ s.opened

/-! ## The lists -/

/-- The open sockets are in the order of the list, and `l` are the free ones. -/
structure Kept (s : State) (l : List Sock) : Prop where
  sound : s.fault = false
  chain : Chain s.next s.sockList (s.opened.map Prod.snd)
  fd : ∀ p ∈ s.opened, (s.rtsockets p.2).fd = p.1
  earlier : ∀ p ∈ s.opened, p.1 < s.socketFd
  once : (s.opened.map Prod.fst).Nodup
  inside : ∀ p ∈ s.opened, p.2 < RTNET_NUM_SOCKETS
  free : Chain s.next s.rtsocketsFree l
  apart : ∀ p ∈ s.opened, p.2 ∉ l
  all : ∀ a < RTNET_NUM_SOCKETS, (∀ p ∈ s.opened, p.2 ≠ a) → a ∈ l

variable {s s' : State} {l : List Sock} {sock head : Sock} {fd domain type : Int}

theorem chain_range : ∀ (m k : Nat), k + m = N_RT_SOCKETS →
    Chain loaded.next (if m = 0 then none else some k) (List.range' k m)
  | 0, _, _ => rfl
  | m + 1, k, all => by
      refine ⟨rfl, ?_⟩
      have more : k < N_RT_SOCKETS - 1 ↔ m ≠ 0 := by omega
      have next : loaded.next k = if m = 0 then none else some (k + 1) := by
        show (if k < N_RT_SOCKETS - 1 then some (k + 1) else none) = _
        rw [if_congr more rfl rfl, ite_not]
      rw [next]
      exact chain_range m (k + 1) (by omega)

theorem Kept.init : Kept loaded (List.range' 0 N_RT_SOCKETS) where
  sound := rfl
  chain := rfl
  fd := List.forall_mem_nil _
  earlier := List.forall_mem_nil _
  once := List.nodup_nil
  inside := List.forall_mem_nil _
  free := chain_range N_RT_SOCKETS 0 rfl
  apart := List.forall_mem_nil _
  all a inside _ := by
    refine List.mem_range'_1.mpr ⟨Nat.zero_le a, ?_⟩
    exact Nat.lt_of_lt_of_le inside (by decide)

/-- The socket of a descriptor. -/
theorem Kept.find (kept : Kept s l) (fd : Int) (sock : Sock) :
    (s.opened.map Prod.snd).find? (fun a => (s.rtsockets a).fd = fd) = some sock ↔
      (fd, sock) ∈ s.opened := by
  have sound {sock : Sock} (found : (s.opened.map Prod.snd).find?
      (fun a => (s.rtsockets a).fd = fd) = some sock) : (fd, sock) ∈ s.opened := by
    have same := List.find?_some found
    obtain ⟨p, mem, rfl⟩ := List.mem_map.mp (List.mem_of_find?_eq_some found)
    rw [decide_eq_true_eq, kept.fd p mem] at same
    rw [← same]
    exact mem
  refine ⟨sound, fun there => ?_⟩
  have some : ((s.opened.map Prod.snd).find? fun a => (s.rtsockets a).fd = fd).isSome := by
    refine List.find?_isSome.mpr ⟨sock, List.mem_map_of_mem there, ?_⟩
    exact decide_eq_true (kept.fd _ there)
  obtain ⟨sock', found⟩ := Option.isSome_iff_exists.mp some
  have one : (fd, sock') = (fd, sock) :=
    List.inj_on_of_nodup_map kept.once (sound found) there rfl
  obtain rfl : sock' = sock := congrArg Prod.snd one
  exact found

theorem Kept.lookup (kept : Kept s l) {fuel : Nat} (fd : Int) (enough : s.opened.length < fuel) :
    ∃ r, s.rtsocketLookup fuel fd = some r ∧ ∀ sock, r = some sock ↔ (fd, sock) ∈ s.opened := by
  have found := kept.chain.search (fun a => (s.rtsockets a).fd = fd) (s := ())
    (by rw [List.length_map]; exact enough)
  exact ⟨_, congrArg (Option.map Prod.fst) found, kept.find fd⟩

theorem Kept.meets (kept : Kept s l) : Meets s where
  sound := kept.sound
  lookup fd := ⟨s.opened.length + 1, fun _ enough => kept.lookup fd enough⟩
  chained := by
    refine ⟨_, kept.chain, kept.chain.nodup, fun a => ?_⟩
    simp
  available := ⟨l, kept.free, fun a inside closed =>
    kept.all a inside fun p mem same => closed p.1 (same ▸ mem)⟩

/-! ## The calls -/

theorem State.rtSocket_eq (inet : domain = AF_INET) (dgram : type = SOCK_DGRAM)
    (free : s.rtsocketsFree = some sock) :
    (s.rtSocket domain type).2 =
      { s with
        rtsockets := update s.rtsockets sock ⟨s.sockList, s.socketFd, 1⟩
        rtsocketsFree := s.next sock
        sockList := some sock
        socketFd := s.socketFd + 1
        fault := s.fault || decide (RTNET_NUM_SOCKETS ≤ sock)
        opened := (s.socketFd, sock) :: s.opened } := by
  have asked : ¬(domain ≠ AF_INET ∨ type ≠ SOCK_DGRAM) := by
    rintro (other | other)
    · exact other inet
    · exact other dgram
  rw [State.rtSocket, if_neg asked, State.rtsocketAlloc, free]
  simp only [State.write, update_idem, update_self, Bool.or_assoc, Bool.or_self]

/-- A free socket of the array is opened. -/
theorem Kept.rtSocket (kept : Kept s l) (inet : domain = AF_INET) (dgram : type = SOCK_DGRAM)
    (inside : sock < RTNET_NUM_SOCKETS) (free : s.rtsocketsFree = some sock) :
    ∃ l', Kept (s.rtSocket domain type).2 l' := by
  rw [State.rtSocket_eq inet dgram free]
  have head := kept.free.head
  obtain _ | ⟨first, l⟩ := l
  · cases head.symm.trans free
  obtain rfl : first = sock := Option.some.inj (head.symm.trans free)
  have nodup := List.nodup_cons.mp kept.free.nodup
  have new : ∀ p ∈ s.opened, p.2 ≠ first := fun p mem same =>
    kept.apart p mem (same ▸ List.mem_cons_self)
  have other {a : Sock} (ne : a ≠ first) :
      update s.rtsockets first ⟨s.sockList, s.socketFd, 1⟩ a = s.rtsockets a := update_of_ne ne _ _
  refine ⟨l, ?_, ?_, ?_, ?_, ?_, ?_, ?_, ?_, ?_⟩
  · rw [kept.sound, Bool.false_or]
    exact decide_eq_false (Nat.not_le.mpr inside)
  · refine ⟨rfl, ?_⟩
    have here : (update s.rtsockets first ⟨s.sockList, s.socketFd, 1⟩ first).next = s.sockList := by
      rw [update_self]
    show Chain _ (update s.rtsockets first ⟨s.sockList, s.socketFd, 1⟩ first).next _
    rw [here]
    refine kept.chain.frame fun a mem => ?_
    obtain ⟨p, there, rfl⟩ := List.mem_map.mp mem
    exact congrArg RtSocket.next (other (new p there))
  · refine List.forall_mem_cons.mpr ⟨?_, fun p mem => ?_⟩
    · show (update s.rtsockets first ⟨s.sockList, s.socketFd, 1⟩ first).fd = s.socketFd
      rw [update_self]
    · rw [← kept.fd p mem]
      exact congrArg RtSocket.fd (other (new p mem))
  · refine List.forall_mem_cons.mpr ⟨Int.lt_succ _, fun p mem => ?_⟩
    exact (kept.earlier p mem).trans (Int.lt_succ _)
  · refine List.nodup_cons.mpr ⟨fun mem => ?_, kept.once⟩
    obtain ⟨p, mem, same⟩ := List.mem_map.mp mem
    exact absurd (kept.earlier p mem) (same ▸ Int.lt_irrefl _)
  · exact List.forall_mem_cons.mpr ⟨inside, kept.inside⟩
  · refine kept.free.2.frame fun a mem => ?_
    exact congrArg RtSocket.next (other fun same => nodup.1 (same ▸ mem))
  · refine List.forall_mem_cons.mpr ⟨nodup.1, fun p mem there => ?_⟩
    exact kept.apart p mem (List.mem_cons_of_mem _ there)
  · intro a inside closed
    have closed := List.forall_mem_cons.mp closed
    rcases List.mem_cons.mp (kept.all a inside closed.2) with same | there
    · exact absurd same.symm closed.1
    · exact there

theorem Kept.few (kept : Kept s l) : s.opened.length < N_RT_SOCKETS + 1 := by
  have sub : s.opened.map Prod.snd ⊆ List.range RTNET_NUM_SOCKETS := by
    intro a mem
    obtain ⟨p, there, rfl⟩ := List.mem_map.mp mem
    exact List.mem_range.mpr (kept.inside p there)
  have le := (kept.chain.nodup.subperm sub).length_le
  rw [List.length_map, List.length_range] at le
  exact Nat.lt_of_le_of_lt le (by decide)

/-- A descriptor that is not open is refused. -/
theorem Kept.rtClose_closed (kept : Kept s l) (closed : ∀ sock, (fd, sock) ∉ s.opened) :
    s.rtClose fd = some (-ENOTSOCK, s) := by
  obtain ⟨r, found, mem⟩ := kept.lookup fd kept.few
  cases r with
  | none => rw [State.rtClose, found, Option.map_some]
  | some sock => exact absurd ((mem sock).mp rfl) (closed sock)

theorem State.link_next (first : s.sockList = some head) :
    (s.link sock).next = update s.next head (some sock) := by
  funext a
  rw [State.link, first]
  rcases eq_or_ne a head with rfl | other
  · simp [State.next, State.write]
  · simp [State.next, State.write, other]

/-- The free list does not change when a socket is closed. -/
theorem Kept.link (kept : Kept s l) (first : s.sockList = some head) :
    Chain (s.link sock).next s.rtsocketsFree l := by
  obtain ⟨p, there, same⟩ : ∃ p ∈ s.opened, p.2 = head :=
    List.mem_map.mp (List.mem_of_mem_head? (kept.chain.head.symm.trans first))
  rw [State.link_next first]
  refine kept.free.frame fun a mem => update_of_ne (fun e => ?_) _ _
  exact kept.apart p there (same.trans e.symm ▸ mem)

/-- A socket that is closed is not freed. -/
theorem Kept.rtClose_open (kept : Kept s l) (there : (fd, sock) ∈ s.opened) :
    ∃ s', s.rtClose fd = some (0, s') ∧ ¬Meets s' := by
  obtain ⟨r, found, mem⟩ := kept.lookup fd kept.few
  have hit := (mem sock).mpr there
  cases first : s.sockList with
  | none =>
      have nil := kept.chain.head.symm.trans first
      rw [List.head?_eq_none_iff, List.map_eq_nil_iff] at nil
      rw [nil] at there
      cases there
  | some head =>
      refine ⟨_, by rw [State.rtClose, found, hit, Option.map_some], fun meets => ?_⟩
      obtain ⟨l', chain, all⟩ := meets.available
      have free : (s.link sock).rtsocketsFree = s.rtsocketsFree := by rw [State.link, first]; rfl
      obtain rfl : l' = l := chain.unique (free ▸ kept.link first)
      refine kept.apart _ there (all sock (kept.inside _ there) fun fd' still => ?_)
      have still := List.mem_filter.mp still
      have one := List.inj_on_of_nodup_map kept.chain.nodup still.1 there rfl
      exact absurd (congrArg Prod.fst one) (of_decide_eq_true still.2)

/-! ## Runs -/

variable {e : Event}

theorem Kept.step (kept : Kept s l) (spared : Spared s e) (stepped : step e s = some s') :
    ∃ l', Kept s' l' := by
  cases e with
  | rtSocket domain type protocol =>
      cases stepped
      by_cases asked : domain = AF_INET ∧ type = SOCK_DGRAM
      · obtain ⟨sock, inside, free⟩ := spared asked.1 asked.2
        exact kept.rtSocket asked.1 asked.2 inside free
      · have refused : domain ≠ AF_INET ∨ type ≠ SOCK_DGRAM := not_and_or.mp asked
        rw [State.rtSocket, if_pos refused]
        exact ⟨l, kept⟩
  | rtClose fd =>
      rw [Sockets.step, kept.rtClose_closed spared] at stepped
      cases stepped
      exact ⟨l, kept⟩

/-- Any other call spoils the table. -/
theorem Kept.spoilt (kept : Kept s l) (struck : ¬Spared s e) (stepped : Sockets.step e s = some s') :
    ¬Meets s' := by
  cases e with
  | rtSocket domain type protocol =>
      cases stepped
      simp only [Spared, not_forall] at struck
      obtain ⟨inet, dgram, used⟩ := struck
      intro meets
      have sound := meets.sound
      cases free : s.rtsocketsFree with
      | some sock =>
          rw [State.rtSocket_eq inet dgram free, kept.sound, Bool.false_or, decide_eq_false_iff_not,
            Nat.not_le] at sound
          exact used ⟨sock, sound, free⟩
      | none =>
          have asked : ¬(domain ≠ AF_INET ∨ type ≠ SOCK_DGRAM) := by simp [inet, dgram]
          rw [State.rtSocket, if_neg asked, State.rtsocketAlloc, free] at sound
          cases sound
  | rtClose fd =>
      simp only [Spared, not_forall, not_not] at struck
      obtain ⟨sock, there⟩ := struck
      obtain ⟨s₁, closed, spoilt⟩ := kept.rtClose_open there
      rw [Sockets.step, closed] at stepped
      cases stepped
      exact spoilt

variable {tr : List (Record State Event)}

theorem run_kept (run : Run step Spared loaded tr s) : ∃ l, Kept s l :=
  run.invariant (P := fun s => ∃ l, Kept s l) ⟨_, Kept.init⟩ fun ⟨_, kept⟩ spared stepped =>
    kept.step spared stepped

/-- The table is in order as long as no open socket is closed and a socket of the array is left
for every one that is opened, and the first call for which this is not so spoils it. -/
theorem table_kept (run : Run step Spared loaded tr s) :
    Meets s ∧ ∀ e s', step e s = some s' → (Meets s' ↔ Spared s e) := by
  obtain ⟨l, kept⟩ := run_kept run
  refine ⟨kept.meets, fun e s' stepped => ⟨fun meets => ?_, fun spared => ?_⟩⟩
  · exact not_not.mp fun struck => kept.spoilt struck stepped meets
  · obtain ⟨l', kept'⟩ := kept.step spared stepped
    exact kept'.meets

instance (s : State) : ∀ e, Decidable (Spared s e)
  | .rtSocket domain type _ =>
      decidable_of_iff (domain = AF_INET → type = SOCK_DGRAM →
          ∃ sock ∈ s.rtsocketsFree, sock < RTNET_NUM_SOCKETS) <| by
        simp only [Spared, Option.mem_def, and_comm]
  | .rtClose fd =>
      decidable_of_iff (∀ p ∈ s.opened, p.1 ≠ fd) <| by
        refine ⟨fun closed sock mem => closed _ mem rfl, fun closed p mem same => ?_⟩
        exact closed p.2 (same ▸ mem)

/-- Two sockets are opened, and a descriptor that is not open is closed. -/
theorem table_kept_two : ∃ tr s, Run step Spared loaded tr s ∧ s.opened = [(2, 1), (1, 0)] ∧
    Meets s := by
  obtain ⟨tr, s, run, test⟩ := Run.of_execute step Spared loaded
    [.rtSocket 2 2 0, .rtClose 7, .rtSocket 2 2 17] (fun s => s.opened == [(2, 1), (1, 0)])
    (by decide +kernel)
  exact ⟨tr, s, run, eq_of_beq test, (table_kept run).1⟩

/-- A search for another descriptor does not end when the newest socket has been closed. -/
theorem endless (newest : s.sockList = some sock) (loops : s.next sock = some sock)
    (other : (s.rtsockets sock).fd ≠ fd) (fuel : Nat) : s.rtsocketLookup fuel fd = none := by
  rw [State.rtsocketLookup, newest, walk_loop loops (fun _ => decide_eq_false other), Option.map_none]

/-- The only socket is closed. -/
theorem not_always_kept : ¬∀ (tr : List (Record State Event)) (s : State),
    Run step (fun _ _ => True) loaded tr s → Meets s := by
  intro meets
  obtain ⟨tr, s, run, test⟩ := Run.of_execute step (fun _ _ => True) loaded
    [.rtSocket 2 2 0, .rtClose 1]
    (fun s => s.sockList == some 0 && s.next 0 == some 0 && (s.rtsockets 0).fd != 2)
    (by decide +kernel)
  simp only [Bool.and_eq_true, beq_iff_eq, bne_iff_ne] at test
  obtain ⟨n, ends⟩ := (meets tr s run).lookup 2
  obtain ⟨r, found, -⟩ := ends n (Nat.le_refl n)
  cases found.symm.trans (endless test.1.1 test.1.2 test.2 n)

end Rtai.RtNet.Sockets
